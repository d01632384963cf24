import DarwinScope.Machine.Slices

namespace Machine

structure Cursor where
  buf : Slice
  pos : Nat
deriving DecidableEq

abbrev Reader := StateT Cursor Option

namespace Cursor

def rest (c : Cursor) : Bytes := c.buf.bytes.drop c.pos

def advance (c : Cursor) (n : Nat) : Cursor := { c with pos := c.pos + n }

@[simp] theorem advance_advance (c : Cursor) (m n : Nat) : (c.advance m).advance n = c.advance (m + n) := by
  simp [advance, Nat.add_assoc]

theorem rest_advance {c : Cursor} {passed tail : Bytes} (found : c.rest = passed ++ tail) :
    (c.advance passed.length).rest = tail := by
  unfold rest at found
  simp only [rest, advance]
  rw [← List.drop_drop, found, List.drop_left]

theorem inside {c : Cursor} {passed tail : Bytes} (found : c.rest = passed ++ tail) (some : passed ≠ []) :
    c.pos + passed.length ≤ c.buf.length := by
  have lengths := congrArg List.length found
  have positive := List.length_pos_iff.mpr some
  simp only [rest, List.length_drop, List.length_append] at lengths
  unfold Slice.length
  omega

theorem window {c : Cursor} {passed tail : Bytes} (found : c.rest = passed ++ tail) :
    c.buf.window c.pos passed.length = passed := by
  unfold rest at found
  rw [Slice.window, found, List.take_left]

end Cursor

variable {α β : Type}

/-- The reader takes exactly `bytes`, whatever comes after them, and returns `value`. -/
def Reads (reader : Reader α) (bytes : Bytes) (value : α) : Prop :=
  ∀ (c : Cursor) (tail : Bytes), c.rest = bytes ++ tail → reader c = some (value, c.advance bytes.length)

theorem Reads.pure (value : α) : Reads (Pure.pure value) [] value := fun _ _ _ => rfl

theorem Reads.bind {reader : Reader α} {next : α → Reader β} {first second : Bytes} {a : α} {b : β}
    (head : Reads reader first a) (tail : Reads (next a) second b) :
    Reads (reader >>= next) (first ++ second) b := by
  intro c after found
  rw [List.append_assoc] at found
  have step := tail (c.advance first.length) after (Cursor.rest_advance found)
  simp [Bind.bind, StateT.bind, head c _ found, step]

theorem Reads.last {reader : Reader α} {next : α → Reader β} {bytes : Bytes} {a : α} {b : β}
    (head : Reads reader bytes a) (tail : Reads (next a) [] b) : Reads (reader >>= next) bytes b := by
  have whole := head.bind tail
  rwa [List.append_nil] at whole

theorem bind_some {reader : Reader α} {next : α → Reader β} {c after : Cursor} {b : β}
    (result : (reader >>= next) c = some (b, after)) :
    ∃ a mid, reader c = some (a, mid) ∧ next a mid = some (b, after) := by
  simp only [Bind.bind, StateT.bind, Option.bind_eq_some_iff] at result
  obtain ⟨⟨a, mid⟩, head, tail⟩ := result
  exact ⟨a, mid, head, tail⟩

def Yields (reader : Reader α) (post : α → Prop) : Prop :=
  ∀ (c after : Cursor) (value : α), reader c = some (value, after) → post value

theorem Yields.pure {post : α → Prop} {value : α} (holds : post value) : Yields (Pure.pure value) post := by
  intro c after result same
  cases same
  exact holds

theorem Yields.bind {reader : Reader α} {next : α → Reader β} {post : β → Prop}
    (tail : ∀ a, Yields (next a) post) : Yields (reader >>= next) post := by
  intro c after value same
  obtain ⟨a, mid, -, rest⟩ := bind_some same
  exact tail a mid after value rest

end Machine
