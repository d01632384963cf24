import DarwinScope.Machine.Slices

namespace Machine

variable {s part : Slice} {off : Nat} {bytes : Bytes}

instance : Decidable (s.Holds off bytes) := inferInstanceAs (Decidable (bytes <+: s.bytes.drop off))

theorem Slice.get_of_holds (holds : s.Holds off bytes) (some : 0 < bytes.length) :
    ∃ part, s.get off (off + bytes.length) = .some part ∧ part.start = s.start + off ∧ part.bytes = bytes := by
  rcases Slice.get_of_le (Nat.le_add_right off _) (holds.inside some) with ⟨part, found, start, window⟩
  rw [Nat.add_sub_cancel_left, holds.window] at window
  exact ⟨part, found, start, window⟩

theorem Slice.from_of_holds (holds : s.Holds off bytes) (some : 0 < bytes.length) :
    ∃ part, s.from? off = .some part ∧ part.start = s.start + off ∧ bytes <+: part.bytes := by
  have inside := holds.inside some
  rcases Slice.get_of_le (by omega : off ≤ s.length) (Nat.le_refl _) with ⟨part, found, start, window⟩
  refine ⟨part, found, start, ?_⟩
  have whole : s.window off (s.length - off) = s.bytes.drop off := by
    rw [Slice.window, List.take_of_length_le]
    rw [List.length_drop]
    rfl
  rw [window, whole]
  exact holds

theorem Slice.holds_of_bytes (same : part.bytes = bytes) : part.Holds 0 bytes := by
  rw [Slice.Holds, List.drop_zero, same]

theorem Slice.Holds.byte {i : Nat} {byte : U8} (holds : s.Holds off bytes) (at? : bytes[i]? = some byte) :
    s.bytes[off + i]? = some byte := by
  rcases holds with ⟨tail, whole⟩
  rw [← List.getElem?_drop, ← whole, List.getElem?_append_left (List.getElem?_eq_some_iff.mp at?).1, at?]

theorem readAt_leBytes_of_holds {w count : Nat} {value : BitVec w} (fits : 2^w = 256 ^ count) (some : 0 < count)
    (holds : s.Holds off (leBytes count value.toNat)) : readAt leNumber w count s off = .some value := by
  have inside := holds.inside (by simpa using some)
  have window := holds.window
  have bound := value.isLt
  rw [leBytes_length] at inside window
  rw [readAt_of_le inside, window, leNumber_leBytes count _ (by omega), BitVec.ofNat_toNat, BitVec.setWidth_eq]

theorem takeWhile_of_prefix {α : Type} {p : α → Bool} {body whole : List α} {stop : α} (passed : ∀ a ∈ body, p a = true)
    (stopped : p stop = false) (found : body ++ [stop] <+: whole) : whole.takeWhile p = body := by
  rcases found with ⟨tail, rfl⟩
  rw [List.append_assoc, List.takeWhile_append_of_pos passed, List.singleton_append,
    List.takeWhile_cons_of_neg (by simp [stopped]), List.append_nil]

theorem takeWhile_ne_eq_iff {α : Type} [DecidableEq α] {body whole : List α} {stop : α} (clean : stop ∉ body) :
    whole.takeWhile (· ≠ stop) = body ↔ whole = body ∨ body ++ [stop] <+: whole := by
  have passed : ∀ a ∈ body, decide (a ≠ stop) = true := fun a member => decide_eq_true fun same => clean (same ▸ member)
  constructor
  · intro taken
    have cut := @List.takeWhile_append_dropWhile _ (fun a => decide (a ≠ stop)) whole
    rw [taken] at cut
    cases rest : whole.dropWhile fun a => decide (a ≠ stop) with
    | nil =>
      rw [rest, List.append_nil] at cut
      exact Or.inl cut.symm
    | cons a tail =>
      have first := List.head?_dropWhile_not (fun a => decide (a ≠ stop)) whole
      rw [rest] at first cut
      have same : a = stop := by simpa using first
      exact Or.inr ⟨tail, by rw [← cut, same, List.append_assoc, List.singleton_append]⟩
  · rintro (rfl | found)
    · have all := @List.takeWhile_append_of_pos _ _ _ [] passed
      rwa [List.append_nil, List.takeWhile_nil, List.append_nil] at all
    · exact takeWhile_of_prefix passed (by simp) found

theorem Slice.Holds.item {α : Type} {encode : α → Bytes} {items : List α} {i : Nat} {item : α}
    (holds : s.Holds off (items.flatMap encode)) (at? : items[i]? = some item) :
    s.Holds (off + ((items.take i).flatMap encode).length) (encode item) := by
  rcases List.getElem?_eq_some_iff.mp at? with ⟨below, found⟩
  have cut : items = items.take i ++ item :: items.drop (i + 1) := by
    rw [← found, List.cons_getElem_drop_succ, List.take_append_drop]
  have whole := congrArg (List.flatMap encode) cut
  rw [List.flatMap_append, List.flatMap_cons] at whole
  rw [whole] at holds
  exact holds.right.left

theorem flatMap_length {α : Type} {encode : α → Bytes} {items : List α} {stride : Nat}
    (sized : ∀ item ∈ items, (encode item).length = stride) : (items.flatMap encode).length = stride * items.length := by
  induction items with
  | nil => rfl
  | cons item items ih =>
    rw [List.flatMap_cons, List.length_append, sized item List.mem_cons_self, List.length_cons, Nat.mul_succ,
      ih fun other member => sized other (List.mem_cons_of_mem item member), Nat.add_comm]

theorem Slice.Holds.entry {α : Type} {encode : α → Bytes} {items : List α} {stride i : Nat} {item : α}
    (sized : ∀ item ∈ items, (encode item).length = stride) (holds : s.Holds off (items.flatMap encode))
    (at? : items[i]? = some item) : s.Holds (off + stride * i) (encode item) := by
  have below : i < items.length := (List.getElem?_eq_some_iff.mp at?).1
  have part := holds.item at?
  rwa [flatMap_length fun item member => sized item (List.mem_of_mem_take member), List.length_take,
    Nat.min_eq_left (Nat.le_of_lt below)] at part

theorem getElem?_zipIdx_some {α : Type} {items : List α} {i : Nat} {place : α × Nat} (at? : items.zipIdx[i]? = some place) :
    items[i]? = some place.1 ∧ place.2 = i := by
  rw [List.getElem?_zipIdx, Option.map_eq_some_iff] at at?
  rcases at? with ⟨item, found, rfl⟩
  exact ⟨found, Nat.zero_add i⟩

theorem readAt_behind {w count : Nat} {value : BitVec w} (fits : 2^w = 256 ^ count) (some : 0 < count) (before after : Bytes)
    (same : part.bytes = before ++ (leBytes count value.toNat ++ after)) :
    readAt leNumber w count part before.length = .some value := by
  have holds := (Slice.holds_of_bytes same).right.left
  rw [Nat.zero_add] at holds
  exact readAt_leBytes_of_holds fits some holds

def encodeWords (words : List U32) : Bytes := words.flatMap fun word => leBytes 4 word.toNat

@[simp] theorem encodeWords_length (words : List U32) : (encodeWords words).length = 4 * words.length :=
  flatMap_length fun _ _ => leBytes_length 4 _

theorem readAt_words {words : List U32} {i : Nat} {word : U32} (before after : Bytes)
    (same : part.bytes = before ++ (encodeWords words ++ after)) (at? : words[i]? = .some word) :
    readAt leNumber 32 4 part (before.length + 4 * i) = .some word := by
  have run : part.Holds before.length (words.flatMap fun word => leBytes 4 word.toNat) :=
    ⟨after, by rw [same, encodeWords, List.drop_left]⟩
  have stands := run.entry (fun word _ => leBytes_length 4 word.toNat) at?
  exact readAt_leBytes_of_holds (by decide) (by decide) stands

def encodePointers (words : List U64) : Bytes := words.flatMap fun word => leBytes 8 word.toNat

@[simp] theorem encodePointers_length (words : List U64) : (encodePointers words).length = 8 * words.length :=
  flatMap_length fun _ _ => leBytes_length 8 _

end Machine
