import DarwinScope.Machine.Slices

namespace Machine

/-- Two slices of one length that hold the same bytes except at the hidden offsets. -/
structure AgreeOutside (hidden : Nat → Prop) (s t : Slice) : Prop where
  length : s.length = t.length
  bytes : ∀ i, ¬ hidden i → s.bytes[i]? = t.bytes[i]?

/-- A scan from `off` for the byte `stop` looks at the offset `i`. -/
def Scanned (t : Slice) (stop : U8) (off i : Nat) : Prop :=
  off ≤ i ∧ ∀ j, off ≤ j → j < i → t.bytes[j]? ≠ some stop

theorem takeWhile_congr {α : Type} {p : α → Bool} {xs ys : List α}
    (same : ∀ i, (∀ (j : Nat) y, j < i → ys[j]? = some y → p y = true) → xs[i]? = ys[i]?) :
    xs.takeWhile p = ys.takeWhile p := by
  induction ys generalizing xs with
  | nil =>
    have first := same 0 (by simp)
    cases xs with
    | nil => rfl
    | cons x xs => cases first
  | cons y ys ih =>
    have first := same 0 (by simp)
    cases xs with
    | nil => cases first
    | cons x xs =>
      cases first
      by_cases passed : p y = true
      · rw [List.takeWhile_cons_of_pos passed, List.takeWhile_cons_of_pos passed]
        congr 1
        apply ih
        intro i before
        apply same (i + 1)
        intro j y inside found
        cases j with
        | zero =>
          cases found
          exact passed
        | succ j => exact before j y (by omega) found
      · rw [List.takeWhile_cons_of_neg passed, List.takeWhile_cons_of_neg passed]

namespace AgreeOutside

variable {hidden : Nat → Prop} {s t : Slice}

theorem window (agree : AgreeOutside hidden s t) {off len : Nat}
    (clear : ∀ i, off ≤ i → i < off + len → ¬ hidden i) : s.window off len = t.window off len := by
  apply Slice.window_eq_of_agree
  intro i inside
  exact agree.bytes (off + i) (clear (off + i) (by omega) (by omega))

theorem get_isSome (agree : AgreeOutside hidden s t) (lo hi : Nat) : (s.get lo hi).isSome = (t.get lo hi).isSome := by
  rw [Bool.eq_iff_iff, Slice.get_isSome, Slice.get_isSome, agree.length]

theorem readAt_isSome (agree : AgreeOutside hidden s t) (order : Bytes → Nat) (w count off : Nat) :
    (readAt order w count s off).isSome = (readAt order w count t off).isSome := by
  rw [Bool.eq_iff_iff, Machine.readAt_isSome, Machine.readAt_isSome, agree.length]

theorem readAt (agree : AgreeOutside hidden s t) (order : Bytes → Nat) (w : Nat) {count off : Nat}
    (clear : off + count ≤ t.length → ∀ i, off ≤ i → i < off + count → ¬ hidden i) :
    Machine.readAt order w count s off = Machine.readAt order w count t off := by
  by_cases inside : off + count ≤ s.length
  · have inside' := agree.length ▸ inside
    rw [readAt_of_le inside, readAt_of_le inside', agree.window (clear inside')]
  · have length := agree.length
    rw [readAt_of_lt (by omega), readAt_of_lt (by omega)]

theorem readAt_part (agree : AgreeOutside hidden s t) (order : Bytes → Nat) (w : Nat) {lo hi count off : Nat}
    (clear : hi ≤ t.length → ∀ i, lo + off ≤ i → i < lo + off + count → ¬ hidden i) :
    (s.get lo hi).bind (fun part => Machine.readAt order w count part off) =
      (t.get lo hi).bind fun part => Machine.readAt order w count part off := by
  have both := agree.get_isSome lo hi
  cases first : s.get lo hi with
  | none =>
    rw [first] at both
    have second : t.get lo hi = none := by simpa using both.symm
    rw [second]
  | some part =>
    rw [first] at both
    obtain ⟨other, second⟩ := Option.isSome_iff_exists.mp both.symm
    rw [second]
    have length := Slice.get_length first
    have length' := Slice.get_length second
    change Machine.readAt order w count part off = Machine.readAt order w count other off
    by_cases inside : off + count ≤ hi - lo
    · rw [readAt_of_le (by omega), readAt_of_le (by omega), Slice.get_window first off count inside,
        Slice.get_window second off count inside, agree.window (clear (Slice.get_some second).2.1)]
    · rw [readAt_of_lt (by omega), readAt_of_lt (by omega)]

theorem scan (agree : AgreeOutside hidden s t) {stop : U8} {off : Nat}
    (clear : ∀ i, Scanned t stop off i → ¬ hidden i) :
    (s.bytes.drop off).takeWhile (· ≠ stop) = (t.bytes.drop off).takeWhile (· ≠ stop) := by
  apply takeWhile_congr
  intro i before
  rw [List.getElem?_drop, List.getElem?_drop]
  apply agree.bytes
  apply clear
  refine ⟨by omega, ?_⟩
  intro j low high found
  have passed := before (j - off) stop (by omega) (by rw [List.getElem?_drop, ← found]; congr 1; omega)
  simp at passed

end AgreeOutside

end Machine
