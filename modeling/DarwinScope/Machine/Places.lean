import Mathlib.Data.List.ReduceOption

namespace Machine

variable {α β : Type} {l : List (Option α)} {p q i : Nat} {a : α}

/-- The number of entries before place `p` of a list with gaps. -/
def rank (l : List (Option α)) (p : Nat) : Nat := (l.take p).reduceOption.length

theorem rank_le (l : List (Option α)) (p : Nat) : rank l p ≤ p := by
  have short := List.reduceOption_length_le (l.take p)
  have cut := List.length_take_le p l
  unfold rank
  omega

theorem rank_succ (listed : l[p]? = some (some a)) : rank l (p + 1) = rank l p + 1 := by
  rw [rank, List.take_add_one, listed, List.reduceOption_append, List.length_append]
  rfl

theorem rank_mono (before : p ≤ q) : rank l p ≤ rank l q := by
  have cut : l.take p = (l.take q).take p := by rw [List.take_take, Nat.min_eq_left before]
  rw [rank, cut]
  exact ((List.take_prefix p (l.take q)).sublist.filterMap id).length_le

theorem rank_lt_iff (inside : p ≤ l.length) : rank l p < p ↔ none ∈ l.take p := by
  have length : (l.take p).length = p := by rw [List.length_take, Nat.min_eq_left inside]
  rw [← List.reduceOption_length_lt_iff, length, rank]

theorem reduceOption_getElem_iff : l.reduceOption[i]? = some a ↔ ∃ p, l[p]? = some (some a) ∧ rank l p = i := by
  induction l generalizing i with
  | nil => simp
  | cons entry rest ih =>
    have shift : ∀ p, rank (entry :: rest) (p + 1) = ([entry].reduceOption.length) + rank rest p := by
      intro p
      rw [rank, List.take_succ_cons, ← List.singleton_append, List.reduceOption_append, List.length_append, rank]
    cases entry with
    | none =>
      rw [List.reduceOption_cons_of_none, ih]
      constructor
      · intro found
        rcases found with ⟨p, listed, same⟩
        exact ⟨p + 1, listed, by rw [shift, ← same]; simp⟩
      · intro found
        rcases found with ⟨p, listed, same⟩
        cases p with
        | zero => cases listed
        | succ p => exact ⟨p, listed, by rw [shift] at same; simpa using same⟩
    | some b =>
      rw [List.reduceOption_cons_of_some]
      cases i with
      | zero =>
        constructor
        · intro found
          cases found
          exact ⟨0, rfl, rfl⟩
        · intro found
          rcases found with ⟨p, listed, same⟩
          cases p with
          | zero =>
            cases listed
            rfl
          | succ p =>
            rw [shift] at same
            simp at same
      | succ i =>
        rw [List.getElem?_cons_succ, ih]
        constructor
        · intro found
          rcases found with ⟨p, listed, same⟩
          exact ⟨p + 1, listed, by rw [shift, ← same]; simp [Nat.add_comm]⟩
        · intro found
          rcases found with ⟨p, listed, same⟩
          cases p with
          | zero => cases same
          | succ p =>
            refine ⟨p, listed, ?_⟩
            rw [shift] at same
            simp at same
            omega

/-- Closing the gaps of a list keeps the first `n` places, where a gap counts as `d`, exactly when
    every entry behind a gap is itself a `d` or comes to a place from `n` on. -/
theorem compacted_iff {f : α → β} {d : β} {n : Nat} :
    (∀ i < n, ((l.reduceOption[i]?).map f).getD d = ((l[i]?.join).map f).getD d) ↔
      ∀ p a, l[p]? = some (some a) → f a ≠ d → rank l p = p ∨ n ≤ rank l p := by
  constructor
  · intro kept p
    induction p using Nat.strongRecOn with
    | ind p ih =>
      intro a listed differs
      by_contra moved
      rw [not_or, Nat.not_le] at moved
      have before := Nat.lt_of_le_of_ne (rank_le l p) moved.1
      have place : l.reduceOption[rank l p]? = some a := reduceOption_getElem_iff.mpr ⟨p, listed, rfl⟩
      have same := kept (rank l p) moved.2
      rw [place, Option.map_some, Option.getD_some] at same
      -- the place that `a` moves to holds an entry already, and that entry cannot stay either
      cases other : l[rank l p]?.join with
      | none =>
        rw [other] at same
        exact differs same
      | some b =>
        rw [other, Option.map_some, Option.getD_some] at same
        have held : l[rank l p]? = some (some b) := Option.join_eq_some_iff.mp other
        have grown := rank_succ held
        have later := rank_mono (l := l) (show rank l p + 1 ≤ p from before)
        have lower := rank_le l (rank l p)
        rcases ih (rank l p) before b held (same ▸ differs) with stays | past
        · omega
        · omega
  · intro inPlace i small
    by_cases stays : ∃ a, l[i]? = some (some a) ∧ rank l i = i
    · rcases stays with ⟨a, listed, same⟩
      rw [reduceOption_getElem_iff.mpr ⟨i, listed, same⟩, listed]
      rfl
    · have right : ((l[i]?.join).map f).getD d = d := by
        cases held : l[i]?.join with
        | none => rfl
        | some a =>
          have listed := Option.join_eq_some_iff.mp held
          have lower := rank_le l i
          rw [Option.map_some, Option.getD_some]
          by_contra differs
          rcases inPlace i a listed differs with same | past
          · exact stays ⟨a, listed, same⟩
          · omega
      have left : ((l.reduceOption[i]?).map f).getD d = d := by
        cases held : l.reduceOption[i]? with
        | none => rfl
        | some a =>
          rcases reduceOption_getElem_iff.mp held with ⟨p, listed, place⟩
          rw [Option.map_some, Option.getD_some]
          by_contra differs
          rcases inPlace p a listed differs with same | past
          · rw [place] at same
            rw [← same] at listed place
            exact stays ⟨a, listed, place⟩
          · omega
      rw [left, right]

end Machine
