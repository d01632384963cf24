import DarwinScope.Machine.Iteration
import DarwinScope.Machine.Words
import Mathlib.Data.List.ReduceOption

namespace Machine

variable {α β σ : Type}

def slotOffsets (stride length cursor : Nat) : List Nat :=
  (List.range ((length - cursor) / stride)).map fun i => cursor + stride * i

/-- One call of an iterator over slots of one size: it passes by the slots without a value, for at most as many turns
    as there are bytes left. -/
def slotTurns (decode : Nat → Option α) (stride length : Nat) : Nat → Nat → Option (α × Nat)
  | 0, _ => none
  | turns + 1, cursor => do
    let stop ← checkedAddUsize cursor stride
    if length < stop then none
    else
      match decode cursor with
      | some a => some (a, stop)
      | none => slotTurns decode stride length turns stop

def nextSlot (decode : Nat → Option α) (stride length cursor : Nat) : Option (α × Nat) :=
  slotTurns decode stride length (length - cursor + 1) cursor

section

variable {decode : Nat → Option α} {stride length cursor : Nat}

theorem slotOffsets_nil (positive : 0 < stride) (short : length < cursor + stride) :
    slotOffsets stride length cursor = [] := by
  unfold slotOffsets
  rw [Nat.div_eq_of_lt (by omega)]
  rfl

theorem slotOffsets_cons (positive : 0 < stride) (inside : cursor + stride ≤ length) :
    slotOffsets stride length cursor = cursor :: slotOffsets stride length (cursor + stride) := by
  have count : (length - cursor) / stride = (length - (cursor + stride)) / stride + 1 := by
    have behind : length - cursor = length - (cursor + stride) + stride := by omega
    rw [behind, Nat.add_div_right _ positive]
  unfold slotOffsets
  rw [count, List.range_succ_eq_map, List.map_cons, List.map_map, Nat.mul_zero, Nat.add_zero]
  congr 1
  apply List.map_congr_left
  intro i _
  rw [Function.comp_apply, Nat.mul_succ]
  omega

/-- More turns than bytes do not matter, since every turn passes a slot. -/
theorem slotTurns_enough (positive : 0 < stride) {turns more : Nat} (first : length - cursor < turns)
    (second : length - cursor < more) :
    slotTurns decode stride length turns cursor = slotTurns decode stride length more cursor := by
  induction turns generalizing cursor more with
  | zero => omega
  | succ turns ih =>
    obtain ⟨more, rfl⟩ : ∃ m, more = m + 1 := ⟨more - 1, by omega⟩
    unfold slotTurns
    cases sum : checkedAddUsize cursor stride with
    | none => rfl
    | some stop =>
      have behind := checkedAddUsize_some sum
      simp only [Option.bind_eq_bind, Option.bind_some]
      split
      · rfl
      · cases decode cursor with
        | some a => rfl
        | none => exact ih (by omega) (by omega)

theorem nextSlot_eq (positive : 0 < stride) (bound : length + stride < 2^64) :
    nextSlot decode stride length cursor =
      if length < cursor + stride then none
      else
        match decode cursor with
        | some a => some (a, cursor + stride)
        | none => nextSlot decode stride length (cursor + stride) := by
  unfold nextSlot
  rw [slotTurns]
  by_cases short : length < cursor + stride
  · rw [if_pos short]
    cases sum : checkedAddUsize cursor stride with
    | none => rfl
    | some stop =>
      rw [checkedAddUsize_some sum]
      simp [short]
  · rw [if_neg short, checkedAddUsize_of_lt (by omega)]
    simp only [Option.bind_eq_bind, Option.bind_some, if_neg short]
    cases decode cursor with
    | some a => rfl
    | none => exact slotTurns_enough positive (by omega) (by omega)

theorem collect_nextSlot (positive : 0 < stride) (bound : length + stride < 2^64) {fuel : Nat}
    (enough : length - cursor < fuel) :
    collect (nextSlot decode stride length) fuel cursor = some ((slotOffsets stride length cursor).filterMap decode) := by
  induction left : length - cursor using Nat.strong_induction_on generalizing cursor fuel with
  | _ left ih =>
    obtain ⟨fuel, rfl⟩ : ∃ n, fuel = n + 1 := ⟨fuel - 1, by omega⟩
    have turn := @nextSlot_eq α decode stride length cursor positive bound
    by_cases short : length < cursor + stride
    · rw [if_pos short] at turn
      rw [collect_stop turn, slotOffsets_nil positive short, List.filterMap_nil]
    · rw [if_neg short] at turn
      rw [slotOffsets_cons positive (Nat.le_of_not_lt short), List.filterMap_cons]
      cases value : decode cursor with
      | some a =>
        rw [value] at turn
        rw [collect_step turn, ih _ (by omega) (by omega) rfl]
        rfl
      | none =>
        rw [value] at turn
        rw [collect_congr turn]
        exact ih _ (by omega) (by omega) rfl

end

/-- One call of an iterator over the items of a row of others: what is left of the current one first, and then the next
    one that the outer iterator has. Items that are missing are passed by. -/
def nextFlat (outer : σ → Option (α × σ)) (inner : α → List (Option β)) :
    Nat → σ × List (Option β) → Option (β × σ × List (Option β))
  | _, (s, some b :: rest) => some (b, s, rest)
  | 0, _ => none
  | turns + 1, (s, none :: rest) => nextFlat outer inner turns (s, rest)
  | turns + 1, (s, []) =>
    match outer s with
    | none => none
    | some (a, after) => nextFlat outer inner turns (after, inner a)

def flatTurns (inner : α → List (Option β)) (items : List α) (rest : List (Option β)) : Nat :=
  rest.length + (items.map fun a => (inner a).length + 1).sum

section

variable {outer : σ → Option (α × σ)} {inner : α → List (Option β)} {s : σ} {items : List α} {rest : List (Option β)}
  {fuel turns : Nat}

theorem flatTurns_cons (a : α) : flatTurns inner (a :: items) [] = flatTurns inner items (inner a) + 1 := by
  simp only [flatTurns, List.length_nil, List.map_cons, List.sum_cons]
  omega

theorem nextFlat_stop (done : collect outer fuel s = some items) (ended : (rest ++ items.flatMap inner).reduceOption = [])
    (enough : flatTurns inner items rest < turns) : nextFlat outer inner turns (s, rest) = none := by
  induction turns generalizing s items rest fuel with
  | zero => omega
  | succ turns ih =>
    match rest with
    | some b :: rest => simp [List.reduceOption] at ended
    | none :: rest =>
      unfold flatTurns at enough ih
      simp only [List.length_cons] at enough
      exact ih done ended (by omega)
    | [] =>
      cases fuel with
      | zero => cases done
      | succ fuel =>
        cases turn : outer s with
        | none => simp [nextFlat, turn]
        | some pair =>
          rcases pair with ⟨a, after⟩
          rw [collect_step turn] at done
          rcases Option.map_eq_some_iff.mp done with ⟨later, found, rfl⟩
          rw [flatTurns_cons] at enough
          simp only [nextFlat, turn]
          exact ih found ended (by omega)

theorem nextFlat_step {b : β} {later : List β} (done : collect outer fuel s = some items)
    (listed : (rest ++ items.flatMap inner).reduceOption = b :: later) (enough : flatTurns inner items rest < turns) :
    ∃ after tail fuel' items', nextFlat outer inner turns (s, rest) = some (b, after, tail) ∧
      collect outer fuel' after = some items' ∧ (tail ++ items'.flatMap inner).reduceOption = later ∧
        flatTurns inner items' tail < turns := by
  suffices run : ∀ left, flatTurns inner items rest < left → left ≤ turns →
      ∃ after tail fuel' items', nextFlat outer inner left (s, rest) = some (b, after, tail) ∧
        collect outer fuel' after = some items' ∧ (tail ++ items'.flatMap inner).reduceOption = later ∧
          flatTurns inner items' tail < turns from run turns enough (Nat.le_refl _)
  intro left room below
  induction left generalizing s items rest fuel with
  | zero => omega
  | succ left ih =>
    match rest with
    | some c :: rest =>
      simp only [List.cons_append, List.reduceOption_cons_of_some, List.cons.injEq] at listed
      rcases listed with ⟨rfl, same⟩
      unfold flatTurns at room ⊢
      simp only [List.length_cons] at room
      exact ⟨s, rest, fuel, items, rfl, done, same, by omega⟩
    | none :: rest =>
      unfold flatTurns at room enough ih
      simp only [List.length_cons] at room enough
      exact ih done listed (by omega) (by omega) (by omega)
    | [] =>
      cases fuel with
      | zero => cases done
      | succ fuel =>
        cases turn : outer s with
        | none =>
          rw [collect_stop turn] at done
          cases done
          cases listed
        | some pair =>
          rcases pair with ⟨a, after⟩
          rw [collect_step turn] at done
          rcases Option.map_eq_some_iff.mp done with ⟨items', found, rfl⟩
          rw [flatTurns_cons] at room enough
          simp only [nextFlat, turn]
          exact ih found listed (by omega) (by omega) (by omega)

theorem collect_nextFlat (done : collect outer fuel s = some items) (enough : flatTurns inner items rest < turns)
    {bound : Nat} (more : (rest ++ items.flatMap inner).reduceOption.length < bound) :
    collect (nextFlat outer inner turns) bound (s, rest) = some (rest ++ items.flatMap inner).reduceOption := by
  induction listed : (rest ++ items.flatMap inner).reduceOption generalizing s items rest fuel bound with
  | nil =>
    obtain ⟨bound, rfl⟩ : ∃ n, bound = n + 1 := ⟨bound - 1, by omega⟩
    exact collect_stop (nextFlat_stop done listed enough) bound
  | cons b later ih =>
    rw [listed, List.length_cons] at more
    obtain ⟨bound, rfl⟩ : ∃ n, bound = n + 1 := ⟨bound - 1, by omega⟩
    rcases nextFlat_step done listed enough with ⟨after, tail, fuel', items', turn, found, same, fewer⟩
    rw [collect_step turn, ih found fewer (by rw [same]; omega) same]
    rfl

end

end Machine
