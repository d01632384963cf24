import Mathlib.Data.Finite.Prod
import Mathlib.Data.Fintype.Card
import Mathlib.Logic.Relation

namespace Machine

open Relation

variable {σ α : Type}

/-- The items an iterator hands out before it answers `none`. There is no list when the fuel runs out first. -/
def collect (next : σ → Option (α × σ)) : Nat → σ → Option (List α)
  | 0, _ => none
  | fuel + 1, s =>
    match next s with
    | none => some []
    | some (item, after) => (collect next fuel after).map (item :: ·)

/-- A computation with fuel returns a value that more fuel does not change. -/
def Returns (run : Nat → Option α) : Prop := ∃ value bound, ∀ fuel, bound ≤ fuel → run fuel = some value

def Goes (next : σ → Option (α × σ)) (s after : σ) : Prop := ∃ item, next s = some (item, after)

/-- No state that the iterator comes through from `s` comes back to itself. -/
def Acyclic (link : σ → σ → Prop) (s : σ) : Prop := ∀ t, ReflTransGen link s t → ¬ TransGen link t t

variable {next : σ → Option (α × σ)} {s : σ}

theorem collect_stop (stop : next s = none) (fuel : Nat) : collect next (fuel + 1) s = some [] := by
  rw [collect, stop]

theorem collect_step {item : α} {after : σ} (step : next s = some (item, after)) (fuel : Nat) :
    collect next (fuel + 1) s = (collect next fuel after).map (item :: ·) := by
  rw [collect, step]

theorem collect_congr {t : σ} (same : next s = next t) (fuel : Nat) : collect next fuel s = collect next fuel t := by
  cases fuel with
  | zero => rfl
  | succ fuel => rw [collect, collect, same]

theorem collect_more {fuel : Nat} {items : List α} (done : collect next fuel s = some items) {more : Nat}
    (enough : fuel ≤ more) : collect next more s = some items := by
  induction fuel generalizing s items more with
  | zero => cases done
  | succ fuel ih =>
    obtain ⟨more, rfl⟩ : ∃ m, more = m + 1 := ⟨more - 1, by omega⟩
    cases step : next s with
    | none => rwa [collect_stop step] at done ⊢
    | some pair =>
      obtain ⟨item, after⟩ := pair
      rw [collect_step step] at done ⊢
      obtain ⟨rest, found, same⟩ := Option.map_eq_some_iff.mp done
      rw [ih found (by omega), Option.map_some, same]

/-- An iterator that a measure goes down with ends, and hands out no more items than the measure has steps. -/
theorem measure_returns {measure : σ → Nat}
    (decreases : ∀ s item after, next s = some (item, after) → measure after < measure s) (s : σ) :
    ∃ items, items.length ≤ measure s ∧ ∀ fuel, measure s < fuel → collect next fuel s = some items := by
  induction left : measure s using Nat.strong_induction_on generalizing s with
  | _ left ih =>
    cases turn : next s with
    | none =>
      refine ⟨[], Nat.zero_le _, fun fuel enough => ?_⟩
      obtain ⟨fuel, rfl⟩ : ∃ m, fuel = m + 1 := ⟨fuel - 1, by omega⟩
      exact collect_stop turn fuel
    | some pair =>
      rcases pair with ⟨item, after⟩
      have smaller := decreases s item after turn
      rcases ih (measure after) (by omega) after rfl with ⟨items, few, done⟩
      refine ⟨item :: items, ?_, fun fuel enough => ?_⟩
      · rw [List.length_cons]
        omega
      · obtain ⟨fuel, rfl⟩ : ∃ m, fuel = m + 1 := ⟨fuel - 1, by omega⟩
        rw [collect_step turn, done fuel (by omega)]
        rfl

/-- An iterator whose cursor only moves forward, and not past a bound, ends. -/
theorem cursor_returns {next : Nat → Option (α × Nat)} {bound : Nat}
    (advances : ∀ cursor item after, next cursor = some (item, after) → cursor < after ∧ after ≤ bound) (start : Nat) :
    Returns fun fuel => collect next fuel start := by
  have decreases : ∀ cursor item after, next cursor = some (item, after) → bound - after < bound - cursor := by
    intro cursor item after turn
    rcases advances cursor item after turn with ⟨forward, within⟩
    omega
  rcases measure_returns decreases start with ⟨items, -, done⟩
  exact ⟨items, bound - start + 1, fun fuel enough => done fuel enough⟩

/-- Items that each stand in a transitive relation to a mark of the state before, and are the mark of the state after,
    stand in it to each other. -/
theorem collect_pairwise {R : α → α → Prop} [IsTrans α R] {mark : σ → α}
    (steps : ∀ s item after, next s = some (item, after) → R (mark s) item ∧ mark after = item) {fuel : Nat}
    {items : List α} (done : collect next fuel s = some items) : (mark s :: items).Pairwise R := by
  induction fuel generalizing s items with
  | zero => cases done
  | succ fuel ih =>
    cases turn : next s with
    | none =>
      rw [collect_stop turn] at done
      cases done
      exact List.pairwise_singleton R _
    | some pair =>
      rcases pair with ⟨item, after⟩
      rcases steps s item after turn with ⟨here, same⟩
      rw [collect_step turn] at done
      rcases Option.map_eq_some_iff.mp done with ⟨rest, found, rfl⟩
      have later := ih found
      rw [same] at later
      refine List.pairwise_cons.mpr ⟨fun a member => ?_, later⟩
      rcases List.mem_cons.mp member with rfl | member
      · exact here
      · exact IsTrans.trans _ _ _ here (List.rel_of_pairwise_cons later member)

def countFrom (next : σ → Option (α × σ)) : Nat → Nat → σ → Option Nat
  | 0, _, _ => none
  | fuel + 1, count, s =>
    match next s with
    | none => some count
    | some (_, after) => countFrom next fuel (count + 1) after

theorem countFrom_eq (fuel count : Nat) (s : σ) :
    countFrom next fuel count s = (collect next fuel s).map fun items => count + items.length := by
  induction fuel generalizing count s with
  | zero => rfl
  | succ fuel ih =>
    cases turn : next s with
    | none =>
      rw [countFrom, turn, collect_stop turn]
      rfl
    | some pair =>
      rw [countFrom, turn, collect_step turn, Option.map_map]
      refine (ih (count + 1) pair.2).trans (congrArg (Option.map · _) ?_)
      funext items
      rw [Function.comp_apply, List.length_cons]
      omega

def findFrom (next : σ → Option (α × σ)) (p : α → Bool) : Nat → σ → Option (Option α)
  | 0, _ => none
  | fuel + 1, s =>
    match next s with
    | none => some none
    | some (a, after) => if p a then some (some a) else findFrom next p fuel after

theorem findFrom_eq {p : α → Bool} {fuel : Nat} {items : List α} (done : collect next fuel s = some items) :
    findFrom next p fuel s = some (items.find? p) := by
  induction fuel generalizing s items with
  | zero => cases done
  | succ fuel ih =>
    cases turn : next s with
    | none =>
      rw [collect_stop turn] at done
      cases done
      rw [findFrom, turn]
      rfl
    | some pair =>
      rw [collect_step turn, Option.map_eq_some_iff] at done
      rcases done with ⟨later, found, rfl⟩
      rw [findFrom, turn]
      by_cases passes : p pair.1 = true
      · rw [List.find?_cons_of_pos passes]
        exact if_pos passes
      · rw [List.find?_cons_of_neg passes]
        exact (if_neg passes).trans (ih found)

/-- An iterator over a list that passes by what does not decode; its state is what is left of the list. -/
def nextSome {β : Type} (decode : β → Option α) : List β → Option (α × List β)
  | [] => none
  | b :: rest =>
    match decode b with
    | some a => some (a, rest)
    | none => nextSome decode rest

theorem collect_nextSome {β : Type} (decode : β → Option α) (bs : List β) {fuel : Nat} (enough : bs.length < fuel) :
    collect (nextSome decode) fuel bs = some (bs.filterMap decode) := by
  induction bs generalizing fuel with
  | nil =>
    obtain ⟨fuel, rfl⟩ : ∃ n, fuel = n + 1 := ⟨fuel - 1, by omega⟩
    exact collect_stop rfl fuel
  | cons b bs ih =>
    rw [List.length_cons] at enough
    cases found : decode b with
    | none =>
      have same : nextSome decode (b :: bs) = nextSome decode bs := by rw [nextSome, found]
      rw [collect_congr same, ih (by omega), List.filterMap_cons, found]
    | some a =>
      obtain ⟨fuel, rfl⟩ : ∃ n, fuel = n + 1 := ⟨fuel - 1, by omega⟩
      have step : nextSome decode (b :: bs) = some (a, bs) := by rw [nextSome, found]
      rw [collect_step step, ih (by omega), List.filterMap_cons, found]
      rfl

theorem collect_yields {β : Type} {f : α → β} {items : List β} {state : Nat → σ}
    (steps : ∀ i item, items[i]? = some item → ∃ a, next (state i) = some (a, state (i + 1)) ∧ f a = item)
    (stop : next (state items.length) = none) {fuel : Nat} (enough : items.length < fuel) :
    (collect next fuel (state 0)).map (List.map f) = some items := by
  induction items generalizing state fuel with
  | nil =>
    obtain ⟨fuel, rfl⟩ : ∃ n, fuel = n + 1 := ⟨fuel - 1, by omega⟩
    exact congrArg (Option.map (List.map f)) (collect_stop stop fuel)
  | cons item items ih =>
    rw [List.length_cons] at enough
    obtain ⟨fuel, rfl⟩ : ∃ n, fuel = n + 1 := ⟨fuel - 1, by omega⟩
    rcases steps 0 item rfl with ⟨a, step, rfl⟩
    have tail := @ih (fun i => state (i + 1)) (fun i item at? => steps (i + 1) item at?) stop fuel (by omega)
    rw [collect_step step, Option.map_map]
    rcases Option.map_eq_some_iff.mp tail with ⟨rest, done, same⟩
    rw [Nat.zero_add] at done
    rw [Nat.zero_add, done, Option.map_some, Function.comp_apply, List.map_cons, same]

theorem returns_map_iff {β : Type} (f : List α → β) :
    Returns (fun fuel => (collect next fuel s).map f) ↔ ∃ fuel items, collect next fuel s = some items := by
  constructor
  · intro given
    rcases given with ⟨value, bound, stable⟩
    obtain ⟨items, found, -⟩ := Option.map_eq_some_iff.mp (stable bound (Nat.le_refl _))
    exact ⟨bound, items, found⟩
  · intro given
    rcases given with ⟨fuel, items, done⟩
    refine ⟨f items, fuel, ?_⟩
    intro more enough
    exact congrArg (Option.map f) (collect_more done enough)

theorem ends_iff_acc :
    (∃ fuel items, collect next fuel s = some items) ↔ Acc (fun after s => Goes next s after) s := by
  constructor
  · intro given
    rcases given with ⟨fuel, items, done⟩
    induction fuel generalizing s items with
    | zero => cases done
    | succ fuel ih =>
      apply Acc.intro
      rintro after ⟨item, step⟩
      rw [collect_step step] at done
      obtain ⟨rest, found, -⟩ := Option.map_eq_some_iff.mp done
      exact ih rest found
  · intro accessible
    induction accessible with
    | intro s _ ih =>
      cases step : next s with
      | none => exact ⟨1, [], collect_stop step 0⟩
      | some pair =>
        obtain ⟨item, after⟩ := pair
        obtain ⟨fuel, items, done⟩ := ih after ⟨item, step⟩
        refine ⟨fuel + 1, item :: items, ?_⟩
        rw [collect_step step, done, Option.map_some]

theorem acc_irrefl {r : σ → σ → Prop} (accessible : Acc r s) : ¬ r s s := by
  induction accessible with
  | intro s _ ih => exact fun self => ih s self self

theorem acc_iff_acyclic [Finite σ] (link : σ → σ → Prop) :
    Acc (fun after s => link s after) s ↔ Acyclic link s := by
  constructor
  · intro accessible t reached
    have there : Acc (fun after s => link s after) t := by
      induction reached with
      | refl => exact accessible
      | tail _ step ih => exact ih.inv step
    intro cycle
    exact acc_irrefl there.transGen (transGen_swap.mpr cycle)
  · intro acyclic
    let later (a b : { t // ReflTransGen link s t }) : Prop := TransGen link b.1 a.1
    have transitive : IsTrans _ later := ⟨fun _ _ _ first second => second.trans first⟩
    have irreflexive : Std.Irrefl later := ⟨fun a => acyclic a.1 a.2⟩
    have finite : Finite { t // ReflTransGen link s t } := inferInstance
    have wellFounded := Finite.wellFounded_of_trans_of_irrefl later
    have all : ∀ a : { t // ReflTransGen link s t }, Acc (fun after s => link s after) a.1 := by
      intro a
      induction a using wellFounded.induction with
      | _ a ih =>
        apply Acc.intro
        intro after step
        exact ih ⟨after, a.2.tail step⟩ (TransGen.single step)
    exact all ⟨s, ReflTransGen.refl⟩

/-- An iterator over finitely many states ends exactly when it comes through no state twice. -/
theorem returns_iff_acyclic [Finite σ] {β : Type} (f : List α → β) :
    Returns (fun fuel => (collect next fuel s).map f) ↔ Acyclic (Goes next) s := by
  rw [returns_map_iff, ends_iff_acc, acc_iff_acyclic]

end Machine
