import Mathlib.Logic.Function.Basic
import Mathlib.Data.List.Basic

namespace Machine

abbrev Map (κ α : Type) : Type := κ → Option α

namespace Map

variable {κ α : Type}

def empty : Map κ α := fun _ => none

variable [DecidableEq κ]

def insert (m : Map κ α) (key : κ) (value : α) : Map κ α := Function.update m key (some value)

def ofRows (rows : List (κ × α)) : Map κ α := rows.foldl (fun m row => m.insert row.1 row.2) empty

theorem foldl_insert (rows : List (κ × α)) (m : Map κ α) (key : κ) :
    rows.foldl (fun m row => m.insert row.1 row.2) m key = (ofRows rows key).or (m key) := by
  induction rows generalizing m with
  | nil => rfl
  | cons row rows ih =>
    have head : ofRows (row :: rows) key = (ofRows rows key).or (empty.insert row.1 row.2 key) :=
      ih (empty.insert row.1 row.2)
    rw [List.foldl_cons, ih, head, Option.or_assoc]
    congr 1
    by_cases same : key = row.1
    · subst same
      simp [insert]
    · simp [insert, Function.update_of_ne same, empty]

theorem ofRows_append (rows later : List (κ × α)) (key : κ) :
    ofRows (rows ++ later) key = (ofRows later key).or (ofRows rows key) := by
  rw [ofRows, List.foldl_append, foldl_insert]
  rfl

theorem ofRows_singleton (row : κ × α) : ofRows [row] row.1 = some row.2 := Function.update_self ..

theorem ofRows_eq_none {rows : List (κ × α)} {key : κ} : ofRows rows key = none ↔ ∀ row ∈ rows, row.1 ≠ key := by
  induction rows with
  | nil => simp [ofRows, empty]
  | cons row rows ih =>
    rw [← List.singleton_append, ofRows_append, Option.or_eq_none_iff, ih]
    by_cases same : row.1 = key
    · subst same
      simp [ofRows_singleton]
    · have missing : ofRows [row] key = none := Function.update_of_ne (Ne.symm same) ..
      simp [missing, same]

theorem mem_of_ofRows {rows : List (κ × α)} {key : κ} {value : α} (found : ofRows rows key = some value) :
    (key, value) ∈ rows := by
  induction rows with
  | nil => cases found
  | cons row rows ih =>
    rw [← List.singleton_append, ofRows_append] at found
    rcases Option.or_eq_some_iff.mp found with later | ⟨-, first⟩
    · exact List.mem_cons_of_mem _ (ih later)
    · by_cases same : row.1 = key
      · subst same
        rw [ofRows_singleton] at first
        cases first
        exact List.mem_cons_self
      · have missing : ofRows [row] key = none := Function.update_of_ne (Ne.symm same) ..
        rw [missing] at first
        cases first

/-- Rows that agree wherever their keys do: no insertion overwrites a value by another one. -/
def Agrees (rows : List (κ × α)) : Prop := ∀ row ∈ rows, ∀ other ∈ rows, row.1 = other.1 → row.2 = other.2

theorem ofRows_of_agrees {rows : List (κ × α)} (agrees : Agrees rows) {key : κ} {value : α} :
    ofRows rows key = some value ↔ (key, value) ∈ rows := by
  refine ⟨mem_of_ofRows, ?_⟩
  intro member
  cases found : ofRows rows key with
  | none => exact absurd rfl (ofRows_eq_none.mp found (key, value) member)
  | some last => exact congrArg some (agrees _ (mem_of_ofRows found) _ member rfl)

/-- Rows that agree make one map in whatever order they are inserted. -/
theorem ofRows_perm {rows others : List (κ × α)} (agrees : Agrees rows) (perm : others.Perm rows) :
    ofRows others = ofRows rows := by
  have also : Agrees others := fun row member other listed =>
    agrees row (perm.mem_iff.mp member) other (perm.mem_iff.mp listed)
  ext key value
  rw [ofRows_of_agrees also, ofRows_of_agrees agrees, perm.mem_iff]

theorem ofRows_filterMap {ρ : Type} {rows : List ρ} {entry : ρ → Option (κ × α)} {key : κ} {value : α} :
    ofRows (rows.filterMap entry) key = some value ↔
      ∃ before row after, rows = before ++ row :: after ∧ entry row = some (key, value) ∧
        ∀ later ∈ after, ∀ other, entry later ≠ some (key, other) := by
  have missing : ∀ {after : List ρ}, ofRows (after.filterMap entry) key = none ↔
      ∀ later ∈ after, ∀ other, entry later ≠ some (key, other) := by
    intro after
    rw [ofRows_eq_none]
    constructor
    · intro none? later member other same
      exact none? (key, other) (List.mem_filterMap.mpr ⟨later, member, same⟩) rfl
    · intro none? e member same
      obtain ⟨later, inside, found⟩ := List.mem_filterMap.mp member
      exact none? later inside e.2 (by rw [found, ← same])
  induction rows with
  | nil =>
    constructor
    · intro found
      cases found
    · intro given
      rcases given with ⟨before, row, after, same, -⟩
      cases before <;> cases same
  | cons first rows ih =>
    have split : ofRows ((first :: rows).filterMap entry) key =
        (ofRows (rows.filterMap entry) key).or (ofRows ([first].filterMap entry) key) := by
      rw [← ofRows_append, ← List.filterMap_append, List.singleton_append]
    rw [split, Option.or_eq_some_iff]
    constructor
    · intro given
      rcases given with found | ⟨none?, found⟩
      · obtain ⟨before, row, after, same, found, last⟩ := ih.mp found
        exact ⟨first :: before, row, after, by rw [same, List.cons_append], found, last⟩
      · refine ⟨[], first, rows, rfl, ?_, missing.mp none?⟩
        obtain ⟨row, member, same⟩ := List.mem_filterMap.mp (mem_of_ofRows found)
        rw [← List.mem_singleton.mp member, same]
    · intro given
      rcases given with ⟨before, row, after, same, found, last⟩
      cases before with
      | nil =>
        cases same
        refine Or.inr ⟨missing.mpr last, ?_⟩
        rw [List.filterMap_cons, found]
        exact ofRows_singleton (key, value)
      | cons head before =>
        cases same
        exact Or.inl (ih.mpr ⟨before, row, after, rfl, found, last⟩)

end Map

end Machine
