import Mathlib.Data.List.Forall2

namespace Machine

/-- What one turn of a loop over an index does: leave the loop, yield nothing, or yield a row. -/
inductive Row (α : Type) where
  | stop
  | skip
  | yield (row : α)

def rowsFrom {α : Type} (row : Nat → Row α) : (index count : Nat) → List α
  | _, 0 => []
  | index, count + 1 =>
    match row index with
    | .stop => []
    | .skip => rowsFrom row (index + 1) count
    | .yield a => a :: rowsFrom row (index + 1) count

def Row.map {α β : Type} (f : α → β) : Row α → Row β
  | stop => stop
  | skip => skip
  | yield a => yield (f a)

def rows {α : Type} (row : Nat → Row α) (count : Nat) : List α := rowsFrom row 0 count

variable {α : Type} {row row' : Nat → Row α}

theorem rowsFrom_map {β : Type} (f : α → β) (index count : Nat) :
    rowsFrom (fun i => (row i).map f) index count = (rowsFrom row index count).map f := by
  induction count generalizing index with
  | zero => rfl
  | succ count ih =>
    unfold rowsFrom
    cases turn : row index with
    | stop => rfl
    | skip => exact ih (index + 1)
    | yield a => exact congrArg (f a :: ·) (ih (index + 1))

theorem rows_map {β : Type} (f : α → β) (count : Nat) :
    rows (fun i => (row i).map f) count = (rows row count).map f := rowsFrom_map f 0 count

theorem rowsFrom_length_le (index count : Nat) : (rowsFrom row index count).length ≤ count := by
  induction count generalizing index with
  | zero => exact Nat.le_refl 0
  | succ count ih =>
    unfold rowsFrom
    cases row index with
    | stop => exact Nat.zero_le _
    | skip => exact Nat.le_succ_of_le (ih (index + 1))
    | yield a => exact Nat.succ_le_succ (ih (index + 1))

theorem rows_length_le (count : Nat) : (rows row count).length ≤ count := rowsFrom_length_le 0 count

theorem rows_length_congr {β : Type} {others : Nat → Row β} (count : Nat)
    (same : ∀ i, (row i).map (fun _ => ()) = (others i).map fun _ => ()) :
    (rows row count).length = (rows others count).length := by
  have units := congrArg (fun turn => rows turn count) (funext same)
  simp only [rows_map] at units
  simpa using congrArg List.length units

theorem rowsFrom_reached {index count : Nat} {a : α} (member : a ∈ rowsFrom row index count) :
    ∃ i, i < count ∧ row (index + i) = .yield a ∧ ∀ j < i, row (index + j) ≠ .stop := by
  induction count generalizing index with
  | zero => cases member
  | succ count ih =>
    unfold rowsFrom at member
    have later (tail : a ∈ rowsFrom row (index + 1) count) (going : row index ≠ .stop) :
        ∃ i, i < count + 1 ∧ row (index + i) = .yield a ∧ ∀ j < i, row (index + j) ≠ .stop := by
      rcases ih tail with ⟨i, high, found, clear⟩
      refine ⟨i + 1, by omega, by rwa [← Nat.add_assoc, Nat.add_right_comm], ?_⟩
      intro j before
      cases j with
      | zero => exact going
      | succ j =>
        rw [← Nat.add_assoc, Nat.add_right_comm]
        exact clear j (by omega)
    cases turn : row index with
    | stop =>
      rw [turn] at member
      cases member
    | skip =>
      rw [turn] at member
      exact later member (by simp [turn])
    | yield b =>
      rw [turn] at member
      rcases List.mem_cons.mp member with rfl | member
      · exact ⟨0, by omega, turn, fun j before => absurd before (Nat.not_lt_zero j)⟩
      · exact later member (by simp [turn])

theorem mem_rowsFrom {index count : Nat} {a : α} (member : a ∈ rowsFrom row index count) :
    ∃ i, index ≤ i ∧ i < index + count ∧ row i = .yield a := by
  rcases rowsFrom_reached member with ⟨i, high, found, -⟩
  exact ⟨index + i, by omega, by omega, found⟩

theorem mem_rows {count : Nat} {a : α} (member : a ∈ rows row count) : ∃ i, i < count ∧ row i = .yield a := by
  obtain ⟨i, -, high, found⟩ := mem_rowsFrom member
  exact ⟨i, by omega, found⟩

theorem mem_rowsFrom_of_clear {index count i : Nat} {a : α} (before : i < count) (turn : row (index + i) = .yield a)
    (clear : ∀ j < i, row (index + j) ≠ .stop) : a ∈ rowsFrom row index count := by
  induction count generalizing index i with
  | zero => cases before
  | succ count ih =>
    unfold rowsFrom
    cases i with
    | zero =>
      rw [Nat.add_zero] at turn
      rw [turn]
      exact List.mem_cons_self
    | succ i =>
      have tail : a ∈ rowsFrom row (index + 1) count := by
        apply @ih (index + 1) i (by omega)
        · rwa [Nat.add_right_comm, Nat.add_assoc]
        · intro j small
          rw [Nat.add_right_comm, Nat.add_assoc]
          exact clear (j + 1) (by omega)
      have first := clear 0 (Nat.succ_pos i)
      cases head : row index with
      | stop => exact absurd head first
      | skip => exact tail
      | yield b => exact List.mem_cons_of_mem b tail

theorem mem_rows_iff {count : Nat} {a : α} :
    a ∈ rows row count ↔ ∃ i < count, row i = .yield a ∧ ∀ j < i, row j ≠ .stop := by
  constructor
  · intro member
    rcases rowsFrom_reached member with ⟨i, high, found, clear⟩
    simp only [Nat.zero_add] at found clear
    exact ⟨i, high, found, clear⟩
  · rintro ⟨i, high, found, clear⟩
    apply mem_rowsFrom_of_clear high
    · rwa [Nat.zero_add]
    · intro j before
      rw [Nat.zero_add]
      exact clear j before

theorem rowsFrom_pairwise {R : α → α → Prop} {index count : Nat}
    (apart : ∀ i j a b, i < j → j < index + count → row i = .yield a → row j = .yield b → R a b) :
    (rowsFrom row index count).Pairwise R := by
  induction count generalizing index with
  | zero => exact List.Pairwise.nil
  | succ count ih =>
    have tail := @ih (index + 1) fun i j a b before bound => apart i j a b before (by omega)
    unfold rowsFrom
    cases turn : row index with
    | stop => exact List.Pairwise.nil
    | skip => exact tail
    | yield a =>
      refine List.Pairwise.cons ?_ tail
      intro b member
      obtain ⟨j, low, high, found⟩ := mem_rowsFrom member
      exact apart index j a b (by omega) (by omega) turn found

theorem rows_pairwise {R : α → α → Prop} {count : Nat}
    (apart : ∀ i j a b, i < j → j < count → row i = .yield a → row j = .yield b → R a b) :
    (rows row count).Pairwise R :=
  rowsFrom_pairwise fun i j a b before bound => apart i j a b before (by omega)

theorem rowsFrom_yield {index : Nat} {found : List α}
    (all : ∀ i a, found[i]? = some a → row (index + i) = .yield a) : rowsFrom row index found.length = found := by
  induction found generalizing index with
  | nil => rfl
  | cons a found ih =>
    have head := all 0 a rfl
    rw [Nat.add_zero] at head
    have tail := @ih (index + 1) fun i b at? => by
      rw [show index + 1 + i = index + (i + 1) by omega]
      exact all (i + 1) b at?
    rw [List.length_cons, rowsFrom, head, tail]

theorem rows_yield {found : List α} (all : ∀ i a, found[i]? = some a → row i = .yield a) :
    rows row found.length = found :=
  rowsFrom_yield fun i a at? => by rw [Nat.zero_add]; exact all i a at?

theorem rows_range {f : Nat → α} {count : Nat} (all : ∀ i < count, row i = .yield (f i)) :
    rows row count = (List.range count).map f := by
  have whole := @rows_yield α row ((List.range count).map f) fun i a at? => by
    rw [List.getElem?_map, Option.map_eq_some_iff] at at?
    rcases at? with ⟨place, listed, rfl⟩
    rcases List.getElem?_eq_some_iff.mp listed with ⟨before, same⟩
    rw [List.getElem_range] at same
    rw [List.length_range] at before
    rw [← same]
    exact all i before
  rwa [List.length_map, List.length_range] at whole

theorem rowsFrom_getElem_iff {index count i : Nat} {a : α} (full : ∀ i, row i ≠ .skip) :
    (rowsFrom row index count)[i]? = some a ↔
      i < count ∧ row (index + i) = .yield a ∧ ∀ j < i, row (index + j) ≠ .stop := by
  induction count generalizing index i with
  | zero => exact iff_of_false nofun fun found => Nat.not_lt_zero i found.1
  | succ count ih =>
    unfold rowsFrom
    cases turn : row index with
    | stop =>
      refine iff_of_false nofun ?_
      rintro ⟨-, found, clear⟩
      cases i with
      | zero =>
        rw [Nat.add_zero, turn] at found
        cases found
      | succ i => exact clear 0 (Nat.succ_pos i) turn
    | skip => exact absurd turn (full index)
    | yield b =>
      cases i with
      | zero =>
        have here : row (index + 0) = .yield b := turn
        rw [here]
        refine ⟨fun first => ⟨Nat.succ_pos count, ?_, nofun⟩, fun found => ?_⟩
        · cases first
          rfl
        · cases found.2.1
          rfl
      | succ i =>
        have later (j : Nat) : index + 1 + j = index + (j + 1) := by omega
        refine ih.trans ?_
        rw [later, Nat.add_lt_add_iff_right]
        refine and_congr_right fun _ => and_congr_right fun _ => ⟨fun clear j before => ?_, fun clear j before => ?_⟩
        · cases j with
          | zero => simp [turn]
          | succ j =>
            rw [← later]
            exact clear j (by omega)
        · rw [later]
          exact clear (j + 1) (by omega)

theorem rows_getElem_iff {count i : Nat} {a : α} (full : ∀ i, row i ≠ .skip) :
    (rows row count)[i]? = some a ↔ i < count ∧ row i = .yield a ∧ ∀ j < i, row j ≠ .stop := by
  rw [rows, rowsFrom_getElem_iff full]
  simp only [Nat.zero_add]

theorem rows_getElem {count i : Nat} {a : α} (full : ∀ i, row i ≠ .skip) (found : (rows row count)[i]? = some a) :
    i < count ∧ row i = .yield a := by
  rcases (rows_getElem_iff full).mp found with ⟨bound, turn, -⟩
  exact ⟨bound, turn⟩

def Row.ofOption : Option α → Row α
  | none => .stop
  | some a => .yield a

theorem Row.ofOption_ne_skip (o : Option α) : Row.ofOption o ≠ .skip := by
  cases o <;> exact nofun

theorem Row.ofOption_eq_yield {o : Option α} {a : α} : Row.ofOption o = .yield a ↔ o = some a := by
  cases o <;> simp [Row.ofOption]

theorem Row.ofOption_ne_stop {o : Option α} : Row.ofOption o ≠ .stop ↔ o.isSome = true := by
  cases o <;> simp [Row.ofOption]

theorem rowsFrom_each_iff {f : Nat → Option α} {wanted : Nat → Bool} (decoded : ∀ i, (f i).isSome = true → wanted i = true)
    {index count : Nat} :
    List.Forall₂ (fun i a => f i = some a) ((List.range' index count).filter wanted)
        (rowsFrom (fun i => Row.ofOption (f i)) index count) ↔
      ∀ i, index ≤ i → i < index + count → wanted i = true →
        (f i).isSome = true ∧ ∀ j, index ≤ j → j < i → wanted j = true := by
  induction count generalizing index with
  | zero =>
    refine iff_of_true .nil fun i low high => ?_
    omega
  | succ count ih =>
    rw [List.range'_succ, rowsFrom]
    cases turn : f index with
    | none =>
      rw [Row.ofOption, List.forall₂_nil_right_iff, List.filter_eq_nil_iff]
      constructor
      · intro none i low high readable
        exact absurd readable (none i (by rw [← List.range'_succ, List.mem_range'_1]; exact ⟨low, high⟩))
      · intro given i member readable
        rw [← List.range'_succ, List.mem_range'_1] at member
        rcases given i member.1 member.2 readable with ⟨present, earlier⟩
        have first : wanted index = true := by
          rcases Nat.eq_or_lt_of_le member.1 with rfl | before
          · exact readable
          · exact earlier index (Nat.le_refl _) before
        rcases given index (Nat.le_refl _) (by omega) first with ⟨here, -⟩
        rw [turn] at here
        cases here
    | some a =>
      have first := decoded index (by rw [turn]; rfl)
      rw [Row.ofOption, List.filter_cons_of_pos first, List.forall₂_cons, ih]
      constructor
      · rintro ⟨-, later⟩ i low high readable
        rcases Nat.eq_or_lt_of_le low with rfl | before
        · exact ⟨by rw [turn]; rfl, fun j low high => by omega⟩
        · rcases later i before (by omega) readable with ⟨present, earlier⟩
          refine ⟨present, fun j low high => ?_⟩
          rcases Nat.eq_or_lt_of_le low with rfl | before
          · exact first
          · exact earlier j before high
      · intro given
        refine ⟨turn, fun i low high readable => ?_⟩
        rcases given i (by omega) (by omega) readable with ⟨present, earlier⟩
        exact ⟨present, fun j low high => earlier j (by omega) high⟩

/-- A loop that is left at the first index without a value yields the values of all wanted indices exactly when each of
    them has one and comes behind wanted ones only. -/
theorem rows_each_iff {f : Nat → Option α} {wanted : Nat → Bool} (decoded : ∀ i, (f i).isSome = true → wanted i = true)
    {count : Nat} :
    List.Forall₂ (fun i a => f i = some a) ((List.range count).filter wanted) (rows (fun i => Row.ofOption (f i)) count) ↔
      ∀ i < count, wanted i = true → (f i).isSome = true ∧ ∀ j < i, wanted j = true := by
  rw [List.range_eq_range', rows, rowsFrom_each_iff decoded]
  simp only [Nat.zero_le, Nat.zero_add, true_implies]

theorem rowsFrom_at {index count i : Nat} {a : α} (all : ∀ i < count, ∃ a, row (index + i) = .yield a) (before : i < count)
    (turn : row (index + i) = .yield a) : (rowsFrom row index count)[i]? = some a := by
  induction count generalizing index i with
  | zero => cases before
  | succ count ih =>
    rcases all 0 (Nat.succ_pos count) with ⟨first, head⟩
    rw [Nat.add_zero] at head
    rw [rowsFrom, head]
    cases i with
    | zero =>
      rw [Nat.add_zero, head] at turn
      cases turn
      rfl
    | succ i =>
      rw [List.getElem?_cons_succ]
      apply ih
      · intro j small
        rw [show index + 1 + j = index + (j + 1) by omega]
        exact all (j + 1) (Nat.succ_lt_succ small)
      · exact Nat.lt_of_succ_lt_succ before
      · rw [show index + 1 + i = index + (i + 1) by omega]
        exact turn

theorem rows_at {count i : Nat} {a : α} (all : ∀ i < count, ∃ a, row i = .yield a) (before : i < count)
    (turn : row i = .yield a) : (rows row count)[i]? = some a := by
  apply rowsFrom_at _ before
  · rwa [Nat.zero_add]
  · intro j small
    rw [Nat.zero_add]
    exact all j small

theorem rowsFrom_flatten {β : Type} {row : Nat → Row (List α)} {parts : List β} {f : Nat → β → List α} {index : Nat}
    (each : ∀ i part, parts[i]? = some part →
      row (index + i) = .yield (f (index + i) part) ∨ row (index + i) = .skip ∧ f (index + i) part = []) :
    (rowsFrom row index parts.length).flatten = (parts.zipIdx index).flatMap fun part => f part.2 part.1 := by
  induction parts generalizing index with
  | nil => rfl
  | cons part parts ih =>
    have head := each 0 part rfl
    rw [Nat.add_zero] at head
    have tail := @ih (index + 1) fun i next at? => by
      rw [show index + 1 + i = index + (i + 1) by omega]
      exact each (i + 1) next at?
    rw [List.length_cons, rowsFrom, List.zipIdx_cons, List.flatMap_cons, ← tail]
    rcases head with yields | ⟨skips, none⟩
    · rw [yields]
      rfl
    · rw [skips, none]
      rfl

theorem rowsFrom_filterMap {β : Type} {parts : List β} {f : Nat → β → Option α} {index : Nat}
    (yields : ∀ i part a, parts[i]? = some part → f (index + i) part = some a → row (index + i) = .yield a)
    (skips : ∀ i part, parts[i]? = some part → f (index + i) part = none → row (index + i) = .skip) :
    rowsFrom row index parts.length = (parts.zipIdx index).filterMap fun part => f part.2 part.1 := by
  induction parts generalizing index with
  | nil => rfl
  | cons part parts ih =>
    have later (i : Nat) : index + 1 + i = index + (i + 1) := by omega
    have tail := @ih (index + 1) (fun i next a at? => later i ▸ yields (i + 1) next a at?)
      fun i next at? => later i ▸ skips (i + 1) next at?
    have yield := yields 0 part
    have skip := skips 0 part rfl
    rw [Nat.add_zero] at yield skip
    rw [List.length_cons, rowsFrom, List.zipIdx_cons, tail]
    cases value : f index part with
    | none =>
      rw [skip value, List.filterMap_cons]
      simp only [value]
    | some a =>
      rw [yield a rfl value, List.filterMap_cons]
      simp only [value]

end Machine
