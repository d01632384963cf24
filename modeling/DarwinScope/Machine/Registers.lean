import Mathlib.Data.List.Basic

namespace Machine

/-! What a fold leaves in one field of its state, from what each step does to that field. -/

variable {σ ε α : Type} {step : σ → ε → σ} {events : List ε}

section

variable {field : σ → Option α} {write : ε → Option α}

theorem foldl_lastWrite (each : ∀ s e, field (step s e) = (write e).or (field s)) (s : σ) :
    field (events.foldl step s) = (events.filterMap write).getLast?.or (field s) := by
  induction events generalizing s with
  | nil => rfl
  | cons e events ih =>
    rw [List.foldl_cons, ih, each]
    cases written : write e with
    | none => rw [List.filterMap_cons_none written, Option.none_or]
    | some a =>
      rw [List.filterMap_cons_some written, List.getLast?_cons, Option.some_or]
      cases (events.filterMap write).getLast? <;> rfl

/-- A field that every strong write replaces and a weak one only fills keeps the last strong write, and without one the
    first weak one. -/
theorem foldl_prefers {weak : ε → Option α} (each : ∀ s e, field (step s e) = (write e).or ((field s).or (weak e))) (s : σ) :
    field (events.foldl step s) =
      (events.filterMap write).getLast?.or ((field s).or (events.filterMap weak).head?) := by
  induction events generalizing s with
  | nil =>
    rw [List.filterMap_nil, List.filterMap_nil, List.getLast?_nil, List.head?_nil, Option.none_or, Option.or_none]
    rfl
  | cons e events ih =>
    rw [List.foldl_cons, ih, each]
    cases written : write e with
    | some a =>
      rw [List.filterMap_cons_some written, List.getLast?_cons, Option.some_or, Option.some_or]
      cases (events.filterMap write).getLast? <;> rfl
    | none =>
      rw [List.filterMap_cons_none written, Option.none_or, Option.or_assoc]
      cases filled : weak e with
      | none => rw [List.filterMap_cons_none filled, Option.none_or]
      | some a => rw [List.filterMap_cons_some filled, List.head?_cons, Option.some_or]

end

theorem foldl_collects {field : σ → List α} {out : ε → List α} (each : ∀ s e, field (step s e) = field s ++ out e) (s : σ) :
    field (events.foldl step s) = field s ++ events.flatMap out := by
  induction events generalizing s with
  | nil => rw [List.flatMap_nil, List.append_nil, List.foldl_nil]
  | cons e events ih => rw [List.foldl_cons, ih, each, List.flatMap_cons, List.append_assoc]

section

variable {κ : Type} [DecidableEq κ]

/-- The events of each kind are the same, in the same order; how the kinds are mixed may differ. -/
def SameByKind (kind : ε → κ) (events others : List ε) : Prop :=
  ∀ k, events.filter (fun e => kind e = k) = others.filter fun e => kind e = k

variable {kind : ε → κ} {others : List ε}

theorem filterMap_of_kind {write : ε → Option α} {k : κ} (silent : ∀ e, kind e ≠ k → write e = none) (events : List ε) :
    (events.filter fun e => kind e = k).filterMap write = events.filterMap write := by
  rw [List.filterMap_filter]
  apply List.filterMap_congr
  intro e _
  by_cases same : kind e = k
  · simp [same]
  · simp [same, silent e same]

theorem SameByKind.filterMap {write : ε → Option α} {k : κ} (same : SameByKind kind events others)
    (silent : ∀ e, kind e ≠ k → write e = none) : events.filterMap write = others.filterMap write := by
  rw [← filterMap_of_kind silent events, same k, filterMap_of_kind silent others]

theorem flatMap_of_kind {out : ε → List α} {k : κ} (silent : ∀ e, kind e ≠ k → out e = []) (events : List ε) :
    (events.filter fun e => kind e = k).flatMap out = events.flatMap out := by
  induction events with
  | nil => rfl
  | cons e events ih =>
    by_cases same : kind e = k
    · rw [List.filter_cons_of_pos (by simpa using same), List.flatMap_cons, List.flatMap_cons, ih]
    · rw [List.filter_cons_of_neg (by simpa using same), List.flatMap_cons, silent e same, List.nil_append, ih]

theorem SameByKind.flatMap {out : ε → List α} {k : κ} (same : SameByKind kind events others)
    (silent : ∀ e, kind e ≠ k → out e = []) : events.flatMap out = others.flatMap out := by
  rw [← flatMap_of_kind silent events, same k, flatMap_of_kind silent others]

end

end Machine
