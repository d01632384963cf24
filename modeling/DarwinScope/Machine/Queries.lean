import DarwinScope.Machine.Rows

namespace Machine

/-- A computation that asks questions about its surroundings and can fail. `A q` is the type of the
    answers to `q`. -/
inductive Asking (Q : Type) (A : Q → Type) (α : Type) : Type where
  | fail
  | done (a : α)
  | ask (q : Q) (next : A q → Asking Q A α)

namespace Asking

variable {Q : Type} {A : Q → Type} {α β : Type}

def bind : Asking Q A α → (α → Asking Q A β) → Asking Q A β
  | fail, _ => fail
  | done a, next => next a
  | ask q rest, next => ask q fun answer => (rest answer).bind next

instance : Monad (Asking Q A) where
  pure := done
  bind := bind

def ofOption : Option α → Asking Q A α
  | some a => done a
  | none => fail

def attempt : Asking Q A α → Asking Q A (Option α)
  | fail => done none
  | done a => done (some a)
  | ask q next => ask q fun answer => (next answer).attempt

def run (answer : ∀ q, A q) : Asking Q A α → Option α
  | fail => none
  | done a => some a
  | ask q next => (next (answer q)).run answer

def asked (answer : ∀ q, A q) : Asking Q A α → List Q
  | fail => []
  | done _ => []
  | ask q next => q :: (next (answer q)).asked answer

def rowsFrom (row : Nat → Asking Q A (Row α)) : (index count : Nat) → Asking Q A (List α)
  | _, 0 => pure []
  | index, count + 1 => do
    match ← row index with
    | .stop => pure []
    | .skip => rowsFrom row (index + 1) count
    | .yield a =>
      let rest ← rowsFrom row (index + 1) count
      pure (a :: rest)

section

variable (answer : ∀ q, A q)

@[simp] theorem run_pure (a : α) : run answer (pure a : Asking Q A α) = some a := rfl

@[simp] theorem run_ask (q : Q) (next : A q → Asking Q A α) :
    run answer (ask q next) = run answer (next (answer q)) := rfl

@[simp] theorem run_ofOption (a : Option α) : run answer (ofOption a : Asking Q A α) = a := by
  cases a <;> rfl

@[simp] theorem run_bind (w : Asking Q A α) (next : α → Asking Q A β) :
    run answer (w >>= next) = (run answer w).bind fun a => run answer (next a) := by
  induction w with
  | fail => rfl
  | done a => rfl
  | ask q rest ih => exact ih (answer q)

@[simp] theorem run_attempt (w : Asking Q A α) : run answer w.attempt = some (run answer w) := by
  induction w with
  | fail => rfl
  | done a => rfl
  | ask q rest ih => exact ih (answer q)

section

variable {answer} {γ δ : Type} {w : Asking Q A α} {next : α → Asking Q A β} {f : γ → β}

/-- A step of a computation and the step of a plain one that it follows, up to a view of the values. -/
theorem run_then_map {x : Option δ} {view : δ → α} {g : δ → Option γ} (head : run answer w = x.map view)
    (tail : ∀ d, run answer (next (view d)) = (g d).map f) : run answer (w >>= next) = (x.bind g).map f := by
  rw [run_bind, head]
  cases x with
  | none => rfl
  | some d => exact tail d

theorem run_then {x : Option α} {g : α → Option γ} (head : run answer w = x)
    (tail : ∀ a, run answer (next a) = (g a).map f) : run answer (w >>= next) = (x.bind g).map f := by
  rw [run_bind, head]
  cases x with
  | none => rfl
  | some a => exact tail a

theorem run_given {a : α} (head : run answer w = some a) : run answer (w >>= next) = run answer (next a) := by
  rw [run_bind, head]
  rfl

end

theorem run_rowsFrom {row : Nat → Asking Q A (Row α)} {plain : Nat → Row α}
    (each : ∀ i, run answer (row i) = some (plain i)) (index count : Nat) :
    run answer (rowsFrom row index count) = some (Machine.rowsFrom plain index count) := by
  induction count generalizing index with
  | zero => rfl
  | succ count ih =>
    rw [rowsFrom, run_bind, each index, Option.bind_some, Machine.rowsFrom]
    cases plain index with
    | stop => rfl
    | skip => exact ih (index + 1)
    | yield a =>
      dsimp only
      rw [run_bind, ih (index + 1)]
      rfl

end

/-- Two surroundings that answer the questions of one run alike give the same result. -/
theorem run_congr {answer other : ∀ q, A q} {w : Asking Q A α} (same : ∀ q ∈ asked other w, answer q = other q) :
    run answer w = run other w := by
  induction w with
  | fail => rfl
  | done a => rfl
  | ask q next ih =>
    have head : answer q = other q := same q (List.mem_cons_self ..)
    rw [run, run, head]
    apply ih
    intro p member
    exact same p (List.mem_cons_of_mem _ member)

end Asking

end Machine
