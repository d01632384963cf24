import Mathlib.Data.List.Basic

namespace Machine

inductive Formula (α : Type) where
  | leaf (a : α)
  | not (inner : Formula α)
  | and (left right : Formula α)
  | or (left right : Formula α)
deriving DecidableEq

inductive Token (α : Type) where
  | leaf (a : α)
  | bang
  | and
  | or
  | opening
  | closing
deriving DecidableEq

inductive Binding where
  | primary
  | conjunct
  | disjunct
deriving DecidableEq

def Binding.rank : Binding → Nat
  | primary => 0
  | conjunct => 1
  | disjunct => 2

variable {α : Type}

def Formula.value (assignment : α → Bool) : Formula α → Bool
  | leaf a => assignment a
  | not inner => !inner.value assignment
  | and left right => left.value assignment && right.value assignment
  | or left right => left.value assignment || right.value assignment

def Formula.Equiv (e f : Formula α) : Prop := ∀ assignment, e.value assignment = f.value assignment

/-- Parentheses stand where an operator binds less tightly than its place asks. -/
def Formula.tokens : Binding → Formula α → List (Token α)
  | _, leaf a => [.leaf a]
  | _, not inner => .bang :: inner.tokens .primary
  | .primary, and left right =>
    .opening :: (left.tokens .conjunct ++ .and :: right.tokens .conjunct) ++ [.closing]
  | _, and left right => left.tokens .conjunct ++ .and :: right.tokens .conjunct
  | .disjunct, or left right => left.tokens .disjunct ++ .or :: right.tokens .disjunct
  | _, or left right => .opening :: (left.tokens .disjunct ++ .or :: right.tokens .disjunct) ++ [.closing]

/-- A reader by recursive descent: `!` binds tighter than `and`, `and` tighter than `or`. Each call
    goes to a tighter binding or to a shorter list. -/
def readFormula : Binding → List (Token α) → Option (Formula α × List (Token α))
  | .disjunct, ts =>
    match readFormula .conjunct ts with
    | some (left, .or :: rest) =>
      if _shorter : rest.length < ts.length then
        match readFormula .disjunct rest with
        | some (right, rest') => some (.or left right, rest')
        | none => none
      else none
    | other => other
  | .conjunct, ts =>
    match readFormula .primary ts with
    | some (left, .and :: rest) =>
      if _shorter : rest.length < ts.length then
        match readFormula .conjunct rest with
        | some (right, rest') => some (.and left right, rest')
        | none => none
      else none
    | other => other
  | .primary, .leaf a :: rest => some (.leaf a, rest)
  | .primary, .bang :: rest =>
    match readFormula .primary rest with
    | some (inner, rest') => some (.not inner, rest')
    | none => none
  | .primary, .opening :: rest =>
    match readFormula .disjunct rest with
    | some (inner, .closing :: rest') => some (inner, rest')
    | _ => none
  | .primary, _ => none
termination_by binding ts => (ts.length, binding.rank)
decreasing_by all_goals simp_wf; simp_all [Prod.lex_def, Binding.rank]

namespace Formula

theorem Equiv.trans {e f g : Formula α} (first : e.Equiv f) (second : f.Equiv g) : e.Equiv g :=
  fun assignment => (first assignment).trans (second assignment)

theorem Equiv.and {e e' f f' : Formula α} (left : e.Equiv e') (right : f.Equiv f') :
    (Formula.and e f).Equiv (.and e' f') := fun assignment => by simp only [value, left assignment, right assignment]

theorem Equiv.or {e e' f f' : Formula α} (left : e.Equiv e') (right : f.Equiv f') :
    (Formula.or e f).Equiv (.or e' f') := fun assignment => by simp only [value, left assignment, right assignment]

theorem Equiv.not {e f : Formula α} (inner : e.Equiv f) : (Formula.not e).Equiv (.not f) :=
  fun assignment => by simp only [value, inner assignment]

theorem and_assoc (e f g : Formula α) : (Formula.and e (.and f g)).Equiv (.and (.and e f) g) :=
  fun assignment => by simp only [value, Bool.and_assoc]

theorem or_assoc (e f g : Formula α) : (Formula.or e (.or f g)).Equiv (.or (.or e f) g) :=
  fun assignment => by simp only [value, Bool.or_assoc]

end Formula

variable {e : Formula α}

/-- Reading the tokens of a formula back in a place of the given binding: before a token that ends
    the place, and before one more operand of the operator of the place. -/
def ReadsPrimary (e : Formula α) : Prop :=
  ∀ rest, ∃ f, readFormula .primary (e.tokens .primary ++ rest) = some (f, rest) ∧ f.Equiv e

structure ReadsConjunct (e : Formula α) : Prop where
  last : ∀ rest, rest.head? ≠ some .and →
    ∃ f, readFormula .conjunct (e.tokens .conjunct ++ rest) = some (f, rest) ∧ f.Equiv e
  chain : ∀ rest g after, readFormula .conjunct rest = some (g, after) →
    ∃ f, readFormula .conjunct (e.tokens .conjunct ++ .and :: rest) = some (f, after) ∧ f.Equiv (.and e g)

structure ReadsDisjunct (e : Formula α) : Prop where
  last : ∀ rest, rest.head? ≠ some .and → rest.head? ≠ some .or →
    ∃ f, readFormula .disjunct (e.tokens .disjunct ++ rest) = some (f, rest) ∧ f.Equiv e
  chain : ∀ rest g after, readFormula .disjunct rest = some (g, after) →
    ∃ f, readFormula .disjunct (e.tokens .disjunct ++ .or :: rest) = some (f, after) ∧ f.Equiv (.or e g)

theorem ReadsPrimary.conjunct (reads : ReadsPrimary e) (same : e.tokens .conjunct = e.tokens .primary) :
    ReadsConjunct e where
  last rest stop := by
    obtain ⟨f, read, equiv⟩ := reads rest
    refine ⟨f, ?_, equiv⟩
    rw [same, readFormula, read]
    cases rest with
    | nil => rfl
    | cons token rest => cases token <;> first | rfl | exact absurd rfl stop
  chain rest g after tail := by
    obtain ⟨f, read, equiv⟩ := reads (.and :: rest)
    have shorter : rest.length < (e.tokens .primary ++ Token.and :: rest).length := by
      rw [List.length_append, List.length_cons]
      omega
    refine ⟨.and f g, ?_, equiv.and fun _ => rfl⟩
    rw [same, readFormula, read]
    simp only [dif_pos shorter, tail]

theorem ReadsConjunct.disjunct (reads : ReadsConjunct e) (same : e.tokens .disjunct = e.tokens .conjunct) :
    ReadsDisjunct e where
  last rest stop stop' := by
    obtain ⟨f, read, equiv⟩ := reads.last rest stop
    refine ⟨f, ?_, equiv⟩
    rw [same, readFormula, read]
    cases rest with
    | nil => rfl
    | cons token rest => cases token <;> first | rfl | exact absurd rfl stop'
  chain rest g after tail := by
    obtain ⟨f, read, equiv⟩ := reads.last (.or :: rest) (by simp)
    have shorter : rest.length < (e.tokens .conjunct ++ Token.or :: rest).length := by
      rw [List.length_append, List.length_cons]
      omega
    refine ⟨.or f g, ?_, equiv.or fun _ => rfl⟩
    rw [same, readFormula, read]
    simp only [dif_pos shorter, tail]

theorem ReadsConjunct.and {left right : Formula α} (first : ReadsConjunct left) (second : ReadsConjunct right) :
    ReadsConjunct (.and left right) where
  last rest stop := by
    obtain ⟨g, tail, equiv⟩ := second.last rest stop
    obtain ⟨f, read, equiv'⟩ := first.chain _ g rest tail
    refine ⟨f, ?_, equiv'.trans (Formula.Equiv.and (fun _ => rfl) equiv)⟩
    rw [Formula.tokens, List.append_assoc]
    exact read
    all_goals simp
  chain rest g after tail := by
    obtain ⟨h, tail', equiv⟩ := second.chain rest g after tail
    obtain ⟨f, read, equiv'⟩ := first.chain _ h after tail'
    refine ⟨f, ?_, (equiv'.trans (Formula.Equiv.and (fun _ => rfl) equiv)).trans (Formula.and_assoc _ _ _)⟩
    rw [Formula.tokens, List.append_assoc]
    exact read
    all_goals simp

theorem ReadsDisjunct.or {left right : Formula α} (first : ReadsDisjunct left) (second : ReadsDisjunct right) :
    ReadsDisjunct (.or left right) where
  last rest stop stop' := by
    obtain ⟨g, tail, equiv⟩ := second.last rest stop stop'
    obtain ⟨f, read, equiv'⟩ := first.chain _ g rest tail
    refine ⟨f, ?_, equiv'.trans (Formula.Equiv.or (fun _ => rfl) equiv)⟩
    rw [Formula.tokens, List.append_assoc]
    exact read
  chain rest g after tail := by
    obtain ⟨h, tail', equiv⟩ := second.chain rest g after tail
    obtain ⟨f, read, equiv'⟩ := first.chain _ h after tail'
    refine ⟨f, ?_, (equiv'.trans (Formula.Equiv.or (fun _ => rfl) equiv)).trans (Formula.or_assoc _ _ _)⟩
    rw [Formula.tokens, List.append_assoc]
    exact read

theorem ReadsDisjunct.primary (reads : ReadsDisjunct e)
    (closed : e.tokens .primary = .opening :: e.tokens .disjunct ++ [.closing]) : ReadsPrimary e := by
  intro rest
  obtain ⟨f, read, equiv⟩ := reads.last (.closing :: rest) (by simp) (by simp)
  refine ⟨f, ?_, equiv⟩
  rw [closed, List.append_assoc, List.cons_append, readFormula]
  simp only [List.cons_append, List.nil_append, read]

theorem reads_formula (e : Formula α) : ReadsPrimary e ∧ ReadsConjunct e ∧ ReadsDisjunct e := by
  induction e with
  | leaf a =>
    have primary : ReadsPrimary (.leaf a : Formula α) := fun rest => ⟨.leaf a, by
      rw [Formula.tokens, List.singleton_append, readFormula], fun _ => rfl⟩
    have conjunct := primary.conjunct rfl
    exact ⟨primary, conjunct, conjunct.disjunct rfl⟩
  | not inner ih =>
    have primary : ReadsPrimary (.not inner) := by
      intro rest
      obtain ⟨f, read, equiv⟩ := ih.1 rest
      refine ⟨.not f, ?_, equiv.not⟩
      rw [Formula.tokens, List.cons_append, readFormula, read]
    have conjunct := primary.conjunct rfl
    exact ⟨primary, conjunct, conjunct.disjunct rfl⟩
  | and left right ihl ihr =>
    have conjunct := ihl.2.1.and ihr.2.1
    have disjunct := conjunct.disjunct rfl
    exact ⟨disjunct.primary rfl, conjunct, disjunct⟩
  | or left right ihl ihr =>
    have disjunct := ihl.2.2.or ihr.2.2
    have primary := disjunct.primary rfl
    exact ⟨primary, primary.conjunct rfl, disjunct⟩

theorem readFormula_tokens (e : Formula α) :
    ∃ f, readFormula .disjunct (e.tokens .disjunct) = some (f, []) ∧ f.Equiv e := by
  obtain ⟨f, read, equiv⟩ := (reads_formula e).2.2.last [] (by simp) (by simp)
  rw [List.append_nil] at read
  exact ⟨f, read, equiv⟩

end Machine
