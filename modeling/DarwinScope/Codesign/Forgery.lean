import DarwinScope.Codesign.Expressions

namespace DarwinScope.Codesign

open Machine

def Simple : ReqExpr → Prop
  | .ident name => validUtf8 name = true ∧ Fits name
  | .appleAnchor | .appleGenericAnchor => True
  | .and left right | .or left right => Simple left ∧ Simple right
  | .not inner => Simple inner
  | _ => False

/-- The grammar of the texts at a syntax level, with operators nested to at most a depth. -/
inductive Clause : Nat → Nat → Bytes → Prop where
  | identifier {level depth : Nat} {name : Bytes} (valid : validUtf8 name = true) :
    Clause level depth (lit "identifier \"" ++ name ++ lit "\"")
  | anchor {level depth : Nat} : Clause level depth (lit "anchor apple")
  | generic {level depth : Nat} : Clause level depth (lit "anchor apple generic")
  | and {level depth : Nat} {x y : Bytes} (left : Clause slAnd depth x) (right : Clause slAnd depth y) :
    Clause level (depth + 1) (wrap (level < slAnd) (x ++ lit " and " ++ y))
  | or {level depth : Nat} {x y : Bytes} (left : Clause slOr depth x) (right : Clause slOr depth y) :
    Clause level (depth + 1) (wrap (level < slOr) (x ++ lit " or " ++ y))
  | not {level depth : Nat} {x : Bytes} (inner : Clause slPrimary depth x) : Clause level (depth + 1) (lit "! " ++ x)

inductive Continues : Nat → Nat → Bytes → Prop where
  | nothing {level depth : Nat} : Continues level depth []
  | and {level depth : Nat} {x y : Bytes} (bare : slAnd ≤ level) (before : Continues slAnd depth x)
    (right : Clause slAnd depth y) : Continues level (depth + 1) (x ++ lit " and " ++ y)
  | or {level depth : Nat} {x y : Bytes} (bare : slOr ≤ level) (before : Continues slOr depth x)
    (right : Clause slOr depth y) : Continues level (depth + 1) (x ++ lit " or " ++ y)

/-- A quote inside closes an identifier, and a requirement goes on behind it up to the quote at the end. -/
def Forged (s : Bytes) : Prop :=
  ∃ name more, validUtf8 name = true ∧ s ++ lit "\"" = name ++ lit "\"" ++ more ∧ more ≠ [] ∧
    Continues slTop maxRequirementDepth more

/-- No other tree is rendered as the identifier. -/
def Unforged (s : Bytes) : Prop :=
  ∀ e, Simple e → e.height ≤ maxRequirementDepth → ∀ (cursor cursor' : ReqCursor) (tail tail' : Bytes),
    cursor.rest = e.encode ++ tail → cursor'.rest = (ReqExpr.ident s).encode ++ tail' →
    (evalExpression slTop 0 cursor).map Prod.fst = (evalExpression slTop 0 cursor').map Prod.fst → e = .ident s

theorem simple_known {e : ReqExpr} (simple : Simple e) : e.Known := by
  induction e with
  | and left right ihl ihr => exact ⟨ihl simple.1, ihr simple.2⟩
  | or left right ihl ihr => exact ⟨ihl simple.1, ihr simple.2⟩
  | not inner ih => exact ih simple
  | flagged => exact simple
  | _ => exact trivial

theorem simple_formed {e : ReqExpr} (simple : Simple e) : e.WellFormed := by
  induction e with
  | ident name => exact simple.2
  | and left right ihl ihr => exact ⟨ihl simple.1, ihr simple.2⟩
  | or left right ihl ihr => exact ⟨ihl simple.1, ihr simple.2⟩
  | not inner ih => exact ih simple
  | appleAnchor | appleGenericAnchor => exact trivial
  | _ => exact simple.elim

theorem simple_text {e : ReqExpr} (simple : Simple e) (shallow : e.height ≤ maxRequirementDepth) {cursor : ReqCursor}
    {tail : Bytes} (found : cursor.rest = e.encode ++ tail) :
    (evalExpression slTop 0 cursor).map Prod.fst = some (e.render slTop) := by
  rw [reads_expression slTop 0 (simple_known simple) (simple_formed simple) (by omega) cursor tail found]
  rfl

theorem render_ident {name : Bytes} (valid : validUtf8 name = true) (level : Nat) :
    (ReqExpr.ident name).render level = lit "identifier \"" ++ name ++ lit "\"" := by
  rw [ReqExpr.render, utf8Lossy_of_valid valid]

variable {level depth : Nat} {e : ReqExpr}

theorem clause_render (simple : Simple e) (shallow : e.height ≤ depth) : Clause level depth (e.render level) := by
  induction e generalizing level depth with
  | ident name =>
    rw [render_ident simple.1]
    exact .identifier simple.1
  | appleAnchor => exact .anchor
  | appleGenericAnchor => exact .generic
  | and left right ihl ihr =>
    simp only [ReqExpr.height] at shallow
    obtain ⟨below, rfl⟩ : ∃ below, depth = below + 1 := ⟨depth - 1, by omega⟩
    exact .and (ihl simple.1 (by omega)) (ihr simple.2 (by omega))
  | or left right ihl ihr =>
    simp only [ReqExpr.height] at shallow
    obtain ⟨below, rfl⟩ : ∃ below, depth = below + 1 := ⟨depth - 1, by omega⟩
    exact .or (ihl simple.1 (by omega)) (ihr simple.2 (by omega))
  | not inner ih =>
    simp only [ReqExpr.height] at shallow
    obtain ⟨below, rfl⟩ : ∃ below, depth = below + 1 := ⟨depth - 1, by omega⟩
    exact .not (ih simple (by omega))
  | _ => exact simple.elim

theorem wrap_length (paren : Bool) (s : Bytes) : s.length ≤ (wrap paren s).length := by
  cases paren
  · simp [wrap]
  · simp only [wrap, if_true, List.length_append]
    omega

theorem wrap_bare {bound : Nat} (bare : bound ≤ level) (s : Bytes) : wrap (level < bound) s = s := by
  simp [wrap, bare]

theorem clause_tree {x : Bytes} (clause : Clause level depth x) (short : x.length < 2^32) :
    ∃ e, Simple e ∧ e.height ≤ depth ∧ e.render level = x := by
  induction clause with
  | @identifier level depth name valid =>
    simp only [List.length_append] at short
    exact ⟨.ident name, ⟨valid, show name.length < 2^32 by omega⟩, Nat.zero_le _, render_ident valid level⟩
  | anchor => exact ⟨.appleAnchor, trivial, Nat.zero_le _, rfl⟩
  | generic => exact ⟨.appleGenericAnchor, trivial, Nat.zero_le _, rfl⟩
  | @and level depth x y left right ihl ihr =>
    have whole := wrap_length (level < slAnd) (x ++ lit " and " ++ y)
    simp only [List.length_append] at whole
    obtain ⟨first, simpleFirst, shallowFirst, rfl⟩ := ihl (by omega)
    obtain ⟨second, simpleSecond, shallowSecond, rfl⟩ := ihr (by omega)
    refine ⟨.and first second, ⟨simpleFirst, simpleSecond⟩, ?_, rfl⟩
    simp only [ReqExpr.height]
    omega
  | @or level depth x y left right ihl ihr =>
    have whole := wrap_length (level < slOr) (x ++ lit " or " ++ y)
    simp only [List.length_append] at whole
    obtain ⟨first, simpleFirst, shallowFirst, rfl⟩ := ihl (by omega)
    obtain ⟨second, simpleSecond, shallowSecond, rfl⟩ := ihr (by omega)
    refine ⟨.or first second, ⟨simpleFirst, simpleSecond⟩, ?_, rfl⟩
    simp only [ReqExpr.height]
    omega
  | not inner ih =>
    simp only [List.length_append] at short
    obtain ⟨e, simple, shallow, rfl⟩ := ih (by omega)
    refine ⟨.not e, simple, ?_, rfl⟩
    simp only [ReqExpr.height]
    omega

theorem continues_tree {name more : Bytes} (continues : Continues level depth more) (valid : validUtf8 name = true)
    (short : name.length + more.length < 2^32) :
    ∃ e, Simple e ∧ e.height ≤ depth ∧ e.render level = lit "identifier \"" ++ name ++ lit "\"" ++ more ∧
      (more ≠ [] → 0 < e.height) := by
  induction continues with
  | nothing =>
    simp only [List.length_nil, Nat.add_zero] at short
    refine ⟨.ident name, ⟨valid, short⟩, Nat.zero_le _, ?_, fun some => (some rfl).elim⟩
    rw [render_ident valid, List.append_nil]
  | @and level depth x y bare before right ih =>
    simp only [List.length_append] at short
    obtain ⟨first, simpleFirst, shallowFirst, textFirst, -⟩ := ih (by omega)
    obtain ⟨second, simpleSecond, shallowSecond, rfl⟩ := clause_tree right (by omega)
    refine ⟨.and first second, ⟨simpleFirst, simpleSecond⟩, ?_, ?_, fun _ => Nat.succ_pos _⟩
    · simp only [ReqExpr.height]
      omega
    · rw [ReqExpr.render, wrap_bare bare, textFirst]
      simp only [List.append_assoc]
  | @or level depth x y bare before right ih =>
    simp only [List.length_append] at short
    obtain ⟨first, simpleFirst, shallowFirst, textFirst, -⟩ := ih (by omega)
    obtain ⟨second, simpleSecond, shallowSecond, rfl⟩ := clause_tree right (by omega)
    refine ⟨.or first second, ⟨simpleFirst, simpleSecond⟩, ?_, ?_, fun _ => Nat.succ_pos _⟩
    · simp only [ReqExpr.height]
      omega
    · rw [ReqExpr.render, wrap_bare bare, textFirst]
      simp only [List.append_assoc]

def StartsAsIdentifier (level depth : Nat) (e : ReqExpr) : Prop :=
  ∃ name more, e.render level = lit "identifier \"" ++ (name ++ lit "\"" ++ more) ∧ validUtf8 name = true ∧
    Continues level depth more ∧ (more = [] → e = .ident name)

def StartsOtherwise (level : Nat) (e : ReqExpr) : Prop := ∃ byte rest, e.render level = byte :: rest ∧ byte ≠ 0x69#8

/-- An operator and its right operand put behind a text do not change how it begins. -/
theorem start_joined {left : ReqExpr} {inner below : Nat} {operator y : Bytes}
    (text : e.render level = left.render inner ++ operator ++ y) (some : operator ≠ [])
    (grow : ∀ {more : Bytes}, Continues inner below more → Continues level depth (more ++ operator ++ y))
    (first : StartsAsIdentifier inner below left ∨ StartsOtherwise inner left) :
    StartsAsIdentifier level depth e ∨ StartsOtherwise level e := by
  rcases first with ⟨name, more, start, valid, continues, -⟩ | ⟨byte, rest, start, other⟩
  · left
    refine ⟨name, more ++ operator ++ y, ?_, valid, grow continues, fun none => ?_⟩
    · rw [text, start]
      simp only [List.append_assoc]
    · simp [some] at none
  · right
    refine ⟨byte, rest ++ operator ++ y, ?_, other⟩
    rw [text, start]
    rfl

theorem start_wrapped {bound : Nat} {inner : Bytes} (text : e.render level = wrap (level < bound) inner)
    (tight : ¬ bound ≤ level) : StartsOtherwise level e := by
  refine ⟨0x28#8, inner ++ lit ")", ?_, by decide⟩
  rw [text, decide_eq_true (Nat.lt_of_not_le tight)]
  rfl

theorem render_start (simple : Simple e) (shallow : e.height ≤ depth) :
    StartsAsIdentifier level depth e ∨ StartsOtherwise level e := by
  induction e generalizing level depth with
  | ident name =>
    left
    refine ⟨name, [], ?_, simple.1, .nothing, fun _ => rfl⟩
    rw [render_ident simple.1, List.append_nil, List.append_assoc]
  | appleAnchor | appleGenericAnchor => exact .inr ⟨0x61#8, _, rfl, by decide⟩
  | not inner ih => exact .inr ⟨0x21#8, _, rfl, by decide⟩
  | and left right ihl ihr =>
    by_cases bare : slAnd ≤ level
    · simp only [ReqExpr.height] at shallow
      obtain ⟨below, rfl⟩ : ∃ below, depth = below + 1 := ⟨depth - 1, by omega⟩
      refine start_joined ?_ (by decide) (fun first => .and bare first (clause_render simple.2 (by omega)))
        (@ihl slAnd below simple.1 (by omega))
      rw [ReqExpr.render, wrap_bare bare]
    · exact .inr (start_wrapped rfl bare)
  | or left right ihl ihr =>
    by_cases bare : slOr ≤ level
    · simp only [ReqExpr.height] at shallow
      obtain ⟨below, rfl⟩ : ∃ below, depth = below + 1 := ⟨depth - 1, by omega⟩
      refine start_joined ?_ (by decide) (fun first => .or bare first (clause_render simple.2 (by omega)))
        (@ihl slOr below simple.1 (by omega))
      rw [ReqExpr.render, wrap_bare bare]
    · exact .inr (start_wrapped rfl bare)
  | _ => exact simple.elim

theorem encode_short (simple : Simple e) : e.encode.length ≤ 2 * (e.render level).length := by
  induction e generalizing level with
  | ident name =>
    rw [render_ident simple.1]
    simp only [ReqExpr.encode, List.length_append, encodeWord_length, encodeData_length,
      show (lit "identifier \"").length = 12 from rfl, show (lit "\"").length = 1 from rfl]
    omega
  | appleAnchor | appleGenericAnchor => exact Nat.le_of_ble_eq_true rfl
  | and left right ihl ihr =>
    have first := @ihl slAnd simple.1
    have second := @ihr slAnd simple.2
    have whole := wrap_length (level < slAnd) (left.render slAnd ++ lit " and " ++ right.render slAnd)
    simp only [List.length_append, show (lit " and ").length = 5 from rfl] at whole
    simp only [ReqExpr.encode, ReqExpr.render, List.length_append, encodeWord_length]
    omega
  | or left right ihl ihr =>
    have first := @ihl slOr simple.1
    have second := @ihr slOr simple.2
    have whole := wrap_length (level < slOr) (left.render slOr ++ lit " or " ++ right.render slOr)
    simp only [List.length_append, show (lit " or ").length = 4 from rfl] at whole
    simp only [ReqExpr.encode, ReqExpr.render, List.length_append, encodeWord_length]
    omega
  | not inner ih =>
    have first := @ih slPrimary simple
    simp only [ReqExpr.encode, ReqExpr.render, List.length_append, encodeWord_length, show (lit "! ").length = 2 from rfl]
    omega
  | _ => exact simple.elim

/-- A text that fits a length word is the text of a tree with an encoding in memory. -/
theorem cursor_exists (simple : Simple e) (short : (e.render level).length < 2^33) :
    ∃ cursor : ReqCursor, cursor.rest = e.encode ++ [] := by
  have small := @encode_short level e simple
  exact ⟨⟨⟨0, e.encode, by omega⟩, 0⟩, (List.append_nil _).symm⟩

theorem unforged_of_not_forged {s : Bytes} (valid : validUtf8 s = true) (fits : Fits s) (none : ¬ Forged s) :
    Unforged s := by
  intro e simple shallow cursor cursor' tail tail' found found' same
  rw [simple_text simple shallow found, @simple_text (.ident s) ⟨valid, fits⟩ (Nat.zero_le _) _ _ found',
    Option.some.injEq, render_ident valid, List.append_assoc] at same
  rcases @render_start slTop maxRequirementDepth e simple shallow with ⟨name, more, text, named, continues, only⟩ | other
  · have equal := List.append_cancel_left (text.symm.trans same)
    by_cases empty : more = []
    · rw [empty, List.append_nil] at equal
      rw [only empty, List.append_cancel_right equal]
    · exact absurd ⟨name, more, named, equal.symm, empty, continues⟩ none
  · rcases other with ⟨byte, rest, text, other⟩
    rw [text, show lit "identifier \"" = 0x69#8 :: lit "dentifier \"" from rfl, List.cons_append, List.cons.injEq] at same
    exact absurd same.1 other

theorem not_forged_of_unforged {s : Bytes} (valid : validUtf8 s = true) (fits : Fits s) (unforged : Unforged s) :
    ¬ Forged s := by
  rintro ⟨name, more, named, split, some, continues⟩
  have fits' : s.length < 2^32 := fits
  have lengths := congrArg List.length split
  simp only [List.length_append] at lengths
  rcases continues_tree continues named (by omega) with ⟨e, simple, shallow, text, nested⟩
  have text' : e.render slTop = (ReqExpr.ident s).render slTop := by
    rw [text, render_ident valid, List.append_assoc, List.append_assoc, List.append_assoc, split, List.append_assoc]
  have length : ((ReqExpr.ident s).render slTop).length = s.length + 13 := by
    rw [render_ident valid, List.length_append, List.length_append, show (lit "identifier \"").length = 12 from rfl,
      show (lit "\"").length = 1 from rfl]
    omega
  rcases cursor_exists simple (show (e.render slTop).length < 2^33 by rw [text', length]; omega) with ⟨cursor, found⟩
  have simple' : Simple (.ident s) := ⟨valid, fits⟩
  rcases cursor_exists simple' (show ((ReqExpr.ident s).render slTop).length < 2^33 by omega) with ⟨cursor', found'⟩
  have same : e = .ident s := by
    apply unforged e simple shallow cursor cursor' [] [] found found'
    rw [simple_text simple shallow found, simple_text simple' (Nat.zero_le _) found', text']
  rw [same] at nested
  exact absurd (nested some) (Nat.lt_irrefl 0)

theorem not_forged_of_no_quote {s : Bytes} (clean : 0x22#8 ∉ s) : ¬ Forged s := by
  rintro ⟨name, more, -, split, some, -⟩
  rw [List.append_assoc, List.append_eq_append_iff] at split
  rcases split with ⟨before, rfl, rest⟩ | ⟨before, rfl, rest⟩
  · cases before with
    | nil =>
      rw [List.nil_append] at rest
      exact some (List.append_right_eq_self.mp rest.symm)
    | cons byte before =>
      have length := congrArg List.length rest
      have quotes : (lit "\"").length = 1 := rfl
      simp only [List.length_append, List.length_cons, quotes] at length
      omega
  · cases before with
    | nil =>
      rw [List.nil_append] at rest
      exact some (List.append_right_eq_self.mp rest)
    | cons byte before =>
      have head : 0x22#8 = byte := (List.cons.inj rest).1
      exact clean (by rw [head]; simp)

/-- No other tree is rendered as an identifier exactly when no quote inside it closes the identifier and lets a
    requirement go on behind. -/
theorem requirement_text_forged_iff (s : Bytes) (valid : validUtf8 s = true) (fits : Fits s) : Unforged s ↔ ¬ Forged s :=
  ⟨not_forged_of_unforged valid fits, unforged_of_not_forged valid fits⟩

theorem requirement_text_forged_iff_name : Unforged (lit "com.example.tool") :=
  (requirement_text_forged_iff (lit "com.example.tool") (by decide +kernel) (by decide +kernel)).mpr
    (not_forged_of_no_quote (by decide +kernel))

def forgedName : Bytes := lit "a\" and identifier \"b"

def impersonated : ReqExpr := .and (.ident (lit "a")) (.ident (lit "b"))

theorem forged_name_renders_as_and : ¬ Unforged forgedName := by
  intro unforged
  have simple : Simple impersonated := by
    simp only [impersonated, Simple]
    decide
  have simple' : Simple (.ident forgedName) := by
    simp only [Simple]
    decide +kernel
  have same := unforged impersonated simple (by decide) ⟨⟨0, impersonated.encode, by decide⟩, 0⟩
    ⟨⟨0, (ReqExpr.ident forgedName).encode, by decide +kernel⟩, 0⟩ [] [] (List.append_nil _).symm (List.append_nil _).symm
  rw [simple_text simple (by decide) (List.append_nil _).symm,
    simple_text simple' (Nat.zero_le _) (List.append_nil _).symm] at same
  exact absurd (same (by decide +kernel)) (by decide)

end DarwinScope.Codesign
