import DarwinScope.Machine.Precedence
import DarwinScope.Codesign.Expressions

namespace DarwinScope.Codesign

open Machine

inductive Lexeme where
  | opening
  | closing
  | bang
  | word (text : Bytes)
deriving DecidableEq

def flush (word : Bytes) : List Lexeme := if word = [] then [] else [.word word]

def lexFrom (word : Bytes) : Bytes → List Lexeme
  | [] => flush word
  | byte :: rest =>
    if byte = 0x20#8 then flush word ++ lexFrom [] rest
    else if byte = 0x28#8 then flush word ++ .opening :: lexFrom [] rest
    else if byte = 0x29#8 then flush word ++ .closing :: lexFrom [] rest
    else if byte = 0x21#8 then flush word ++ .bang :: lexFrom [] rest
    else lexFrom (word ++ [byte]) rest

def delimiter (byte : U8) : Bool := byte = 0x20#8 || byte = 0x28#8 || byte = 0x29#8 || byte = 0x21#8

def quoted (opening text : Bytes) : Option Bytes := do
  let rest ← stripPrefix? opening text
  if rest.getLast? = some 0x22#8 then some rest.dropLast else none

def unhexDigit (digit : U8) : Option Nat :=
  if 48 ≤ digit.toNat ∧ digit.toNat ≤ 57 then some (digit.toNat - 48)
  else if 97 ≤ digit.toNat ∧ digit.toNat ≤ 102 then some (digit.toNat - 87)
  else none

def unhex : Bytes → Option Bytes
  | [] => some []
  | high :: low :: rest => do
    let h ← unhexDigit high
    let l ← unhexDigit low
    let bytes ← unhex rest
    some (BitVec.ofNat 8 (16 * h + l) :: bytes)
  | [_] => none

def readLeaf : List Lexeme → Option (ReqExpr × List Lexeme)
  | .word first :: rest =>
    if first = lit "never" then some (.never, rest)
    else if first = lit "always" then some (.always, rest)
    else if first = lit "identifier" then
      match rest with
      | .word name :: rest => (quoted (lit "\"") name).map fun name => (.ident name, rest)
      | _ => none
    else if first = lit "cdhash" then
      match rest with
      | .word hash :: rest => ((quoted (lit "H\"") hash).bind unhex).map fun hash => (.cdHash hash, rest)
      | _ => none
    else if first = lit "anchor" then
      match rest with
      | .word second :: rest =>
        if second = lit "apple" then
          match rest with
          | .word third :: rest =>
            if third = lit "generic" then some (.appleGenericAnchor, rest)
            else some (.appleAnchor, .word third :: rest)
          | rest => some (.appleAnchor, rest)
        else none
      | _ => none
    else none
  | _ => none

def readTokens : List Lexeme → Option (List (Token ReqExpr))
  | [] => some []
  | .opening :: rest => (readTokens rest).map (.opening :: ·)
  | .closing :: rest => (readTokens rest).map (.closing :: ·)
  | .bang :: rest => (readTokens rest).map (.bang :: ·)
  | .word text :: rest =>
    if text = lit "and" then (readTokens rest).map (.and :: ·)
    else if text = lit "or" then (readTokens rest).map (.or :: ·)
    else
      match readLeaf (.word text :: rest) with
      | some (leaf, rest') =>
        if _shorter : rest'.length < rest.length + 1 then (readTokens rest').map (.leaf leaf :: ·) else none
      | none => none
termination_by lexemes => lexemes.length

def readRequirement (text : Bytes) : Option (Formula ReqExpr) := do
  let tokens ← readTokens (lexFrom [] text)
  match readFormula .disjunct tokens with
  | some (formula, []) => some formula
  | _ => none

namespace ReqExpr

def formula : ReqExpr → Formula ReqExpr
  | and left right => .and left.formula right.formula
  | or left right => .or left.formula right.formula
  | not inner => .not inner.formula
  | leaf => .leaf leaf

def truth (assignment : ReqExpr → Bool) : ReqExpr → Bool
  | and left right => left.truth assignment && right.truth assignment
  | or left right => left.truth assignment || right.truth assignment
  | not inner => !inner.truth assignment
  | leaf => assignment leaf

end ReqExpr

def nameByte (byte : U8) : Bool :=
  (0x61#8 ≤ byte && byte ≤ 0x7a#8) || (0x41#8 ≤ byte && byte ≤ 0x5a#8) || (0x30#8 ≤ byte && byte ≤ 0x39#8) ||
    byte = 0x2e#8 || byte = 0x2d#8

/-- Trees over the constants, the identifier, the two Apple anchors, the code hash and the operators. -/
def Plain : ReqExpr → Prop
  | .never | .always | .appleAnchor | .appleGenericAnchor | .cdHash _ => True
  | .ident name => ∀ byte ∈ name, nameByte byte = true
  | .and left right | .or left right => Plain left ∧ Plain right
  | .not inner => Plain inner
  | _ => False

theorem ReqExpr.formula_value (assignment : ReqExpr → Bool) (e : ReqExpr) :
    e.formula.value assignment = e.truth assignment := by
  induction e with
  | and left right ihl ihr => simp only [formula, Formula.value, truth, ihl, ihr]
  | or left right ihl ihr => simp only [formula, Formula.value, truth, ihl, ihr]
  | not inner ih => simp only [formula, Formula.value, truth, ih]
  | _ => rfl

theorem plain_known {e : ReqExpr} (plain : Plain e) : e.Known := by
  induction e with
  | and left right ihl ihr => exact ⟨ihl plain.1, ihr plain.2⟩
  | or left right ihl ihr => exact ⟨ihl plain.1, ihr plain.2⟩
  | not inner ih => exact ih plain
  | flagged => exact plain
  | _ => exact trivial

def Ends (rest : Bytes) : Prop := ∀ byte ∈ rest.head?, delimiter byte = true

def IsWord (word : Bytes) : Prop := word ≠ [] ∧ ∀ byte ∈ word, delimiter byte = false

instance (word : Bytes) : Decidable (IsWord word) := inferInstanceAs (Decidable (_ ∧ _))

theorem lexFrom_word {text rest : Bytes} (word : Bytes) (inside : ∀ byte ∈ text, delimiter byte = false) :
    lexFrom word (text ++ rest) = lexFrom (word ++ text) rest := by
  induction text generalizing word with
  | nil => rw [List.nil_append, List.append_nil]
  | cons byte text ih =>
    have head := inside byte (List.mem_cons_self ..)
    have tail := ih (word ++ [byte]) fun b member => inside b (List.mem_cons_of_mem _ member)
    simp only [delimiter, Bool.or_eq_false_iff, decide_eq_false_iff_not] at head
    rw [List.cons_append, lexFrom, if_neg head.1.1.1, if_neg head.1.1.2, if_neg head.1.2, if_neg head.2, tail,
      List.append_assoc, List.singleton_append]

theorem lexFrom_flush {word rest : Bytes} (ends : Ends rest) : lexFrom word rest = flush word ++ lexFrom [] rest := by
  cases rest with
  | nil => simp [lexFrom, flush]
  | cons byte rest =>
    have stop := ends byte rfl
    simp only [delimiter, Bool.or_eq_true, decide_eq_true_eq] at stop
    rcases stop with ((rfl | rfl) | rfl) | rfl <;> simp [lexFrom, flush]

theorem lex_word {word rest : Bytes} (isWord : IsWord word) (ends : Ends rest) :
    lexFrom [] (word ++ rest) = .word word :: lexFrom [] rest := by
  rw [lexFrom_word [] isWord.2, List.nil_append, lexFrom_flush ends, flush, if_neg isWord.1, List.singleton_append]

theorem lex_space (rest : Bytes) : lexFrom [] (0x20#8 :: rest) = lexFrom [] rest := rfl

theorem lex_opening (rest : Bytes) : lexFrom [] (0x28#8 :: rest) = .opening :: lexFrom [] rest := rfl

theorem lex_closing (rest : Bytes) : lexFrom [] (0x29#8 :: rest) = .closing :: lexFrom [] rest := rfl

theorem lex_bang (rest : Bytes) : lexFrom [] (0x21#8 :: rest) = .bang :: lexFrom [] rest := rfl

theorem ends_delimiter {byte : U8} {rest : Bytes} (stop : delimiter byte = true) : Ends (byte :: rest) := by
  intro b head
  cases head
  exact stop

def leafWords : ReqExpr → List Bytes
  | .never => [lit "never"]
  | .always => [lit "always"]
  | .ident name => [lit "identifier", lit "\"" ++ name ++ lit "\""]
  | .appleAnchor => [lit "anchor", lit "apple"]
  | .appleGenericAnchor => [lit "anchor", lit "apple", lit "generic"]
  | .cdHash hash => [lit "cdhash", lit "H\"" ++ hexBytes hash ++ lit "\""]
  | _ => []

def lexemes : Token ReqExpr → List Lexeme
  | .leaf e => (leafWords e).map .word
  | .and => [.word (lit "and")]
  | .or => [.word (lit "or")]
  | .bang => [.bang]
  | .opening => [.opening]
  | .closing => [.closing]

def spaced : List Bytes → Bytes
  | [] => []
  | [word] => word
  | word :: words => word ++ 0x20#8 :: spaced words

theorem lex_spaced {words : List Bytes} {rest : Bytes} (areWords : ∀ word ∈ words, IsWord word) (ends : Ends rest) :
    lexFrom [] (spaced words ++ rest) = words.map .word ++ lexFrom [] rest := by
  induction words with
  | nil => rfl
  | cons word words ih =>
    have head := areWords word (List.mem_cons_self ..)
    have tail := ih fun w member => areWords w (List.mem_cons_of_mem _ member)
    cases words with
    | nil => exact lex_word head ends
    | cons next words =>
      rw [spaced, List.append_assoc, List.cons_append, lex_word head (ends_delimiter (by decide)), lex_space, tail]
      · rfl
      · exact List.cons_ne_nil _ _

theorem hexDigit_spec : ∀ n < 16, delimiter (hexDigit n) = false ∧ unhexDigit (hexDigit n) = some n := by decide

theorem hexBytes_digits {bytes : Bytes} {digit : U8} (member : digit ∈ hexBytes bytes) : ∃ n < 16, digit = hexDigit n := by
  obtain ⟨byte, -, digits⟩ := List.mem_flatMap.mp member
  have bound := byte.isLt
  rcases List.mem_pair.mp digits with rfl | rfl
  · exact ⟨byte.toNat / 16, by omega, rfl⟩
  · exact ⟨byte.toNat % 16, by omega, rfl⟩

theorem unhex_hexBytes (bytes : Bytes) : unhex (hexBytes bytes) = some bytes := by
  induction bytes with
  | nil => rfl
  | cons byte bytes ih =>
    have bound := byte.isLt
    have high := (hexDigit_spec (byte.toNat / 16) (by omega)).2
    have low := (hexDigit_spec (byte.toNat % 16) (by omega)).2
    have whole : 16 * (byte.toNat / 16) + byte.toNat % 16 = byte.toNat := by omega
    rw [hexBytes, List.flatMap_cons, ← hexBytes, List.cons_append, List.cons_append, List.nil_append, unhex, high, low]
    simp [ih, whole]

theorem quoted_quotes (opening text : Bytes) : quoted opening (opening ++ text ++ lit "\"") = some text := by
  have start : opening.isPrefixOf (opening ++ (text ++ lit "\"")) = true := by simp
  have last : (text ++ lit "\"").getLast? = some 0x22#8 := List.getLast?_concat
  have body : (text ++ lit "\"").dropLast = text := List.dropLast_concat
  rw [List.append_assoc]
  simp only [quoted, stripPrefix?, start, if_true, List.drop_left, Option.bind_eq_bind, Option.bind_some, last, body]

theorem nameByte_spec {byte : U8} (name : nameByte byte = true) : byte ≤ 0x7f#8 ∧ delimiter byte = false := by
  revert byte
  decide +kernel

theorem isWord_quotes {opening text : Bytes} (first : IsWord opening)
    (inside : ∀ byte ∈ text, delimiter byte = false) : IsWord (opening ++ text ++ lit "\"") := by
  refine ⟨by simp [first.1], fun byte member => ?_⟩
  rcases List.mem_append.mp member with member | member
  · rcases List.mem_append.mp member with member | member
    · exact first.2 _ member
    · exact inside _ member
  · rw [show lit "\"" = [0x22#8] from rfl, List.mem_singleton] at member
    rw [member]
    rfl

theorem render_leaf {e : ReqExpr} (level : Nat) (plain : Plain e) (leaf : e.height = 0) :
    e.render level = spaced (leafWords e) ∧ ∀ word ∈ leafWords e, IsWord word := by
  cases e with
  | never | always | appleAnchor | appleGenericAnchor => exact ⟨rfl, by decide +kernel⟩
  | ident name =>
    have ascii : utf8Lossy name = name := utf8Lossy_ascii fun byte member => (nameByte_spec (plain byte member)).1
    refine ⟨by rw [ReqExpr.render, ascii]; rfl, ?_⟩
    have quotes : IsWord (lit "\"" ++ name ++ lit "\"") :=
      isWord_quotes (by decide +kernel) fun byte member => (nameByte_spec (plain byte member)).2
    simp only [leafWords, List.mem_pair, forall_eq_or_imp, forall_eq]
    exact ⟨by decide +kernel, quotes⟩
  | cdHash hash =>
    refine ⟨rfl, ?_⟩
    have quotes : IsWord (lit "H\"" ++ hexBytes hash ++ lit "\"") := by
      refine isWord_quotes (by decide +kernel) fun byte member => ?_
      obtain ⟨n, small, rfl⟩ := hexBytes_digits member
      exact (hexDigit_spec n small).1
    simp only [leafWords, List.mem_pair, forall_eq_or_imp, forall_eq]
    exact ⟨by decide +kernel, quotes⟩
  | and | or | not => cases leaf
  | _ => exact plain.elim

def bindingOf : Nat → Binding
  | 0 => .primary
  | 1 => .conjunct
  | _ => .disjunct

def lexemesOf (tokens : List (Token ReqExpr)) : List Lexeme := tokens.flatMap lexemes

theorem lexemesOf_cons (token : Token ReqExpr) (tokens : List (Token ReqExpr)) :
    lexemesOf (token :: tokens) = lexemes token ++ lexemesOf tokens := List.flatMap_cons

theorem lex_joined {left right word : Bytes} {first second : List Lexeme} (isWord : IsWord word)
    (readLeft : ∀ rest, Ends rest → lexFrom [] (left ++ rest) = first ++ lexFrom [] rest)
    (readRight : ∀ rest, Ends rest → lexFrom [] (right ++ rest) = second ++ lexFrom [] rest) {rest : Bytes}
    (ends : Ends rest) :
    lexFrom [] (left ++ 0x20#8 :: (word ++ [0x20#8]) ++ right ++ rest) =
      first ++ .word word :: second ++ lexFrom [] rest := by
  have middle : lexFrom [] (word ++ 0x20#8 :: (right ++ rest)) = .word word :: lexFrom [] (right ++ rest) := by
    rw [lex_word isWord (ends_delimiter rfl), lex_space]
  rw [List.append_assoc, List.append_assoc, List.cons_append, readLeft _ (ends_delimiter rfl), lex_space,
    List.append_assoc, List.singleton_append, middle, readRight rest ends, List.append_assoc, List.cons_append]

theorem lex_wrap {inner rest : Bytes} {body : List Lexeme} (paren : Bool)
    (read : ∀ rest, Ends rest → lexFrom [] (inner ++ rest) = body ++ lexFrom [] rest) (ends : Ends rest) :
    lexFrom [] (wrap paren inner ++ rest) =
      (if paren then .opening :: body ++ [.closing] else body) ++ lexFrom [] rest := by
  cases paren with
  | false => exact read rest ends
  | true =>
    have text : wrap true inner ++ rest = 0x28#8 :: (inner ++ 0x29#8 :: rest) := by
      simp only [wrap, if_true]
      rw [show lit "(" = [0x28#8] from rfl, show lit ")" = [0x29#8] from rfl]
      simp
    rw [text, lex_opening, read _ (ends_delimiter rfl), lex_closing]
    simp

theorem lexemesOf_and (left right : Formula ReqExpr) (level : Nat) :
    lexemesOf ((left.and right).tokens (bindingOf level)) =
      if decide (level < slAnd) then
        .opening :: (lexemesOf (left.tokens .conjunct) ++ .word (lit "and") :: lexemesOf (right.tokens .conjunct)) ++
          [.closing]
      else lexemesOf (left.tokens .conjunct) ++ .word (lit "and") :: lexemesOf (right.tokens .conjunct) := by
  match level with
  | 0 => simp [bindingOf, Formula.tokens, lexemes, lexemesOf, slAnd]
  | 1 => simp [bindingOf, Formula.tokens, lexemes, lexemesOf, slAnd]
  | level + 2 => simp [bindingOf, Formula.tokens, lexemes, lexemesOf, slAnd]

theorem lexemesOf_or (left right : Formula ReqExpr) (level : Nat) :
    lexemesOf ((left.or right).tokens (bindingOf level)) =
      if decide (level < slOr) then
        .opening :: (lexemesOf (left.tokens .disjunct) ++ .word (lit "or") :: lexemesOf (right.tokens .disjunct)) ++
          [.closing]
      else lexemesOf (left.tokens .disjunct) ++ .word (lit "or") :: lexemesOf (right.tokens .disjunct) := by
  match level with
  | 0 => simp [bindingOf, Formula.tokens, lexemes, lexemesOf, slOr]
  | 1 => simp [bindingOf, Formula.tokens, lexemes, lexemesOf, slOr]
  | level + 2 => simp [bindingOf, Formula.tokens, lexemes, lexemesOf, slOr]

theorem lex_leaf {e : ReqExpr} (plain : Plain e) (leaf : e.height = 0) (level : Nat) {rest : Bytes}
    (ends : Ends rest) : lexFrom [] (e.render level ++ rest) = lexemesOf [.leaf e] ++ lexFrom [] rest := by
  obtain ⟨text, areWords⟩ := render_leaf level plain leaf
  rw [text, lex_spaced areWords ends, lexemesOf, List.flatMap_singleton, lexemes]

theorem lex_render {e : ReqExpr} (plain : Plain e) (level : Nat) {rest : Bytes} (ends : Ends rest) :
    lexFrom [] (e.render level ++ rest) = lexemesOf (e.formula.tokens (bindingOf level)) ++ lexFrom [] rest := by
  induction e generalizing level rest with
  | and left right ihl ihr =>
    have operator : lit " and " = 0x20#8 :: (lit "and" ++ [0x20#8]) := rfl
    rw [ReqExpr.render, operator, ReqExpr.formula, lexemesOf_and]
    refine lex_wrap _ (fun rest ends => ?_) ends
    exact lex_joined (by decide) (fun _ => ihl plain.1 slAnd) (fun _ => ihr plain.2 slAnd) ends
  | or left right ihl ihr =>
    have operator : lit " or " = 0x20#8 :: (lit "or" ++ [0x20#8]) := rfl
    rw [ReqExpr.render, operator, ReqExpr.formula, lexemesOf_or]
    refine lex_wrap _ (fun rest ends => ?_) ends
    exact lex_joined (by decide) (fun _ => ihl plain.1 slOr) (fun _ => ihr plain.2 slOr) ends
  | not inner ih =>
    have text : (ReqExpr.not inner).render level ++ rest = 0x21#8 :: 0x20#8 :: (inner.render slPrimary ++ rest) := rfl
    rw [text, lex_bang, lex_space, ih plain slPrimary ends, ReqExpr.formula, Formula.tokens, lexemesOf_cons]
    rfl
  | flagged => exact plain.elim
  | _ => exact lex_leaf plain rfl level ends

def PlainLeaf (e : ReqExpr) : Prop := Plain e ∧ e.height = 0

theorem tokens_leaves {e : ReqExpr} (plain : Plain e) (binding : Binding) {leaf : ReqExpr}
    (member : Token.leaf leaf ∈ e.formula.tokens binding) : PlainLeaf leaf := by
  induction e generalizing binding with
  | and left right ihl ihr =>
    cases binding <;> simp only [ReqExpr.formula, Formula.tokens, List.mem_append, List.mem_cons, reduceCtorEq,
      false_or, List.not_mem_nil, or_false, List.cons_append] at member <;>
      exact member.elim (ihl plain.1 _) (ihr plain.2 _)
  | or left right ihl ihr =>
    cases binding <;> simp only [ReqExpr.formula, Formula.tokens, List.mem_append, List.mem_cons, reduceCtorEq,
      false_or, List.not_mem_nil, or_false, List.cons_append] at member <;>
      exact member.elim (ihl plain.1 _) (ihr plain.2 _)
  | not inner ih =>
    rw [ReqExpr.formula, Formula.tokens, List.mem_cons] at member
    exact ih plain _ (member.resolve_left (by simp))
  | flagged => exact plain.elim
  | _ =>
    simp only [ReqExpr.formula, Formula.tokens, List.mem_singleton, Token.leaf.injEq] at member
    exact member ▸ ⟨plain, rfl⟩

theorem lexemesOf_head (tokens : List (Token ReqExpr)) (plain : ∀ leaf, Token.leaf leaf ∈ tokens → PlainLeaf leaf) :
    (lexemesOf tokens).head? ≠ some (.word (lit "generic")) := by
  cases tokens with
  | nil => simp [lexemesOf]
  | cons token tokens =>
    rw [lexemesOf_cons]
    cases token with
    | leaf e =>
      obtain ⟨plain, leaf⟩ := plain e (List.mem_cons_self ..)
      cases e with
      | never | always | appleAnchor | appleGenericAnchor | ident | cdHash => simp +decide [lexemes, leafWords]
      | and | or | not => cases leaf
      | _ => exact plain.elim
    | _ => simp +decide [lexemes]

theorem readLeaf_words {e : ReqExpr} {rest : List Lexeme} (plainLeaf : PlainLeaf e)
    (next : rest.head? ≠ some (.word (lit "generic"))) :
    readLeaf ((leafWords e).map .word ++ rest) = some (e, rest) := by
  obtain ⟨plain, leaf⟩ := plainLeaf
  cases e with
  | never => rfl
  | always => rfl
  | ident name =>
    have name? := quoted_quotes (lit "\"") name
    simp only [leafWords, List.map_cons, List.cons_append, readLeaf, name?]
    rfl
  | appleAnchor =>
    cases rest with
    | nil => rfl
    | cons lexeme rest =>
      cases lexeme with
      | word text =>
        have other : text ≠ lit "generic" := fun same => next (by rw [same]; rfl)
        simp +decide [leafWords, readLeaf, other]
      | _ => rfl
  | appleGenericAnchor => rfl
  | cdHash hash =>
    have hash? := quoted_quotes (lit "H\"") (hexBytes hash)
    simp only [leafWords, List.map_cons, List.cons_append, readLeaf, hash?, Option.bind_some, unhex_hexBytes]
    rfl
  | and | or | not => cases leaf
  | _ => exact plain.elim

theorem leafWords_first {e : ReqExpr} (plainLeaf : PlainLeaf e) :
    ∃ word words, leafWords e = word :: words ∧ word ≠ lit "and" ∧ word ≠ lit "or" := by
  obtain ⟨plain, leaf⟩ := plainLeaf
  cases e with
  | never | always | appleAnchor | appleGenericAnchor | ident | cdHash =>
    exact ⟨_, _, rfl, by decide, by decide⟩
  | and | or | not => cases leaf
  | _ => exact plain.elim

theorem readTokens_lexemes {tokens : List (Token ReqExpr)} (plain : ∀ leaf, Token.leaf leaf ∈ tokens → PlainLeaf leaf) :
    readTokens (lexemesOf tokens) = some tokens := by
  induction tokens with
  | nil => rw [lexemesOf, List.flatMap_nil, readTokens]
  | cons token tokens ih =>
    have later : ∀ leaf, Token.leaf leaf ∈ tokens → PlainLeaf leaf :=
      fun leaf member => plain leaf (List.mem_cons_of_mem _ member)
    have tail := ih later
    rw [lexemesOf_cons]
    cases token with
    | leaf e =>
      have plainLeaf := plain e (List.mem_cons_self ..)
      have read := readLeaf_words plainLeaf (lexemesOf_head tokens later)
      obtain ⟨word, words, split, notAnd, notOr⟩ := leafWords_first plainLeaf
      rw [split, List.map_cons, List.cons_append] at read
      rw [lexemes, split, List.map_cons, List.cons_append, readTokens, if_neg notAnd, if_neg notOr, read]
      have shorter : (lexemesOf tokens).length < (words.map Lexeme.word ++ lexemesOf tokens).length + 1 := by
        rw [List.length_append]
        omega
      simp only [dif_pos shorter, tail, Option.map_some]
    | and =>
      rw [lexemes, List.singleton_append, readTokens, if_pos rfl, tail, Option.map_some]
    | or =>
      rw [lexemes, List.singleton_append, readTokens, if_neg (by decide), if_pos rfl, tail, Option.map_some]
    | _ => rw [lexemes, List.singleton_append, readTokens, tail, Option.map_some]

/-- The text of a plain tree, read with `!` before `and` before `or`, has the truth value of the tree. -/
theorem requirement_text_structure (e : ReqExpr) (cursor : ReqCursor) (tail : Bytes) (plain : Plain e)
    (formed : e.WellFormed) (shallow : e.height ≤ maxRequirementDepth) (found : cursor.rest = e.encode ++ tail) :
    ∃ text after formula, evalExpression slTop 0 cursor = some (text, after) ∧
      readRequirement text = some formula ∧
      ∀ assignment, formula.value assignment = e.truth assignment := by
  have evaluated := reads_expression slTop 0 (plain_known plain) formed (by omega) cursor tail found
  have lexed := @lex_render e plain slTop [] (fun _ head => by cases head)
  have widest : bindingOf slTop = .disjunct := rfl
  rw [List.append_nil, show lexFrom [] [] = [] from rfl, List.append_nil, widest] at lexed
  have tokens := readTokens_lexemes fun leaf member => tokens_leaves plain .disjunct member
  obtain ⟨formula, read, equiv⟩ := readFormula_tokens e.formula
  refine ⟨_, _, formula, evaluated, ?_, fun assignment => ?_⟩
  · simp only [readRequirement, lexed, tokens, Option.bind_eq_bind, Option.bind_some, read]
  · rw [equiv assignment, ReqExpr.formula_value]

def nestedRequirement : ReqExpr := .and (.not (.or (.ident [0x61]) .never)) (.and .appleAnchor (.cdHash [0xab]))

theorem requirement_text_structure_nested :
    ∃ text after formula,
      evalExpression slTop 0 ⟨⟨0, nestedRequirement.encode, by decide⟩, 0⟩ = some (text, after) ∧
      readRequirement text = some formula ∧
      ∀ assignment, formula.value assignment = nestedRequirement.truth assignment := by
  refine requirement_text_structure nestedRequirement _ [] ?_ ?_ (by decide) (List.append_nil _).symm
  · simp only [nestedRequirement, Plain]
    decide
  · simp only [nestedRequirement, ReqExpr.WellFormed]
    decide

end DarwinScope.Codesign
