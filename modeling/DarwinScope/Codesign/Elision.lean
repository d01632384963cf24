import DarwinScope.Codesign.Expressions

namespace DarwinScope.Codesign

open Machine

inductive Joiner where
  | and
  | or
deriving DecidableEq

namespace Joiner

def level : Joiner → Nat
  | and => slAnd
  | or => slOr

def text : Joiner → Bytes
  | and => lit " and "
  | or => lit " or "

def op : Joiner → U32
  | and => ReqOp.AND
  | or => ReqOp.OR

def node : Joiner → ReqExpr → ReqExpr → ReqExpr
  | and => ReqExpr.and
  | or => ReqExpr.or

end Joiner

/-- The operand stays inside the evaluator's reach: the twenty opcodes, no node below the limit. -/
def WithinReach (depth : Nat) (e : ReqExpr) : Prop := e.Known ∧ depth + e.height ≤ maxRequirementDepth

/-- Whatever the right operand is, the text after the operator is what its own bytes evaluate to. -/
def KeepsRight (joiner : Joiner) (depth : Nat) (left : ReqExpr) : Prop :=
  ∀ (right : ReqExpr) (level : Nat) (cursor : ReqCursor) (tail : Bytes), right.WellFormed →
    cursor.rest = (joiner.node left right).encode ++ tail →
    ∃ (x : Bytes) (after : ReqCursor),
      evalExpression joiner.level (depth + 1) (cursor.advance 4) = some (x, after) ∧
      (evalExpression level depth cursor).map Prod.fst =
        (evalExpression joiner.level (depth + 1) (cursor.advance (4 + left.encode.length))).map
          fun y => wrap (level < joiner.level) (x ++ joiner.text ++ y.1)

/-- The property of every operator node of the tree that is met above the limit, its left operand
    and the depth it stands at. -/
def EveryNode (property : Joiner → Nat → ReqExpr → Prop) (depth : Nat) : ReqExpr → Prop
  | .and left right =>
    (depth < maxRequirementDepth → property .and depth left) ∧
      EveryNode property (depth + 1) left ∧ EveryNode property (depth + 1) right
  | .or left right =>
    (depth < maxRequirementDepth → property .or depth left) ∧
      EveryNode property (depth + 1) left ∧ EveryNode property (depth + 1) right
  | .not inner => EveryNode property (depth + 1) inner
  | _ => True

theorem Joiner.encode_node (joiner : Joiner) (left right : ReqExpr) :
    (joiner.node left right).encode = encodeWord joiner.op ++ (left.encode ++ right.encode) := by
  cases joiner <;> rfl

theorem ReqExpr.encode_length (e : ReqExpr) : 4 ≤ e.encode.length := by
  cases e <;> simp only [ReqExpr.encode, List.length_append, encodeWord_length] <;> omega

variable {joiner : Joiner} {level depth : Nat}

theorem evalExpression_joiner {cursor operands : ReqCursor} (shallow : depth ≤ maxRequirementDepth)
    (op : ReqCursor.u32 cursor = some (joiner.op, operands)) :
    evalExpression level depth cursor =
      (evalExpression joiner.level (depth + 1) operands).bind fun x =>
        (evalExpression joiner.level (depth + 1) x.2).bind fun y =>
          some (wrap (level < joiner.level) (x.1 ++ joiner.text ++ y.1), y.2) := by
  rw [evalExpression, dif_neg (by omega)]
  cases joiner with
  | and =>
    change (ReqCursor.u32 cursor).bind _ = _
    rw [op]
    rfl
  | or =>
    change (ReqCursor.u32 cursor).bind _ = _
    rw [op]
    rfl

theorem node_eval {left right : ReqExpr} {taken x tail : Bytes} {cursor : ReqCursor}
    (shallow : depth ≤ maxRequirementDepth) (first : Reads (evalExpression joiner.level (depth + 1)) taken x)
    (start : taken <+: left.encode) (found : cursor.rest = (joiner.node left right).encode ++ tail) :
    evalExpression joiner.level (depth + 1) (cursor.advance 4) = some (x, cursor.advance (4 + taken.length)) ∧
    (evalExpression level depth cursor).map Prod.fst =
      (evalExpression joiner.level (depth + 1) (cursor.advance (4 + taken.length))).map
        fun y => wrap (level < joiner.level) (x ++ joiner.text ++ y.1) := by
  obtain ⟨surplus, split⟩ := start
  have operands : cursor.rest = encodeWord joiner.op ++ (taken ++ (surplus ++ (right.encode ++ tail))) := by
    rw [found, Joiner.encode_node, ← split]
    simp only [List.append_assoc]
  have op := reads_u32 joiner.op cursor _ operands
  have after := Cursor.rest_advance operands
  rw [encodeWord_length] at op after
  have firstText := first _ _ after
  rw [Cursor.advance_advance] at firstText
  refine ⟨firstText, ?_⟩
  rw [evalExpression_joiner shallow op, firstText, Option.bind_some]
  cases evalExpression joiner.level (depth + 1) (cursor.advance (4 + taken.length)) <;> rfl

def marked (text : Bytes) : Bool := text.any fun byte => byte = 0x20#8 || byte = 0x28#8 || byte = 0x5b#8

theorem marked_append (x y : Bytes) : marked (x ++ y) = (marked x || marked y) := List.any_append

theorem marked_wrap (paren : Bool) (text : Bytes) : marked (wrap paren text) = (paren || marked text) := by
  cases paren <;> simp +decide [wrap, marked_append]

theorem evalExpression_marked {cursor after : ReqCursor} {text : Bytes} (shallow : depth ≤ maxRequirementDepth)
    (result : evalExpression level depth cursor = some (text, after)) :
    marked text = true ∨ ∃ op operands, ReqCursor.u32 cursor = some (op, operands) ∧
      ((op = ReqOp.FALSE ∧ text = lit "never") ∨ (op = ReqOp.TRUE ∧ text = lit "always")) := by
  rw [evalExpression, dif_neg (by omega)] at result
  obtain ⟨op, operands, read, body⟩ := bind_some result
  clear result
  split at body
  · cases body
    exact Or.inr ⟨_, _, read, Or.inl ⟨rfl, rfl⟩⟩
  · cases body
    exact Or.inr ⟨_, _, read, Or.inr ⟨rfl, rfl⟩⟩
  -- every other text starts with, or joins its parts by, a marked constant
  all_goals
    left
    refine (show Yields _ fun text => marked text = true from ?_) _ _ _ body
    repeat refine Yields.bind fun _ => ?_
    try exact Yields.pure (by simp +decide [marked_append, marked_wrap])
  split
  · exact Yields.pure (by simp +decide [marked_append])
  · split
    · exact Yields.pure (by simp +decide [marked_append])
    · exact Yields.pure (by simp +decide [marked_append])

theorem reads_joiner {left right x y : Bytes} (shallow : depth ≤ maxRequirementDepth)
    (first : Reads (evalExpression joiner.level (depth + 1)) left x)
    (second : Reads (evalExpression joiner.level (depth + 1)) right y) :
    Reads (evalExpression level depth) (encodeWord joiner.op ++ (left ++ right))
      (wrap (level < joiner.level) (x ++ joiner.text ++ y)) := by
  cases joiner
  · exact reads_and _ _ shallow first second
  · exact reads_or _ _ shallow first second

/-- A tree is taken up to some point of its encoding that does not depend on what follows. -/
def StopsAt (level depth : Nat) (e : ReqExpr) (surplus : Bytes) : Prop :=
  ∃ taken x, e.encode = taken ++ surplus ∧ Reads (evalExpression level depth) taken x

theorem stopsAt_elided {e : ReqExpr} (deep : maxRequirementDepth < depth) : StopsAt level depth e e.encode :=
  ⟨[], _, rfl, reads_elided _ _ deep⟩

theorem stopsAt_whole {e : ReqExpr} (formed : e.WellFormed) (reach : WithinReach depth e) :
    StopsAt level depth e [] :=
  ⟨e.encode, _, (List.append_nil _).symm, reads_expression _ _ reach.1 formed reach.2⟩

theorem stopsAt_joiner {left right : ReqExpr} {skipped surplus : Bytes} (shallow : depth ≤ maxRequirementDepth)
    (first : StopsAt joiner.level (depth + 1) left skipped) (second : StopsAt joiner.level (depth + 1) right surplus)
    (exactly : skipped = [] ∨ surplus = right.encode) :
    StopsAt level depth (joiner.node left right) (skipped ++ surplus) := by
  obtain ⟨taken, x, whole, reads⟩ := first
  obtain ⟨taken', y, whole', reads'⟩ := second
  refine ⟨encodeWord joiner.op ++ (taken ++ taken'), _, ?_, reads_joiner shallow reads reads'⟩
  rw [Joiner.encode_node, whole]
  rcases exactly with rfl | rfl
  · rw [whole']
    simp only [List.append_nil, List.nil_append, List.append_assoc]
  · have none : taken' = [] := by simpa using whole'
    rw [none]
    simp only [List.append_nil, List.append_assoc]

theorem withinReach_node {left right : ReqExpr} :
    WithinReach depth (joiner.node left right) ↔ WithinReach (depth + 1) left ∧ WithinReach (depth + 1) right := by
  have known : (joiner.node left right).Known ↔ left.Known ∧ right.Known := by cases joiner <;> rfl
  have height : (joiner.node left right).height = max left.height right.height + 1 := by cases joiner <;> rfl
  rw [WithinReach, WithinReach, WithinReach, known, height]
  constructor
  · intro given
    rcases given with ⟨⟨first, second⟩, shallow⟩
    exact ⟨⟨first, by omega⟩, ⟨second, by omega⟩⟩
  · intro given
    rcases given with ⟨⟨first, low⟩, ⟨second, low'⟩⟩
    exact ⟨⟨first, second⟩, by omega⟩

/-- A tree is taken whole, and is within reach, or at least one word of it is left over. -/
def StopsAsReached (level depth : Nat) (e : ReqExpr) : Prop :=
  ∃ surplus, StopsAt level depth e surplus ∧
    (surplus = [] ∧ WithinReach depth e ∨ 4 ≤ surplus.length ∧ ¬ WithinReach depth e)

theorem stopsAsReached_elided {e : ReqExpr} (deep : maxRequirementDepth < depth) : StopsAsReached level depth e :=
  ⟨e.encode, stopsAt_elided deep, Or.inr ⟨e.encode_length, fun reach => by have := reach.2; omega⟩⟩

theorem stopsAsReached_leaf {e : ReqExpr} (leaf : e.height = 0) (known : e.Known) (formed : e.WellFormed) :
    StopsAsReached level depth e := by
  by_cases deep : maxRequirementDepth < depth
  · exact stopsAsReached_elided deep
  · have reach : WithinReach depth e := ⟨known, by omega⟩
    exact ⟨[], stopsAt_whole formed reach, Or.inl ⟨rfl, reach⟩⟩

theorem stopsAsReached_joiner {left right : ReqExpr} (formed : left.WellFormed) (shallow : depth ≤ maxRequirementDepth)
    (reach : depth < maxRequirementDepth → WithinReach (depth + 1) left)
    (tail : StopsAsReached joiner.level (depth + 1) right) : StopsAsReached level depth (joiner.node left right) := by
  by_cases inner : depth < maxRequirementDepth
  · obtain ⟨surplus, stops, cases⟩ := tail
    refine ⟨surplus, stopsAt_joiner shallow (stopsAt_whole formed (reach inner)) stops (Or.inl rfl), ?_⟩
    rcases cases with ⟨none, within⟩ | ⟨long, past⟩
    · exact Or.inl ⟨none, withinReach_node.mpr ⟨reach inner, within⟩⟩
    · exact Or.inr ⟨long, fun whole => past (withinReach_node.mp whole).2⟩
  · refine ⟨left.encode ++ right.encode, ?_, Or.inr ⟨?_, ?_⟩⟩
    · exact stopsAt_joiner shallow (stopsAt_elided (by omega)) (stopsAt_elided (by omega)) (Or.inr rfl)
    · have length := left.encode_length
      rw [List.length_append]
      omega
    · intro whole
      have limit := (withinReach_node.mp whole).1.2
      omega

theorem stopsAsReached_spine {e : ReqExpr} (formed : e.WellFormed)
    (nodes : EveryNode (fun _ d left => WithinReach (d + 1) left) depth e) : StopsAsReached level depth e := by
  induction e generalizing level depth with
  | and left right ihl ihr =>
    by_cases deep : maxRequirementDepth < depth
    · exact stopsAsReached_elided deep
    · exact @stopsAsReached_joiner .and _ _ _ _ formed.1 (by omega) nodes.1 (ihr formed.2 nodes.2.2)
  | or left right ihl ihr =>
    by_cases deep : maxRequirementDepth < depth
    · exact stopsAsReached_elided deep
    · exact @stopsAsReached_joiner .or _ _ _ _ formed.1 (by omega) nodes.1 (ihr formed.2 nodes.2.2)
  | not inner ih =>
    by_cases deep : maxRequirementDepth < depth
    · exact stopsAsReached_elided deep
    obtain ⟨surplus, ⟨taken, x, whole, reads⟩, cases⟩ := @ih slPrimary _ formed nodes
    refine ⟨surplus, ⟨encodeWord ReqOp.NOT ++ taken, _, ?_, reads_not _ _ (by omega) reads⟩, ?_⟩
    · rw [ReqExpr.encode, whole, List.append_assoc]
    · simpa [WithinReach, ReqExpr.Known, ReqExpr.height, Nat.add_right_comm, ← Nat.add_assoc] using cases
  | flagged op payload =>
    by_cases deep : maxRequirementDepth < depth
    · exact stopsAsReached_elided deep
    refine ⟨encodeData payload, ⟨encodeWord op, _, rfl, reads_flagged _ _ payload formed.1 (by omega)⟩,
      Or.inr ⟨?_, fun reach => reach.1⟩⟩
    rw [encodeData_length]
    omega
  | _ => exact stopsAsReached_leaf rfl trivial formed

theorem u32_first {cursor after : ReqCursor} {op : U32} (read : ReqCursor.u32 cursor = some (op, after)) :
    op = BitVec.ofNat 32 (beNumber (cursor.rest.take 4)) := by
  simp only [ReqCursor.u32, Option.bind_eq_bind, Option.bind_eq_some_iff] at read
  obtain ⟨word, found, pos, -, same⟩ := read
  cases same
  exact (readAt_some found).2

theorem wrap_inj {paren : Bool} {s t : Bytes} (same : wrap paren s = wrap paren t) : s = t := by
  cases paren <;> simpa [wrap] using same

theorem kept_constant {left right : ReqExpr} {surplus text : Bytes} (shallow : depth < maxRequirementDepth)
    (stops : StopsAt joiner.level (depth + 1) left surplus) (long : 4 ≤ surplus.length)
    (short : left.encode.length < 2^32) (kept : KeepsRight joiner depth left) (formed : right.WellFormed)
    (small : right.encode.length = 4) (constant : right.render joiner.level = text) (leaf : right.height = 0)
    (known : right.Known) (plain : marked text = false) :
    (BitVec.ofNat 32 (beNumber (surplus.take 4)) = ReqOp.FALSE ∧ text = lit "never") ∨
      (BitVec.ofNat 32 (beNumber (surplus.take 4)) = ReqOp.TRUE ∧ text = lit "always") := by
  obtain ⟨taken, x, whole, reads⟩ := stops
  have size : (joiner.node left right).encode.length < 2^63 := by
    rw [Joiner.encode_node, List.length_append, List.length_append, encodeWord_length]
    omega
  let cursor := ReqCursor.new ⟨0, (joiner.node left right).encode, size⟩
  have found : cursor.rest = (joiner.node left right).encode ++ [] := (List.append_nil _).symm
  obtain ⟨x', after, first, same⟩ := kept right slTop cursor [] formed found
  obtain ⟨first', same'⟩ := @node_eval joiner slTop _ _ _ _ _ _ _ (by omega) reads ⟨surplus, whole.symm⟩ found
  rw [first'] at first
  cases first
  obtain ⟨_, own⟩ := @node_eval joiner slTop _ _ _ _ _ _ _ (by omega) reads ⟨surplus, whole.symm⟩ found
  have operand : (cursor.advance (4 + left.encode.length)).rest = right.encode ++ [] := by
    have at? : cursor.rest = (encodeWord joiner.op ++ left.encode) ++ (right.encode ++ []) := by
      rw [found, Joiner.encode_node, List.append_assoc, List.append_assoc, List.append_assoc]
    have rest := Cursor.rest_advance at?
    rwa [List.length_append, encodeWord_length] at rest
  have evaluated := reads_leaf joiner.level (depth + 1) leaf known formed (by omega) _ _ operand
  rw [evaluated, same', Option.map_some, Option.map_eq_some_iff] at same
  obtain ⟨⟨y, after'⟩, result, joined⟩ := same
  have text? : y = text := by
    rw [← constant]
    exact List.append_cancel_left (wrap_inj joined)
  rw [text?] at result
  have begins : (cursor.advance (4 + taken.length)).rest = surplus ++ right.encode := by
    have at? : cursor.rest = (encodeWord joiner.op ++ taken) ++ (surplus ++ right.encode) := by
      rw [found, Joiner.encode_node, whole]
      simp only [List.append_assoc, List.append_nil]
    have rest := Cursor.rest_advance at?
    rwa [List.length_append, encodeWord_length] at rest
  rcases evalExpression_marked (by omega) result with mark | ⟨op, operands, read, either⟩
  · rw [plain] at mark
    cases mark
  · have first := u32_first read
    rw [begins, List.take_append_of_le_length long] at first
    rwa [first] at either

theorem keepsRight_of_reach {left : ReqExpr} (formed : left.WellFormed) (shallow : depth < maxRequirementDepth)
    (reach : WithinReach (depth + 1) left) : KeepsRight joiner depth left := by
  intro right level cursor tail _ found
  have reads := reads_expression joiner.level _ reach.1 formed reach.2
  exact ⟨_, _, node_eval (by omega) reads (List.prefix_refl _) found⟩

theorem keepsRight_iff {left : ReqExpr} (formed : left.WellFormed) (shallow : depth < maxRequirementDepth)
    (short : left.encode.length < 2^32)
    (nodes : EveryNode (fun _ d inner => WithinReach (d + 1) inner) (depth + 1) left) :
    KeepsRight joiner depth left ↔ WithinReach (depth + 1) left := by
  constructor
  · intro kept
    obtain ⟨surplus, stops, cases⟩ := @stopsAsReached_spine joiner.level _ _ formed nodes
    rcases cases with ⟨-, reach⟩ | ⟨long, -⟩
    · exact reach
    · have never := @kept_constant joiner depth left .never _ (lit "never") shallow stops long short kept trivial rfl
        rfl rfl trivial (by decide)
      have always := @kept_constant joiner depth left .always _ (lit "always") shallow stops long short kept trivial rfl
        rfl rfl trivial (by decide)
      rcases never with ⟨zero, -⟩ | ⟨-, text⟩
      · rcases always with ⟨-, text⟩ | ⟨one, -⟩
        · exact absurd text (by decide)
        · exact absurd (zero.symm.trans one) (by decide)
      · exact absurd text (by decide)
  · exact keepsRight_of_reach formed shallow

/-- The operator nodes of a tree all show their right operands exactly when all their left operands
    are within reach. -/
theorem right_operand_kept (e : ReqExpr) (depth : Nat) (formed : e.WellFormed) (short : e.encode.length < 2^32) :
    EveryNode KeepsRight depth e ↔ EveryNode (fun _ d left => WithinReach (d + 1) left) depth e := by
  induction e generalizing depth with
  | and left right ihl ihr =>
    simp only [ReqExpr.encode, List.length_append] at short
    have first := ihl (depth + 1) formed.1 (by omega)
    have second := ihr (depth + 1) formed.2 (by omega)
    rw [EveryNode, EveryNode, first, second]
    refine and_congr_left fun inner => forall_congr' fun shallow => ?_
    exact keepsRight_iff formed.1 shallow (by omega) inner.1
  | or left right ihl ihr =>
    simp only [ReqExpr.encode, List.length_append] at short
    have first := ihl (depth + 1) formed.1 (by omega)
    have second := ihr (depth + 1) formed.2 (by omega)
    rw [EveryNode, EveryNode, first, second]
    refine and_congr_left fun inner => forall_congr' fun shallow => ?_
    exact keepsRight_iff formed.1 shallow (by omega) inner.1
  | not inner ih =>
    simp only [ReqExpr.encode, List.length_append] at short
    exact ih (depth + 1) formed (by omega)
  | _ => exact Iff.rfl

theorem right_operand_kept_designated : EveryNode KeepsRight 0 (.and (.ident [0x61]) .appleGenericAnchor) := by
  have formed : (ReqExpr.and (.ident [0x61]) .appleGenericAnchor).WellFormed := ⟨show Fits [0x61] by decide, trivial⟩
  rw [right_operand_kept _ 0 formed (by decide)]
  exact ⟨fun _ => ⟨trivial, by decide⟩, trivial, trivial⟩

def negations : Nat → ReqExpr → ReqExpr
  | 0, e => e
  | n + 1, e => .not (negations n e)

theorem negations_always (n : Nat) (property : Joiner → Nat → ReqExpr → Prop) (depth : Nat) :
    (negations n .always).WellFormed ∧ (negations n .always).height = n ∧
      (negations n .always).encode.length = 4 * n + 4 ∧ EveryNode property depth (negations n .always) := by
  induction n generalizing depth with
  | zero => exact ⟨trivial, rfl, rfl, trivial⟩
  | succ n ih =>
    obtain ⟨formed, height, length, nodes⟩ := ih (depth + 1)
    refine ⟨formed, congrArg (· + 1) height, ?_, nodes⟩
    rw [negations, ReqExpr.encode, List.length_append, encodeWord_length, length]
    omega

/-- The payload of a flagged opcode, or the first tree below the limit, is read in place of the right
    operand. -/
theorem left_operand_shifts_right :
    ¬ KeepsRight .and 0 (.flagged 0x80000014 []) ∧
    (evalExpression slTop 0 (ReqCursor.new
        ⟨0, (ReqExpr.and (.flagged 0x80000014 []) .always).encode, by decide⟩)).map Prod.fst =
      some (lit "false /* opcode 20 */ and never") ∧
    ¬ KeepsRight .and 0 (negations 64 .always) := by
  refine ⟨fun kept => ?_, by decide +kernel, fun kept => ?_⟩
  · have formed : (ReqExpr.flagged 0x80000014 []).WellFormed := ⟨by decide, by decide⟩
    exact ((keepsRight_iff formed (by decide) (by decide) trivial).mp kept).1
  · obtain ⟨formed, height, length, nodes⟩ :=
      negations_always 64 (fun _ d inner => WithinReach (d + 1) inner) 1
    have limit := ((keepsRight_iff formed (by decide) (by omega) nodes).mp kept).2
    rw [height] at limit
    exact absurd limit (by decide)

end DarwinScope.Codesign
