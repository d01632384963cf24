import DarwinScope.Codesign.Requirements

namespace DarwinScope.Codesign

open Machine

inductive MatchSuffix where
  | exists
  | equal (value : Bytes)
  | contains (value : Bytes)
  | beginsWith (value : Bytes)
  | endsWith (value : Bytes)
  | lessThan (value : Bytes)
  | greaterThan (value : Bytes)
  | lessEqual (value : Bytes)
  | greaterEqual (value : Bytes)
deriving DecidableEq

/-- A requirement expression. `flagged` is an opcode outside the list that carries one of the two
    generic flags, and the payload that follows it. -/
inductive ReqExpr where
  | never
  | always
  | ident (name : Bytes)
  | appleAnchor
  | anchorHash (slot : U32) (hash : Bytes)
  | infoKeyValue (key value : Bytes)
  | and (left right : ReqExpr)
  | or (left right : ReqExpr)
  | cdHash (hash : Bytes)
  | not (inner : ReqExpr)
  | infoKeyField (key : Bytes) (suffix : MatchSuffix)
  | certField (slot : U32) (field : Bytes) (suffix : MatchSuffix)
  | trustedCert (slot : U32)
  | trustedCerts
  | certGeneric (slot : U32) (oid : Bytes) (suffix : MatchSuffix)
  | appleGenericAnchor
  | entitlementField (key : Bytes) (suffix : MatchSuffix)
  | certPolicy (slot : U32) (oid : Bytes) (suffix : MatchSuffix)
  | namedAnchor (name : Bytes)
  | namedCode (name : Bytes)
  | flagged (op : U32) (payload : Bytes)
deriving DecidableEq

def encodeWord (value : U32) : Bytes := beBytes 4 value.toNat

/-- A length word, the bytes, and zeros up to the next multiple of four. -/
def encodeData (data : Bytes) : Bytes :=
  encodeWord (BitVec.ofNat 32 data.length) ++
    (data ++ List.replicate ((data.length + 3) / 4 * 4 - data.length) 0)

def MatchSuffix.encode : MatchSuffix → Bytes
  | .exists => encodeWord MatchOp.EXISTS
  | .equal value => encodeWord MatchOp.EQUAL ++ encodeData value
  | .contains value => encodeWord MatchOp.CONTAINS ++ encodeData value
  | .beginsWith value => encodeWord MatchOp.BEGINS_WITH ++ encodeData value
  | .endsWith value => encodeWord MatchOp.ENDS_WITH ++ encodeData value
  | .lessThan value => encodeWord MatchOp.LESS_THAN ++ encodeData value
  | .greaterThan value => encodeWord MatchOp.GREATER_THAN ++ encodeData value
  | .lessEqual value => encodeWord MatchOp.LESS_EQUAL ++ encodeData value
  | .greaterEqual value => encodeWord MatchOp.GREATER_EQUAL ++ encodeData value

def MatchSuffix.render : MatchSuffix → Bytes
  | .exists => lit " /* exists */"
  | .equal value => lit " = \"" ++ utf8Lossy value ++ lit "\""
  | .contains value => lit " ~ \"" ++ utf8Lossy value ++ lit "\""
  | .beginsWith value => lit " = \"" ++ utf8Lossy value ++ lit "*\""
  | .endsWith value => lit " = \"*" ++ utf8Lossy value ++ lit "\""
  | .lessThan value => lit " < \"" ++ utf8Lossy value ++ lit "\""
  | .greaterThan value => lit " > \"" ++ utf8Lossy value ++ lit "\""
  | .lessEqual value => lit " <= \"" ++ utf8Lossy value ++ lit "\""
  | .greaterEqual value => lit " >= \"" ++ utf8Lossy value ++ lit "\""

def Fits (data : Bytes) : Prop := data.length < 2^32

instance (data : Bytes) : Decidable (Fits data) := inferInstanceAs (Decidable (_ < _))

def MatchSuffix.Encodable : MatchSuffix → Prop
  | .exists => True
  | .equal value | .contains value | .beginsWith value | .endsWith value | .lessThan value
  | .greaterThan value | .lessEqual value | .greaterEqual value => Fits value

namespace ReqExpr

def encode : ReqExpr → Bytes
  | never => encodeWord ReqOp.FALSE
  | always => encodeWord ReqOp.TRUE
  | ident name => encodeWord ReqOp.IDENT ++ encodeData name
  | appleAnchor => encodeWord ReqOp.APPLE_ANCHOR
  | anchorHash slot hash => encodeWord ReqOp.ANCHOR_HASH ++ (encodeWord slot ++ encodeData hash)
  | infoKeyValue key value => encodeWord ReqOp.INFO_KEY_VALUE ++ (encodeData key ++ encodeData value)
  | and left right => encodeWord ReqOp.AND ++ (left.encode ++ right.encode)
  | or left right => encodeWord ReqOp.OR ++ (left.encode ++ right.encode)
  | cdHash hash => encodeWord ReqOp.CD_HASH ++ encodeData hash
  | not inner => encodeWord ReqOp.NOT ++ inner.encode
  | infoKeyField key suffix => encodeWord ReqOp.INFO_KEY_FIELD ++ (encodeData key ++ suffix.encode)
  | certField slot field suffix =>
    encodeWord ReqOp.CERT_FIELD ++ (encodeWord slot ++ (encodeData field ++ suffix.encode))
  | trustedCert slot => encodeWord ReqOp.TRUSTED_CERT ++ encodeWord slot
  | trustedCerts => encodeWord ReqOp.TRUSTED_CERTS
  | certGeneric slot oid suffix =>
    encodeWord ReqOp.CERT_GENERIC ++ (encodeWord slot ++ (encodeData oid ++ suffix.encode))
  | appleGenericAnchor => encodeWord ReqOp.APPLE_GENERIC_ANCHOR
  | entitlementField key suffix => encodeWord ReqOp.ENTITLEMENT_FIELD ++ (encodeData key ++ suffix.encode)
  | certPolicy slot oid suffix =>
    encodeWord ReqOp.CERT_POLICY ++ (encodeWord slot ++ (encodeData oid ++ suffix.encode))
  | namedAnchor name => encodeWord ReqOp.NAMED_ANCHOR ++ encodeData name
  | namedCode name => encodeWord ReqOp.NAMED_CODE ++ encodeData name
  | flagged op payload => encodeWord op ++ encodeData payload

def render (level : Nat) : ReqExpr → Bytes
  | never => lit "never"
  | always => lit "always"
  | ident name => lit "identifier \"" ++ utf8Lossy name ++ lit "\""
  | appleAnchor => lit "anchor apple"
  | anchorHash slot hash => lit "certificate " ++ certSlotText slot ++ lit " = H\"" ++ hexEncode hash ++ lit "\""
  | infoKeyValue key value => lit "info[" ++ utf8Lossy key ++ lit "] = \"" ++ utf8Lossy value ++ lit "\""
  | and left right => wrap (level < slAnd) (left.render slAnd ++ lit " and " ++ right.render slAnd)
  | or left right => wrap (level < slOr) (left.render slOr ++ lit " or " ++ right.render slOr)
  | cdHash hash => lit "cdhash H\"" ++ hexEncode hash ++ lit "\""
  | not inner => lit "! " ++ inner.render slPrimary
  | infoKeyField key suffix => lit "info[" ++ utf8Lossy key ++ lit "]" ++ suffix.render
  | certField slot field suffix =>
    lit "certificate " ++ certSlotText slot ++ lit "[" ++ utf8Lossy field ++ lit "]" ++ suffix.render
  | trustedCert slot => lit "certificate " ++ certSlotText slot ++ lit " trusted"
  | trustedCerts => lit "anchor trusted"
  | certGeneric slot oid suffix =>
    lit "certificate " ++ certSlotText slot ++ lit "[field." ++ decodeOid oid ++ lit "]" ++ suffix.render
  | appleGenericAnchor => lit "anchor apple generic"
  | entitlementField key suffix => lit "entitlement[" ++ utf8Lossy key ++ lit "]" ++ suffix.render
  | certPolicy slot oid suffix =>
    lit "certificate " ++ certSlotText slot ++ lit "[policy." ++ decodeOid oid ++ lit "]" ++ suffix.render
  | namedAnchor name => lit "anchor apple " ++ utf8Lossy name
  | namedCode name => lit "(" ++ utf8Lossy name ++ lit ")"
  | flagged op _ =>
    if op &&& reqOpGenericFalse ≠ 0 then
      lit "false /* opcode " ++ decimal (op &&& ~~~reqOpFlagMask).toNat ++ lit " */"
    else lit "/* opcode " ++ decimal (op &&& ~~~reqOpFlagMask).toNat ++ lit " */"

def height : ReqExpr → Nat
  | and left right | or left right => max left.height right.height + 1
  | not inner => inner.height + 1
  | _ => 0

def Known : ReqExpr → Prop
  | and left right | or left right => left.Known ∧ right.Known
  | not inner => inner.Known
  | flagged .. => False
  | _ => True

/-- Every operand has a length word, and a flagged opcode has one of its two flags. -/
def WellFormed : ReqExpr → Prop
  | ident data | cdHash data | namedAnchor data | namedCode data | anchorHash _ data => Fits data
  | infoKeyValue key value => Fits key ∧ Fits value
  | and left right | or left right => left.WellFormed ∧ right.WellFormed
  | not inner => inner.WellFormed
  | infoKeyField data suffix | entitlementField data suffix | certField _ data suffix
  | certGeneric _ data suffix | certPolicy _ data suffix => Fits data ∧ suffix.Encodable
  | flagged op payload => op &&& (reqOpGenericFalse ||| reqOpGenericSkip) ≠ 0 ∧ Fits payload
  | never | always | appleAnchor | trustedCert _ | trustedCerts | appleGenericAnchor => True

end ReqExpr

@[simp] theorem encodeWord_length (value : U32) : (encodeWord value).length = 4 := beBytes_length 4 _

theorem encodeData_length (data : Bytes) : (encodeData data).length = 4 + (data.length + 3) / 4 * 4 := by
  simp only [encodeData, List.length_append, encodeWord_length, List.length_replicate]
  omega

theorem reads_u32 (value : U32) : Reads ReqCursor.u32 (encodeWord value) value := by
  intro cursor tail found
  have inside := Cursor.inside found (by simp [encodeWord, beBytes, leBytes])
  have window := Cursor.window found
  have bound := cursor.buf.length_lt
  simp only [encodeWord_length] at inside window
  have read : readU32BeAt cursor.buf cursor.pos = some value := readAt_beBytes (by rfl) inside window
  simp [ReqCursor.u32, read, checkedAddUsize_of_lt (show cursor.pos + 4 < 2^64 by omega), Cursor.advance]

theorem reads_data {data : Bytes} (fits : Fits data) : Reads ReqCursor.data (encodeData data) data := by
  intro cursor tail found
  have short : (BitVec.ofNat 32 data.length).toNat = data.length := by
    rw [toNat_ofNat_of_lt fits]
  have bound := cursor.buf.length_lt
  have whole := Cursor.inside found (by simp [encodeData, encodeWord, beBytes, leBytes])
  rw [encodeData_length] at whole
  rw [encodeData, List.append_assoc] at found
  have length := reads_u32 _ cursor _ found
  have after := Cursor.rest_advance found
  rw [encodeWord_length] at length after
  have stop : cursor.pos + 4 + data.length ≤ cursor.buf.length := by omega
  obtain ⟨part, taken, -, bytes⟩ := Slice.get_of_le (s := cursor.buf) (Nat.le_add_right (cursor.pos + 4) data.length) stop
  have window : cursor.buf.window (cursor.pos + 4) data.length = data :=
    Cursor.window (after.trans (List.append_assoc ..))
  rw [Nat.add_sub_cancel_left, window] at bytes
  simp only [ReqCursor.data, Bind.bind, StateT.bind, length, Option.bind, short, Cursor.advance, taken, bytes,
    checkedAddUsize_of_lt (show cursor.pos + 4 + data.length < 2^64 by omega),
    checkedAddUsize_of_lt (show data.length + 3 < 2^64 by omega),
    checkedAddUsize_of_lt (show cursor.pos + 4 + (data.length + 3) / 4 * 4 < 2^64 by omega)]
  rw [encodeData_length, Nat.add_assoc]

theorem reads_certSlot (slot : U32) : Reads getCertSlot (encodeWord slot) (certSlotText slot) :=
  (reads_u32 slot).last (Reads.pure _)

theorem reads_match {suffix : MatchSuffix} (fits : suffix.Encodable) :
    Reads getMatch suffix.encode suffix.render := by
  cases suffix with
  | «exists» => exact (reads_u32 MatchOp.EXISTS).last (Reads.pure _)
  | equal value => exact (reads_u32 MatchOp.EQUAL).bind ((reads_data fits).last (Reads.pure _))
  | contains value => exact (reads_u32 MatchOp.CONTAINS).bind ((reads_data fits).last (Reads.pure _))
  | beginsWith value => exact (reads_u32 MatchOp.BEGINS_WITH).bind ((reads_data fits).last (Reads.pure _))
  | endsWith value => exact (reads_u32 MatchOp.ENDS_WITH).bind ((reads_data fits).last (Reads.pure _))
  | lessThan value => exact (reads_u32 MatchOp.LESS_THAN).bind ((reads_data fits).last (Reads.pure _))
  | greaterThan value => exact (reads_u32 MatchOp.GREATER_THAN).bind ((reads_data fits).last (Reads.pure _))
  | lessEqual value => exact (reads_u32 MatchOp.LESS_EQUAL).bind ((reads_data fits).last (Reads.pure _))
  | greaterEqual value => exact (reads_u32 MatchOp.GREATER_EQUAL).bind ((reads_data fits).last (Reads.pure _))

variable (level depth : Nat)

theorem reads_elided (deep : maxRequirementDepth < depth) :
    Reads (evalExpression level depth) [] (lit "/* … */") := by
  rw [evalExpression, dif_pos deep]
  exact Reads.pure _

theorem reads_and {left right x y : Bytes} (shallow : depth ≤ maxRequirementDepth)
    (first : Reads (evalExpression slAnd (depth + 1)) left x)
    (second : Reads (evalExpression slAnd (depth + 1)) right y) :
    Reads (evalExpression level depth) (encodeWord ReqOp.AND ++ (left ++ right))
      (wrap (level < slAnd) (x ++ lit " and " ++ y)) := by
  rw [evalExpression, dif_neg (by omega)]
  exact (reads_u32 ReqOp.AND).bind (first.bind (second.last (Reads.pure _)))

theorem reads_or {left right x y : Bytes} (shallow : depth ≤ maxRequirementDepth)
    (first : Reads (evalExpression slOr (depth + 1)) left x)
    (second : Reads (evalExpression slOr (depth + 1)) right y) :
    Reads (evalExpression level depth) (encodeWord ReqOp.OR ++ (left ++ right))
      (wrap (level < slOr) (x ++ lit " or " ++ y)) := by
  rw [evalExpression, dif_neg (by omega)]
  exact (reads_u32 ReqOp.OR).bind (first.bind (second.last (Reads.pure _)))

theorem reads_not {inner x : Bytes} (shallow : depth ≤ maxRequirementDepth)
    (first : Reads (evalExpression slPrimary (depth + 1)) inner x) :
    Reads (evalExpression level depth) (encodeWord ReqOp.NOT ++ inner) (lit "! " ++ x) := by
  rw [evalExpression, dif_neg (by omega)]
  exact (reads_u32 ReqOp.NOT).bind (first.last (Reads.pure _))

theorem reads_flagged {op : U32} (payload : Bytes) (flags : op &&& (reqOpGenericFalse ||| reqOpGenericSkip) ≠ 0)
    (shallow : depth ≤ maxRequirementDepth) :
    Reads (evalExpression level depth) (encodeWord op) ((ReqExpr.flagged op payload).render level) := by
  have other : ∀ known : U32, known &&& (reqOpGenericFalse ||| reqOpGenericSkip) = 0 → op ≠ known := by
    rintro known none rfl
    exact flags none
  rw [evalExpression, dif_neg (by omega)]
  refine (reads_u32 op).last ?_
  split
  all_goals try exact absurd rfl (other _ (by decide))
  rw [ReqExpr.render]
  split
  · exact Reads.pure _
  · have skip : op &&& reqOpGenericSkip ≠ 0 := by
      intro none
      apply flags
      rw [BitVec.and_or_distrib_left, none]
      simp_all
    rw [if_pos skip]
    exact Reads.pure _

theorem reads_leaf {e : ReqExpr} (leaf : e.height = 0) (known : e.Known) (formed : e.WellFormed)
    (shallow : depth ≤ maxRequirementDepth) :
    Reads (evalExpression level depth) e.encode (e.render level) := by
  rw [evalExpression, dif_neg (by omega)]
  cases e with
  | and left right | or left right | not inner => cases leaf
  | flagged op payload => exact known.elim
  | never => exact (reads_u32 ReqOp.FALSE).last (Reads.pure _)
  | always => exact (reads_u32 ReqOp.TRUE).last (Reads.pure _)
  | ident name => exact (reads_u32 ReqOp.IDENT).bind ((reads_data formed).last (Reads.pure _))
  | appleAnchor => exact (reads_u32 ReqOp.APPLE_ANCHOR).last (Reads.pure _)
  | anchorHash slot hash =>
    exact (reads_u32 ReqOp.ANCHOR_HASH).bind ((reads_certSlot slot).bind ((reads_data formed).last (Reads.pure _)))
  | infoKeyValue key value =>
    exact (reads_u32 ReqOp.INFO_KEY_VALUE).bind
      ((reads_data formed.1).bind ((reads_data formed.2).last (Reads.pure _)))
  | cdHash hash => exact (reads_u32 ReqOp.CD_HASH).bind ((reads_data formed).last (Reads.pure _))
  | infoKeyField key suffix =>
    exact (reads_u32 ReqOp.INFO_KEY_FIELD).bind
      ((reads_data formed.1).bind ((reads_match formed.2).last (Reads.pure _)))
  | certField slot field suffix =>
    exact (reads_u32 ReqOp.CERT_FIELD).bind ((reads_certSlot slot).bind
      ((reads_data formed.1).bind ((reads_match formed.2).last (Reads.pure _))))
  | trustedCert slot => exact (reads_u32 ReqOp.TRUSTED_CERT).bind ((reads_certSlot slot).last (Reads.pure _))
  | trustedCerts => exact (reads_u32 ReqOp.TRUSTED_CERTS).last (Reads.pure _)
  | certGeneric slot oid suffix =>
    exact (reads_u32 ReqOp.CERT_GENERIC).bind ((reads_certSlot slot).bind
      ((reads_data formed.1).bind ((reads_match formed.2).last (Reads.pure _))))
  | appleGenericAnchor => exact (reads_u32 ReqOp.APPLE_GENERIC_ANCHOR).last (Reads.pure _)
  | entitlementField key suffix =>
    exact (reads_u32 ReqOp.ENTITLEMENT_FIELD).bind
      ((reads_data formed.1).bind ((reads_match formed.2).last (Reads.pure _)))
  | certPolicy slot oid suffix =>
    exact (reads_u32 ReqOp.CERT_POLICY).bind ((reads_certSlot slot).bind
      ((reads_data formed.1).bind ((reads_match formed.2).last (Reads.pure _))))
  | namedAnchor name => exact (reads_u32 ReqOp.NAMED_ANCHOR).bind ((reads_data formed).last (Reads.pure _))
  | namedCode name => exact (reads_u32 ReqOp.NAMED_CODE).bind ((reads_data formed).last (Reads.pure _))

theorem reads_expression {e : ReqExpr} (known : e.Known) (formed : e.WellFormed)
    (shallow : depth + e.height ≤ maxRequirementDepth) :
    Reads (evalExpression level depth) e.encode (e.render level) := by
  induction e generalizing level depth with
  | and left right ihl ihr =>
    simp only [ReqExpr.height] at shallow
    exact reads_and _ _ (by omega) (ihl _ _ known.1 formed.1 (by omega)) (ihr _ _ known.2 formed.2 (by omega))
  | or left right ihl ihr =>
    simp only [ReqExpr.height] at shallow
    exact reads_or _ _ (by omega) (ihl _ _ known.1 formed.1 (by omega)) (ihr _ _ known.2 formed.2 (by omega))
  | not inner ih =>
    simp only [ReqExpr.height] at shallow
    exact reads_not _ _ (by omega) (ih _ _ known formed (by omega))
  | flagged op payload => exact known.elim
  | _ => exact reads_leaf level depth rfl known formed shallow

end DarwinScope.Codesign
