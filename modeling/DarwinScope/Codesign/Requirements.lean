import DarwinScope.Machine.Readers
import DarwinScope.Machine.Rows
import DarwinScope.Util

namespace DarwinScope.Codesign

open Machine

abbrev blobHeaderSize : Nat := 8
abbrev blobIndexSize : Nat := 8
abbrev requirementsIndexOffset : Nat := 12
abbrev maxRequirementEntries : Nat := 32
abbrev maxRequirementDepth : Nat := 64

abbrev csmagicRequirement : U32 := 0xfade0c00
abbrev csmagicRequirements : U32 := 0xfade0c01

inductive RequirementKind where
  | host
  | guest
  | designated
  | library
  | plugin
  | other (raw : U32)
deriving DecidableEq

def RequirementKind.fromRaw (raw : U32) : RequirementKind :=
  if raw = 1 then .host
  else if raw = 2 then .guest
  else if raw = 3 then .designated
  else if raw = 4 then .library
  else if raw = 5 then .plugin
  else .other raw

structure DecodedRequirement where
  kind : RequirementKind
  text : Bytes
deriving DecidableEq

namespace ReqOp

@[match_pattern] abbrev FALSE : U32 := 0
@[match_pattern] abbrev TRUE : U32 := 1
@[match_pattern] abbrev IDENT : U32 := 2
@[match_pattern] abbrev APPLE_ANCHOR : U32 := 3
@[match_pattern] abbrev ANCHOR_HASH : U32 := 4
@[match_pattern] abbrev INFO_KEY_VALUE : U32 := 5
@[match_pattern] abbrev AND : U32 := 6
@[match_pattern] abbrev OR : U32 := 7
@[match_pattern] abbrev CD_HASH : U32 := 8
@[match_pattern] abbrev NOT : U32 := 9
@[match_pattern] abbrev INFO_KEY_FIELD : U32 := 10
@[match_pattern] abbrev CERT_FIELD : U32 := 11
@[match_pattern] abbrev TRUSTED_CERT : U32 := 12
@[match_pattern] abbrev TRUSTED_CERTS : U32 := 13
@[match_pattern] abbrev CERT_GENERIC : U32 := 14
@[match_pattern] abbrev APPLE_GENERIC_ANCHOR : U32 := 15
@[match_pattern] abbrev ENTITLEMENT_FIELD : U32 := 16
@[match_pattern] abbrev CERT_POLICY : U32 := 17
@[match_pattern] abbrev NAMED_ANCHOR : U32 := 18
@[match_pattern] abbrev NAMED_CODE : U32 := 19

end ReqOp

abbrev reqOpFlagMask : U32 := 0xff000000
abbrev reqOpGenericFalse : U32 := 0x80000000
abbrev reqOpGenericSkip : U32 := 0x40000000

namespace MatchOp

@[match_pattern] abbrev EXISTS : U32 := 0
@[match_pattern] abbrev EQUAL : U32 := 1
@[match_pattern] abbrev CONTAINS : U32 := 2
@[match_pattern] abbrev BEGINS_WITH : U32 := 3
@[match_pattern] abbrev ENDS_WITH : U32 := 4
@[match_pattern] abbrev LESS_THAN : U32 := 5
@[match_pattern] abbrev GREATER_THAN : U32 := 6
@[match_pattern] abbrev LESS_EQUAL : U32 := 7
@[match_pattern] abbrev GREATER_EQUAL : U32 := 8

end MatchOp

abbrev slPrimary : Nat := 0
abbrev slAnd : Nat := 1
abbrev slOr : Nat := 2
abbrev slTop : Nat := 3

abbrev ReqCursor := Cursor

def ReqCursor.new (buf : Slice) : ReqCursor := ⟨buf, 0⟩

def ReqCursor.u32 : Reader U32 := fun cursor => do
  let v ← readU32BeAt cursor.buf cursor.pos
  let pos ← checkedAddUsize cursor.pos 4
  some (v, { cursor with pos := pos })

/-- A length-prefixed field; its padding to four bytes is passed, and need not be there. -/
def ReqCursor.data : Reader Bytes := do
  let len ← ReqCursor.u32
  fun cursor => do
    let stop ← checkedAddUsize cursor.pos len.toNat
    let slice ← cursor.buf.get cursor.pos stop
    let raised ← checkedAddUsize len.toNat 3
    let aligned := raised / 4 * 4
    let pos ← checkedAddUsize cursor.pos aligned
    some (slice.bytes, { cursor with pos := pos })

def wrap (paren : Bool) (s : Bytes) : Bytes := if paren then lit "(" ++ s ++ lit ")" else s

def hexEncode (data : Bytes) : Bytes := hexBytes data

def oidComponent (result : U32) : Bytes → Option (U32 × Bytes)
  | [] => none
  | b :: rest =>
    let result := result * 128 + (b &&& 0x7f).setWidth 32
    if b &&& 0x80 = 0 then some (result, rest) else oidComponent result rest

theorem oidComponent_shorter {result value : U32} {data rest : Bytes}
    (read : oidComponent result data = some (value, rest)) : rest.length < data.length := by
  induction data generalizing result with
  | nil => cases read
  | cons b data ih =>
    simp only [oidComponent] at read
    split at read
    · cases read
      simp
    · have shorter := ih read
      simp only [List.length_cons]
      omega

def oidTail (data : Bytes) : Bytes :=
  match _read : oidComponent 0 data with
  | none => []
  | some (v, rest) => lit "." ++ decimal v.toNat ++ oidTail rest
termination_by data.length
decreasing_by exact oidComponent_shorter _read

def decodeOid (data : Bytes) : Bytes :=
  match oidComponent 0 data with
  | none => []
  | some (first, rest) =>
    let q1 := min (first.toNat / 40) 2
    let second := first.toNat - q1 * 40
    decimal q1 ++ lit "." ++ decimal second ++ oidTail rest

def certSlotText (slot : U32) : Bytes :=
  if slot.toInt = 0 then lit "leaf"
  else if slot.toInt = -1 then lit "root"
  else decimalInt slot.toInt

def getCertSlot : Reader Bytes := do
  let slot ← ReqCursor.u32
  pure (certSlotText slot)

def getMatch : Reader Bytes := do
  let op ← ReqCursor.u32
  match op with
  | MatchOp.EXISTS => pure (lit " /* exists */")
  | MatchOp.EQUAL => do
    let value ← ReqCursor.data
    pure (lit " = \"" ++ utf8Lossy value ++ lit "\"")
  | MatchOp.CONTAINS => do
    let value ← ReqCursor.data
    pure (lit " ~ \"" ++ utf8Lossy value ++ lit "\"")
  | MatchOp.BEGINS_WITH => do
    let value ← ReqCursor.data
    pure (lit " = \"" ++ utf8Lossy value ++ lit "*\"")
  | MatchOp.ENDS_WITH => do
    let value ← ReqCursor.data
    pure (lit " = \"*" ++ utf8Lossy value ++ lit "\"")
  | MatchOp.LESS_THAN => do
    let value ← ReqCursor.data
    pure (lit " < \"" ++ utf8Lossy value ++ lit "\"")
  | MatchOp.GREATER_THAN => do
    let value ← ReqCursor.data
    pure (lit " > \"" ++ utf8Lossy value ++ lit "\"")
  | MatchOp.LESS_EQUAL => do
    let value ← ReqCursor.data
    pure (lit " <= \"" ++ utf8Lossy value ++ lit "\"")
  | MatchOp.GREATER_EQUAL => do
    let value ← ReqCursor.data
    pure (lit " >= \"" ++ utf8Lossy value ++ lit "\"")
  | _ => pure (lit " /* match? */")

/-- One node of the prefix-coded expression. A node below the depth limit is replaced by a marker
    before anything of it is read. -/
def evalExpression (syntaxLevel depth : Nat) : Reader Bytes :=
  if _over : maxRequirementDepth < depth then pure (lit "/* … */") else do
    let op ← ReqCursor.u32
    match op with
    | ReqOp.FALSE => pure (lit "never")
    | ReqOp.TRUE => pure (lit "always")
    | ReqOp.IDENT => do
      let data ← ReqCursor.data
      pure (lit "identifier \"" ++ utf8Lossy data ++ lit "\"")
    | ReqOp.APPLE_ANCHOR => pure (lit "anchor apple")
    | ReqOp.APPLE_GENERIC_ANCHOR => pure (lit "anchor apple generic")
    | ReqOp.ANCHOR_HASH => do
      let slot ← getCertSlot
      let data ← ReqCursor.data
      pure (lit "certificate " ++ slot ++ lit " = H\"" ++ hexEncode data ++ lit "\"")
    | ReqOp.INFO_KEY_VALUE => do
      let key ← ReqCursor.data
      let value ← ReqCursor.data
      pure (lit "info[" ++ utf8Lossy key ++ lit "] = \"" ++ utf8Lossy value ++ lit "\"")
    | ReqOp.AND => do
      let paren := decide (syntaxLevel < slAnd)
      let left ← evalExpression slAnd (depth + 1)
      let right ← evalExpression slAnd (depth + 1)
      pure (wrap paren (left ++ lit " and " ++ right))
    | ReqOp.OR => do
      let paren := decide (syntaxLevel < slOr)
      let left ← evalExpression slOr (depth + 1)
      let right ← evalExpression slOr (depth + 1)
      pure (wrap paren (left ++ lit " or " ++ right))
    | ReqOp.NOT => do
      let inner ← evalExpression slPrimary (depth + 1)
      pure (lit "! " ++ inner)
    | ReqOp.CD_HASH => do
      let data ← ReqCursor.data
      pure (lit "cdhash H\"" ++ hexEncode data ++ lit "\"")
    | ReqOp.INFO_KEY_FIELD => do
      let key ← ReqCursor.data
      let m ← getMatch
      pure (lit "info[" ++ utf8Lossy key ++ lit "]" ++ m)
    | ReqOp.ENTITLEMENT_FIELD => do
      let key ← ReqCursor.data
      let m ← getMatch
      pure (lit "entitlement[" ++ utf8Lossy key ++ lit "]" ++ m)
    | ReqOp.CERT_FIELD => do
      let slot ← getCertSlot
      let field ← ReqCursor.data
      let m ← getMatch
      pure (lit "certificate " ++ slot ++ lit "[" ++ utf8Lossy field ++ lit "]" ++ m)
    | ReqOp.CERT_GENERIC => do
      let slot ← getCertSlot
      let oid ← ReqCursor.data
      let m ← getMatch
      pure (lit "certificate " ++ slot ++ lit "[field." ++ decodeOid oid ++ lit "]" ++ m)
    | ReqOp.CERT_POLICY => do
      let slot ← getCertSlot
      let oid ← ReqCursor.data
      let m ← getMatch
      pure (lit "certificate " ++ slot ++ lit "[policy." ++ decodeOid oid ++ lit "]" ++ m)
    | ReqOp.TRUSTED_CERT => do
      let slot ← getCertSlot
      pure (lit "certificate " ++ slot ++ lit " trusted")
    | ReqOp.TRUSTED_CERTS => pure (lit "anchor trusted")
    | ReqOp.NAMED_ANCHOR => do
      let data ← ReqCursor.data
      pure (lit "anchor apple " ++ utf8Lossy data)
    | ReqOp.NAMED_CODE => do
      let data ← ReqCursor.data
      pure (lit "(" ++ utf8Lossy data ++ lit ")")
    | other =>
      if other &&& reqOpGenericFalse ≠ 0 then
        pure (lit "false /* opcode " ++ decimal (other &&& ~~~reqOpFlagMask).toNat ++ lit " */")
      else if other &&& reqOpGenericSkip ≠ 0 then
        pure (lit "/* opcode " ++ decimal (other &&& ~~~reqOpFlagMask).toNat ++ lit " */")
      else
        pure (lit "/* unknown opcode " ++ decimal other.toNat ++ lit " */")
termination_by maxRequirementDepth + 1 - depth
decreasing_by all_goals omega

def decodeRequirementBlob (vector : Slice) (off : Nat) : Option Bytes := do
  let magic ← readU32BeAt vector off
  if magic ≠ csmagicRequirement then none else do
    let lengthOff ← checkedAddUsize off 4
    let length ← readU32BeAt vector lengthOff
    let blobEnd ← checkedAddUsize off length.toNat
    let exprStart ← checkedAddUsize off 12
    let expr ← vector.get exprStart blobEnd
    let (text, _) ← evalExpression slTop 0 (ReqCursor.new expr)
    some text

structure Requirements where
  blob : Slice
  count : U32
deriving DecidableEq

namespace Requirements

def parse (blob : Slice) : Option Requirements :=
  if blob.length < blobHeaderSize then none else do
    let magic ← readU32BeAt blob 0
    if magic ≠ csmagicRequirements then none else do
      let len ← readU32BeAt blob 4
      if len.toNat < blobHeaderSize ∨ blob.length < len.toNat then none else do
        let count := if 12 ≤ len.toNat then (readU32BeAt blob 8).getD 0 else 0
        let whole ← blob.get 0 len.toNat
        some ⟨whole, count⟩

/-- One turn of the loop over the index: a truncated entry ends the loop, an entry whose blob
    does not decode is passed over. -/
def decodedEntry (reqs : Requirements) (i : Nat) : Row DecodedRequirement :=
  match checkedAddUsize requirementsIndexOffset (saturatingMulUsize i blobIndexSize) with
  | none => .stop
  | some entryOff =>
    match readU32BeAt reqs.blob entryOff, readU32BeAt reqs.blob (saturatingAddUsize entryOff 4) with
    | some typeRaw, some blobOff =>
      match decodeRequirementBlob reqs.blob blobOff.toNat with
      | some text => .yield ⟨RequirementKind.fromRaw typeRaw, text⟩
      | none => .skip
    | _, _ => .stop

def decoded (reqs : Requirements) : List DecodedRequirement :=
  rows reqs.decodedEntry (min reqs.count.toNat maxRequirementEntries)

end Requirements

end DarwinScope.Codesign
