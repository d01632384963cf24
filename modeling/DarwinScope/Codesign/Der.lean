import Mathlib.Data.List.Destutter
import Mathlib.Data.List.Sort
import DarwinScope.Codesign.Signature

namespace DarwinScope.Codesign

open Machine

abbrev maxDerArrayItems : Nat := 1024
abbrev maxDerValueDepth : Nat := 32

inductive DerEntitlementValue where
  | bool (b : Bool)
  | integer (i : Int)
  | string (s : Bytes)
  | array (items : List DerEntitlementValue)
  | other (tag : U8)

structure DerHeader where
  tag : U8
  length : Nat
  headerLen : Nat
deriving DecidableEq

def DerHeader.size (hdr : DerHeader) : Nat := hdr.headerLen + hdr.length

def derReadHeader (buf : Bytes) : Option DerHeader := do
  let tag ← buf[0]?
  let lenByte ← buf[1]?
  if lenByte < 0x80#8 then some ⟨tag, lenByte.toNat, 2⟩
  else
    let n := (lenByte &&& 0x7f).toNat
    if n = 0 ∨ 4 < n then none
    else
      let octets := (buf.drop 2).take n
      if octets.length < n then none
      else some ⟨tag, octets.foldl (fun length b => length <<< 8 ||| b.toNat) 0, 2 + n⟩

/-- A range of a buffer that holds whole headers: no sum of its offsets reaches the width of a `usize`. -/
def derRange (buf : Bytes) (lo hi : Nat) : Option Bytes :=
  if lo ≤ hi ∧ hi ≤ buf.length then some ((buf.drop lo).take (hi - lo)) else none

theorem derReadHeader_pos {buf : Bytes} {hdr : DerHeader} (read : derReadHeader buf = some hdr) : 2 ≤ hdr.headerLen := by
  simp only [derReadHeader, Option.bind_eq_bind, Option.bind_eq_some_iff] at read
  rcases read with ⟨tag, -, lenByte, -, read⟩
  split at read
  · cases read
    exact Nat.le_refl 2
  split at read
  · cases read
  split at read
  · cases read
  · cases read
    exact Nat.le_add_right 2 _

structure DerItem where
  tag : U8
  body : Bytes
  whole : Bytes
deriving DecidableEq

/-- The loop that every walk over a container runs: the items from the cursor on, up to the first one
    that has no header or runs past the end. -/
def derItems (remaining : Bytes) : List DerItem :=
  match _read : derReadHeader remaining with
  | none => []
  | some hdr =>
    if _over : remaining.length < hdr.size then []
    else
      ⟨hdr.tag, (remaining.drop hdr.headerLen).take hdr.length, remaining.take hdr.size⟩ ::
        derItems (remaining.drop hdr.size)
termination_by remaining.length
decreasing_by
  have passed := derReadHeader_pos _read
  unfold DerHeader.size at *
  rw [List.length_drop]
  omega

def derInner (remaining : Bytes) : Option Bytes :=
  match _read : derReadHeader remaining with
  | none => none
  | some hdr =>
    if hdr.tag = 0x02 then
      if _over : remaining.length < hdr.size then none else derInner (remaining.drop hdr.size)
    else if hdr.tag = 0x30 ∨ hdr.tag = 0x31 ∨ hdr.tag = 0xa0 ∨ hdr.tag = 0xb0 then
      derRange remaining hdr.headerLen hdr.size
    else none
termination_by remaining.length
decreasing_by
  have passed := derReadHeader_pos _read
  unfold DerHeader.size at *
  rw [List.length_drop]
  omega

def derLocateEntries (payload : Bytes) : Option Bytes := do
  let outer ← derReadHeader payload
  let outerBody ← derRange payload outer.headerLen outer.size
  derInner outerBody

def derDecodeInteger (body : Bytes) : Int :=
  ((body.take 8).foldl (fun (v : U64) b => v <<< 8 ||| b.setWidth 64) 0).toInt

def derDecodeValue (buf : Bytes) (depth : Nat) : Option DerEntitlementValue :=
  if _over : maxDerValueDepth < depth then some (.other 0)
  else do
    let hdr ← derReadHeader buf
    let body ← derRange buf hdr.headerLen hdr.size
    if hdr.tag = 0x01 then some (.bool (decide (body[0]?.getD 0 ≠ 0)))
    else if hdr.tag = 0x02 then some (.integer (derDecodeInteger body))
    else if hdr.tag = 0x0c then some (.string (utf8Lossy body))
    else if hdr.tag = 0x30 ∨ hdr.tag = 0x31 ∨ hdr.tag = 0xa0 ∨ hdr.tag = 0xb0 then
      -- the loop ends when it has pushed the largest number of items
      some (.array (((derItems body).filterMap fun item => derDecodeValue item.whole (depth + 1)).take maxDerArrayItems))
    else some (.other hdr.tag)
termination_by maxDerValueDepth + 1 - depth

def derEntryPair (seqBody : Bytes) : Option (Bytes × DerEntitlementValue) := do
  let khdr ← derReadHeader seqBody
  if khdr.tag ≠ 0x0c then none else do
    let kbytes ← derRange seqBody khdr.headerLen khdr.size
    if validUtf8 kbytes then
      let value := ((derRange seqBody khdr.size seqBody.length).bind fun rest => derDecodeValue rest 0).getD (.other 0)
      some (kbytes, value)
    else none

def derFirstUtf8String (seqBody : Bytes) : Option Bytes := do
  let hdr ← derReadHeader seqBody
  if hdr.tag ≠ 0x0c then none else do
    let body ← derRange seqBody hdr.headerLen hdr.size
    if validUtf8 body then some body else none

def derCollect {α : Type} (read : Bytes → Option α) (payload : Bytes) : List α :=
  (derItems ((derLocateEntries payload).getD payload)).filterMap fun item =>
    if item.tag = 0x30 then read item.body else none

def derCollectPairs (payload : Bytes) : List (Bytes × DerEntitlementValue) := derCollect derEntryPair payload

def derCollectKeys (payload : Bytes) : List Bytes := derCollect derFirstUtf8String payload

namespace DerEntitlements

def pairs (e : DerEntitlements) : List (Bytes × DerEntitlementValue) := derCollectPairs e.payload.bytes

def keys (e : DerEntitlements) : List Bytes :=
  ((derCollectKeys e.payload.bytes).insertionSort (· ≤ ·)).destutter (· ≠ ·)

end DerEntitlements

end DarwinScope.Codesign
