import DarwinScope.Machine.Rows
import DarwinScope.Util

namespace DarwinScope.Fixup

open Machine

abbrev sizeofChainedFixupsHeader : Nat := 28
abbrev sizeofStartsInSegmentHeader : Nat := 22

inductive PointerFormat where
  | arm64e
  | ptr64
  | ptr64Offset
  | arm64eKernel
  | arm64eUserland
  | arm64eUserland24
  | arm64eSharedCache
  | other (raw : U16)
deriving DecidableEq

namespace PointerFormat

def fromRaw (raw : U16) : PointerFormat :=
  if raw = 1 then .arm64e
  else if raw = 2 then .ptr64
  else if raw = 6 then .ptr64Offset
  else if raw = 7 then .arm64eKernel
  else if raw = 9 then .arm64eUserland
  else if raw = 12 then .arm64eUserland24
  else if raw = 13 then .arm64eSharedCache
  else .other raw

def isSupported : PointerFormat → Bool
  | other _ => false
  | _ => true

end PointerFormat

inductive ImportsFormat where
  | plain
  | addend
  | addend64
  | other (raw : U32)
deriving DecidableEq

namespace ImportsFormat

def fromRaw (raw : U32) : ImportsFormat :=
  if raw = 1 then .plain
  else if raw = 2 then .addend
  else if raw = 3 then .addend64
  else .other raw

def entrySize : ImportsFormat → Option Nat
  | plain => some 4
  | addend => some 8
  | addend64 => some 16
  | other _ => none

end ImportsFormat

structure ChainedSegment where
  segIndex : U32
  size : U32
  pageSize : U16
  pointerFormat : PointerFormat
  rawPointerFormat : U16
  segmentOffset : U64
  maxValidPointer : U32
  pageCount : U16
  startsOffset : Nat
deriving DecidableEq

structure ChainedImport where
  libOrdinal : Int
  weakImport : Bool
  name : Str
  addend : Int
deriving DecidableEq

structure ChainedFixups where
  data : Slice
  base : Nat
  fixupsVersion : U32
  startsOffset : U32
  importsOffset : U32
  symbolsOffset : U32
  importsCount : U32
  importsFormat : ImportsFormat
  rawImportsFormat : U32
  symbolsFormat : U32
deriving DecidableEq

namespace ChainedFixups

def parse (data : Slice) (base size : Nat) : Option ChainedFixups := do
  let stop ← checkedAddUsize base size
  let payload ← data.get base stop
  if payload.length < sizeofChainedFixupsHeader then none else do
    let fixupsVersion ← readU32LeAt payload 0
    let startsOffset ← readU32LeAt payload 4
    let importsOffset ← readU32LeAt payload 8
    let symbolsOffset ← readU32LeAt payload 12
    let importsCount ← readU32LeAt payload 16
    let rawImportsFormat ← readU32LeAt payload 20
    let symbolsFormat ← readU32LeAt payload 24
    -- the payload length must fit a u32 before the three offsets are compared with it
    if 2^32 ≤ payload.length then none
    else if payload.length ≤ startsOffset.toNat ∨ payload.length < importsOffset.toNat ∨
        payload.length < symbolsOffset.toNat then none
    else
      some {
        data := data
        base := base
        fixupsVersion := fixupsVersion
        startsOffset := startsOffset
        importsOffset := importsOffset
        symbolsOffset := symbolsOffset
        importsCount := importsCount
        importsFormat := ImportsFormat.fromRaw rawImportsFormat
        rawImportsFormat := rawImportsFormat
        symbolsFormat := symbolsFormat
      }

def startsInImageOff (cf : ChainedFixups) : Nat := saturatingAddUsize cf.base cf.startsOffset.toNat

def segInfoOffset (cf : ChainedFixups) (i : Nat) : Option U32 := do
  let first ← checkedAddUsize cf.startsInImageOff 4
  let step ← checkedMulUsize i 4
  let entryBase ← checkedAddUsize first step
  readU32LeAt cf.data entryBase

def startsHeader (header : Slice) (segIndex : U32) (startsOff : Nat) : Option ChainedSegment := do
  let size ← readU32LeAt header 0
  let pageSize ← readU16LeAt header 4
  let rawFormat ← readU16LeAt header 6
  let segmentOffset ← readU64LeAt header 8
  let maxValidPointer ← readU32LeAt header 16
  let pageCount ← readU16LeAt header 20
  some {
    segIndex := segIndex
    size := size
    pageSize := pageSize
    pointerFormat := PointerFormat.fromRaw rawFormat
    rawPointerFormat := rawFormat
    segmentOffset := segmentOffset
    maxValidPointer := maxValidPointer
    pageCount := pageCount
    startsOffset := startsOff
  }

/-- One turn over `seg_info_offset[]`: a zero offset and a truncated header are passed by, every
    other failure ends the iterator. -/
def segmentRow (cf : ChainedFixups) (i : Nat) : Row ChainedSegment :=
  match cf.segInfoOffset i with
  | none => .stop
  | some infoOffset =>
    if infoOffset = 0 then .skip else
      match (checkedAddUsize cf.startsInImageOff infoOffset.toNat).bind fun startsOff =>
          (cf.data.from? startsOff).map fun header => (startsOff, header) with
      | none => .stop
      | some (startsOff, header) =>
        if header.length < sizeofStartsInSegmentHeader then .skip else
          match startsHeader header (BitVec.ofNat 32 i) startsOff with
          | none => .stop
          | some segment => .yield segment

def segments (cf : ChainedFixups) : List ChainedSegment :=
  rows cf.segmentRow ((readU32LeAt cf.data cf.startsInImageOff).getD 0).toNat

end ChainedFixups

def signExtendI8 (raw : U8) : Int := raw.toInt

def decodeImportPlain (entry : Slice) : Option (Int × Bool × U32 × Int) := do
  let raw ← readU32LeAt entry 0
  let libOrdinalRaw := (raw &&& 0xff).setWidth 8
  let weak := decide (raw &&& 0x100 ≠ 0)
  let nameOff := raw >>> 9
  some (signExtendI8 libOrdinalRaw, weak, nameOff, 0)

def decodeImportAddend (entry : Slice) : Option (Int × Bool × U32 × Int) := do
  let raw ← readU32LeAt entry 0
  let libOrdinalRaw := (raw &&& 0xff).setWidth 8
  let weak := decide (raw &&& 0x100 ≠ 0)
  let nameOff := raw >>> 9
  let addend ← readU32LeAt entry 4
  some (signExtendI8 libOrdinalRaw, weak, nameOff, addend.toInt)

def decodeImportAddend64 (entry : Slice) : Option (Int × Bool × U32 × Int) := do
  let libOrdinal ← readU16LeAt entry 0
  let flags ← readU16LeAt entry 2
  let weak := decide (flags &&& 1 ≠ 0)
  let nameOff ← readU32LeAt entry 4
  let addend ← readU64LeAt entry 8
  some (libOrdinal.toInt, weak, nameOff, addend.toInt)

def readPoolString (data : Slice) (poolBase : Nat) (nameOff : U32) : Option Str := do
  let start ← checkedAddUsize poolBase nameOff.toNat
  readCstrAt data start

namespace ChainedFixups

def importEntry (cf : ChainedFixups) (importsBase symbolsBase stride i : Nat) : Option ChainedImport := do
  let step ← checkedMulUsize i stride
  let entryBase ← checkedAddUsize importsBase step
  let entryEnd ← checkedAddUsize entryBase stride
  let entry ← cf.data.get entryBase entryEnd
  let (libOrdinal, weak, nameOffInPool, addend) ← match cf.importsFormat with
    | .plain => decodeImportPlain entry
    | .addend => decodeImportAddend entry
    | .addend64 => decodeImportAddend64 entry
    | .other _ => none
  some {
    libOrdinal := libOrdinal
    weakImport := weak
    name := (readPoolString cf.data symbolsBase nameOffInPool).getD (Str.literal "")
    addend := addend
  }

def importRow (cf : ChainedFixups) (importsBase symbolsBase stride i : Nat) : Row ChainedImport :=
  match cf.importEntry importsBase symbolsBase stride i with
  | some row => .yield row
  | none => .stop

def imports (cf : ChainedFixups) : List ChainedImport :=
  match cf.importsFormat.entrySize with
  | none => []
  | some stride =>
    match checkedAddUsize cf.base cf.importsOffset.toNat, checkedAddUsize cf.base cf.symbolsOffset.toNat with
    | some importsBase, some symbolsBase =>
      rows (cf.importRow importsBase symbolsBase stride) cf.importsCount.toNat
    | _, _ => []

end ChainedFixups

end DarwinScope.Fixup
