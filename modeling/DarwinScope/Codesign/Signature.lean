import DarwinScope.Codesign.Requirements

namespace DarwinScope.Codesign

open Machine

abbrev superblobHeaderSize : Nat := 12

abbrev csmagicEmbeddedSignature : U32 := 0xfade0cc0
abbrev csmagicEmbeddedSignatureOld : U32 := 0xfade0b02
abbrev csmagicCodedirectory : U32 := 0xfade0c02
abbrev csmagicEmbeddedEntitlements : U32 := 0xfade7171
abbrev csmagicEmbeddedDerEntitlements : U32 := 0xfade7172
abbrev csmagicBlobwrapper : U32 := 0xfade0b01

abbrev cdVersionSupportsTeamId : U32 := 0x00020200

abbrev cdFieldVersion : Nat := 8
abbrev cdFieldFlags : Nat := 12
abbrev cdFieldHashOffset : Nat := 16
abbrev cdFieldIdentOffset : Nat := 20
abbrev cdFieldNSpecialSlots : Nat := 24
abbrev cdFieldNCodeSlots : Nat := 28
abbrev cdFieldCodeLimit : Nat := 32
abbrev cdFieldHashSize : Nat := 36
abbrev cdFieldHashType : Nat := 37
abbrev cdFieldPlatform : Nat := 38
abbrev cdFieldPageSize : Nat := 39
abbrev cdFieldTeamOffset : Nat := 48

inductive Slot where
  | codeDirectory
  | infoSlot
  | requirements
  | resourceDir
  | application
  | entitlements
  | derEntitlements
  | launchConstraintSelf
  | launchConstraintParent
  | launchConstraintResponsible
  | libraryConstraint
  | alternateCodeDirectory (index : U32)
  | signatureSlot
  | identificationSlot
  | ticketSlot
  | other (raw : U32)
deriving DecidableEq

def Slot.fromRaw (raw : U32) : Slot :=
  if raw = 0 then .codeDirectory
  else if raw = 1 then .infoSlot
  else if raw = 2 then .requirements
  else if raw = 3 then .resourceDir
  else if raw = 4 then .application
  else if raw = 5 then .entitlements
  else if raw = 7 then .derEntitlements
  else if raw = 8 then .launchConstraintSelf
  else if raw = 9 then .launchConstraintParent
  else if raw = 10 then .launchConstraintResponsible
  else if raw = 11 then .libraryConstraint
  else if 0x1000#32 ≤ raw ∧ raw ≤ 0x1004#32 then .alternateCodeDirectory (raw - 0x1000)
  else if raw = 0x10000 then .signatureSlot
  else if raw = 0x10001 then .identificationSlot
  else if raw = 0x10002 then .ticketSlot
  else .other raw

structure BlobIndex where
  slot : Slot
  rawSlot : U32
  offset : U32
deriving DecidableEq

structure CodeDirectory where
  blob : Slice
  version : U32
  flags : U32
  hashOffset : U32
  identOffset : U32
  nSpecialSlots : U32
  nCodeSlots : U32
  codeLimit : U32
  hashSize : U8
  hashTypeRaw : U8
  platform : U8
  pageSizeLog2 : U8
  teamOffset : U32
deriving DecidableEq

def CodeDirectory.parse (blob : Slice) : Option CodeDirectory :=
  if blob.length < cdFieldPageSize + 1 then none else do
    let magic ← readU32BeAt blob 0
    if magic ≠ csmagicCodedirectory then none else do
      let version ← readU32BeAt blob cdFieldVersion
      let flags ← readU32BeAt blob cdFieldFlags
      let hashOffset ← readU32BeAt blob cdFieldHashOffset
      let identOffset ← readU32BeAt blob cdFieldIdentOffset
      let nSpecialSlots ← readU32BeAt blob cdFieldNSpecialSlots
      let nCodeSlots ← readU32BeAt blob cdFieldNCodeSlots
      let codeLimit ← readU32BeAt blob cdFieldCodeLimit
      let hashSize ← blob.bytes[cdFieldHashSize]?
      let hashTypeRaw ← blob.bytes[cdFieldHashType]?
      let platform ← blob.bytes[cdFieldPlatform]?
      let pageSizeLog2 ← blob.bytes[cdFieldPageSize]?
      let teamOffset := if cdVersionSupportsTeamId ≤ version then (readU32BeAt blob cdFieldTeamOffset).getD 0 else 0
      some {
        blob := blob
        version := version
        flags := flags
        hashOffset := hashOffset
        identOffset := identOffset
        nSpecialSlots := nSpecialSlots
        nCodeSlots := nCodeSlots
        codeLimit := codeLimit
        hashSize := hashSize
        hashTypeRaw := hashTypeRaw
        platform := platform
        pageSizeLog2 := pageSizeLog2
        teamOffset := teamOffset
      }

def blobPayload (expected : U32) (blob : Slice) : Option Slice :=
  if blob.length < blobHeaderSize then none else do
    let magic ← readU32BeAt blob 0
    if magic ≠ expected then none else do
      let len ← readU32BeAt blob 4
      if len.toNat < blobHeaderSize ∨ blob.length < len.toNat then none else
        blob.get blobHeaderSize len.toNat

structure Entitlements where
  payload : Slice
deriving DecidableEq

def Entitlements.parse (blob : Slice) : Option Entitlements :=
  (blobPayload csmagicEmbeddedEntitlements blob).map Entitlements.mk

structure DerEntitlements where
  payload : Slice
deriving DecidableEq

def DerEntitlements.parse (blob : Slice) : Option DerEntitlements :=
  (blobPayload csmagicEmbeddedDerEntitlements blob).map DerEntitlements.mk

structure CmsSignature where
  payload : Slice
deriving DecidableEq

def CmsSignature.parse (blob : Slice) : Option CmsSignature :=
  (blobPayload csmagicBlobwrapper blob).map CmsSignature.mk

structure Signature where
  data : Slice
  base : Nat
  magic : U32
  length : U32
  count : U32
deriving DecidableEq

namespace Signature

def parse (data : Slice) (base : Nat) : Option Signature := do
  let headerEnd ← checkedAddUsize base superblobHeaderSize
  let _ ← data.get base headerEnd
  let magic ← readU32BeAt data base
  if magic ≠ csmagicEmbeddedSignature ∧ magic ≠ csmagicEmbeddedSignatureOld then none else do
    let lenOff ← checkedAddUsize base 4
    let countOff ← checkedAddUsize base 8
    let length ← readU32BeAt data lenOff
    let count ← readU32BeAt data countOff
    let index ← checkedMulUsize count.toNat blobIndexSize
    let need ← checkedAddUsize superblobHeaderSize index
    if length.toNat < need then none else do
      let blobEnd ← checkedAddUsize base length.toNat
      if data.length < blobEnd then none else
        some ⟨data, base, magic, length, count⟩

def blobRow (sig : Signature) (i : Nat) : Row BlobIndex :=
  let row : Option BlobIndex := do
    let first ← checkedAddUsize sig.base superblobHeaderSize
    let step ← checkedMulUsize i blobIndexSize
    let entryOff ← checkedAddUsize first step
    let raw ← readU32BeAt sig.data entryOff
    let offOff ← checkedAddUsize entryOff 4
    let offset ← readU32BeAt sig.data offOff
    some ⟨Slot.fromRaw raw, raw, offset⟩
  match row with
  | some idx => .yield idx
  | none => .stop

def blobs (sig : Signature) : List BlobIndex := rows sig.blobRow sig.count.toNat

def blobBytesAt (sig : Signature) (offset : U32) : Option Slice := do
  let abs ← checkedAddUsize sig.base offset.toNat
  let headerEnd ← checkedAddUsize abs blobHeaderSize
  let header ← sig.data.get abs headerEnd
  let blobLen ← readU32BeAt header 4
  if blobLen.toNat < blobHeaderSize then none else do
    let stop ← checkedAddUsize abs blobLen.toNat
    sig.data.get abs stop

def findBlobBytes (sig : Signature) (target : Slot) : Option Slice :=
  (sig.blobs.find? fun idx => idx.slot = target).bind fun idx => sig.blobBytesAt idx.offset

def primaryCodeDirectory (sig : Signature) : Option CodeDirectory :=
  (sig.findBlobBytes .codeDirectory).bind CodeDirectory.parse

def alternateCodeDirectory (sig : Signature) (i : Nat) : Option CodeDirectory :=
  (sig.findBlobBytes (.alternateCodeDirectory (BitVec.ofNat 32 i))).bind CodeDirectory.parse

def alternateCodeDirectories (sig : Signature) : List CodeDirectory :=
  (List.range 5).filterMap sig.alternateCodeDirectory

def entitlements (sig : Signature) : Option Entitlements :=
  (sig.findBlobBytes .entitlements).bind Entitlements.parse

def derEntitlements (sig : Signature) : Option DerEntitlements :=
  (sig.findBlobBytes .derEntitlements).bind DerEntitlements.parse

def cms (sig : Signature) : Option CmsSignature :=
  (sig.findBlobBytes .signatureSlot).bind CmsSignature.parse

def requirements (sig : Signature) : Option Requirements :=
  (sig.findBlobBytes .requirements).bind Requirements.parse

end Signature

end DarwinScope.Codesign
