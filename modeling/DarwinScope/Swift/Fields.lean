import DarwinScope.Machine.Iteration
import DarwinScope.Swift.ClassTrailers

namespace DarwinScope.Swift

open Machine

abbrev fieldDescriptorHeaderSize : Nat := 16

inductive FieldDescriptorKind where
  | struct
  | «class»
  | enum
  | multiPayloadEnum
  | protocol
  | classProtocol
  | objcProtocol
  | objcClass
  | other (raw : U16)
deriving DecidableEq

def FieldDescriptorKind.fromBits (raw : U16) : FieldDescriptorKind :=
  if raw = 0 then .struct
  else if raw = 1 then .class
  else if raw = 2 then .enum
  else if raw = 3 then .multiPayloadEnum
  else if raw = 4 then .protocol
  else if raw = 5 then .classProtocol
  else if raw = 6 then .objcProtocol
  else if raw = 7 then .objcClass
  else .other raw

structure FieldRecordFlags where
  raw : U32
deriving DecidableEq

namespace FieldRecordFlags

variable (flags : FieldRecordFlags)

def isIndirectCase : Bool := hasBit flags.raw 0

def isVar : Bool := hasBit flags.raw 1

def isArtificial : Bool := hasBit flags.raw 2

end FieldRecordFlags

structure FieldRecord where
  flags : FieldRecordFlags
  mangledTypeName : Option Str
  fieldName : Option Str
deriving DecidableEq

structure FieldDescriptor where
  address : U64
  mangledTypeName : Option Str
  superclassMangledName : Option Str
  kind : FieldDescriptorKind
  fieldRecordSize : U16
  numFields : U32
deriving DecidableEq

variable (rt : SwiftRuntime)

/-- The image first, and then the body of `__swift5_reflstr` for a name outside of every segment. -/
def lookupFieldName (targetVa : U64) : Option Str :=
  if targetVa = 0 then none
  else
    match rt.readCstr targetVa with
    | some s => some s
    | none => do
      let sec ← rt.reflstr
      if targetVa < sec.vmaddr then none
      else
        let off := (targetVa - sec.vmaddr).toNat
        if sec.body.length ≤ off then none else readCstrAt sec.body off

def relativeName (read : U64 → Option Str) (slotVa : U64) (rel : U32) : Option Str :=
  if rel = 0 then none else read (relativePointer slotVa rel)

def decodeFieldRecord (entryVa : U64) : Option FieldRecord := do
  let bytes ← rt.readBytes entryVa 12
  let flagsRaw ← readU32LeAt bytes 0
  let mangledRel ← readI32LeAt bytes 4
  let nameRel ← readI32LeAt bytes 8
  let mangledSlotVa ← checkedAdd entryVa 4
  let nameSlotVa ← checkedAdd entryVa 8
  some {
    flags := ⟨flagsRaw⟩
    mangledTypeName := relativeName rt.readCstr mangledSlotVa mangledRel
    fieldName := relativeName (lookupFieldName rt) nameSlotVa nameRel
  }

def FieldDescriptor.records (descriptor : FieldDescriptor) : List FieldRecord :=
  let baseVa := (checkedAdd descriptor.address (BitVec.ofNat 64 fieldDescriptorHeaderSize)).getD 0
  tableEntries (decodeFieldRecord rt) (descriptor.fieldRecordSize.setWidth 64) baseVa descriptor.numFields

def fieldIterNext (cursor : Nat) : Option (FieldDescriptor × Nat) := do
  let sec ← rt.fieldmd
  let headerEnd ← checkedAddUsize cursor fieldDescriptorHeaderSize
  if sec.body.length < headerEnd then none
  else do
    let header ← sec.body.get cursor headerEnd
    let mangledRel := (readI32LeAt header 0).getD 0
    let superclassRel := (readI32LeAt header 4).getD 0
    let kindRaw := (readU16LeAt header 8).getD 0
    let fieldRecordSize := (readU16LeAt header 10).getD 12
    let numFields := (readU32LeAt header 12).getD 0
    let bodySize ← checkedMul (numFields.setWidth 64 : U64) (fieldRecordSize.setWidth 64)
    let total ← checkedAdd bodySize (BitVec.ofNat 64 fieldDescriptorHeaderSize)
    let nextOff ← checkedAddUsize cursor total.toNat
    if sec.body.length < nextOff then none
    else do
      let descriptorVa := sec.vmaddr + BitVec.ofNat 64 cursor
      let superclassSlotVa ← checkedAdd descriptorVa 4
      some ({
        address := descriptorVa
        mangledTypeName := relativeName rt.readCstr descriptorVa mangledRel
        superclassMangledName := relativeName rt.readCstr superclassSlotVa superclassRel
        kind := FieldDescriptorKind.fromBits kindRaw
        fieldRecordSize := fieldRecordSize
        numFields := numFields
      }, nextOff)

/-- The descriptors up to the first one that cannot be read. -/
def fieldDescriptors (fuel : Nat) : Option (List FieldDescriptor) := collect (fieldIterNext rt) fuel 0

end DarwinScope.Swift
