import DarwinScope.Swift.Fields
import DarwinScope.Swift.ValueTrailers

namespace DarwinScope.Swift

open Machine

inductive TypeKindBody where
  | «class» (body : ClassBody)
  | struct (body : StructBody)
  | enum (body : EnumBody)
  | nonType
deriving DecidableEq

structure DecodedType extends TypeDescriptor where
  body : TypeKindBody
deriving DecidableEq

structure ResilientSuperclass where
  address : U64
  superclassVa : U64
deriving DecidableEq

structure ForeignMetadataInit where
  address : U64
  completionFunctionVa : U64
deriving DecidableEq

structure SingletonMetadataInit where
  address : U64
  initializationCacheVa : U64
  incompleteMetadataVa : U64
  completionFunctionVa : U64
deriving DecidableEq

structure SingletonMetadataPointer where
  address : U64
  metadataVa : U64
deriving DecidableEq

structure ObjcResilientClassStubInfo where
  address : U64
  stubVa : U64
deriving DecidableEq

structure InvertibleProtocolSet where
  address : U64
  bits : U16
deriving DecidableEq

def decodeClassBody (rt : Image) (descriptorVa : U64) (flags : ContextDescriptorFlags) : Option ClassBody := do
  let classOff ← checkedAdd descriptorVa typeDescriptorBaseSize
  let header ← rt.readBytes classOff 24
  let superclassRel ← readI32LeAt header 0
  let union24 ← readU32LeAt header 4
  let union28 ← readU32LeAt header 8
  let numImmediateMembers ← readU32LeAt header 12
  let numFields ← readU32LeAt header 16
  let fieldOffsetVectorOffset ← readU32LeAt header 20
  let resilient := flags.typeFlags.classHasResilientSuperclass
  -- the slot of the metadata bounds is computed for a resilient superclass only
  let boundsVa ← if resilient then (checkedAdd classOff 4).map fun slot => some (relativeTarget slot union24) else some none
  let trailingStart ← checkedAdd classOff 24
  some (decodeClassTrailers rt flags trailingStart {
    superclassMangledName := relativeName rt.readCstr classOff superclassRel
    metadataNegativeSizeWords := if resilient then none else some union24
    resilientMetadataBoundsVa := boundsVa
    metadataPositiveSizeWords := if resilient then none else some union28
    extraClassFlags := if resilient then some union28 else none
    numImmediateMembers := numImmediateMembers
    numFields := numFields
    fieldOffsetVectorOffset := fieldOffsetVectorOffset
    genericHeaderVa := none
    resilientSuperclassVa := none
    foreignMetadataInitVa := none
    singletonMetadataInitVa := none
    vtableHeader := none
    overrideTableHeader := none
    objcResilientClassStubVa := none
    prespecializationsCount := none
    prespecializationsBaseVa := none
    invertibleProtocolSet := none
    singletonMetadataPointerVa := none
    defaultOverrideTableHeader := none
  })

/-- A tail that cannot be read leaves the row without one. -/
def decodeTypeBody (rt : Image) (descriptorVa : U64) (flags : ContextDescriptorFlags) : TypeKindBody :=
  match flags.kind with
  | .class => ((decodeClassBody rt descriptorVa flags).map TypeKindBody.class).getD .nonType
  | .struct => ((decodeStructBody rt descriptorVa flags).map TypeKindBody.struct).getD .nonType
  | .enum => ((decodeEnumBody rt descriptorVa flags).map TypeKindBody.enum).getD .nonType
  | _ => .nonType

def decodeTypeDescriptor (rt : Image) (descriptorVa : U64) : Option DecodedType := do
  let header ← rt.readBytes descriptorVa 20
  let flagsRaw ← readU32LeAt header 0
  let parentRel ← readI32LeAt header 4
  let nameRel ← readI32LeAt header 8
  let parentSlotVa ← checkedAdd descriptorVa 4
  let nameSlotVa ← checkedAdd descriptorVa 8
  let name ← rt.readCstr (relativePointer nameSlotVa nameRel)
  some {
    address := descriptorVa
    flags := ⟨flagsRaw⟩
    parentVa := resolveParent parentSlotVa parentRel
    name := name
    body := decodeTypeBody rt descriptorVa ⟨flagsRaw⟩
  }

def relativeAt (rt : Image) (address : U64) : Option U64 := do
  let bytes ← rt.readBytes address 4
  let rel ← readI32LeAt bytes 0
  some (relativeTarget address rel)

def TypeKindBody.valueTrailers : TypeKindBody → Option ValueTrailers
  | .class body => some body.valueTrailers
  | .struct body => some body.toValueTrailers
  | .enum body => some body.toValueTrailers
  | .nonType => none

def TypeKindBody.classBody : TypeKindBody → Option ClassBody
  | .class body => some body
  | _ => none

namespace DecodedType

variable (rt : Image) (t : DecodedType)

def vtable : Option (List VTableEntry) := t.body.classBody.bind (ClassBody.vtable rt)

def overrideTable : Option (List OverrideEntry) := t.body.classBody.bind (ClassBody.overrideTable rt)

def defaultOverrideTable : Option (List DefaultOverrideEntry) := t.body.classBody.bind (ClassBody.defaultOverrideTable rt)

def resilientSuperclass : Option ResilientSuperclass := do
  let body ← t.body.classBody
  let address ← body.resilientSuperclassVa
  let superclassVa ← relativeAt rt address
  some ⟨address, superclassVa⟩

def objcResilientClassStubInfo : Option ObjcResilientClassStubInfo := do
  let body ← t.body.classBody
  let address ← body.objcResilientClassStubVa
  let stubVa ← relativeAt rt address
  some ⟨address, stubVa⟩

def foreignMetadataInit : Option ForeignMetadataInit := do
  let trailers ← t.body.valueTrailers
  let address ← trailers.foreignMetadataInitVa
  let completionFunctionVa ← relativeAt rt address
  some ⟨address, completionFunctionVa⟩

/-- The target of a relative pointer at an offset of a block. A null pointer has none, whatever its slot. -/
def resolveAt (address slotOff : U64) (rel : U32) : Option U64 :=
  if rel = 0 then some 0 else (checkedAdd address slotOff).map fun slot => relativePointer slot rel

def singletonMetadataInit : Option SingletonMetadataInit := do
  let trailers ← t.body.valueTrailers
  let address ← trailers.singletonMetadataInitVa
  let bytes ← rt.readBytes address 12
  let cacheRel ← readI32LeAt bytes 0
  let patternRel ← readI32LeAt bytes 4
  let completionRel ← readI32LeAt bytes 8
  let initializationCacheVa ← resolveAt address 0 cacheRel
  let incompleteMetadataVa ← resolveAt address 4 patternRel
  let completionFunctionVa ← resolveAt address 8 completionRel
  some ⟨address, initializationCacheVa, incompleteMetadataVa, completionFunctionVa⟩

def prespecializations : Option (List U64) := do
  let trailers ← t.body.valueTrailers
  let count ← trailers.prespecializationsCount
  let baseVa ← trailers.prespecializationsBaseVa
  some (tableEntries (decodePrespecialization rt) 4 baseVa count)

def invertibleProtocolSet : Option InvertibleProtocolSet := do
  let trailers ← t.body.valueTrailers
  let bits ← trailers.invertibleProtocolSet
  some ⟨0, bits⟩

def singletonMetadataPointer : Option SingletonMetadataPointer := do
  let trailers ← t.body.valueTrailers
  let address ← trailers.singletonMetadataPointerVa
  let metadataVa ← relativeAt rt address
  some ⟨address, metadataVa⟩

def genericContextHeaderAddress : Option U64 := t.body.valueTrailers.bind ValueTrailers.genericHeaderVa

def readVector (bytes : Slice) (count : Nat) : Option (List U32) :=
  (List.range count).mapM fun i => (checkedMulUsize i 4).bind (readU32LeAt bytes)

def fieldOffsets : Option (List U32) := do
  let .struct s := t.body | none
  if s.fieldOffsetVectorOffset = 0 ∨ s.numFields = 0 then none
  else do
    let pointer ← t.singletonMetadataPointer rt
    if pointer.metadataVa = 0 then none
    else do
      let skipped ← checkedMul (s.fieldOffsetVectorOffset.setWidth 64 : U64) 8
      let base ← checkedAdd pointer.metadataVa skipped
      let byteLen ← checkedMulUsize s.numFields.toNat 4
      let bytes ← rt.readBytes base byteLen
      readVector bytes s.numFields.toNat

end DecodedType

end DarwinScope.Swift
