import DarwinScope.Machine.Blocks
import DarwinScope.Machine.Rows
import DarwinScope.Swift.Parent

namespace DarwinScope.Swift

open Machine

structure VTableHeader where
  vtableOffset : U32
  vtableSize : U32
  entriesVa : U64
deriving DecidableEq

structure OverrideTableHeader where
  numEntries : U32
  entriesVa : U64
deriving DecidableEq

structure DefaultOverrideTableHeader where
  numEntries : U32
  entriesVa : U64
deriving DecidableEq

structure ClassBody where
  superclassMangledName : Option Str
  metadataNegativeSizeWords : Option U32
  resilientMetadataBoundsVa : Option U64
  metadataPositiveSizeWords : Option U32
  extraClassFlags : Option U32
  numImmediateMembers : U32
  numFields : U32
  fieldOffsetVectorOffset : U32
  genericHeaderVa : Option U64
  resilientSuperclassVa : Option U64
  foreignMetadataInitVa : Option U64
  singletonMetadataInitVa : Option U64
  vtableHeader : Option VTableHeader
  overrideTableHeader : Option OverrideTableHeader
  objcResilientClassStubVa : Option U64
  prespecializationsCount : Option U32
  prespecializationsBaseVa : Option U64
  invertibleProtocolSet : Option U16
  singletonMetadataPointerVa : Option U64
  defaultOverrideTableHeader : Option DefaultOverrideTableHeader
deriving DecidableEq

section

variable (rt : Image)

def decodeGenericHeader (headerVa : U64) : Option (U64 × U64) := do
  let header ← rt.readBytes headerVa 16
  let numParams ← readU16LeAt header 8
  let numRequirements ← readU16LeAt header 10
  let cursor ← checkedAdd headerVa 16
  let paramsSize : U64 := numParams.setWidth 64
  let cursor ← checkedAdd cursor paramsSize
  let pad := (4 - (paramsSize &&& 0x3)) &&& 0x3
  let cursor ← checkedAdd cursor pad
  let reqSize ← checkedMul (numRequirements.setWidth 64) (12 : U64)
  let cursor ← checkedAdd cursor reqSize
  some (headerVa, cursor)

def tableRange (headerVa headerSize : U64) (count : U32) (stride : U64) : Option (U64 × U64) := do
  let entriesVa ← checkedAdd headerVa headerSize
  let entriesSize ← checkedMul (count.setWidth 64) stride
  let stop ← checkedAdd entriesVa entriesSize
  some (entriesVa, stop)

def decodeVtableHeader (headerVa : U64) : Option (VTableHeader × U64) := do
  let bytes ← rt.readBytes headerVa 8
  let vtableOffset ← readU32LeAt bytes 0
  let vtableSize ← readU32LeAt bytes 4
  let (entriesVa, stop) ← tableRange headerVa 8 vtableSize 8
  some (⟨vtableOffset, vtableSize, entriesVa⟩, stop)

def decodeTableHeader {α : Type} (make : U32 → U64 → α) (stride : U64) (headerVa : U64) : Option (α × U64) := do
  let bytes ← rt.readBytes headerVa 4
  let numEntries ← readU32LeAt bytes 0
  let (entriesVa, stop) ← tableRange headerVa 4 numEntries stride
  some (make numEntries entriesVa, stop)

def decodeOverrideHeader : U64 → Option (OverrideTableHeader × U64) := decodeTableHeader rt OverrideTableHeader.mk 12

def decodeDefaultOverrideHeader : U64 → Option (DefaultOverrideTableHeader × U64) :=
  decodeTableHeader rt DefaultOverrideTableHeader.mk 8

def decodePrespecializations (headerVa : U64) : Option ((U32 × U64) × U64) := do
  let ((count, entriesVa), afterEntries) ← decodeTableHeader rt Prod.mk 4 headerVa
  let accessorsSize ← checkedMul (count.setWidth 64) (4 : U64)
  let stop ← checkedAdd afterEntries accessorsSize
  some ((count, entriesVa), stop)

def readU16AtVa (va : U64) : Option U16 := do
  let bytes ← rt.readBytes va 2
  readU16LeAt bytes 0

end

section

variable {σ α : Type}

def addressBlock (present : Bool) (size : U64) (set : U64 → σ → σ) : Block σ := fun cursor s =>
  if present then (set cursor s, checkedAdd cursor size) else (s, some cursor)

/-- A block with a header that tells its size; the walk ends when the header cannot be read. -/
def headerBlock (present : Bool) (decode : U64 → Option (α × U64)) (set : α → σ → σ) : Block σ := fun cursor s =>
  if present then
    match decode cursor with
    | some (header, stop) => (set header s, some stop)
    | none => (s, none)
  else (s, some cursor)

def metadataInitBlock (kind : MetadataInitializationKind) (setForeign setSingleton : U64 → σ → σ) : Block σ :=
  match kind with
  | .foreign => addressBlock true 4 setForeign
  | .singleton => addressBlock true 12 setSingleton
  | .none | .other => addressBlock false 0 fun _ s => s

/-- The set has two bytes and is padded to four. -/
def invertibleBlock (rt : Image) (present : Bool) (set : U16 → σ → σ) : Block σ := fun cursor s =>
  if present then
    match readU16AtVa rt cursor with
    | some bits => (set bits s, checkedAdd cursor 4)
    | none => (s, none)
  else (s, some cursor)

end

def ClassBody.hasObjcStub (body : ClassBody) : Bool := (body.extraClassFlags.map fun f => decide (f &&& 0x1 ≠ 0)).getD false

def classBlocks (rt : Image) (flags : ContextDescriptorFlags) : List (Block ClassBody) :=
  let typeFlags := flags.typeFlags
  [headerBlock flags.isGeneric (decodeGenericHeader rt) fun va body => { body with genericHeaderVa := some va },
    addressBlock typeFlags.classHasResilientSuperclass 4 fun va body => { body with resilientSuperclassVa := some va },
    metadataInitBlock typeFlags.metadataInitialization
      (fun va body => { body with foreignMetadataInitVa := some va })
      (fun va body => { body with singletonMetadataInitVa := some va }),
    headerBlock typeFlags.classHasVtable (decodeVtableHeader rt) fun header body =>
      { body with vtableHeader := some header },
    headerBlock typeFlags.classHasOverrideTable (decodeOverrideHeader rt) fun header body =>
      { body with overrideTableHeader := some header },
    fun cursor body =>
      addressBlock body.hasObjcStub 4 (fun va body => { body with objcResilientClassStubVa := some va }) cursor body,
    headerBlock typeFlags.hasCanonicalMetadataPrespecializations (decodePrespecializations rt) fun found body =>
      { body with prespecializationsCount := some found.1, prespecializationsBaseVa := some found.2 },
    invertibleBlock rt flags.hasInvertibleProtocols fun bits body => { body with invertibleProtocolSet := some bits },
    addressBlock typeFlags.hasSingletonMetadataPointer 4 fun va body =>
      { body with singletonMetadataPointerVa := some va },
    headerBlock typeFlags.classHasDefaultOverrideTable (decodeDefaultOverrideHeader rt) fun header body =>
      { body with defaultOverrideTableHeader := some header }]

def decodeClassTrailers (rt : Image) (flags : ContextDescriptorFlags) (trailingStart : U64) (body : ClassBody) : ClassBody :=
  walk (classBlocks rt flags) trailingStart body

structure VTableEntry where
  address : U64
  flags : MethodDescriptorFlags
  implVa : U64
deriving DecidableEq

structure OverrideEntry where
  address : U64
  classVa : U64
  methodVa : U64
  implVa : U64
deriving DecidableEq

structure DefaultOverrideEntry where
  address : U64
  methodVa : U64
  implVa : U64
deriving DecidableEq

def relativeTarget (slotVa : U64) (rel : U32) : U64 := if rel = 0 then 0 else relativePointer slotVa rel

section

variable (rt : Image)

def decodeVtableEntry (entryVa : U64) : Option VTableEntry := do
  let bytes ← rt.readBytes entryVa 8
  let flagsRaw ← readU32LeAt bytes 0
  let implRel ← readI32LeAt bytes 4
  let implSlotVa ← checkedAdd entryVa 4
  some ⟨entryVa, ⟨flagsRaw⟩, relativeTarget implSlotVa implRel⟩

def decodeOverrideEntry (entryVa : U64) : Option OverrideEntry := do
  let bytes ← rt.readBytes entryVa 12
  let classRel ← readI32LeAt bytes 0
  let methodRel ← readI32LeAt bytes 4
  let implRel ← readI32LeAt bytes 8
  let methodSlotVa ← checkedAdd entryVa 4
  let implSlotVa ← checkedAdd entryVa 8
  some ⟨entryVa, relativeTarget entryVa classRel, relativeTarget methodSlotVa methodRel, relativeTarget implSlotVa implRel⟩

def decodeDefaultOverrideEntry (entryVa : U64) : Option DefaultOverrideEntry := do
  let bytes ← rt.readBytes entryVa 8
  let methodRel ← readI32LeAt bytes 0
  let implRel ← readI32LeAt bytes 4
  let implSlotVa ← checkedAdd entryVa 4
  some ⟨entryVa, relativeTarget entryVa methodRel, relativeTarget implSlotVa implRel⟩

def decodePrespecialization (slotVa : U64) : Option U64 := do
  let bytes ← rt.readBytes slotVa 4
  let rel ← readI32LeAt bytes 0
  some (relativeTarget slotVa rel)

end

/-- The iterators over the tables: the entries up to the first one that cannot be read. -/
def tableEntries {α : Type} (decode : U64 → Option α) (stride : U64) (baseVa : U64) (count : U32) : List α :=
  rows (fun i =>
    match ((checkedMul (BitVec.ofNat 64 i) stride).bind (checkedAdd baseVa)).bind decode with
    | none => .stop
    | some entry => .yield entry) count.toNat

namespace ClassBody

variable (rt : Image) (body : ClassBody)

def vtable : Option (List VTableEntry) :=
  body.vtableHeader.map fun header => tableEntries (decodeVtableEntry rt) 8 header.entriesVa header.vtableSize

def overrideTable : Option (List OverrideEntry) :=
  body.overrideTableHeader.map fun header => tableEntries (decodeOverrideEntry rt) 12 header.entriesVa header.numEntries

def defaultOverrideTable : Option (List DefaultOverrideEntry) :=
  body.defaultOverrideTableHeader.map fun header =>
    tableEntries (decodeDefaultOverrideEntry rt) 8 header.entriesVa header.numEntries

def prespecializations : Option (List U64) := do
  let count ← body.prespecializationsCount
  let baseVa ← body.prespecializationsBaseVa
  some (tableEntries (decodePrespecialization rt) 4 baseVa count)

end ClassBody

end DarwinScope.Swift
