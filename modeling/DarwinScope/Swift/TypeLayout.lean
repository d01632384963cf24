import DarwinScope.Swift.SectionLayout

namespace DarwinScope.Swift

open Machine

/-- How a class describes the size of its metadata: by two numbers, or by a cache that is filled in at run time. -/
inductive ClassBounds where
  | fixed (negativeSizeWords positiveSizeWords : U32)
  | resilient (bounds : Option U64) (extraFlags : U32)

structure ClassFields where
  superclassMangledName : Option Label
  bounds : ClassBounds
  numImmediateMembers : U32
  numFields : U32
  fieldOffsetVectorOffset : U32

structure ValueBlocks where
  generic : Option GenericTrailer
  metadataInit : MetadataInit
  prespecializations : Option (List U32 × List U32)
  invertibleProtocols : Option (U16 × U16)
  singletonPointer : Option U32

inductive TypeTail where
  | «class» (fields : ClassFields) (trailers : ClassTrailers)
  | struct (numFields fieldOffsetVectorOffset : U32) (trailers : ValueBlocks)
  | enum (numPayloadCases : BitVec 24) (payloadSizeOffset : U8) (numEmptyCases : U32) (trailers : ValueBlocks)
  | nonType

structure TypeData where
  flags : U32
  parent : Option U64
  name : Label
  accessFunction : U32
  fields : U32
  tail : TypeTail

namespace ClassBounds

def words (slot : U64) : ClassBounds → U32 × U32
  | fixed negative positive => (negative, positive)
  | resilient bounds extraFlags => (pointerWord slot bounds, extraFlags)

def extraFlags : ClassBounds → Option U32
  | fixed _ _ => none
  | resilient _ extraFlags => some extraFlags

def isResilient : ClassBounds → Bool
  | fixed _ _ => false
  | resilient _ _ => true

def Fits (slot : U64) : ClassBounds → Prop
  | fixed _ _ => True
  | resilient bounds _ => PointerFits slot bounds

end ClassBounds

namespace ClassFields

def encode (va : U64) (c : ClassFields) : Bytes :=
  encodeWords [nameWord va c.superclassMangledName, (c.bounds.words (va + 4)).1, (c.bounds.words (va + 4)).2,
    c.numImmediateMembers, c.numFields, c.fieldOffsetVectorOffset]

def header (superclass : Option Str) (c : ClassFields) : ClassHeader where
  superclassMangledName := superclass
  metadataNegativeSizeWords := match c.bounds with
    | .fixed negative _ => some negative
    | .resilient _ _ => none
  resilientMetadataBoundsVa := match c.bounds with
    | .fixed _ _ => none
    | .resilient bounds _ => some (bounds.getD 0)
  metadataPositiveSizeWords := match c.bounds with
    | .fixed _ positive => some positive
    | .resilient _ _ => none
  extraClassFlags := c.bounds.extraFlags
  numImmediateMembers := c.numImmediateMembers
  numFields := c.numFields
  fieldOffsetVectorOffset := c.fieldOffsetVectorOffset

end ClassFields

namespace ValueBlocks

def all (b : ValueBlocks) : ClassTrailers where
  generic := b.generic
  resilientSuperclass := none
  metadataInit := b.metadataInit
  vtable := none
  overrideTable := none
  objcStub := none
  prespecializations := b.prespecializations
  invertibleProtocols := b.invertibleProtocols
  singletonPointer := b.singletonPointer
  defaultOverrides := none

structure Matches (b : ValueBlocks) (flags : ContextDescriptorFlags) : Prop where
  generic : b.generic.isSome = flags.isGeneric
  metadataInit : b.metadataInit.Suits flags.typeFlags.metadataInitialization
  prespecializations : b.prespecializations.isSome = flags.typeFlags.hasCanonicalMetadataPrespecializations
  invertibleProtocols : b.invertibleProtocols.isSome = flags.hasInvertibleProtocols
  singletonPointer : b.singletonPointer.isSome = flags.typeFlags.hasSingletonMetadataPointer

def header : ClassHeader := ⟨none, none, none, none, none, 0, 0, 0⟩

end ValueBlocks

def noTrailers : ClassTrailers := ⟨none, none, .none, none, none, none, none, none, none, none⟩

namespace TypeTail

/-- The payload cases and the offset of the payload size share a word. -/
def packed (numPayloadCases : BitVec 24) (payloadSizeOffset : U8) : U32 := payloadSizeOffset ++ numPayloadCases

def fixedPart (va : U64) : TypeTail → Bytes
  | .class fields _ => fields.encode va
  | .struct numFields fieldOffsetVectorOffset _ => encodeWords [numFields, fieldOffsetVectorOffset]
  | .enum numPayloadCases payloadSizeOffset numEmptyCases _ =>
    encodeWords [packed numPayloadCases payloadSizeOffset, numEmptyCases]
  | nonType => []

def trailers : TypeTail → ClassTrailers
  | .class _ trailers => trailers
  | .struct _ _ trailers => trailers.all
  | .enum _ _ _ trailers => trailers.all
  | nonType => noTrailers

def encode (va : U64) (t : TypeTail) : Bytes := t.fixedPart va ++ t.trailers.encode

def Fits (image : Image) (va : U64) (flags : ContextDescriptorFlags) : TypeTail → Prop
  | .class fields trailers => flags.kind = .class ∧ NameFits image va fields.superclassMangledName ∧
      fields.bounds.isResilient = flags.typeFlags.classHasResilientSuperclass ∧ fields.bounds.Fits (va + 4) ∧
      trailers.Matches flags fields.bounds.extraFlags ∧ trailers.Fits
  | .struct _ _ trailers => flags.kind = .struct ∧ trailers.Matches flags ∧ trailers.all.Fits
  | .enum _ _ _ trailers => flags.kind = .enum ∧ trailers.Matches flags ∧ trailers.all.Fits
  | nonType => flags.kind ≠ .class ∧ flags.kind ≠ .struct ∧ flags.kind ≠ .enum

def trailingStart (va : U64) : TypeTail → U64
  | .class _ _ => va + 24
  | .struct _ _ _ => va + 8
  | .enum _ _ _ _ => va + 8
  | nonType => va

def row (va : U64) : TypeTail → TypeKindBody
  | .class fields trailers =>
    .class (trailers.decoded (va + 24) (fields.header (fields.superclassMangledName.map Label.str)).body)
  | .struct numFields fieldOffsetVectorOffset trailers =>
    .struct { (trailers.all.decoded (va + 8) ValueBlocks.header.body).valueTrailers with
      numFields := numFields, fieldOffsetVectorOffset := fieldOffsetVectorOffset }
  | .enum numPayloadCases payloadSizeOffset numEmptyCases trailers =>
    .enum { (trailers.all.decoded (va + 8) ValueBlocks.header.body).valueTrailers with
      numPayloadCases := numPayloadCases.setWidth 32
      payloadSizeOffset := payloadSizeOffset
      numEmptyCases := numEmptyCases }
  | nonType => .nonType

end TypeTail

namespace TypeData

def encode (va : U64) (t : TypeData) : Bytes :=
  encodeWords [t.flags, pointerWord (va + 4) t.parent, nameWord (va + 8) (some t.name), t.accessFunction, t.fields] ++
    t.tail.encode (va + 20)

structure Fits (image : Image) (va : U64) (t : TypeData) : Prop where
  parent : PointerFits (va + 4) t.parent
  name : NameFits image (va + 8) (some t.name)
  tail : t.tail.Fits image (va + 20) ⟨t.flags⟩
  stored : image.Stored va (t.encode va)

def row (va : U64) (t : TypeData) : DecodedType where
  address := va
  flags := ⟨t.flags⟩
  parentVa := t.parent.getD 0
  name := t.name.str
  body := t.tail.row (va + 20)

end TypeData

def ClassBody.unplaced (body : ClassBody) : ClassBody :=
  { body with superclassMangledName := body.superclassMangledName.map Str.unplaced }

def TypeKindBody.unplaced : TypeKindBody → TypeKindBody
  | .class body => .class body.unplaced
  | body => body

def DecodedType.unplaced (t : DecodedType) : DecodedType := { t with name := t.name.unplaced, body := t.body.unplaced }

structure TypeReport where
  row : DecodedType
  genericContextHeaderAddress : Option U64
  resilientSuperclass : Option ResilientSuperclass
  foreignMetadataInit : Option ForeignMetadataInit
  singletonMetadataInit : Option SingletonMetadataInit
  vtable : Option (List VTableEntry)
  overrideTable : Option (List OverrideEntry)
  objcResilientClassStubInfo : Option ObjcResilientClassStubInfo
  prespecializations : Option (List U64)
  invertibleProtocolSet : Option InvertibleProtocolSet
  singletonMetadataPointer : Option SingletonMetadataPointer
  defaultOverrideTable : Option (List DefaultOverrideEntry)
deriving DecidableEq

def DecodedType.report (rt : Image) (t : DecodedType) : TypeReport where
  row := t.unplaced
  genericContextHeaderAddress := t.genericContextHeaderAddress
  resilientSuperclass := t.resilientSuperclass rt
  foreignMetadataInit := t.foreignMetadataInit rt
  singletonMetadataInit := t.singletonMetadataInit rt
  vtable := t.vtable rt
  overrideTable := t.overrideTable rt
  objcResilientClassStubInfo := t.objcResilientClassStubInfo rt
  prespecializations := t.prespecializations rt
  invertibleProtocolSet := t.invertibleProtocolSet
  singletonMetadataPointer := t.singletonMetadataPointer rt
  defaultOverrideTable := t.defaultOverrideTable rt

def MetadataInit.foreign? (va : U64) : MetadataInit → Option ForeignMetadataInit
  | foreign completion => some ⟨va, relativeTarget va completion⟩
  | _ => Option.none

def MetadataInit.singleton? (va : U64) : MetadataInit → Option SingletonMetadataInit
  | singleton cache pattern completion =>
    some ⟨va, relativeTarget va cache, relativeTarget (va + 4) pattern, relativeTarget (va + 8) completion⟩
  | _ => Option.none

def ClassTrailers.report (t : ClassTrailers) (start : U64) (row : DecodedType) : TypeReport where
  row := row
  genericContextHeaderAddress := t.generic.map fun _ => t.place start 0
  resilientSuperclass := t.resilientSuperclass.map fun rel => ⟨t.place start 1, relativeTarget (t.place start 1) rel⟩
  foreignMetadataInit := t.metadataInit.foreign? (t.place start 2)
  singletonMetadataInit := t.metadataInit.singleton? (t.place start 2)
  vtable := t.vtable.map fun v => tableRows vtableRow 8 (t.place start 3 + 8) v.entries
  overrideTable := t.overrideTable.map fun rows => tableRows overrideRow 12 (t.place start 4 + 4) rows
  objcResilientClassStubInfo := t.objcStub.map fun rel => ⟨t.place start 5, relativeTarget (t.place start 5) rel⟩
  prespecializations := t.prespecializations.map fun p => tableRows relativeTarget 4 (t.place start 6 + 4) p.1
  invertibleProtocolSet := t.invertibleProtocols.map fun set => ⟨0, set.1⟩
  singletonMetadataPointer := t.singletonPointer.map fun rel => ⟨t.place start 8, relativeTarget (t.place start 8) rel⟩
  defaultOverrideTable := t.defaultOverrides.map fun rows => tableRows defaultOverrideRow 8 (t.place start 9 + 4) rows

def TypeData.report (va : U64) (t : TypeData) : TypeReport :=
  t.tail.trailers.report (t.tail.trailingStart (va + 20)) (t.row va)

section

variable {rt : Image} {t : DecodedType} {b : ClassTrailers} {start va : U64} {h : ClassHeader}

theorem relativeAt_of_stored {rel : U32} (stored : rt.Stored va (encodeWords [rel])) :
    relativeAt rt va = some (relativeTarget va rel) := by
  rcases stored.readWords (Nat.succ_pos _) with ⟨bytes, read, words⟩
  change rt.readBytes va 4 = some bytes at read
  have word : readI32LeAt bytes 0 = some rel := words 0 _ rfl
  simp only [relativeAt, read, word, Option.bind_eq_bind, Option.bind_some]

theorem resolveAt_of_lt {off : Nat} {rel : U32} (room : va.toNat + off < 2^64) :
    DecodedType.resolveAt va (BitVec.ofNat 64 off) rel = some (relativeTarget (va + BitVec.ofNat 64 off) rel) := by
  unfold DecodedType.resolveAt relativeTarget
  split
  · rfl
  · rw [checkedAdd_ofNat room, Option.map_some]

theorem singletonMetadataInit_of_stored {cache pattern completion : U32}
    (found : t.body.valueTrailers.bind ValueTrailers.singletonMetadataInitVa = some va)
    (stored : rt.Stored va (encodeWords [cache, pattern, completion])) :
    t.singletonMetadataInit rt = (MetadataInit.singleton cache pattern completion).singleton? va := by
  have room := stored.room
  rw [encodeWords_length] at room
  simp only [List.length_cons, List.length_nil] at room
  rcases stored.readWords (Nat.succ_pos _) with ⟨bytes, read, words⟩
  change rt.readBytes va 12 = some bytes at read
  have first : readI32LeAt bytes 0 = some cache := words 0 _ rfl
  have second : readI32LeAt bytes 4 = some pattern := words 1 _ rfl
  have third : readI32LeAt bytes 8 = some completion := words 2 _ rfl
  have here : DecodedType.resolveAt va 0 cache = some (relativeTarget va cache) := by
    simpa using @resolveAt_of_lt va 0 cache (by omega)
  have next : DecodedType.resolveAt va 4 pattern = some (relativeTarget (va + 4) pattern) :=
    @resolveAt_of_lt va 4 pattern (by omega)
  have last : DecodedType.resolveAt va 8 completion = some (relativeTarget (va + 8) completion) :=
    @resolveAt_of_lt va 8 completion (by omega)
  rcases Option.bind_eq_some_iff.mp found with ⟨trailers, some?, address⟩
  simp only [DecodedType.singletonMetadataInit, some?, address, read, first, second, third, here, next, last,
    Option.bind_eq_bind, Option.bind_some]
  rfl

theorem valueReport_of_stored (view : t.body.valueTrailers = some (b.decoded start h.body).valueTrailers) (fits : b.Fits)
    (stored : rt.Stored start b.encode) :
    t.genericContextHeaderAddress = (b.report start t).genericContextHeaderAddress ∧
      t.foreignMetadataInit rt = (b.report start t).foreignMetadataInit ∧
      t.singletonMetadataInit rt = (b.report start t).singletonMetadataInit ∧
      t.prespecializations rt = (b.report start t).prespecializations ∧
      t.invertibleProtocolSet = (b.report start t).invertibleProtocolSet ∧
      t.singletonMetadataPointer rt = (b.report start t).singletonMetadataPointer := by
  have init : rt.Stored (b.place start 2) b.metadataInit.encode := stored_at stored rfl
  refine ⟨?_, ?_, ?_, ?_, ?_, ?_⟩
  · simp only [DecodedType.genericContextHeaderAddress, view, Option.bind_some]
    rfl
  · simp only [DecodedType.foreignMetadataInit, view, Option.bind_eq_bind, Option.bind_some]
    change (b.metadataInit.foreignVa (b.place start 2)).bind _ = _
    cases kind : b.metadataInit with
    | foreign completion =>
      rw [kind] at init
      simp only [MetadataInit.foreignVa, Option.bind_some, relativeAt_of_stored init]
      simp only [ClassTrailers.report, kind]
      rfl
    | none | singleton _ _ _ =>
      simp only [ClassTrailers.report, kind]
      rfl
  · cases kind : b.metadataInit with
    | singleton cache pattern completion =>
      rw [kind] at init
      have found : t.body.valueTrailers.bind ValueTrailers.singletonMetadataInitVa = some (b.place start 2) := by
        rw [view, Option.bind_some]
        change b.metadataInit.singletonVa (b.place start 2) = _
        rw [kind]
        rfl
      rw [singletonMetadataInit_of_stored found init]
      simp only [ClassTrailers.report, kind]
    | none | foreign _ =>
      simp only [DecodedType.singletonMetadataInit, view, Option.bind_eq_bind, Option.bind_some]
      change (b.metadataInit.singletonVa (b.place start 2)).bind _ = _
      simp only [ClassTrailers.report, kind]
      rfl
  · have entries := @prespecializations_of_stored rt b start h fits stored
    simp only [DecodedType.prespecializations, view, Option.bind_eq_bind, Option.bind_some]
    exact entries
  · simp only [DecodedType.invertibleProtocolSet, view, Option.bind_eq_bind, Option.bind_some]
    change (b.invertibleProtocols.map Prod.fst).bind _ = _
    simp only [ClassTrailers.report]
    cases b.invertibleProtocols <;> rfl
  · simp only [DecodedType.singletonMetadataPointer, view, Option.bind_eq_bind, Option.bind_some]
    change (b.singletonPointer.map fun _ => b.place start 8).bind _ = _
    simp only [ClassTrailers.report]
    cases kind : b.singletonPointer with
    | none => rfl
    | some rel =>
      have block : rt.Stored (b.place start 8) (encodeWords [rel]) :=
        stored_at stored (by rw [ClassTrailers.blocks, kind]; rfl)
      simp only [Option.map_some, Option.bind_some, relativeAt_of_stored block]

theorem classReport_of_stored (view : t.body = .class (b.decoded start h.body)) (fits : b.Fits)
    (stored : rt.Stored start b.encode) : t.report rt = b.report start t.unplaced := by
  rcases valueReport_of_stored (by rw [view]; rfl) fits stored with ⟨generic, foreign, singleton, prespecialized,
    set, pointer⟩
  have vtable := @vtable_of_stored rt b start h fits stored
  have overrides := @overrideTable_of_stored rt b start h fits stored
  have defaults := @defaultOverrideTable_of_stored rt b start h fits stored
  have resilient : t.resilientSuperclass rt =
      b.resilientSuperclass.map fun rel => ⟨b.place start 1, relativeTarget (b.place start 1) rel⟩ := by
    simp only [DecodedType.resilientSuperclass, view, TypeKindBody.classBody, Option.bind_eq_bind, Option.bind_some]
    change (b.resilientSuperclass.map fun _ => b.place start 1).bind _ = _
    cases kind : b.resilientSuperclass with
    | none => rfl
    | some rel =>
      have block : rt.Stored (b.place start 1) (encodeWords [rel]) :=
        stored_at stored (by rw [ClassTrailers.blocks, kind]; rfl)
      simp only [Option.map_some, Option.bind_some, relativeAt_of_stored block]
  have stub : t.objcResilientClassStubInfo rt =
      b.objcStub.map fun rel => ⟨b.place start 5, relativeTarget (b.place start 5) rel⟩ := by
    simp only [DecodedType.objcResilientClassStubInfo, view, TypeKindBody.classBody, Option.bind_eq_bind, Option.bind_some]
    change (b.objcStub.map fun _ => b.place start 5).bind _ = _
    cases kind : b.objcStub with
    | none => rfl
    | some rel =>
      have block : rt.Stored (b.place start 5) (encodeWords [rel]) :=
        stored_at stored (by rw [ClassTrailers.blocks, kind]; rfl)
      simp only [Option.map_some, Option.bind_some, relativeAt_of_stored block]
  simp only [DecodedType.report, generic, foreign, singleton, prespecialized, set, pointer, resilient, stub,
    DecodedType.vtable, DecodedType.overrideTable, DecodedType.defaultOverrideTable, view, TypeKindBody.classBody,
    Option.bind_some, vtable, overrides, defaults]
  rfl

theorem valueTypeReport_of_stored {blocks : ValueBlocks} (own : t.body.classBody = none)
    (view : t.body.valueTrailers = some (blocks.all.decoded start h.body).valueTrailers) (fits : blocks.all.Fits)
    (stored : rt.Stored start blocks.all.encode) : t.report rt = blocks.all.report start t.unplaced := by
  rcases valueReport_of_stored view fits stored with ⟨generic, foreign, singleton, prespecialized, set, pointer⟩
  simp only [DecodedType.report, generic, foreign, singleton, prespecialized, set, pointer, DecodedType.vtable,
    DecodedType.overrideTable, DecodedType.defaultOverrideTable, DecodedType.resilientSuperclass,
    DecodedType.objcResilientClassStubInfo, own, Option.bind_eq_bind, Option.bind_none]
  rfl

theorem nonTypeReport (body : t.body = .nonType) : t.report rt = noTrailers.report start t.unplaced := by
  simp only [DecodedType.report, DecodedType.genericContextHeaderAddress, DecodedType.foreignMetadataInit,
    DecodedType.singletonMetadataInit, DecodedType.prespecializations, DecodedType.invertibleProtocolSet,
    DecodedType.singletonMetadataPointer, DecodedType.vtable, DecodedType.overrideTable, DecodedType.defaultOverrideTable,
    DecodedType.resilientSuperclass, DecodedType.objcResilientClassStubInfo, body, TypeKindBody.classBody,
    TypeKindBody.valueTrailers, Option.bind_eq_bind, Option.bind_none]
  rfl

end

structure TrailerCallbacks.Keep {σ : Type} (on : TrailerCallbacks σ) (inv : σ → Prop) : Prop where
  generic : ∀ va s, inv s → inv (on.onGeneric va s)
  foreign : ∀ va s, inv s → inv (on.onForeign va s)
  singleton : ∀ va s, inv s → inv (on.onSingleton va s)
  prespec : ∀ count base s, inv s → inv (on.onPrespec count base s)
  invertible : ∀ bits s, inv s → inv (on.onInvertible bits s)
  singletonPointer : ∀ va s, inv s → inv (on.onSingletonPointer va s)

section

variable {σ α : Type} {inv : σ → Prop}

theorem headerBlock_keeps {present : Bool} {decode : U64 → Option (α × U64)} {set : α → σ → σ}
    (kept : ∀ header s, inv s → inv (set header s)) (cursor : U64) (s : σ) (holds : inv s) :
    inv (headerBlock present decode set cursor s).1 := by
  unfold headerBlock
  split
  · cases decode cursor with
    | none => exact holds
    | some turn => exact kept turn.1 s holds
  · exact holds

theorem addressBlock_keeps {present : Bool} {size : U64} {set : U64 → σ → σ} (kept : ∀ va s, inv s → inv (set va s))
    (cursor : U64) (s : σ) (holds : inv s) : inv (addressBlock present size set cursor s).1 := by
  unfold addressBlock
  split
  · exact kept cursor s holds
  · exact holds

theorem decodeValueTypeTrailers_keeps {rt : Image} {flags : ContextDescriptorFlags} {on : TrailerCallbacks σ}
    (kept : on.Keep inv)
    {start : U64} {s : σ} (holds : inv s) : inv (decodeValueTypeTrailers rt flags start on s) := by
  apply walk_keeps _ holds
  intro block member cursor s holds
  simp only [valueTypeBlocks, List.mem_cons, List.not_mem_nil, or_false] at member
  rcases member with rfl | rfl | rfl | rfl | rfl
  · exact headerBlock_keeps kept.generic cursor s holds
  · unfold metadataInitBlock
    cases flags.typeFlags.metadataInitialization with
    | foreign => exact addressBlock_keeps kept.foreign cursor s holds
    | singleton => exact addressBlock_keeps kept.singleton cursor s holds
    | none | other => exact holds
  · exact headerBlock_keeps (fun (found : U32 × U64) => kept.prespec found.1 found.2) cursor s holds
  · unfold invertibleBlock
    split
    · cases readU16AtVa rt cursor with
      | none => exact holds
      | some bits => exact kept.invertible bits s holds
    · exact holds
  · unfold lastAddressBlock
    split
    · exact kept.singletonPointer cursor s holds
    · exact holds

end

theorem structCallbacks_keep (numFields fieldOffsetVectorOffset : U32) : structCallbacks.Keep fun body =>
    body.numFields = numFields ∧ body.fieldOffsetVectorOffset = fieldOffsetVectorOffset :=
  ⟨fun _ _ => id, fun _ _ => id, fun _ _ => id, fun _ _ _ => id, fun _ _ => id, fun _ _ => id⟩

theorem enumCallbacks_keep (numPayloadCases : U32) (payloadSizeOffset : U8) (numEmptyCases : U32) :
    enumCallbacks.Keep fun body => body.numPayloadCases = numPayloadCases ∧ body.payloadSizeOffset = payloadSizeOffset ∧
      body.numEmptyCases = numEmptyCases :=
  ⟨fun _ _ => id, fun _ _ => id, fun _ _ => id, fun _ _ _ => id, fun _ _ => id, fun _ _ => id⟩

theorem packed_parts (numPayloadCases : BitVec 24) (payloadSizeOffset : U8) :
    TypeTail.packed numPayloadCases payloadSizeOffset &&& 0x00FFFFFF = numPayloadCases.setWidth 32 ∧
      ((TypeTail.packed numPayloadCases payloadSizeOffset >>> 24 &&& 0xFF).setWidth 8 : U8) = payloadSizeOffset := by
  have cases := numPayloadCases.isLt
  have offset := payloadSizeOffset.isLt
  have value : (TypeTail.packed numPayloadCases payloadSizeOffset).toNat =
      payloadSizeOffset.toNat * 2^24 + numPayloadCases.toNat := by
    rw [TypeTail.packed, BitVec.toNat_append, ← Nat.shiftLeft_add_eq_or_of_lt cases, Nat.shiftLeft_eq]
  refine ⟨?_, ?_⟩ <;> apply BitVec.eq_of_toNat_eq
  · rw [and_lowMask_toNat _ _ 24 rfl, value, BitVec.toNat_setWidth,
      Nat.mod_eq_of_lt (by omega : numPayloadCases.toNat < 2^32)]
    omega
  · rw [BitVec.toNat_setWidth, field_toNat _ _ 24 8 rfl, value]
    omega

/-- The flags without those of the blocks that stand behind a class only. -/
def ContextDescriptorFlags.valueBits (flags : ContextDescriptorFlags) : ContextDescriptorFlags := ⟨flags.raw &&& 0x1fbfffff⟩

section

variable (flags : ContextDescriptorFlags)

namespace ContextDescriptorFlags

theorem valueBits_and (bit : U32) (kept : 0x1fbfffff &&& bit = bit) : flags.valueBits.raw &&& bit = flags.raw &&& bit := by
  rw [valueBits, BitVec.and_assoc, kept]

theorem valueBits_typeFlags : flags.valueBits.typeFlags.raw = flags.typeFlags.raw &&& 0x1fbf := by
  dsimp only [typeFlags, kindSpecific, valueBits]
  rw [BitVec.ushiftRight_and_distrib, BitVec.setWidth_and]
  congr 1

theorem valueBits_kept (bit : U16) (kept : 0x1fbf &&& bit = bit) :
    flags.valueBits.typeFlags.raw &&& bit = flags.typeFlags.raw &&& bit := by
  rw [valueBits_typeFlags, BitVec.and_assoc, kept]

theorem valueBits_cleared (bit : U16) (cleared : 0x1fbf &&& bit = 0) : flags.valueBits.typeFlags.raw &&& bit = 0 := by
  rw [valueBits_typeFlags, BitVec.and_assoc, cleared]
  exact BitVec.and_zero

theorem valueBits_isGeneric : flags.valueBits.isGeneric = flags.isGeneric := by
  rw [isGeneric, isGeneric, hasBit, hasBit, flags.valueBits_and _ (by decide)]

theorem valueBits_hasInvertibleProtocols : flags.valueBits.hasInvertibleProtocols = flags.hasInvertibleProtocols := by
  rw [hasInvertibleProtocols, hasInvertibleProtocols, hasBit, hasBit, flags.valueBits_and _ (by decide)]

theorem valueBits_metadataInitialization :
    flags.valueBits.typeFlags.metadataInitialization = flags.typeFlags.metadataInitialization := by
  unfold TypeContextDescriptorFlags.metadataInitialization
  rw [flags.valueBits_kept _ (by decide)]

theorem valueBits_prespecializationsOrSingleton :
    flags.valueBits.typeFlags.hasCanonicalMetadataPrespecializationsOrSingleton =
      flags.typeFlags.hasCanonicalMetadataPrespecializationsOrSingleton := by
  unfold TypeContextDescriptorFlags.hasCanonicalMetadataPrespecializationsOrSingleton
  rw [hasBit, hasBit, flags.valueBits_kept _ (by decide)]

theorem valueBits_classBitsClear : flags.valueBits.ClassBitsClear where
  resilientSuperclass := decide_eq_false (not_not.mpr (flags.valueBits_cleared _ (by decide)))
  vtable := decide_eq_false (not_not.mpr (flags.valueBits_cleared _ (by decide)))
  overrideTable := decide_eq_false (not_not.mpr (flags.valueBits_cleared _ (by decide)))
  defaultOverrideTable := decide_eq_false (not_not.mpr (flags.valueBits_cleared _ (by decide)))

end ContextDescriptorFlags

theorem decodeValueTypeTrailers_valueBits {σ : Type} (rt : Image) (start : U64) (on : TrailerCallbacks σ) (s : σ) :
    decodeValueTypeTrailers rt flags.valueBits start on s = decodeValueTypeTrailers rt flags start on s := by
  simp only [decodeValueTypeTrailers, valueTypeBlocks, TypeContextDescriptorFlags.hasCanonicalMetadataPrespecializations,
    TypeContextDescriptorFlags.hasSingletonMetadataPointer, flags.valueBits_isGeneric,
    flags.valueBits_hasInvertibleProtocols, flags.valueBits_metadataInitialization,
    flags.valueBits_prespecializationsOrSingleton]

theorem decodeStructBody_valueBits (rt : Image) (va : U64) :
    decodeStructBody rt va flags.valueBits = decodeStructBody rt va flags := by
  simp only [decodeStructBody, decodeValueTypeTrailers_valueBits]

theorem decodeEnumBody_valueBits (rt : Image) (va : U64) :
    decodeEnumBody rt va flags.valueBits = decodeEnumBody rt va flags := by
  simp only [decodeEnumBody, decodeValueTypeTrailers_valueBits]

end

section

variable {rt : SwiftRuntime} {va : U64} {flags : ContextDescriptorFlags}

theorem ValueBlocks.Matches.all {b : ValueBlocks} (matched : b.Matches flags) : b.all.Matches flags.valueBits none where
  generic := matched.generic.trans flags.valueBits_isGeneric.symm
  resilientSuperclass := flags.valueBits_classBitsClear.resilientSuperclass.symm
  metadataInit := flags.valueBits_metadataInitialization.symm ▸ matched.metadataInit
  vtable := flags.valueBits_classBitsClear.vtable.symm
  overrideTable := flags.valueBits_classBitsClear.overrideTable.symm
  objcStub := rfl
  prespecializations := by
    rw [TypeContextDescriptorFlags.hasCanonicalMetadataPrespecializations, flags.valueBits_prespecializationsOrSingleton,
      flags.valueBits_metadataInitialization]
    exact matched.prespecializations
  invertibleProtocols := matched.invertibleProtocols.trans flags.valueBits_hasInvertibleProtocols.symm
  singletonPointer := by
    rw [TypeContextDescriptorFlags.hasSingletonMetadataPointer, flags.valueBits_prespecializationsOrSingleton,
      flags.valueBits_metadataInitialization]
    exact matched.singletonPointer
  defaultOverrides := flags.valueBits_classBitsClear.defaultOverrideTable.symm

theorem decodeStructBody_of_stored {numFields fieldOffsetVectorOffset : U32} {b : ValueBlocks} (matched : b.Matches flags)
    (fits : b.all.Fits) (near : va.toNat + 20 < 2^64)
    (stored : rt.Stored (va + 20) (encodeWords [numFields, fieldOffsetVectorOffset] ++ b.all.encode)) :
    decodeStructBody rt.toImage va flags = some { (b.all.decoded (va + 20 + 8) ValueBlocks.header.body).valueTrailers with
      numFields := numFields, fieldOffsetVectorOffset := fieldOffsetVectorOffset } := by
  rw [← decodeStructBody_valueBits]
  have room := stored.left.room
  rw [encodeWords_length] at room
  simp only [List.length_cons, List.length_nil] at room
  rcases stored.left.readWords (Nat.succ_pos _) with ⟨header, read, words⟩
  change rt.readBytes (va + 20) 8 = some header at read
  have first : readU32LeAt header 0 = some numFields := words 0 _ rfl
  have second : readU32LeAt header 4 = some fieldOffsetVectorOffset := words 1 _ rfl
  have base : checkedAdd va typeDescriptorBaseSize = some (va + 20) := @checkedAdd_ofNat 64 va 20 near
  have start : checkedAdd (va + 20) 8 = some (va + 20 + 8) := @checkedAdd_ofNat 64 (va + 20) 8 (by omega)
  let fresh : StructBody := { ValueTrailers.absent with
    numFields := numFields, fieldOffsetVectorOffset := fieldOffsetVectorOffset }
  have decoded : decodeStructBody rt.toImage va flags.valueBits =
      some (decodeValueTypeTrailers rt.toImage flags.valueBits (va + 20 + 8) structCallbacks fresh) := by
    simp only [decodeStructBody, base, read, first, second, start, Option.bind_eq_bind, Option.bind_some]
    rfl
  have kept := @decodeValueTypeTrailers_keeps StructBody _ rt.toImage flags.valueBits structCallbacks
    (structCallbacks_keep numFields fieldOffsetVectorOffset) (va + 20 + 8) fresh ⟨rfl, rfl⟩
  have trailers := @decodeStructBody_trailers rt.toImage flags.valueBits va ValueBlocks.header.body
    flags.valueBits_classBitsClear rfl rfl _ decoded
  have blocks := @decodeClassTrailers_decoded rt.toImage b.all flags.valueBits (va + 20 + 8) ValueBlocks.header
    matched.all fits
    (by simpa using stored.right)
  rcases kept with ⟨count, offset⟩
  rw [decoded, ← blocks, ← trailers, ← count, ← offset]

theorem decodeEnumBody_of_stored {numPayloadCases : BitVec 24} {payloadSizeOffset : U8} {numEmptyCases : U32}
    {b : ValueBlocks}
    (matched : b.Matches flags) (fits : b.all.Fits) (near : va.toNat + 20 < 2^64)
    (stored : rt.Stored (va + 20)
      (encodeWords [TypeTail.packed numPayloadCases payloadSizeOffset, numEmptyCases] ++ b.all.encode)) :
    decodeEnumBody rt.toImage va flags = some { (b.all.decoded (va + 20 + 8) ValueBlocks.header.body).valueTrailers with
      numPayloadCases := numPayloadCases.setWidth 32
      payloadSizeOffset := payloadSizeOffset
      numEmptyCases := numEmptyCases } := by
  rw [← decodeEnumBody_valueBits]
  have room := stored.left.room
  rw [encodeWords_length] at room
  simp only [List.length_cons, List.length_nil] at room
  rcases stored.left.readWords (Nat.succ_pos _) with ⟨header, read, words⟩
  change rt.readBytes (va + 20) 8 = some header at read
  have first : readU32LeAt header 0 = some (TypeTail.packed numPayloadCases payloadSizeOffset) := words 0 _ rfl
  have second : readU32LeAt header 4 = some numEmptyCases := words 1 _ rfl
  have base : checkedAdd va typeDescriptorBaseSize = some (va + 20) := @checkedAdd_ofNat 64 va 20 near
  have start : checkedAdd (va + 20) 8 = some (va + 20 + 8) := @checkedAdd_ofNat 64 (va + 20) 8 (by omega)
  rcases packed_parts numPayloadCases payloadSizeOffset with ⟨low, high⟩
  let fresh : EnumBody := { ValueTrailers.absent with
    numPayloadCases := numPayloadCases.setWidth 32, payloadSizeOffset := payloadSizeOffset, numEmptyCases := numEmptyCases }
  have decoded : decodeEnumBody rt.toImage va flags.valueBits =
      some (decodeValueTypeTrailers rt.toImage flags.valueBits (va + 20 + 8) enumCallbacks fresh) := by
    simp only [decodeEnumBody, base, read, first, second, start, low, high, Option.bind_eq_bind, Option.bind_some]
    rfl
  have kept := @decodeValueTypeTrailers_keeps EnumBody _ rt.toImage flags.valueBits enumCallbacks
    (enumCallbacks_keep (numPayloadCases.setWidth 32) payloadSizeOffset numEmptyCases) (va + 20 + 8) fresh ⟨rfl, rfl, rfl⟩
  have trailers := @decodeEnumBody_trailers rt.toImage flags.valueBits va ValueBlocks.header.body
    flags.valueBits_classBitsClear rfl rfl _ decoded
  have blocks := @decodeClassTrailers_decoded rt.toImage b.all flags.valueBits (va + 20 + 8) ValueBlocks.header
    matched.all fits
    (by simpa using stored.right)
  rcases kept with ⟨payloadCases, sizeOffset, emptyCases⟩
  rw [decoded, ← blocks, ← trailers, ← payloadCases, ← sizeOffset, ← emptyCases]

theorem decodeClassBody_of_stored {c : ClassFields} {b : ClassTrailers}
    (name : NameFits rt.toImage (va + 20) c.superclassMangledName)
    (resilient : c.bounds.isResilient = flags.typeFlags.classHasResilientSuperclass) (bounds : c.bounds.Fits (va + 20 + 4))
    (matched : b.Matches flags c.bounds.extraFlags) (fits : b.Fits) (near : va.toNat + 20 < 2^64)
    (stored : rt.Stored (va + 20) (c.encode (va + 20) ++ b.encode)) :
    ∃ superclass, decodeClassBody rt.toImage va flags = some (b.decoded (va + 20 + 24) (c.header superclass).body) ∧
      superclass.map Str.unplaced = c.superclassMangledName.map Label.str := by
  have room := stored.left.room
  rw [ClassFields.encode, encodeWords_length] at room
  simp only [List.length_cons, List.length_nil] at room
  rcases stored.left.readWords (Nat.succ_pos _) with ⟨header, read, words⟩
  change rt.readBytes (va + 20) 24 = some header at read
  have first : readI32LeAt header 0 = some (nameWord (va + 20) c.superclassMangledName) := words 0 _ rfl
  have union24 : readU32LeAt header 4 = some (c.bounds.words (va + 20 + 4)).1 := words 1 _ rfl
  have union28 : readU32LeAt header 8 = some (c.bounds.words (va + 20 + 4)).2 := words 2 _ rfl
  have members : readU32LeAt header 12 = some c.numImmediateMembers := words 3 _ rfl
  have fields : readU32LeAt header 16 = some c.numFields := words 4 _ rfl
  have vector : readU32LeAt header 20 = some c.fieldOffsetVectorOffset := words 5 _ rfl
  have base : checkedAdd va typeDescriptorBaseSize = some (va + 20) := @checkedAdd_ofNat 64 va 20 near
  have slot : checkedAdd (va + 20) 4 = some (va + 20 + 4) := @checkedAdd_ofNat 64 (va + 20) 4 (by omega)
  have start : checkedAdd (va + 20) 24 = some (va + 20 + 24) := @checkedAdd_ofNat 64 (va + 20) 24 (by omega)
  have named := unplaced_of_text (relativeName_of_fits name fun label readable => readable.read)
  refine ⟨_, ?_, named⟩
  have behind : rt.Stored (va + 20 + 24) b.encode := by simpa [ClassFields.encode] using stored.right
  rw [← decodeClassTrailers_decoded (h := c.header _) matched fits behind]
  simp only [decodeClassBody, base, read, first, union24, union28, members, fields, vector, start, Option.bind_eq_bind,
    Option.bind_some, ← resilient]
  cases kind : c.bounds with
  | fixed negative positive =>
    simp only [ClassBounds.isResilient, ClassBounds.words, Bool.false_eq_true, if_false, ClassFields.header,
      ClassHeader.body, kind, ClassBounds.extraFlags]
  | resilient target extraFlags =>
    rw [kind] at bounds
    simp only [ClassBounds.isResilient, ClassBounds.words, if_true, slot, Option.map_some, Option.bind_some,
      ClassFields.header, ClassHeader.body, kind, ClassBounds.extraFlags, relativeTarget_of_fits bounds]

theorem report_of_body {t : DecodedType} {tail : TypeTail} (fits : tail.Fits rt.toImage (va + 20) t.flags)
    (near : va.toNat + 20 < 2^64)
    (stored : rt.Stored (va + 20) (tail.encode (va + 20))) (body : t.body = decodeTypeBody rt.toImage va t.flags) :
    t.body.unplaced = tail.row (va + 20) ∧
      t.report rt.toImage = tail.trailers.report (tail.trailingStart (va + 20)) t.unplaced := by
  cases tail with
  | «class» fields trailers =>
    rcases fits with ⟨kind, name, resilient, bounds, matched, fits⟩
    rcases decodeClassBody_of_stored name resilient bounds matched fits near stored with ⟨superclass, decoded, named⟩
    have found : t.body = .class (trailers.decoded (va + 20 + 24) (fields.header superclass).body) := by
      rw [body, decodeTypeBody, kind]
      simp only [decoded, Option.map_some, Option.getD_some]
    have behind : rt.Stored (va + 20 + 24) trailers.encode := by
      simpa [TypeTail.fixedPart, TypeTail.trailers, ClassFields.encode] using stored.right
    have same : t.body.unplaced = (TypeTail.class fields trailers).row (va + 20) := by
      rw [found, TypeTail.row, ← named]
      rfl
    exact ⟨same, classReport_of_stored found fits behind⟩
  | struct numFields fieldOffsetVectorOffset trailers =>
    rcases fits with ⟨kind, matched, fits⟩
    have decoded := decodeStructBody_of_stored matched fits near stored
    have found : t.body = (TypeTail.struct numFields fieldOffsetVectorOffset trailers).row (va + 20) := by
      rw [body, decodeTypeBody, kind]
      simp only [decoded, Option.map_some, Option.getD_some]
      rfl
    have behind : rt.Stored (va + 20 + 8) trailers.all.encode := by
      simpa [TypeTail.fixedPart, TypeTail.trailers] using stored.right
    refine ⟨by rw [found]; rfl, ?_⟩
    exact @valueTypeReport_of_stored rt.toImage t (va + 20 + 8) ValueBlocks.header trailers (by rw [found]; rfl)
      (by rw [found]; rfl) fits behind
  | enum numPayloadCases payloadSizeOffset numEmptyCases trailers =>
    rcases fits with ⟨kind, matched, fits⟩
    have decoded := decodeEnumBody_of_stored matched fits near stored
    have found : t.body = (TypeTail.enum numPayloadCases payloadSizeOffset numEmptyCases trailers).row (va + 20) := by
      rw [body, decodeTypeBody, kind]
      simp only [decoded, Option.map_some, Option.getD_some]
      rfl
    have behind : rt.Stored (va + 20 + 8) trailers.all.encode := by
      simpa [TypeTail.fixedPart, TypeTail.trailers] using stored.right
    refine ⟨by rw [found]; rfl, ?_⟩
    exact @valueTypeReport_of_stored rt.toImage t (va + 20 + 8) ValueBlocks.header trailers (by rw [found]; rfl)
      (by rw [found]; rfl) fits behind
  | nonType =>
    rcases fits with ⟨noClass, noStruct, noEnum⟩
    have found : t.body = .nonType := by
      rw [body, decodeTypeBody]
      split <;> first | contradiction | rfl
    exact ⟨by rw [found]; rfl, nonTypeReport found⟩

theorem decodeTypeDescriptor_of_fits {t : TypeData} (fits : t.Fits rt.toImage va) :
    (decodeTypeDescriptor rt.toImage va).map (DecodedType.report rt.toImage) = some (t.report va) := by
  have front := fits.stored.left
  have room := front.room
  rw [encodeWords_length] at room
  simp only [List.length_cons, List.length_nil] at room
  rcases front.readWords (Nat.succ_pos _) with ⟨header, read, words⟩
  change rt.readBytes va 20 = some header at read
  have flags : readU32LeAt header 0 = some t.flags := words 0 _ rfl
  have parent : readI32LeAt header 4 = some (pointerWord (va + 4) t.parent) := words 1 _ rfl
  have nameRel : readI32LeAt header 8 = some (nameWord (va + 8) (some t.name)) := words 2 _ rfl
  have parentSlot : checkedAdd va 4 = some (va + 4) := @checkedAdd_ofNat 64 va 4 (by omega)
  have nameSlot : checkedAdd va 8 = some (va + 8) := @checkedAdd_ofNat 64 va 8 (by omega)
  rcases fits.name t.name rfl with ⟨readable, reached⟩
  rcases readable.read with ⟨name, found, text⟩
  have named : rt.readCstr (relativePointer (va + 8) (nameWord (va + 8) (some t.name))) = some name := by
    rw [nameWord, Option.map_some, Option.getD_some, reached.offset.2, found]
  have parentTarget : resolveParent (va + 4) (pointerWord (va + 4) t.parent) = t.parent.getD 0 :=
    relativeTarget_of_fits fits.parent
  have behind : rt.Stored (va + 20) (t.tail.encode (va + 20)) := by simpa using fits.stored.right
  let row : DecodedType := ⟨⟨va, ⟨t.flags⟩, t.parent.getD 0, name⟩, decodeTypeBody rt.toImage va ⟨t.flags⟩⟩
  have decoded : decodeTypeDescriptor rt.toImage va = some row := by
    simp only [decodeTypeDescriptor, read, flags, parent, nameRel, parentSlot, nameSlot, named, parentTarget,
      Option.bind_eq_bind, Option.bind_some]
    rfl
  rcases @report_of_body rt va row t.tail fits.tail (by omega) behind rfl with ⟨body, report⟩
  have unplaced : row.unplaced = t.row va := by
    rw [DecodedType.unplaced, body, TypeData.row, Label.str, ← text]
    rfl
  rw [decoded, Option.map_some, report, unplaced]
  rfl

end

/-- The types of a section come back with everything that stands behind their descriptors: classes, structs and enums with
    the blocks that their flags announce, and descriptors of another kind with none. -/
theorem types_roundTrip (rt : SwiftRuntime) (sec : MappedSection) (entries : List (Option (U64 × TypeData)))
    (found : rt.types = some sec) (stand : SlotsStand sec (entries.map (Option.map Prod.fst)))
    (fits : ∀ place, some place ∈ entries → place.2.Fits rt.toImage place.1) :
    ∀ fuel, sec.body.length < fuel → (collect (TypeIter.next rt) fuel 0).map (List.map (DecodedType.report rt.toImage)) =
      some (entries.reduceOption.map fun place => place.2.report place.1) := by
  intro fuel enough
  have walk := @collect_descriptors DecodedType (decodeTypeDescriptor rt.toImage) rt.types (TypeIter.next rt) (fun _ => rfl)
    fuel (by simpa [found] using enough)
  rw [walk, found, Option.map_some]
  exact congrArg some (descriptors_of_stand stand fun place member => decodeTypeDescriptor_of_fits (fits place member))

theorem mapM_of_each {α β : Type} {f : α → Option β} {as : List α} {bs : List β} (each : as.map f = bs.map some) :
    as.mapM f = some bs := by
  induction as generalizing bs with
  | nil =>
    cases bs with
    | nil => rfl
    | cons b bs => cases each
  | cons a as ih =>
    cases bs with
    | nil => cases each
    | cons b bs =>
      simp only [List.map_cons, List.cons.injEq] at each
      rw [List.mapM_cons, each.1, ih each.2]
      rfl

theorem readVector_of_words {bytes : Slice} {words : List U32} (few : words.length < 2^32)
    (read : ∀ i word, words[i]? = some word → readU32LeAt bytes (4 * i) = some word) :
    DecodedType.readVector bytes words.length = some words := by
  apply mapM_of_each
  apply List.ext_getElem?
  intro i
  simp only [List.getElem?_map]
  by_cases inside : i < words.length
  · have product : checkedMulUsize i 4 = some (4 * i) := by
      rw [checkedMulUsize, if_pos (by omega), Nat.mul_comm]
    rw [List.getElem?_range inside, List.getElem?_eq_getElem inside, Option.map_some, Option.map_some, product,
      Option.bind_some, read i _ (List.getElem?_eq_getElem inside)]
  · rw [List.getElem?_eq_none (by simpa using Nat.le_of_not_lt inside), List.getElem?_eq_none (Nat.le_of_not_lt inside)]
    rfl

theorem fieldOffsets_of_stored {rt : Image} {row : DecodedType} {s : StructBody} {address metadataVa : U64}
    {offsets : List U32}
    (body : row.body = .struct s) (found : row.singletonMetadataPointer rt = some ⟨address, metadataVa⟩)
    (count : offsets.length = s.numFields.toNat) (fields : s.numFields ≠ 0) (vector : s.fieldOffsetVectorOffset ≠ 0)
    (metadata : metadataVa ≠ 0) (near : metadataVa.toNat + 8 * s.fieldOffsetVectorOffset.toNat < 2^64)
    (stored : rt.Stored (metadataVa + BitVec.ofNat 64 (8 * s.fieldOffsetVectorOffset.toNat)) (encodeWords offsets)) :
    row.fieldOffsets rt = some offsets := by
  have small := s.fieldOffsetVectorOffset.isLt
  have few := s.numFields.isLt
  have positive : 0 < offsets.length := by
    apply Nat.pos_of_ne_zero
    intro none
    exact fields (BitVec.eq_of_toNat_eq (count.symm.trans none))
  have wide : (s.fieldOffsetVectorOffset.setWidth 64 : U64) = BitVec.ofNat 64 s.fieldOffsetVectorOffset.toNat := by
    apply BitVec.eq_of_toNat_eq
    rw [BitVec.toNat_setWidth, BitVec.toNat_ofNat]
  have skipped : checkedMul (s.fieldOffsetVectorOffset.setWidth 64 : U64) 8 =
      some (BitVec.ofNat 64 (8 * s.fieldOffsetVectorOffset.toNat)) := by
    rw [wide, Nat.mul_comm]
    exact @checkedMul_ofNat 64 s.fieldOffsetVectorOffset.toNat 8 (by omega) (by omega) (by decide)
  have length : checkedMulUsize offsets.length 4 = some (4 * offsets.length) := by
    rw [checkedMulUsize, if_pos (by omega), Nat.mul_comm]
  rcases stored.readWords positive with ⟨bytes, read, words⟩
  have neither : ¬(s.fieldOffsetVectorOffset = 0 ∨ s.numFields = 0) := fun given => given.elim vector fields
  unfold DecodedType.fieldOffsets
  simp only [body, if_neg neither, found, if_neg metadata, skipped, checkedAdd_ofNat near, ← count, length, read,
    Option.bind_eq_bind, Option.bind_some]
  exact readVector_of_words (by omega) words

/-- The offsets of the fields of a struct are the words that stand in its metadata, where the vector starts. -/
theorem fieldOffsets_roundTrip (rt : SwiftRuntime) (va : U64) (t : TypeData) (numFields fieldOffsetVectorOffset rel : U32)
    (b : ValueBlocks) (offsets : List U32) (fits : t.Fits rt.toImage va)
    (tail : t.tail = .struct numFields fieldOffsetVectorOffset b) (pointer : b.singletonPointer = some rel)
    (count : offsets.length = numFields.toNat) (fields : numFields ≠ 0) (vector : fieldOffsetVectorOffset ≠ 0)
    (metadata : relativeTarget (b.all.place (va + 20 + 8) 8) rel ≠ 0)
    (near : (relativeTarget (b.all.place (va + 20 + 8) 8) rel).toNat + 8 * fieldOffsetVectorOffset.toNat < 2^64)
    (stored : rt.Stored
      (relativeTarget (b.all.place (va + 20 + 8) 8) rel + BitVec.ofNat 64 (8 * fieldOffsetVectorOffset.toNat))
      (encodeWords offsets)) :
    (decodeTypeDescriptor rt.toImage va).bind (DecodedType.fieldOffsets rt.toImage) = some offsets := by
  rcases Option.map_eq_some_iff.mp (decodeTypeDescriptor_of_fits fits) with ⟨row, decoded, report⟩
  have body : row.body.unplaced = t.tail.row (va + 20) := congrArg (fun r => r.row.body) report
  have asked := congrArg TypeReport.singletonMetadataPointer report
  have found : row.singletonMetadataPointer rt.toImage =
      some ⟨b.all.place (va + 20 + 8) 8, relativeTarget (b.all.place (va + 20 + 8) 8) rel⟩ := by
    simpa only [DecodedType.report, TypeData.report, tail, TypeTail.trailers, TypeTail.trailingStart, ClassTrailers.report,
      ValueBlocks.all, pointer, Option.map_some] using asked
  rw [tail, TypeTail.row] at body
  rw [decoded, Option.bind_some]
  cases kind : row.body with
  | struct s =>
    rw [kind] at body
    cases body
    exact fieldOffsets_of_stored kind found count fields vector metadata near stored
  | «class» _ | enum _ | nonType =>
    rw [kind] at body
    cases body

/-- A struct of two fields with a singleton that is filled in at run time, an enum with two payload cases, a module, and a
    class with a superclass and two methods in its vtable. -/
def sampleStruct : TypeData :=
  ⟨0x00090051, none, ⟨0x10b8, [0x53]⟩, 0, 0, .struct 2 2 ⟨none, .singleton 0x10 0 0x20, none, none, some 0x68⟩⟩

def sampleEnum : TypeData := ⟨0x00000052, some 0x1010, ⟨0x10b8, [0x53]⟩, 0, 0, .enum 2 3 1 ⟨none, .none, none, none, none⟩⟩

def sampleModule : TypeData := ⟨0x00000040, none, ⟨0x10b8, [0x53]⟩, 0, 0, .nonType⟩

def sampleClass : TypeData :=
  ⟨0x80000050, some 0x1010, ⟨0x10b8, [0x53]⟩, 0, 0, .class ⟨some ⟨0x10ba, [0x42]⟩, .fixed 2 12, 4, 1, 10⟩
    { noTrailers with vtable := some ⟨11, [(0x10, 0x200), (0x11, 0)]⟩ }⟩

def sampleTypes : List (Option (U64 × TypeData)) :=
  [some (0x1010, sampleStruct), some (0x103c, sampleEnum), some (0x1058, sampleModule), some (0x106c, sampleClass)]

def sampleTypeSlots : Bytes := encodeSlots 0x1000 [some 0x1010, some 0x103c, some 0x1058, some 0x106c]

def sampleTypeImage : Image where
  data := ⟨0, sampleTypeSlots ++ (sampleTypes.reduceOption.flatMap fun place => place.2.encode place.1) ++
    [8, 0, 0, 0, 16, 0, 0, 0, 0x53, 0, 0x42, 0], by decide +kernel⟩
  segments := [⟨0x1000, 0x1000, 0, 0x1000⟩]

def sampleTypeRuntime : SwiftRuntime :=
  ⟨sampleTypeImage, some ⟨⟨0, sampleTypeSlots, by decide⟩, 0x1000⟩, none, none, none, none, none, none, none, none,
    none, none, none, none, none, fun _ => none, fun _ => none⟩

theorem sampleType_stored {va : U64} {bytes : Bytes} (low : 0x1000 ≤ va.toNat) (mapped : va.toNat + bytes.length ≤ 0x2000)
    (holds : sampleTypeImage.data.Holds (va.toNat - 0x1000) bytes) : sampleTypeImage.Stored va bytes := by
  apply @Image.Stored.of_segment _ va bytes ⟨0x1000, 0x1000, 0, 0x1000⟩ (by decide) (List.pairwise_singleton _ _)
    List.mem_cons_self low mapped mapped
  simpa using holds

theorem sampleStruct_fit : sampleStruct.Fits sampleTypeImage 0x1010 := by
  have name : Label.Readable sampleTypeImage ⟨0x10b8, [0x53]⟩ :=
    ⟨⟨0xb8, by decide, by decide⟩, by decide, by decide, by decide⟩
  refine ⟨.null, .present name ⟨0xa0, by decide, by decide⟩, ⟨by decide, ⟨by decide,
    (by decide : _ = MetadataInitializationKind.singleton), by decide, by decide, by decide⟩, ?_⟩,
    sampleType_stored (by decide) (by decide) (by decide)⟩
  refine ⟨?_, ?_, ?_, ?_, ?_⟩ <;> intro block present <;> cases present

theorem sampleClass_fit : sampleClass.Fits sampleTypeImage 0x106c := by
  have name : Label.Readable sampleTypeImage ⟨0x10b8, [0x53]⟩ :=
    ⟨⟨0xb8, by decide, by decide⟩, by decide, by decide, by decide⟩
  have super : Label.Readable sampleTypeImage ⟨0x10ba, [0x42]⟩ :=
    ⟨⟨0xba, by decide, by decide⟩, by decide, by decide, by decide⟩
  refine ⟨.to ⟨-0x60, by decide, by decide⟩, .present name ⟨0x44, by decide, by decide⟩, ⟨by decide,
    .present super ⟨0x3a, by decide, by decide⟩, by decide, trivial, ⟨by decide, by decide, .inl (by decide), by decide,
      by decide, by decide, by decide, by decide, by decide, by decide⟩, ?_⟩,
    sampleType_stored (by decide) (by decide) (by decide)⟩
  refine ⟨?_, ?_, ?_, ?_, ?_⟩ <;> intro block present <;> cases present
  decide

theorem sampleTypes_fit : ∀ place, some place ∈ sampleTypes → place.2.Fits sampleTypeImage place.1 := by
  intro place member
  have name : Label.Readable sampleTypeImage ⟨0x10b8, [0x53]⟩ :=
    ⟨⟨0xb8, by decide, by decide⟩, by decide, by decide, by decide⟩
  simp only [sampleTypes, List.mem_cons, Option.some.injEq, List.not_mem_nil, or_false] at member
  rcases member with rfl | rfl | rfl | rfl
  · exact sampleStruct_fit
  · refine ⟨.to ⟨-0x30, by decide, by decide⟩, .present name ⟨0x74, by decide, by decide⟩, ⟨by decide, ⟨by decide,
      .inl (by decide), by decide, by decide, by decide⟩, ?_⟩, sampleType_stored (by decide) (by decide) (by decide)⟩
    refine ⟨?_, ?_, ?_, ?_, ?_⟩ <;> intro block present <;> cases present
  · exact ⟨.null, .present name ⟨0x58, by decide, by decide⟩, ⟨by decide, by decide, by decide⟩,
      sampleType_stored (by decide) (by decide) (by decide)⟩
  · exact sampleClass_fit

theorem sampleTypes_stand : SlotsStand ⟨⟨0, sampleTypeSlots, by decide⟩, 0x1000⟩
    (sampleTypes.map (Option.map Prod.fst)) := by
  refine ⟨⟨[], (List.append_nil _).symm, by decide⟩, ?_⟩
  intro i target at?
  match i with
  | 0 =>
    cases at?
    exact .to ⟨0x10, by decide, by decide⟩
  | 1 =>
    cases at?
    exact .to ⟨0x38, by decide, by decide⟩
  | 2 =>
    cases at?
    exact .to ⟨0x50, by decide, by decide⟩
  | 3 =>
    cases at?
    exact .to ⟨0x60, by decide, by decide⟩
  | i + 4 => cases at?

theorem types_roundTrip_sample :
    (collect (TypeIter.next sampleTypeRuntime) 17 0).map (List.map (DecodedType.report sampleTypeImage)) =
      some (sampleTypes.reduceOption.map fun place => place.2.report place.1) :=
  types_roundTrip sampleTypeRuntime _ sampleTypes rfl sampleTypes_stand sampleTypes_fit 17 (by decide)

theorem fieldOffsets_roundTrip_sample :
    (decodeTypeDescriptor sampleTypeImage 0x1010).bind (DecodedType.fieldOffsets sampleTypeImage) = some [8, 16] :=
  fieldOffsets_roundTrip sampleTypeRuntime 0x1010 sampleStruct 2 2 0x68 _ [8, 16] sampleStruct_fit rfl rfl
    (by decide) (by decide) (by decide) (by decide) (by decide) (sampleType_stored (by decide) (by decide) (by decide))

end DarwinScope.Swift
