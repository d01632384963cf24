import DarwinScope.Swift.FieldLayout
import DarwinScope.Swift.Sections

namespace DarwinScope.Swift

open Machine

def pointerWord (slot : U64) (target : Option U64) : U32 := (target.map (offsetTo slot)).getD 0

def PointerFits (slot : U64) (target : Option U64) : Prop := ∀ va ∈ target, Reached slot va

theorem PointerFits.null {slot : U64} : PointerFits slot none := fun _ null => nomatch null

theorem PointerFits.to {slot target : U64} (reached : Reached slot target) : PointerFits slot (some target) := by
  intro va same
  cases same
  exact reached

theorem relativeTarget_of_fits {slot : U64} {target : Option U64} (fits : PointerFits slot target) :
    relativeTarget slot (pointerWord slot target) = target.getD 0 := by
  cases target with
  | none => rfl
  | some va =>
    rcases (fits va rfl).offset with ⟨nonzero, reached⟩
    rw [pointerWord, Option.map_some, Option.getD_some, relativeTarget, if_neg nonzero, reached]
    rfl

def slotPlace (va : U64) (i : Nat) : U64 := va + BitVec.ofNat 64 (4 * i)

def encodeSlots (va : U64) (slots : List (Option U64)) : Bytes :=
  encodeWords (slots.mapIdx fun i target => pointerWord (slotPlace va i) target)

/-- The body of a section of slots: its pointers, and at its end fewer bytes than one slot has. -/
structure SlotsStand (sec : MappedSection) (slots : List (Option U64)) : Prop where
  body : ∃ rest, sec.body.bytes = encodeSlots sec.vmaddr slots ++ rest ∧ rest.length < 4
  reached : ∀ i target, slots[i]? = some target → PointerFits (slotPlace sec.vmaddr i) target

section

variable {sec : MappedSection} {slots : List (Option U64)}

theorem slotTarget_of_stand (stand : SlotsStand sec slots) {i : Nat} {target : Option U64} (at? : slots[i]? = some target) :
    slotTarget sec (4 * i) = target := by
  rcases stand.body with ⟨rest, body, -⟩
  have word : readI32LeAt sec.body (4 * i) = some (pointerWord (slotPlace sec.vmaddr i) target) := by
    have read := @readAt_words sec.body _ i (pointerWord (slotPlace sec.vmaddr i) target) [] rest body
      (by rw [List.getElem?_mapIdx, at?, Option.map_some])
    rwa [List.length_nil, Nat.zero_add] at read
  rw [slotTarget, word]
  cases target with
  | none => rfl
  | some va =>
    rcases (stand.reached i _ at? va rfl).offset with ⟨nonzero, reached⟩
    rw [Option.bind_eq_bind, Option.bind_some, pointerWord, Option.map_some, Option.getD_some, if_neg nonzero, ← slotPlace,
      reached]

theorem sectionTargets_of_stand (stand : SlotsStand sec slots) : sectionTargets (some sec) = slots.reduceOption := by
  rcases stand.body with ⟨rest, body, short⟩
  have length : sec.body.length = 4 * slots.length + rest.length := by
    rw [Slice.length, body, List.length_append, encodeSlots, encodeWords_length, List.length_mapIdx]
  have count : sec.body.length / 4 = slots.length := by omega
  have targets : (slotOffsets 4 sec.body.length 0).map (slotTarget sec) = slots := by
    apply List.ext_getElem?
    intro i
    simp only [slotOffsets, Nat.sub_zero, count, List.map_map, List.getElem?_map, Nat.zero_add]
    by_cases inside : i < slots.length
    · rw [List.getElem?_range inside, Option.map_some, List.getElem?_eq_getElem inside]
      exact congrArg some (slotTarget_of_stand stand (List.getElem?_eq_getElem inside))
    · rw [List.getElem?_eq_none (by simpa using Nat.le_of_not_lt inside), Option.map_none,
        List.getElem?_eq_none (Nat.le_of_not_lt inside)]
  rw [sectionTargets, Option.map_some, Option.getD_some, ← targets, List.reduceOption, List.filterMap_map]
  rfl

theorem descriptors_of_stand {α β γ : Type} {decode : U64 → Option α} {view : α → γ} {row : U64 → β → γ}
    {entries : List (Option (U64 × β))} (stand : SlotsStand sec (entries.map (Option.map Prod.fst)))
    (each : ∀ place, some place ∈ entries → (decode place.1).map view = some (row place.1 place.2)) :
    ((sectionTargets (some sec)).filterMap decode).map view = entries.reduceOption.map fun place => row place.1 place.2 := by
  rw [sectionTargets_of_stand stand]
  clear stand
  induction entries with
  | nil => rfl
  | cons entry entries ih =>
    have tail := ih fun place member => each place (List.mem_cons_of_mem _ member)
    cases entry with
    | none => simpa using tail
    | some place =>
      have head := each place List.mem_cons_self
      rcases Option.map_eq_some_iff.mp head with ⟨a, decoded, same⟩
      rw [List.map_cons, Option.map_some, List.reduceOption_cons_of_some, List.filterMap_cons, decoded,
        List.reduceOption_cons_of_some, List.map_cons, List.map_cons, same, tail]

end

theorem unplaced_of_text {found : Option Str} {name : Option Label} (text : found.map Str.text = name.map Label.text) :
    found.map Str.unplaced = name.map Label.str := by
  cases found <;> cases name <;> simp_all [Str.unplaced, Label.str]

structure ProtocolData where
  flags : U32
  parent : Option U64
  name : Label
  numRequirementsInSignature : U32
  numRequirements : U32
  associatedTypeNames : Option Label

namespace ProtocolData

def encode (va : U64) (p : ProtocolData) : Bytes :=
  encodeWords [p.flags, pointerWord (va + 4) p.parent, nameWord (va + 8) (some p.name), p.numRequirementsInSignature,
    p.numRequirements, nameWord (va + 20) p.associatedTypeNames]

structure Fits (image : Image) (va : U64) (p : ProtocolData) : Prop where
  parent : PointerFits (va + 4) p.parent
  name : NameFits image (va + 8) (some p.name)
  associatedTypeNames : NameFits image (va + 20) p.associatedTypeNames
  stored : image.Stored va (p.encode va)

def row (va : U64) (p : ProtocolData) : SwiftProtocol :=
  ⟨va, ⟨p.flags⟩, p.parent.getD 0, p.name.str, p.numRequirementsInSignature, p.numRequirements,
    p.associatedTypeNames.map Label.str⟩

end ProtocolData

def SwiftProtocol.unplaced (p : SwiftProtocol) : SwiftProtocol :=
  { p with name := p.name.unplaced, associatedTypeNames := p.associatedTypeNames.map Str.unplaced }

/-- How the flags and the second word of a conformance name the type. An unreadable name keeps its address. -/
inductive TypeRefData where
  | typeDescriptor (target : Option U64)
  | indirectTypeDescriptor (target : Option U64)
  | objcClassName (name : Label)
  | unreadableName (target : Option U64)
  | indirectObjcClass (target : Option U64)
  | reserved (kind : U8) (target : Option U64)

structure ConformanceData where
  protocol : Option U64
  typeRef : TypeRefData
  witnessTable : Option U64
  flags : U32

namespace TypeRefData

def target : TypeRefData → Option U64
  | typeDescriptor target => target
  | indirectTypeDescriptor target => target
  | objcClassName name => some name.va
  | unreadableName target => target
  | indirectObjcClass target => target
  | reserved _ target => target

def kind : TypeRefData → TypeReferenceKind
  | typeDescriptor _ => .directTypeDescriptor
  | indirectTypeDescriptor _ => .indirectTypeDescriptor
  | objcClassName _ => .directObjcClassName
  | unreadableName _ => .directObjcClassName
  | indirectObjcClass _ => .indirectObjcClass
  | reserved kind _ => .other kind

def Legible (image : Image) : TypeRefData → Prop
  | objcClassName name => name.Readable image
  | unreadableName target => image.readCstr (target.getD 0) = none
  | _ => True

def row : TypeRefData → TypeReference
  | typeDescriptor target => .directTypeDescriptor (target.getD 0)
  | indirectTypeDescriptor target => .indirectTypeDescriptor (target.getD 0)
  | objcClassName name => .directObjcClassName name.str
  | unreadableName target => .other 2 (target.getD 0)
  | indirectObjcClass target => .indirectObjcClass (target.getD 0)
  | reserved kind target => .other kind (target.getD 0)

end TypeRefData

namespace ConformanceData

def encode (va : U64) (c : ConformanceData) : Bytes :=
  encodeWords [pointerWord va c.protocol, pointerWord (va + 4) c.typeRef.target, pointerWord (va + 8) c.witnessTable,
    c.flags]

structure Fits (image : Image) (va : U64) (c : ConformanceData) : Prop where
  protocol : PointerFits va c.protocol
  typeRef : PointerFits (va + 4) c.typeRef.target
  witnessTable : PointerFits (va + 8) c.witnessTable
  kind : (ConformanceFlags.mk c.flags).typeReferenceKind = c.typeRef.kind
  legible : c.typeRef.Legible image
  stored : image.Stored va (c.encode va)

def row (va : U64) (c : ConformanceData) : Conformance :=
  ⟨va, c.protocol.getD 0, c.typeRef.row, c.witnessTable.getD 0, ⟨c.flags⟩⟩

end ConformanceData

def TypeReference.unplaced : TypeReference → TypeReference
  | .directObjcClassName name => .directObjcClassName name.unplaced
  | reference => reference

def Conformance.unplaced (c : Conformance) : Conformance := { c with typeRef := c.typeRef.unplaced }

section

variable {rt : SwiftRuntime} {va : U64}

theorem decodeProtocol_of_fits {p : ProtocolData} (fits : p.Fits rt.toImage va) :
    (decodeProtocol rt.toImage va).map SwiftProtocol.unplaced = some (p.row va) := by
  have room := fits.stored.room
  rw [ProtocolData.encode, encodeWords_length] at room
  rcases fits.stored.readWords (Nat.succ_pos _) with ⟨header, read, words⟩
  change rt.readBytes va 24 = some header at read
  have flags : readU32LeAt header 0 = some p.flags := words 0 _ rfl
  have parent : readI32LeAt header 4 = some (pointerWord (va + 4) p.parent) := words 1 _ rfl
  have nameRel : readI32LeAt header 8 = some (nameWord (va + 8) (some p.name)) := words 2 _ rfl
  have inSignature : readU32LeAt header 12 = some p.numRequirementsInSignature := words 3 _ rfl
  have requirements : readU32LeAt header 16 = some p.numRequirements := words 4 _ rfl
  have associated : readI32LeAt header 20 = some (nameWord (va + 20) p.associatedTypeNames) := words 5 _ rfl
  have parentSlot : checkedAdd va 4 = some (va + 4) := @checkedAdd_ofNat 64 va 4 (by simp at room; omega)
  have nameSlot : checkedAdd va 8 = some (va + 8) := @checkedAdd_ofNat 64 va 8 (by simp at room; omega)
  have associatedSlot : checkedAdd va 20 = some (va + 20) := @checkedAdd_ofNat 64 va 20 (by simp at room; omega)
  rcases fits.name p.name rfl with ⟨readable, reached⟩
  rcases readable.read with ⟨name, found, text⟩
  have named : rt.readCstr (relativePointer (va + 8) (nameWord (va + 8) (some p.name))) = some name := by
    rw [nameWord, Option.map_some, Option.getD_some, reached.offset.2, found]
  have names := unplaced_of_text (relativeName_of_fits fits.associatedTypeNames fun label readable => readable.read)
  have parentTarget : resolveParent (va + 4) (pointerWord (va + 4) p.parent) = p.parent.getD 0 :=
    relativeTarget_of_fits fits.parent
  simp only [decodeProtocol, read, flags, parent, nameRel, inSignature, requirements, associated, parentSlot, nameSlot,
    associatedSlot, named, Option.bind_eq_bind, Option.bind_some]
  rw [relativeName] at names
  split at names
  · rename_i null
    rw [if_pos null, Option.map_some]
    simp only [SwiftProtocol.unplaced, names, parentTarget, ProtocolData.row, Str.unplaced, Label.str, text]
  · rename_i present
    rw [if_neg present]
    simp only [Option.map_some, Option.bind_some, SwiftProtocol.unplaced, names, parentTarget, ProtocolData.row,
      Str.unplaced, Label.str, text]

theorem decodeTypeReference_of_fits {slot : U64} {r : TypeRefData} (fits : PointerFits slot r.target)
    (legible : r.Legible rt.toImage) :
    (decodeTypeReference rt.toImage slot (pointerWord slot r.target) r.kind).unplaced = r.row := by
  have target := relativeTarget_of_fits fits
  unfold decodeTypeReference
  rw [target]
  cases r with
  | objcClassName name =>
    rcases Label.Readable.read legible with ⟨s, found, text⟩
    simp only [TypeRefData.kind, TypeRefData.target, Option.getD_some, found]
    simp [TypeReference.unplaced, Str.unplaced, TypeRefData.row, Label.str, text]
  | unreadableName va =>
    have missing : rt.readCstr (va.getD 0) = none := legible
    simp only [TypeRefData.kind, TypeRefData.target, missing]
    rfl
  | typeDescriptor _ | indirectTypeDescriptor _ | indirectObjcClass _ | reserved _ _ => rfl

theorem decodeConformance_of_fits {c : ConformanceData} (fits : c.Fits rt.toImage va) :
    (decodeConformance rt.toImage va).map Conformance.unplaced = some (c.row va) := by
  have room := fits.stored.room
  rw [ConformanceData.encode, encodeWords_length] at room
  rcases fits.stored.readWords (Nat.succ_pos _) with ⟨header, read, words⟩
  change rt.readBytes va 16 = some header at read
  have protocol : readI32LeAt header 0 = some (pointerWord va c.protocol) := words 0 _ rfl
  have typeRef : readI32LeAt header 4 = some (pointerWord (va + 4) c.typeRef.target) := words 1 _ rfl
  have witness : readI32LeAt header 8 = some (pointerWord (va + 8) c.witnessTable) := words 2 _ rfl
  have flags : readU32LeAt header 12 = some c.flags := words 3 _ rfl
  have typeSlot : checkedAdd va 4 = some (va + 4) := @checkedAdd_ofNat 64 va 4 (by simp at room; omega)
  have witnessSlot : checkedAdd va 8 = some (va + 8) := @checkedAdd_ofNat 64 va 8 (by simp at room; omega)
  have named := decodeTypeReference_of_fits fits.typeRef fits.legible
  simp only [decodeConformance, read, protocol, typeRef, witness, flags, typeSlot, witnessSlot, fits.kind,
    Option.bind_eq_bind, Option.bind_some, Option.map_some, Conformance.unplaced, named,
    relativeTarget_of_fits fits.protocol, relativeTarget_of_fits fits.witnessTable, ConformanceData.row]

end

/-- The protocols of a section come back in the order of its slots, whatever null slots stand between them. -/
theorem protocols_roundTrip (rt : SwiftRuntime) (sec : MappedSection) (entries : List (Option (U64 × ProtocolData)))
    (found : rt.protos = some sec) (stand : SlotsStand sec (entries.map (Option.map Prod.fst)))
    (fits : ∀ place, some place ∈ entries → place.2.Fits rt.toImage place.1) :
    ∀ fuel, sec.body.length < fuel → (collect (ProtocolIter.next rt) fuel 0).map (List.map SwiftProtocol.unplaced) =
      some (entries.reduceOption.map fun place => place.2.row place.1) := by
  intro fuel enough
  have walk := @collect_descriptors SwiftProtocol (decodeProtocol rt.toImage) rt.protos (ProtocolIter.next rt) (fun _ => rfl)
    fuel (by simpa [found] using enough)
  rw [walk, found, Option.map_some]
  exact congrArg some (descriptors_of_stand stand fun place member => decodeProtocol_of_fits (fits place member))

/-- A protocol with an associated type behind a null slot, and one that has the first as its parent. -/
def sampleProtocols : List (Option (U64 × ProtocolData)) :=
  [none, some (0x100c, ⟨3, none, ⟨0x103c, [0x50]⟩, 1, 2, some ⟨0x103e, [0x41]⟩⟩),
    some (0x1024, ⟨0x10003, some 0x100c, ⟨0x103e, [0x41]⟩, 0, 1, none⟩)]

def sampleConformances : List (Option (U64 × ConformanceData)) :=
  [some (0x1048, ⟨some 0x100c, .objcClassName ⟨0x103e, [0x41]⟩, none, 0x10⟩),
    some (0x1058, ⟨none, .reserved 5 (some 0x100c), some 0x1000, 0x28⟩)]

def sampleProtocolSlots : Bytes := encodeSlots 0x1000 [none, some 0x100c, some 0x1024]

def sampleConformanceSlots : Bytes := encodeSlots 0x1040 [some 0x1048, some 0x1058]

def sampleSectionImage : Image where
  data := ⟨0, sampleProtocolSlots ++ (sampleProtocols.reduceOption.flatMap fun place => place.2.encode place.1) ++
    [0x50, 0, 0x41, 0] ++ sampleConformanceSlots ++
      (sampleConformances.reduceOption.flatMap fun place => place.2.encode place.1), by decide⟩
  segments := [⟨0x1000, 0x1000, 0, 0x1000⟩]

def sampleSectionRuntime : SwiftRuntime :=
  ⟨sampleSectionImage, none, some ⟨⟨0, sampleProtocolSlots, by decide⟩, 0x1000⟩,
    some ⟨⟨0, sampleConformanceSlots, by decide⟩, 0x1040⟩, none, none, none, none, none, none, none, none, none, none, none,
    fun _ => none, fun _ => none⟩

theorem sampleSection_stored {va : U64} {bytes : Bytes} (low : 0x1000 ≤ va.toNat) (mapped : va.toNat + bytes.length ≤ 0x2000)
    (holds : sampleSectionImage.data.Holds (va.toNat - 0x1000) bytes) : sampleSectionImage.Stored va bytes := by
  apply @Image.Stored.of_segment _ va bytes ⟨0x1000, 0x1000, 0, 0x1000⟩ (by decide) (List.pairwise_singleton _ _)
    List.mem_cons_self low mapped mapped
  simpa using holds

theorem sampleLabels_readable : Label.Readable sampleSectionImage ⟨0x103c, [0x50]⟩ ∧
    Label.Readable sampleSectionImage ⟨0x103e, [0x41]⟩ :=
  ⟨⟨⟨0x3c, by decide, by decide⟩, by decide, by decide, by decide⟩,
    ⟨⟨0x3e, by decide, by decide⟩, by decide, by decide, by decide⟩⟩

theorem sampleProtocols_fit : ∀ place, some place ∈ sampleProtocols → place.2.Fits sampleSectionImage place.1 := by
  intro place member
  rcases sampleLabels_readable with ⟨name, associated⟩
  simp only [sampleProtocols, List.mem_cons, Option.some.injEq, List.not_mem_nil, or_false, reduceCtorEq, false_or] at member
  rcases member with rfl | rfl
  · exact ⟨.null, .present name ⟨0x28, by decide, by decide⟩, .present associated ⟨0x1e, by decide, by decide⟩,
      sampleSection_stored (by decide) (by decide) (by decide)⟩
  · exact ⟨.to ⟨-0x1c, by decide, by decide⟩, .present associated ⟨0x12, by decide, by decide⟩, .absent,
      sampleSection_stored (by decide) (by decide) (by decide)⟩

theorem sampleProtocols_stand :
    SlotsStand ⟨⟨0, sampleProtocolSlots, by decide⟩, 0x1000⟩ (sampleProtocols.map (Option.map Prod.fst)) := by
  refine ⟨⟨[], (List.append_nil _).symm, by decide⟩, ?_⟩
  intro i target at?
  match i with
  | 0 =>
    cases at?
    exact .null
  | 1 =>
    cases at?
    exact .to ⟨8, by decide, by decide⟩
  | 2 =>
    cases at?
    exact .to ⟨0x1c, by decide, by decide⟩
  | i + 3 => cases at?

theorem protocols_roundTrip_sample :
    (collect (ProtocolIter.next sampleSectionRuntime) 13 0).map (List.map SwiftProtocol.unplaced) =
      some (sampleProtocols.reduceOption.map fun place => place.2.row place.1) :=
  protocols_roundTrip sampleSectionRuntime _ sampleProtocols rfl sampleProtocols_stand sampleProtocols_fit 13 (by decide)

/-- The conformances of a section come back with their protocol, their witness table and the type that their flags name,
    whatever null slots stand between them. -/
theorem conformances_roundTrip (rt : SwiftRuntime) (sec : MappedSection) (entries : List (Option (U64 × ConformanceData)))
    (found : rt.proto = some sec) (stand : SlotsStand sec (entries.map (Option.map Prod.fst)))
    (fits : ∀ place, some place ∈ entries → place.2.Fits rt.toImage place.1) :
    ∀ fuel, sec.body.length < fuel → (collect (ConformanceIter.next rt) fuel 0).map (List.map Conformance.unplaced) =
      some (entries.reduceOption.map fun place => place.2.row place.1) := by
  intro fuel enough
  have walk := @collect_descriptors Conformance (decodeConformance rt.toImage) rt.proto (ConformanceIter.next rt)
    (fun _ => rfl)
    fuel (by simpa [found] using enough)
  rw [walk, found, Option.map_some]
  exact congrArg some (descriptors_of_stand stand fun place member => decodeConformance_of_fits (fits place member))

theorem sampleConformances_fit : ∀ place, some place ∈ sampleConformances → place.2.Fits sampleSectionImage place.1 := by
  intro place member
  rcases sampleLabels_readable with ⟨-, name⟩
  simp only [sampleConformances, List.mem_cons, Option.some.injEq, List.not_mem_nil, or_false] at member
  rcases member with rfl | rfl
  · exact ⟨.to ⟨-0x3c, by decide, by decide⟩, .to ⟨-14, by decide, by decide⟩, .null, by decide, name,
      sampleSection_stored (by decide) (by decide) (by decide)⟩
  · exact ⟨.null, .to ⟨-0x50, by decide, by decide⟩, .to ⟨-0x60, by decide, by decide⟩, by decide, trivial,
      sampleSection_stored (by decide) (by decide) (by decide)⟩

theorem sampleConformances_stand :
    SlotsStand ⟨⟨0, sampleConformanceSlots, by decide⟩, 0x1040⟩ (sampleConformances.map (Option.map Prod.fst)) := by
  refine ⟨⟨[], (List.append_nil _).symm, by decide⟩, ?_⟩
  intro i target at?
  match i with
  | 0 =>
    cases at?
    exact .to ⟨8, by decide, by decide⟩
  | 1 =>
    cases at?
    exact .to ⟨0x14, by decide, by decide⟩
  | i + 2 => cases at?

theorem conformances_roundTrip_sample :
    (collect (ConformanceIter.next sampleSectionRuntime) 9 0).map (List.map Conformance.unplaced) =
      some (sampleConformances.reduceOption.map fun place => place.2.row place.1) :=
  conformances_roundTrip sampleSectionRuntime _ sampleConformances rfl sampleConformances_stand sampleConformances_fit 9
    (by decide)

end DarwinScope.Swift
