import DarwinScope.Machine.Cursors
import DarwinScope.Swift.Types

namespace DarwinScope.Swift

open Machine

structure ConformanceFlags where
  raw : U32
deriving DecidableEq

namespace ConformanceFlags

variable (flags : ConformanceFlags)

def typeReferenceKind : TypeReferenceKind := TypeReferenceKind.fromBits (((flags.raw >>> 3) &&& 0x7).setWidth 8)

def isRetroactive : Bool := hasBit flags.raw 6

def isSynthesizedNonUnique : Bool := hasBit flags.raw 7

def numConditionalRequirements : U8 := ((flags.raw >>> 8) &&& 0xff).setWidth 8

def hasResilientWitnesses : Bool := hasBit flags.raw 16

def hasGenericWitnessTable : Bool := hasBit flags.raw 17

def isConformanceOfProtocol : Bool := hasBit flags.raw 18

def hasGlobalActorIsolation : Bool := hasBit flags.raw 19

def numConditionalPackDescriptors : U8 := ((flags.raw >>> 24) &&& 0xff).setWidth 8

end ConformanceFlags

inductive TypeReference where
  | directTypeDescriptor (va : U64)
  | indirectTypeDescriptor (va : U64)
  | directObjcClassName (name : Str)
  | indirectObjcClass (va : U64)
  | other (kind : U8) (target : U64)
deriving DecidableEq

structure Conformance where
  address : U64
  protocolDescriptorVa : U64
  typeRef : TypeReference
  witnessTableVa : U64
  flags : ConformanceFlags
deriving DecidableEq

def decodeTypeReference (rt : Image) (slotVa : U64) (rel : U32) (kind : TypeReferenceKind) : TypeReference :=
  let target := relativeTarget slotVa rel
  match kind with
  | .directTypeDescriptor => .directTypeDescriptor target
  | .indirectTypeDescriptor => .indirectTypeDescriptor target
  | .directObjcClassName =>
    -- a name that cannot be read leaves its address
    match rt.readCstr target with
    | some name => .directObjcClassName name
    | none => .other 2 target
  | .indirectObjcClass => .indirectObjcClass target
  | .other k => .other k target

def decodeConformance (rt : Image) (descriptorVa : U64) : Option Conformance := do
  let header ← rt.readBytes descriptorVa 16
  let protocolRel ← readI32LeAt header 0
  let typeRefRel ← readI32LeAt header 4
  let witnessRel ← readI32LeAt header 8
  let flagsRaw ← readU32LeAt header 12
  let typeRefSlot ← checkedAdd descriptorVa 4
  let witnessSlot ← checkedAdd descriptorVa 8
  some {
    address := descriptorVa
    protocolDescriptorVa := relativeTarget descriptorVa protocolRel
    typeRef := decodeTypeReference rt typeRefSlot typeRefRel (ConformanceFlags.mk flagsRaw).typeReferenceKind
    witnessTableVa := relativeTarget witnessSlot witnessRel
    flags := ⟨flagsRaw⟩
  }

/-- Where the slot at an offset of a section leads; a null slot leads nowhere. -/
def slotTarget (sec : MappedSection) (off : Nat) : Option U64 := do
  let rel ← readI32LeAt sec.body off
  if rel = 0 then none else some (relativePointer (sec.vmaddr + BitVec.ofNat 64 off) rel)

def slotDescriptor {α : Type} (decode : U64 → Option α) (sec : MappedSection) (off : Nat) : Option α :=
  (slotTarget sec off).bind decode

def TypeIter.next (rt : SwiftRuntime) (cursor : Nat) : Option (DecodedType × Nat) := do
  let sec ← rt.types
  nextSlot (slotDescriptor (decodeTypeDescriptor rt.toImage) sec) 4 sec.body.length cursor

def ProtocolIter.next (rt : SwiftRuntime) (cursor : Nat) : Option (SwiftProtocol × Nat) := do
  let sec ← rt.protos
  nextSlot (slotDescriptor (decodeProtocol rt.toImage) sec) 4 sec.body.length cursor

def ConformanceIter.next (rt : SwiftRuntime) (cursor : Nat) : Option (Conformance × Nat) := do
  let sec ← rt.proto
  nextSlot (slotDescriptor (decodeConformance rt.toImage) sec) 4 sec.body.length cursor

def sectionTargets (sec : Option MappedSection) : List U64 :=
  (sec.map fun s => (slotOffsets 4 s.body.length 0).filterMap (slotTarget s)).getD []

section

variable {rt : SwiftRuntime} {sec : MappedSection} {α : Type}

theorem body_room (sec : MappedSection) : sec.body.length + 4 < 2^64 := by
  have bound := sec.body.length_lt
  omega

theorem sectionTargets_few (found : Option MappedSection) :
    (sectionTargets found).length ≤ (found.map fun sec => sec.body.length / 4).getD 0 := by
  cases found with
  | none => simp [sectionTargets]
  | some sec =>
    have slots : (slotOffsets 4 sec.body.length 0).length = sec.body.length / 4 := by simp [slotOffsets]
    have kept := List.length_filterMap_le (slotTarget sec) (slotOffsets 4 sec.body.length 0)
    simp only [sectionTargets, Option.map_some, Option.getD_some]
    omega

/-- The loop that the three iterators share: it hands out what stands behind each pointer that leads to a descriptor. -/
theorem collect_descriptors {decode : U64 → Option α} {found : Option MappedSection} {next : Nat → Option (α × Nat)}
    (turns : ∀ cursor, next cursor =
      found.bind fun sec => nextSlot (slotDescriptor decode sec) 4 sec.body.length cursor) {fuel : Nat}
    (enough : (found.map fun sec => sec.body.length).getD 0 < fuel) :
    collect next fuel 0 = some ((sectionTargets found).filterMap decode) := by
  have same : next = fun cursor => found.bind fun sec => nextSlot (slotDescriptor decode sec) 4 sec.body.length cursor := by
    funext cursor
    exact turns cursor
  subst same
  cases found with
  | none =>
    obtain ⟨fuel, rfl⟩ : ∃ n, fuel = n + 1 := ⟨fuel - 1, by simp at enough; omega⟩
    exact collect_stop rfl fuel
  | some sec =>
    simp only [Option.map_some, Option.getD_some] at enough
    have walk := @collect_nextSlot α (slotDescriptor decode sec) 4 sec.body.length 0 (by decide) (body_room sec) fuel enough
    refine walk.trans ?_
    simp only [sectionTargets, Option.map_some, Option.getD_some, List.filterMap_filterMap]
    rfl

theorem decodeTypeDescriptor_address {image : Image} {va : U64} {t : DecodedType}
    (decoded : decodeTypeDescriptor image va = some t) : t.address = va := by
  simp only [decodeTypeDescriptor, Option.bind_eq_bind, Option.bind_eq_some_iff] at decoded
  rcases decoded with ⟨_, -, _, -, _, -, _, -, _, -, _, -, _, -, same⟩
  cases same
  rfl

theorem decodeProtocol_address {image : Image} {va : U64} {p : SwiftProtocol} (decoded : decodeProtocol image va = some p) :
    p.address = va := by
  simp only [decodeProtocol, Option.bind_eq_bind, Option.bind_eq_some_iff] at decoded
  rcases decoded with ⟨_, -, _, -, _, -, _, -, _, -, _, -, _, -, _, -, _, -, _, -, same⟩
  split at same <;> rcases Option.bind_eq_some_iff.mp same with ⟨_, -, row⟩ <;> cases row <;> rfl

theorem decodeConformance_address {image : Image} {va : U64} {c : Conformance}
    (decoded : decodeConformance image va = some c) : c.address = va := by
  simp only [decodeConformance, Option.bind_eq_bind, Option.bind_eq_some_iff] at decoded
  rcases decoded with ⟨_, -, _, -, _, -, _, -, _, -, _, -, _, -, same⟩
  cases same
  rfl

theorem filterMap_addresses {decode : U64 → Option α} {address : α → U64}
    (placed : ∀ va row, decode va = some row → address row = va) (targets : List U64) :
    (targets.filterMap decode).map address = targets.filter fun va => (decode va).isSome := by
  induction targets with
  | nil => rfl
  | cons va targets ih =>
    cases row : decode va with
    | none => simp [row, ih]
    | some a => simp [row, ih, placed va a row]

end

/-- The rows of a section: what is read behind its pointers, one row for each that leads to a descriptor. -/
structure SectionRows {α : Type} (found : Option MappedSection) (decode : U64 → Option α) (address : α → U64)
    (rows : List α) : Prop where
  exact : rows = (sectionTargets found).filterMap decode
  placed : rows.map address = (sectionTargets found).filter fun va => (decode va).isSome
  few : rows.length ≤ (found.map fun sec => sec.body.length / 4).getD 0

theorem sectionRows_filterMap {α : Type} {decode : U64 → Option α} {address : α → U64}
    (placed : ∀ va row, decode va = some row → address row = va) (found : Option MappedSection) :
    SectionRows found decode address ((sectionTargets found).filterMap decode) :=
  ⟨rfl, filterMap_addresses placed _, (List.length_filterMap_le _ _).trans (sectionTargets_few found)⟩

/-- The three walks end on every image, and a slot that is null or leads nowhere costs its own row only. -/
theorem section_walks_exact (rt : SwiftRuntime) :
    (∃ rows, SectionRows rt.types (decodeTypeDescriptor rt.toImage) (fun t => t.address) rows ∧
      ∀ fuel, (rt.types.map fun sec => sec.body.length).getD 0 < fuel → collect (TypeIter.next rt) fuel 0 = some rows) ∧
    (∃ rows, SectionRows rt.protos (decodeProtocol rt.toImage) SwiftProtocol.address rows ∧
      ∀ fuel, (rt.protos.map fun sec => sec.body.length).getD 0 < fuel → collect (ProtocolIter.next rt) fuel 0 = some rows) ∧
    (∃ rows, SectionRows rt.proto (decodeConformance rt.toImage) Conformance.address rows ∧
      ∀ fuel, (rt.proto.map fun sec => sec.body.length).getD 0 < fuel →
        collect (ConformanceIter.next rt) fuel 0 = some rows) := by
  refine ⟨⟨_, sectionRows_filterMap (fun _ _ => decodeTypeDescriptor_address) rt.types, ?_⟩,
    ⟨_, sectionRows_filterMap (fun _ _ => decodeProtocol_address) rt.protos, ?_⟩,
    ⟨_, sectionRows_filterMap (fun _ _ => decodeConformance_address) rt.proto, ?_⟩⟩ <;> intro fuel enough
  · exact collect_descriptors (fun _ => rfl) enough
  · exact collect_descriptors (fun _ => rfl) enough
  · exact collect_descriptors (fun _ => rfl) enough

end DarwinScope.Swift
