import DarwinScope.Machine.Cursors
import DarwinScope.Objc.AdoptedProtocols
import DarwinScope.Objc.Category

namespace DarwinScope.Objc

open Machine

def selectorAt (rt : ObjcRuntime) (slotVa : U64) : Option Str :=
  let selVa := (rt.resolvePointer slotVa).getD 0
  if selVa = 0 then none else rt.readCstr selVa

def SelRefIter.next (rt : ObjcRuntime) (cursor : Nat) : Option (Str × Nat) := do
  let sec ← rt.selRefs
  nextSlot (fun off => selectorAt rt (sec.vmaddr + BitVec.ofNat 64 off)) 8 sec.body.length cursor

def protocolAt (rt : ObjcRuntime) (slotVa : U64) : Option ObjcProtocol :=
  let protoVa := (rt.resolvePointer slotVa).getD 0
  if protoVa = 0 then none else decodeProtocol rt protoVa

def ProtocolIter.next (rt : ObjcRuntime) (cursor : Nat) : Option (ObjcProtocol × Nat) := do
  let sec ← rt.protoList
  nextSlot (fun off => protocolAt rt (sec.vmaddr + BitVec.ofNat 64 off)) 8 sec.body.length cursor

structure ConformanceEdge where
  classAddress : U64
  className : Option Str
  protocolName : Str
  isMeta : Bool
deriving DecidableEq

/-- The rows of one class; a class without a readable `class_ro_t` has none. -/
def conformanceEdges (rt : ObjcRuntime) (cls : ObjcClass) : List ConformanceEdge :=
  match cls.ro rt with
  | some ro => (ro.protocols rt).map fun name => ⟨cls.address, some ro.name, name, cls.isMeta⟩
  | none => []

abbrev ConformanceIter := ClassIter × List (Option ConformanceEdge)

def ConformanceIter.new (rt : ObjcRuntime) : ConformanceIter := (ClassIter.new rt, [])

/-- The current class is drained first, and then the walk goes on to the next one, for at most `turns` turns. -/
def ConformanceIter.next (rt : ObjcRuntime) (turns : Nat) : ConformanceIter → Option (ConformanceEdge × ConformanceIter) :=
  nextFlat (ClassIter.next rt) (fun cls => (conformanceEdges rt cls).map some) turns

section

variable {rt : ObjcRuntime} {α : Type} {found : Option MappedSection} {next : Nat → Option (α × Nat)} {fuel : Nat}

theorem slots_eq_offsets (sec : MappedSection) :
    sec.slots = (slotOffsets 8 sec.body.length 0).map fun off => sec.vmaddr + BitVec.ofNat 64 off := by
  simp [MappedSection.slots, slotOffsets]

theorem collect_slots {decode : U64 → Option α}
    (turns : ∀ cursor, next cursor = found.bind fun sec =>
      nextSlot (fun off => decode (sec.vmaddr + BitVec.ofNat 64 off)) 8 sec.body.length cursor)
    (enough : (found.map fun sec => sec.body.length).getD 0 < fuel) :
    collect next fuel 0 = some (((found.map MappedSection.slots).getD []).filterMap decode) := by
  have same := funext turns
  subst same
  cases found with
  | none =>
    obtain ⟨fuel, rfl⟩ : ∃ n, fuel = n + 1 := ⟨fuel - 1, by simp at enough; omega⟩
    exact collect_stop rfl fuel
  | some sec =>
    have bound := sec.body.length_lt
    simp only [Option.map_some, Option.getD_some] at enough ⊢
    rw [slots_eq_offsets, List.filterMap_map]
    exact @collect_nextSlot α _ 8 sec.body.length 0 (by decide) (by omega) fuel enough

theorem nextRefTarget_eq {resolveLocal : U64 → Option Str} (sec : MappedSection) (cursor : Nat) :
    nextRefTarget rt sec.body sec.vmaddr resolveLocal cursor =
      nextSlot (fun off => some (refTargetAt rt resolveLocal (sec.vmaddr + BitVec.ofNat 64 off)))
        8 sec.body.length cursor := by
  have bound := sec.body.length_lt
  rw [nextSlot_eq (by decide) (by omega), nextRefTarget]
  cases sum : checkedAddUsize cursor 8 with
  | none =>
    have past := checkedAddUsize_none sum
    rw [if_pos (by omega)]
    rfl
  | some stop =>
    rw [checkedAddUsize_some sum]
    rfl

theorem collect_references {resolveLocal : U64 → Option Str} {next : Nat → Option (RefTarget × Nat)}
    (turns : ∀ cursor, next cursor = found.bind fun sec => nextRefTarget rt sec.body sec.vmaddr resolveLocal cursor)
    (enough : (found.map fun sec => sec.body.length).getD 0 < fuel) :
    collect next fuel 0 = some (((found.map MappedSection.slots).getD []).map (refTargetAt rt resolveLocal)) := by
  have walk := @collect_slots RefTarget found next fuel (fun slotVa => some (refTargetAt rt resolveLocal slotVa)) ?_ enough
  · rwa [List.filterMap_eq_map'] at walk
  · intro cursor
    rw [turns]
    cases found with
    | none => rfl
    | some sec => exact nextRefTarget_eq sec cursor

end

def sectionLength (found : Option MappedSection) : Nat := (found.map fun sec => sec.body.length).getD 0

/-- The reference sections row by row, on every image: a class, superclass or protocol reference for each slot, in the order
    of the slots; of the selector references and of the protocols those that can be read, the others left out. -/
theorem reference_sections_exact (rt : ObjcRuntime) : ∃ bound, ∀ fuel, bound ≤ fuel →
    collect (ClassRefIter.next rt) fuel 0 =
        some (((rt.classRefs.map MappedSection.slots).getD []).map (refTargetAt rt (decodeClassName rt))) ∧
      collect (SuperRefIter.next rt) fuel 0 =
        some (((rt.superRefs.map MappedSection.slots).getD []).map (refTargetAt rt (decodeClassName rt))) ∧
      collect (ProtoRefIter.next rt) fuel 0 =
        some (((rt.protoRefs.map MappedSection.slots).getD []).map
          (refTargetAt rt fun va => (decodeProtocol rt va).map ObjcProtocol.name)) ∧
      collect (SelRefIter.next rt) fuel 0 =
        some (((rt.selRefs.map MappedSection.slots).getD []).filterMap (selectorAt rt)) ∧
      collect (ProtocolIter.next rt) fuel 0 =
        some (((rt.protoList.map MappedSection.slots).getD []).filterMap (protocolAt rt)) := by
  refine ⟨sectionLength rt.classRefs + sectionLength rt.superRefs + sectionLength rt.protoRefs + sectionLength rt.selRefs +
    sectionLength rt.protoList + 1, fun fuel enough => ?_⟩
  unfold sectionLength at enough
  exact ⟨collect_references (fun _ => rfl) (by omega), collect_references (fun _ => rfl) (by omega),
    collect_references (fun _ => rfl) (by omega), collect_slots (fun _ => rfl) (by omega),
    collect_slots (fun _ => rfl) (by omega)⟩

theorem reduceOption_flatMap {α β : Type} (f : α → List β) (items : List α) :
    (items.flatMap fun a => (f a).map some).reduceOption = items.flatMap f := by
  rw [← List.map_flatMap, List.reduceOption, List.filterMap_map]
  exact List.filterMap_some

/-- The conformances of an image are those of its classes and metaclasses, one behind the other. -/
theorem collect_conformances (rt : ObjcRuntime) : ∃ enough bound, ∀ turns fuel, enough ≤ turns → bound ≤ fuel →
    collect (ConformanceIter.next rt turns) fuel (ConformanceIter.new rt) =
      some (rt.classes.flatMap (conformanceEdges rt)) := by
  rcases collect_classes rt with ⟨more, done⟩
  let inner := fun cls => (conformanceEdges rt cls).map some
  refine ⟨flatTurns inner rt.classes [] + 1, (rt.classes.flatMap (conformanceEdges rt)).length + 1, ?_⟩
  intro turns fuel plenty enough
  have all := reduceOption_flatMap (conformanceEdges rt) rt.classes
  have walk := @collect_nextFlat _ _ _ _ inner (ClassIter.new rt) rt.classes [] more turns done plenty fuel
    (by rw [List.nil_append, all]; omega)
  rwa [List.nil_append, all] at walk

def ConformanceEdge.shown (edge : ConformanceEdge) : U64 × Option Bytes × Bytes × Bool :=
  (edge.classAddress, edge.className.map Str.text, edge.protocolName.text, edge.isMeta)

def ClassPair.edges (c : ClassPair) : List (U64 × Option Bytes × Bytes × Bool) :=
  c.rows.flatMap fun row =>
    (row.1.ro.protocolNames.take (2^20)).map fun name => (row.1.va, some row.1.ro.name.text, name, row.2)

theorem conformanceEdges_shown {rt : ObjcRuntime} {c : ClassData} {isMeta : Bool}
    (ro : ((c.row isMeta).ro rt).map (ClassRo.shown rt) =
      some { c.ro.shown with protocols := c.ro.protocolNames.take (2^20) }) :
    (conformanceEdges rt (c.row isMeta)).map ConformanceEdge.shown =
      (c.ro.protocolNames.take (2^20)).map fun name => (c.va, some c.ro.name.text, name, isMeta) := by
  rcases Option.map_eq_some_iff.mp ro with ⟨found, read, shown⟩
  have protocols : (found.protocols rt).map Str.text = c.ro.protocolNames.take (2^20) := congrArg RoRow.protocols shown
  have name : found.name.text = c.ro.name.text := congrArg (fun row => row.content.name) shown
  rw [conformanceEdges, read, ← protocols, List.map_map, List.map_map]
  apply List.map_congr_left
  intro s _
  simp only [Function.comp_apply, ConformanceEdge.shown, Option.map_some, name]
  rfl

/-- The conformances of a class table that was laid out are the adopted protocols of its classes and metaclasses, of each
    list the first `2^20`. -/
theorem adopted_protocols_round_trip (rt : ObjcRuntime) (sec : MappedSection) (classes : List ClassPair)
    (laid : LaidOut rt sec classes) : ∃ enough bound, ∀ turns fuel, enough ≤ turns → bound ≤ fuel →
    (collect (ConformanceIter.next rt turns) fuel (ConformanceIter.new rt)).map (List.map ConformanceEdge.shown) =
      some (classes.flatMap ClassPair.edges) := by
  rcases collect_conformances rt with ⟨enough, bound, done⟩
  refine ⟨enough, bound, fun turns fuel plenty more => ?_⟩
  rw [done turns fuel plenty more, Option.map_some, laid.classes_eq, List.flatMap_assoc, List.map_flatMap]
  congr 1
  apply List.flatMap_congr
  intro c member
  rw [List.flatMap_map, List.map_flatMap, ClassPair.edges]
  apply List.flatMap_congr
  intro row listed
  exact conformanceEdges_shown (laid.ro_eq member listed)

def plainProtocols : List ProtocolData :=
  [⟨0x11f0, 0, ⟨0x11e0, [0x50]⟩, fun _ => 0, 72, 0, []⟩, ⟨0x1238, 0, ⟨0x11e8, [0x51]⟩, fun _ => 0, 72, 0, []⟩]

def bareRo (va : U64) (flags : U32) (name : Text) (protocols : Option (Listed ProtocolData)) : RoData :=
  ⟨va, flags, 0, 40, 0, 0, name, 24, none, protocols, none, 0, none⟩

/-- The class `C` adopts `P`, and `D` adopts `Q` and `P`, its metaclass `Q` alone. -/
def conformingClasses : List ClassPair :=
  [⟨⟨0x1010, 0x1038, 0, 0, 0, 0, bareRo 0x10b0 0 ⟨0x11d0, [0x43]⟩ (some ⟨0x1280, plainProtocols.take 1⟩)⟩,
      ⟨0x1038, 0x1038, 0x1010, 0, 0, 0, bareRo 0x10f8 1 ⟨0x11d0, [0x43]⟩ none⟩, rfl⟩,
    ⟨⟨0x1060, 0x1088, 0x1010, 0, 0, 2, bareRo 0x1140 0 ⟨0x11d8, [0x44]⟩ (some ⟨0x1290, plainProtocols.reverse⟩)⟩,
      ⟨0x1088, 0x1038, 0x1038, 0, 0, 0, bareRo 0x1188 1 ⟨0x11d8, [0x44]⟩ (some ⟨0x12a8, plainProtocols.drop 1⟩)⟩, rfl⟩]

def conformingSlots : MappedSection := ⟨⟨0, encodePointers [0x1010, 0x1060], by decide⟩, 0x1000⟩

def conformingRuntime : ObjcRuntime :=
  { ObjcRuntime.flat 0x1000
      ⟨0, encodePointers [0x1010, 0x1060] ++
        conformingClasses.flatMap (fun c => c.instanceClass.encode ++ c.metaclass.encode) ++
        conformingClasses.flatMap (fun c => c.instanceClass.ro.encode ++ c.metaclass.ro.encode) ++
        encodePointers [0x43, 0x44, 0x50, 0x51] ++ plainProtocols.flatMap ProtocolData.encode ++
        encodeProtocols (plainProtocols.take 1) ++ encodeProtocols plainProtocols.reverse ++
        encodeProtocols (plainProtocols.drop 1), by decide +kernel⟩ Map.empty Map.empty with
    classList := some conformingSlots }

theorem conformingRuntime_held {o : Placed} (low : 0x1000 ≤ o.1.toNat) (high : o.1.toNat + o.2.length ≤ 0x12b8)
    (holds : conformingRuntime.data.Holds (o.1.toNat - 0x1000) o.2) (aligned : o.1.toNat % 8 = 0) :
    Held conformingRuntime o := by
  refine ⟨?_, ?_, aligned, by omega⟩
  · apply @Image.Stored.of_segment conformingRuntime.toImage o.1 o.2 ⟨0x1000, 0x2b8, 0, 0x2b8⟩ (by decide +kernel)
      (List.pairwise_singleton _ _) (by decide +kernel) low high high
    simpa using holds
  · intro null
    rw [null] at low
    exact absurd low (by decide)

theorem bareRo_fits {va : U64} {flags : U32} {name : Text} {protocols : Option (Listed ProtocolData)} (readable : name.Fits)
    (each : ∀ p ∈ listItems protocols, p.Fits) : (bareRo va flags name protocols).Fits where
  name := readable
  layouts := (by decide : (0 : U64).toNat < 2^47 ∧ (0 : U64).toNat < 2^47)
  header := (by decide : (24 : U32) &&& ~~~methodListFlagMask = 24 ∧ (24 : U32) &&& smallMethodListFlag = 0)
  methods _ none := nomatch none
  protocols := each
  ivars _ none := nomatch none
  properties _ none := nomatch none
  counts := (by decide : 0 < 2^32 ∧ 0 < 2^32 ∧ 0 < 2^32)

theorem conforming_laidOut : LaidOut conformingRuntime conformingSlots conformingClasses where
  plain _ := rfl
  listed := rfl
  slots := rfl
  held := conformingRuntime_held (by decide) (by decide) (by decide +kernel) (by decide)
  others _ none := nomatch none
  objects := by
    have placed : ∀ c ∈ conformingClasses, ∀ o ∈ c.objects, 0x1000 ≤ o.1.toNat ∧ o.1.toNat + o.2.length ≤ 0x12b8 ∧
        conformingRuntime.data.Holds (o.1.toNat - 0x1000) o.2 ∧ o.1.toNat % 8 = 0 := by
      decide +kernel
    intro c member o part
    rcases placed c member o part with ⟨low, high, holds, aligned⟩
    exact conformingRuntime_held low high holds aligned
  fits c member := by
    simp only [conformingClasses, List.mem_cons, List.not_mem_nil, or_false] at member
    rcases member with rfl | rfl
    · exact ⟨⟨by decide, by decide, bareRo_fits (by decide) (by decide +kernel)⟩,
        ⟨by decide, by decide, bareRo_fits (by decide) (by decide +kernel)⟩⟩
    · exact ⟨⟨by decide, by decide, bareRo_fits (by decide) (by decide +kernel)⟩,
        ⟨by decide, by decide, bareRo_fits (by decide) (by decide +kernel)⟩⟩
  distinct := by decide
  apart := by decide

theorem adopted_protocols_of_two : ∃ enough bound, ∀ turns fuel, enough ≤ turns → bound ≤ fuel →
    (collect (ConformanceIter.next conformingRuntime turns) fuel (ConformanceIter.new conformingRuntime)).map
        (List.map ConformanceEdge.shown) =
      some [(0x1010, some [0x43], [0x50], false), (0x1060, some [0x44], [0x51], false),
        (0x1060, some [0x44], [0x50], false), (0x1088, some [0x44], [0x51], true)] :=
  adopted_protocols_round_trip _ _ _ conforming_laidOut

end DarwinScope.Objc
