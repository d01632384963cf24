import DarwinScope.Objc.ClassTable

namespace DarwinScope.Objc

open Machine

def Disjoint (a b : Placed) : Prop := a.1.toNat + a.2.length ≤ b.1.toNat ∨ b.1.toNat + b.2.length ≤ a.1.toNat

instance (a b : Placed) : Decidable (Disjoint a b) := inferInstanceAs (Decidable (_ ∨ _))

def adoptedProtocol : ProtocolData where
  va := 0x10e8
  isa := 0
  name := ⟨0x1138, [0x50]⟩
  lists := fun _ => 0
  size := 72
  flags := 0
  trailing := []

/-- A class `C` that adopts a protocol `P` a number of times. -/
def adoptingRo (n : Nat) : RoData where
  va := 0x1058
  flags := 0
  instanceStart := 8
  instanceSize := 16
  reserved := 0
  ivarLayoutVa := 0
  name := ⟨0x1130, [0x43]⟩
  methodHeader := 24
  methods := some ⟨0x1140, [⟨⟨0x1160, [0x6d]⟩, ⟨0x1168, [0x76]⟩, 0x2000⟩]⟩
  protocols := some ⟨0x11d8, List.replicate n adoptedProtocol⟩
  ivars := some ⟨0x1170, [⟨⟨0x1198, [0x69]⟩, ⟨0x11a0, [0x49]⟩, 0x11a8, 8, 3, 8⟩]⟩
  weakIvarLayoutVa := 0
  properties := some ⟨0x11b0, [⟨⟨0x11c8, [0x70]⟩, ⟨0x11d0, [0x54]⟩⟩]⟩

def adoptingMetaRo : RoData where
  va := 0x10a0
  flags := 1
  instanceStart := 40
  instanceSize := 40
  reserved := 0
  ivarLayoutVa := 0
  name := ⟨0x1130, [0x43]⟩
  methodHeader := 24
  methods := none
  protocols := none
  ivars := none
  weakIvarLayoutVa := 0
  properties := none

def adoptingPair (n : Nat) : ClassPair where
  instanceClass := ⟨0x1008, 0x1030, 0, 0, 0, 2, adoptingRo n⟩
  metaclass := ⟨0x1030, 0x1030, 0x1008, 0, 0, 0, adoptingMetaRo⟩
  linked := rfl

def adoptingObjects : List Placed :=
  [(0x1000, encodePointers [0x1008]),
    (0x1008, (adoptingPair 0).instanceClass.encode),
    (0x1030, (adoptingPair 0).metaclass.encode),
    (0x1058, (adoptingRo 0).encode),
    (0x10a0, adoptingMetaRo.encode),
    (0x10e8, adoptedProtocol.encode),
    (0x1130, [0x43, 0]),
    (0x1138, [0x50, 0]),
    (0x1140, encodeList 24 MethodData.encode (listItems (adoptingRo 0).methods)),
    (0x1160, [0x6d, 0]),
    (0x1168, [0x76, 0]),
    (0x1170, encodeList 32 IvarData.encode (listItems (adoptingRo 0).ivars)),
    (0x1198, [0x69, 0]),
    (0x11a0, [0x49, 0]),
    (0x11a8, leBytes 4 8),
    (0x11b0, encodeList 16 PropertyData.encode (listItems (adoptingRo 0).properties)),
    (0x11c8, [0x70, 0]),
    (0x11d0, [0x54, 0])]

def protocolList (n : Nat) : Placed := (0x11d8, encodeProtocols (List.replicate n adoptedProtocol))

theorem protocolList_length (n : Nat) : (protocolList n).2.length = 8 * (n + 1) := by
  rw [protocolList, encodeProtocols, encodePointers_length, List.length_cons, List.length_map, List.length_replicate]

def adoptingPrefix : Bytes := adoptingObjects.flatMap fun o => o.2 ++ List.replicate ((8 - o.2.length % 8) % 8) 0

theorem adoptingPrefix_length : adoptingPrefix.length = 472 := by decide +kernel

def adoptingSlots : MappedSection := ⟨⟨0, encodePointers [0x1008], by decide⟩, 0x1000⟩

def adoptingRuntime (n : Nat) (small : n < 2^30) : ObjcRuntime :=
  { ObjcRuntime.flat 0x1000
      ⟨0, adoptingPrefix ++ (protocolList n).2, by
        rw [List.length_append, adoptingPrefix_length, protocolList_length]
        omega⟩ Map.empty Map.empty with
    classList := some adoptingSlots }

section

variable {n : Nat} (small : n < 2^30)

theorem adoptingRuntime_length : (adoptingRuntime n small).data.length = 472 + 8 * (n + 1) := by
  change (adoptingPrefix ++ (protocolList n).2).length = _
  rw [List.length_append, adoptingPrefix_length, protocolList_length]

def adoptingSegment : SegmentRange :=
  ⟨0x1000, BitVec.ofNat 64 (adoptingRuntime n small).data.length, 0, BitVec.ofNat 64 (adoptingRuntime n small).data.length⟩

theorem adoptingSegment_toNat : (adoptingSegment small).vmaddr.toNat = 0x1000 ∧
    (adoptingSegment small).vmsize.toNat = 472 + 8 * (n + 1) ∧ (adoptingSegment small).fileoff.toNat = 0 ∧
    (adoptingSegment small).filesize.toNat = 472 + 8 * (n + 1) := by
  have size : (BitVec.ofNat 64 (adoptingRuntime n small).data.length).toNat = 472 + 8 * (n + 1) := by
    rw [BitVec.toNat_ofNat, adoptingRuntime_length, Nat.mod_eq_of_lt (by omega)]
  exact ⟨rfl, size, rfl, size⟩

theorem adoptingRuntime_stored {o : Placed} (low : 0x1000 ≤ o.1.toNat)
    (fits : o.1.toNat - 0x1000 + o.2.length ≤ 472 + 8 * (n + 1))
    (holds : (adoptingRuntime n small).data.Holds (o.1.toNat - 0x1000) o.2) : (adoptingRuntime n small).Stored o.1 o.2 := by
  rcases adoptingSegment_toNat small with ⟨base, size, start, backed⟩
  apply @Image.Stored.of_segment _ _ _ (adoptingSegment small)
  · intro s member
    rw [List.mem_singleton.mp member]
    change (adoptingSegment small).vmaddr.toNat + (adoptingSegment small).vmsize.toNat < 2^64
    omega
  · exact List.pairwise_singleton _ _
  · exact List.mem_singleton.mpr rfl
  · omega
  · omega
  · omega
  · rw [start, base, Nat.zero_add]
    exact holds

theorem adoptingObjects_placed : ∀ o ∈ adoptingObjects, o.2 <+: adoptingPrefix.drop (o.1.toNat - 0x1000) ∧
    o.1 ≠ 0 ∧ o.1.toNat % 8 = 0 ∧ 0x1000 ≤ o.1.toNat ∧ o.1.toNat - 0x1000 + o.2.length ≤ 472 ∧ o.1.toNat < 2^47 := by
  decide +kernel

theorem adoptingObjects_held {o : Placed} (member : o ∈ adoptingObjects) : Held (adoptingRuntime n small) o := by
  rcases adoptingObjects_placed o member with ⟨stands, nonzero, aligned, low, fits, bound⟩
  refine ⟨adoptingRuntime_stored small low (by omega) ?_, nonzero, aligned, bound⟩
  change o.2 <+: (adoptingPrefix ++ (protocolList n).2).drop (o.1.toNat - 0x1000)
  rw [List.drop_append_of_le_length (by rw [adoptingPrefix_length]; omega)]
  exact stands.trans (List.prefix_append _ _)

theorem protocolList_held : Held (adoptingRuntime n small) (protocolList n) := by
  have place : (protocolList n).1.toNat = 0x1000 + 472 := rfl
  refine ⟨adoptingRuntime_stored small (by omega) (by rw [protocolList_length]; omega) ?_, ?_, by omega, by omega⟩
  · change (protocolList n).2 <+: (adoptingPrefix ++ (protocolList n).2).drop ((protocolList n).1.toNat - 0x1000)
    rw [place, Nat.add_sub_cancel_left, ← adoptingPrefix_length, List.drop_left]
  · intro null
    rw [null] at place
    cases place

theorem adoptingRo_objects {o : Placed} (member : o ∈ (adoptingRo n).objects) :
    o = protocolList n ∨ o ∈ adoptingObjects := by
  have methods : ∀ o ∈ listObjects (encodeList 24 MethodData.encode) MethodData.objects (adoptingRo 0).methods,
      o ∈ adoptingObjects := by decide +kernel
  have protocol : ∀ o ∈ adoptedProtocol.objects, o ∈ adoptingObjects := by decide +kernel
  have ivars : ∀ o ∈ listObjects (encodeList 32 IvarData.encode) IvarData.objects (adoptingRo 0).ivars,
      o ∈ adoptingObjects := by decide +kernel
  have properties : ∀ o ∈ listObjects (encodeList 16 PropertyData.encode) PropertyData.objects (adoptingRo 0).properties,
      o ∈ adoptingObjects := by decide +kernel
  have front : ((adoptingRo 0).va, (adoptingRo 0).encode) ∈ adoptingObjects ∧
      (adoptingRo 0).name.object ∈ adoptingObjects := by
    decide +kernel
  rw [RoData.objects, List.mem_cons, List.mem_cons, List.mem_append, List.mem_append, List.mem_append] at member
  rcases member with rfl | rfl | ((part | part) | part) | part
  · exact .inr front.1
  · exact .inr front.2
  · exact .inr (methods o part)
  · rcases List.mem_cons.mp part with rfl | part
    · exact .inl rfl
    · rcases List.mem_flatMap.mp part with ⟨p, listed, part⟩
      rw [List.eq_of_mem_replicate listed] at part
      exact .inr (protocol o part)
  · exact .inr (ivars o part)
  · exact .inr (properties o part)

/-- What the number of adopted protocols changes is the protocol list alone. -/
theorem adoptingPair_objects {o : Placed} (member : o ∈ (adoptingPair n).objects) :
    o = protocolList n ∨ o ∈ adoptingObjects := by
  have front : ((adoptingPair 0).instanceClass.va, (adoptingPair 0).instanceClass.encode) ∈ adoptingObjects := by
    decide +kernel
  have metaclass : ∀ o ∈ (adoptingPair 0).metaclass.objects, o ∈ adoptingObjects := by decide +kernel
  rcases List.mem_append.mp member with part | part
  · rcases List.mem_cons.mp part with rfl | part
    · exact .inr front
    · exact adoptingRo_objects part
  · exact .inr (metaclass o part)

theorem adoptingRo_fits : (adoptingRo n).Fits where
  name := (by decide +kernel : (adoptingRo 0).name.Fits)
  layouts := (by decide : (0 : U64).toNat < 2^47 ∧ (0 : U64).toNat < 2^47)
  header := (by decide : (24 : U32) &&& ~~~methodListFlagMask = 24 ∧ (24 : U32) &&& smallMethodListFlag = 0)
  methods := (by decide +kernel : ∀ m ∈ listItems (adoptingRo 0).methods, m.Fits)
  protocols p member := by
    rw [List.eq_of_mem_replicate member]
    decide +kernel
  ivars := (by decide +kernel : ∀ v ∈ listItems (adoptingRo 0).ivars, v.Fits)
  properties := (by decide +kernel : ∀ p ∈ listItems (adoptingRo 0).properties, p.Fits)
  counts := (by decide : 1 < 2^32 ∧ 1 < 2^32 ∧ 1 < 2^32)

theorem adoptingMetaRo_fits : adoptingMetaRo.Fits where
  name := by decide +kernel
  layouts := by decide
  header := by decide
  methods _ none := nomatch none
  protocols _ none := nomatch none
  ivars _ none := nomatch none
  properties _ none := nomatch none
  counts := by decide

theorem adoptingPair_fits : (adoptingPair n).instanceClass.Fits ∧ (adoptingPair n).metaclass.Fits := by
  have pointers : (0x1030 : U64).toNat < 2^47 ∧ (0x1008 : U64).toNat < 2^47 ∧ (0 : U64).toNat < 2^47 := by decide
  have few : (2 : U64).toNat < 8 ∧ (0 : U64).toNat < 8 := by decide
  exact ⟨⟨⟨pointers.1, pointers.2.2⟩, few.1, adoptingRo_fits⟩, ⟨⟨pointers.1, pointers.2.1⟩, few.2, adoptingMetaRo_fits⟩⟩

theorem adopting_laidOut : LaidOut (adoptingRuntime n small) adoptingSlots [adoptingPair n] where
  plain _ := rfl
  listed := rfl
  slots := rfl
  held := adoptingObjects_held small List.mem_cons_self
  others _ none := nomatch none
  objects c member o part := by
    rw [List.mem_singleton.mp member] at part
    rcases adoptingPair_objects part with rfl | fixed
    · exact protocolList_held small
    · exact adoptingObjects_held small fixed
  fits c member := by
    rw [List.mem_singleton.mp member]
    exact adoptingPair_fits
  distinct := List.nodup_singleton _
  apart c member := by
    rw [List.mem_singleton.mp member]
    exact (by decide : (0x1030 : U64) ≠ 0x1008)

end

/-- The table of a class that adopts one protocol is read back as a whole. -/
theorem class_table_adopting_one : (adoptingRuntime 1 (by decide)).classes =
      [(adoptingPair 1).instanceClass.row false, (adoptingPair 1).metaclass.row true] ∧
    ∀ c ∈ [adoptingPair 1], ∀ row ∈ c.rows,
      ((row.1.row row.2).ro (adoptingRuntime 1 (by decide))).map (ClassRo.shown (adoptingRuntime 1 (by decide))) =
        some { row.1.ro.shown with protocols := row.1.ro.protocolNames.take (2^20) } :=
  class_table_round_trip _ _ _ (adopting_laidOut (by decide : 1 < 2^30))

theorem adoptingPair_disjoint {n : Nat} {a b : Placed} (left : a ∈ (adoptingPair n).objects)
    (right : b ∈ (adoptingPair n).objects) : a = b ∨ Disjoint a b := by
  have fixed : ∀ a ∈ adoptingObjects, ∀ b ∈ adoptingObjects, a = b ∨ Disjoint a b := by decide +kernel
  have front : ∀ o ∈ adoptingObjects, o.1.toNat + o.2.length ≤ (0x11d8 : U64).toNat := by decide +kernel
  rcases adoptingPair_objects left with rfl | fixedLeft <;> rcases adoptingPair_objects right with rfl | fixedRight
  · exact .inl rfl
  · exact .inr (.inr (front b fixedRight))
  · exact .inr (.inl (front a fixedLeft))
  · exact fixed a fixedLeft b fixedRight

theorem adopting_cut {n : Nat} (small : n < 2^30) (many : 2^20 < n) :
    (((adoptingPair n).instanceClass.row false).ro (adoptingRuntime n small)).map (ClassRo.shown (adoptingRuntime n small)) ≠
      some (adoptingPair n).instanceClass.ro.shown := by
  intro whole
  have cut := (adopting_laidOut small).ro_eq (List.mem_singleton.mpr rfl) (List.mem_cons_self : _ ∈ (adoptingPair n).rows)
  dsimp only at cut
  rw [whole] at cut
  have names := congrArg (fun row => row.protocols.length) (Option.some.inj cut)
  have adopted : (adoptingPair n).instanceClass.ro.protocolNames.length = n := by
    change ((List.replicate n adoptedProtocol).map _).length = n
    rw [List.length_map, List.length_replicate]
  dsimp only [RoData.shown] at names
  rw [List.length_take, adopted] at names
  omega

/-- A class that adopts one protocol more than `2^20` shows a shorter list than the one that was laid out. -/
theorem class_table_cut_short :
    LaidOut (adoptingRuntime (2^20 + 1) (by decide)) adoptingSlots [adoptingPair (2^20 + 1)] ∧
      (∀ a ∈ (adoptingPair (2^20 + 1)).objects, ∀ b ∈ (adoptingPair (2^20 + 1)).objects, a = b ∨ Disjoint a b) ∧
      (((adoptingPair (2^20 + 1)).instanceClass.row false).ro (adoptingRuntime (2^20 + 1) (by decide))).map
        (ClassRo.shown (adoptingRuntime (2^20 + 1) (by decide))) ≠ some (adoptingPair (2^20 + 1)).instanceClass.ro.shown :=
  ⟨adopting_laidOut _, fun _ left _ right => adoptingPair_disjoint left right, adopting_cut _ (by decide)⟩

end DarwinScope.Objc
