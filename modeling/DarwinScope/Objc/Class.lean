import DarwinScope.Machine.Iteration
import DarwinScope.Objc.Protocol

namespace DarwinScope.Objc

open Machine

abbrev classTSize : Nat := 40
abbrev classRoTSize : Nat := 72
abbrev fastDataMask64 : U64 := 0x0000007ffffffff8
abbrev fastDataMaskArm64e : U64 := 0x0f007ffffffffff8
abbrev fastFlagsMask : U64 := 0x7

structure ObjcClass where
  address : U64
  isa : U64
  superclass : U64
  bits : U64
  isMeta : Bool
deriving DecidableEq

structure ClassRo where
  address : U64
  flags : U32
  instanceStart : U32
  instanceSize : U32
  name : Str
  baseMethodsVa : U64
  baseProtocolsVa : U64
  ivarsVa : U64
  basePropertiesVa : U64
  weakIvarLayoutVa : U64
  ivarLayoutVa : U64
deriving DecidableEq

namespace ObjcClass

variable (c : ObjcClass)

def fastFlags : U64 := c.bits &&& fastFlagsMask

def isSwift : Bool := decide (c.fastFlags &&& (0x1 ||| 0x2) ≠ 0)

def hasDefaultRr : Bool := decide (c.fastFlags &&& 0x4 ≠ 0)

end ObjcClass

def RoFlags.contains (flags flag : U32) : Bool := decide (flags &&& flag = flag)

theorem RoFlags.contains_bit (flags : U32) {n : Nat} (inside : n < 32) : contains flags (1#32 <<< n) = hasBit flags n := by
  rw [contains, hasBit, decide_eq_decide, and_bit_eq_iff _ _ n (oneBit_toNat inside)]

namespace ClassRo

variable (ro : ClassRo)

def isMeta : Bool := RoFlags.contains ro.flags (1 <<< 0)

def isRoot : Bool := RoFlags.contains ro.flags (1 <<< 1)

def hasCxxStructors : Bool := RoFlags.contains ro.flags (1 <<< 2)

def isException : Bool := RoFlags.contains ro.flags (1 <<< 5)

def hasSwiftInitializer : Bool := RoFlags.contains ro.flags (1 <<< 6)

def isArc : Bool := RoFlags.contains ro.flags (1 <<< 7)

end ClassRo

def ClassRo.methods (rt : ObjcRuntime) (ro : ClassRo) : List Method := methodListIter rt ro.baseMethodsVa

def ClassRo.ivars (rt : ObjcRuntime) (ro : ClassRo) : List Ivar := ivarListIter rt ro.ivarsVa

def ClassRo.properties (rt : ObjcRuntime) (ro : ClassRo) : List Property := propertyListIter rt ro.basePropertiesVa

def ClassRo.protocols (rt : ObjcRuntime) (ro : ClassRo) : List Str := protocolNameIter rt ro.baseProtocolsVa

/-- The wide mask is tried first. The standard mask is the fallback, whether or not its result is
    mapped. -/
def maskClassRoPointer (rt : ObjcRuntime) (bits : U64) : Option U64 :=
  let candidateWide := bits &&& fastDataMaskArm64e
  let candidateStd := bits &&& fastDataMask64
  if candidateWide ≠ 0 ∧ (rt.vmToFileOffset candidateWide).isSome then some candidateWide
  else if candidateStd ≠ 0 ∧ (rt.vmToFileOffset candidateStd).isSome then some candidateStd
  else if candidateStd ≠ 0 then some candidateStd
  else none

def decodeClassRo (rt : ObjcRuntime) (roVa : U64) : Option ClassRo := do
  let bytes ← rt.readBytes roVa classRoTSize
  let flags ← readU32LeAt bytes 0
  let instanceStart ← readU32LeAt bytes 4
  let instanceSize ← readU32LeAt bytes 8
  let ivarLayoutVa ← rt.pointerField roVa 16
  let nameVa ← rt.requiredField roVa 24
  let baseMethodsVa ← rt.pointerField roVa 32
  let baseProtocolsVa ← rt.pointerField roVa 40
  let ivarsVa ← rt.pointerField roVa 48
  let weakIvarLayoutVa ← rt.pointerField roVa 56
  let basePropertiesVa ← rt.pointerField roVa 64
  let name ← rt.readCstr nameVa
  some {
    address := roVa
    flags := flags
    instanceStart := instanceStart
    instanceSize := instanceSize
    name := name
    baseMethodsVa := baseMethodsVa
    baseProtocolsVa := baseProtocolsVa
    ivarsVa := ivarsVa
    basePropertiesVa := basePropertiesVa
    weakIvarLayoutVa := weakIvarLayoutVa
    ivarLayoutVa := ivarLayoutVa
  }

def stitchBits (rt : ObjcRuntime) (bitsSlotVa rawBits : U64) : U64 :=
  let fastFlags := rawBits &&& fastFlagsMask
  let classRoVa :=
    match rt.rebasesByVa bitsSlotVa with
    | some target => target
    | none => (maskClassRoPointer rt rawBits).getD 0
  (classRoVa &&& ~~~fastFlagsMask) ||| fastFlags

def decodeClass (rt : ObjcRuntime) (classVa : U64) (isMeta : Bool) : Option ObjcClass := do
  let _ ← rt.readBytes classVa classTSize
  let superSlotVa ← checkedAdd classVa 8
  let bitsSlotVa ← checkedAdd classVa 32
  let isa := (rt.resolvePointer classVa).getD 0
  let superclass := (rt.resolvePointer superSlotVa).getD 0
  let rawBits ← rt.readU64 bitsSlotVa
  some {
    address := classVa
    isa := isa
    superclass := superclass
    bits := stitchBits rt bitsSlotVa rawBits
    isMeta := isMeta
  }

theorem decodeClass_eq_some {rt : ObjcRuntime} {va : U64} {isMeta : Bool} {c : ObjcClass} :
    decodeClass rt va isMeta = some c ↔
      ∃ superSlot bitsSlot raw, (rt.readBytes va classTSize).isSome ∧ checkedAdd va 8 = some superSlot ∧
        checkedAdd va 32 = some bitsSlot ∧ rt.readU64 bitsSlot = some raw ∧
        c = ⟨va, (rt.resolvePointer va).getD 0, (rt.resolvePointer superSlot).getD 0, stitchBits rt bitsSlot raw,
          isMeta⟩ := by
  simp only [decodeClass, Option.bind_eq_bind, Option.bind_eq_some_iff, Option.some.injEq]
  constructor
  · intro decoded
    rcases decoded with ⟨bytes, read, superSlot, superSum, bitsSlot, sum, raw, word, same⟩
    exact ⟨superSlot, bitsSlot, raw, by rw [read]; rfl, superSum, sum, word, same.symm⟩
  · intro fields
    rcases fields with ⟨superSlot, bitsSlot, raw, inside, superSum, sum, word, same⟩
    rcases Option.isSome_iff_exists.mp inside with ⟨bytes, read⟩
    exact ⟨bytes, read, superSlot, superSum, bitsSlot, sum, raw, word, same.symm⟩

theorem decodeClass_fields {rt : ObjcRuntime} {va : U64} {isMeta : Bool} {c : ObjcClass}
    (decoded : decodeClass rt va isMeta = some c) : c.address = va ∧ c.isMeta = isMeta := by
  rcases decodeClass_eq_some.mp decoded with ⟨_, _, _, -, -, -, -, same⟩
  rw [same]
  exact ⟨rfl, rfl⟩

/-- The flags of a class come from the stored word, also where its pointer comes from a rebase. -/
theorem fastFlags_of_decoded {rt : ObjcRuntime} {va slot raw : U64} {isMeta : Bool} {c : ObjcClass}
    (decoded : decodeClass rt va isMeta = some c) (sum : checkedAdd va 32 = some slot)
    (stored : rt.readU64 slot = some raw) : c.fastFlags = raw &&& fastFlagsMask := by
  rcases decodeClass_eq_some.mp decoded with ⟨superSlot, slot', raw', -, -, sum', stored', rfl⟩
  cases Option.some.inj (sum.symm.trans sum')
  cases Option.some.inj (stored.symm.trans stored')
  have disjoint : ~~~fastFlagsMask &&& fastFlagsMask = 0#64 := by decide
  rw [ObjcClass.fastFlags, stitchBits, BitVec.and_comm, BitVec.and_or_distrib_left, BitVec.and_comm,
    BitVec.and_assoc, disjoint, BitVec.and_zero, BitVec.zero_or, BitVec.and_comm, BitVec.and_assoc, BitVec.and_self]

theorem isSwift_of_decoded {rt : ObjcRuntime} {va slot raw : U64} {isMeta : Bool} {c : ObjcClass}
    (decoded : decodeClass rt va isMeta = some c) (sum : checkedAdd va 32 = some slot)
    (stored : rt.readU64 slot = some raw) :
    c.isSwift = (hasBit raw 0 || hasBit raw 1) ∧ c.hasDefaultRr = hasBit raw 2 := by
  have flags := fastFlags_of_decoded decoded sum stored
  constructor
  · rw [hasBit, hasBit, ← and_or_ne_zero, ObjcClass.isSwift, flags, BitVec.and_assoc]
    rfl
  · rw [hasBit, ObjcClass.hasDefaultRr, flags, BitVec.and_assoc]
    rfl

theorem roFlags_of_decoded {rt : ObjcRuntime} {roVa : U64} {ro : ClassRo} {bytes : Slice} {raw : U32}
    (decoded : decodeClassRo rt roVa = some ro) (inside : rt.readBytes roVa classRoTSize = some bytes)
    (stored : readU32LeAt bytes 0 = some raw) :
    [ro.isMeta, ro.isRoot, ro.hasCxxStructors, ro.isException, ro.hasSwiftInitializer, ro.isArc] =
      [0, 1, 2, 5, 6, 7].map (hasBit raw) := by
  have same : ro.flags = raw := by
    unfold decodeClassRo at decoded
    rw [inside, Option.bind_eq_bind, Option.bind_some, stored, Option.bind_eq_bind, Option.bind_some] at decoded
    iterate 10 rcases Option.bind_eq_some_iff.mp decoded with ⟨_, -, decoded⟩
    rw [← Option.some.inj decoded]
  have flag : ∀ n < 32, RoFlags.contains ro.flags (1#32 <<< n) = hasBit raw n := by
    intro n small
    rw [same, RoFlags.contains_bit raw small]
  simp only [List.map_cons, List.map_nil, ← flag 0 (by decide), ← flag 1 (by decide), ← flag 2 (by decide),
    ← flag 5 (by decide), ← flag 6 (by decide), ← flag 7 (by decide)]
  rfl

def ObjcClass.ro (rt : ObjcRuntime) (c : ObjcClass) : Option ClassRo := do
  let roVa ← maskClassRoPointer rt c.bits
  decodeClassRo rt roVa

def decodeClassName (rt : ObjcRuntime) (classVa : U64) : Option Str := do
  let _ ← rt.readBytes classVa classTSize
  let bitsSlotVa ← checkedAdd classVa 32
  let classRoVa ←
    match rt.rebasesByVa bitsSlotVa with
    | some target => some target
    | none => (rt.readU64 bitsSlotVa).bind (maskClassRoPointer rt)
  let nameVa ← rt.requiredField classRoVa 24
  rt.readCstr nameVa

def ObjcClass.superclassName (rt : ObjcRuntime) (c : ObjcClass) : Option Str :=
  match if c.superclass ≠ 0 then decodeClassName rt c.superclass else none with
  | some name => some name
  | none => do
    let superSlotVa ← checkedAdd c.address 8
    let bound ← rt.bindsByVa superSlotVa
    some (stripObjcSymbolPrefix bound.1)

/-- The class addresses that are still to come, and the metaclass that comes before them. -/
structure ClassIter where
  classAddrs : List U64
  pendingMeta : Option U64
deriving DecidableEq

def ClassIter.new (rt : ObjcRuntime) : ClassIter := ⟨rt.pointerTargets [rt.classList, rt.nlclslist], none⟩

def queuedMeta (va : U64) (c : ObjcClass) : Option U64 := if c.isa ≠ 0 ∧ c.isa ≠ va then some c.isa else none

def nextInstance (rt : ObjcRuntime) : List U64 → Option (ObjcClass × ClassIter)
  | [] => none
  | va :: rest =>
    match decodeClass rt va false with
    | none => nextInstance rt rest
    | some c => some (c, ⟨rest, queuedMeta va c⟩)

def ClassIter.next (rt : ObjcRuntime) (it : ClassIter) : Option (ObjcClass × ClassIter) :=
  match it.pendingMeta.bind fun metaVa => decodeClass rt metaVa true with
  | some c => some (c, ⟨it.classAddrs, none⟩)
  | none => nextInstance rt it.classAddrs

def classRows (rt : ObjcRuntime) (va : U64) : List ObjcClass :=
  match decodeClass rt va false with
  | none => []
  | some c => c :: ((queuedMeta va c).bind fun metaVa => decodeClass rt metaVa true).toList

def ObjcRuntime.classes (rt : ObjcRuntime) : List ObjcClass :=
  (rt.pointerTargets [rt.classList, rt.nlclslist]).flatMap (classRows rt)

theorem mem_classes {rt : ObjcRuntime} {c : ObjcClass} (member : c ∈ rt.classes) :
    decodeClass rt c.address c.isMeta = some c := by
  rcases List.mem_flatMap.mp member with ⟨va, -, row⟩
  unfold classRows at row
  have self : ∀ {va isMeta d}, decodeClass rt va isMeta = some d → decodeClass rt d.address d.isMeta = some d := by
    intro va isMeta d decoded
    have fields := decodeClass_fields decoded
    rwa [fields.1, fields.2]
  cases decoded : decodeClass rt va false with
  | none =>
    rw [decoded] at row
    cases row
  | some d =>
    rw [decoded] at row
    rcases List.mem_cons.mp row with same | queued
    · rw [same]
      exact self decoded
    · rcases Option.bind_eq_some_iff.mp (Option.mem_toList.mp queued) with ⟨metaVa, -, decodedMeta⟩
      exact self decodedMeta

theorem collect_pending {rt : ObjcRuntime} {addrs : List U64} {rows : List ObjcClass} {fuel : Nat}
    (rest : collect (ClassIter.next rt) fuel ⟨addrs, none⟩ = some rows) (pending : Option U64) :
    ∃ more, collect (ClassIter.next rt) more ⟨addrs, pending⟩ =
      some ((pending.bind fun metaVa => decodeClass rt metaVa true).toList ++ rows) := by
  cases found : pending.bind fun metaVa => decodeClass rt metaVa true with
  | some c =>
    have step : ClassIter.next rt ⟨addrs, pending⟩ = some (c, ⟨addrs, none⟩) := by
      rw [ClassIter.next, found]
    refine ⟨fuel + 1, ?_⟩
    rw [collect_step step, rest]
    rfl
  | none =>
    have same : ClassIter.next rt ⟨addrs, pending⟩ = ClassIter.next rt ⟨addrs, none⟩ := by
      rw [ClassIter.next, ClassIter.next, found]
      rfl
    exact ⟨fuel, by rw [collect_congr same, rest]; rfl⟩

theorem collect_classes (rt : ObjcRuntime) :
    ∃ fuel, collect (ClassIter.next rt) fuel (ClassIter.new rt) = some rt.classes := by
  unfold ClassIter.new ObjcRuntime.classes
  induction rt.pointerTargets [rt.classList, rt.nlclslist] with
  | nil => exact ⟨1, rfl⟩
  | cons va addrs ih =>
    rcases ih with ⟨fuel, rest⟩
    cases found : decodeClass rt va false with
    | none =>
      have same : ClassIter.next rt ⟨va :: addrs, none⟩ = ClassIter.next rt ⟨addrs, none⟩ := by
        simp only [ClassIter.next, Option.bind_none, nextInstance, found]
      refine ⟨fuel, ?_⟩
      rw [collect_congr same, rest, List.flatMap_cons, classRows, found, List.nil_append]
    | some c =>
      have step : ClassIter.next rt ⟨va :: addrs, none⟩ = some (c, ⟨addrs, queuedMeta va c⟩) := by
        simp only [ClassIter.next, Option.bind_none, nextInstance, found]
      rcases collect_pending rest (queuedMeta va c) with ⟨more, queued⟩
      refine ⟨more + 1, ?_⟩
      rw [collect_step step, queued, List.flatMap_cons, classRows, found]
      rfl

end DarwinScope.Objc
