import DarwinScope.Machine.Iteration
import DarwinScope.Swift.Context
import DarwinScope.Swift.Runtime

namespace DarwinScope.Swift

open Machine

structure ParentContext where
  address : U64
  flags : ContextDescriptorFlags
  name : Option Str
deriving DecidableEq

def readContextName (rt : Image) (descriptorVa : U64) (flags : ContextDescriptorFlags) : Option Str :=
  match flags.kind with
  | .anonymous | .opaqueType | .other _ => none
  -- modules, extensions, protocols and the three kinds of nominal types
  | _ => do
    let slotVa ← checkedAdd descriptorVa 8
    let bytes ← rt.readBytes slotVa 4
    let rel ← readI32LeAt bytes 0
    if rel = 0 then none else rt.readCstr (relativePointer slotVa rel)

def resolveParent (slotVa : U64) (parentRel : U32) : U64 :=
  if parentRel = 0 then 0 else relativePointer slotVa parentRel

/-- One turn of the chain. Its state is the address of the next descriptor, zero at the end. -/
def ParentChain.next (rt : Image) (nextDescriptorVa : U64) : Option (ParentContext × U64) :=
  if nextDescriptorVa = 0 then none
  else do
    let header ← rt.readBytes nextDescriptorVa 8
    let flagsRaw ← readU32LeAt header 0
    let parentRel ← readI32LeAt header 4
    let flags : ContextDescriptorFlags := ⟨flagsRaw⟩
    let name := readContextName rt nextDescriptorVa flags
    let parentSlotVa ← checkedAdd nextDescriptorVa 4
    some (⟨nextDescriptorVa, flags, name⟩, resolveParent parentSlotVa parentRel)

def qualify (contexts : List ParentContext) (name : Str) : Bytes :=
  ((contexts.filterMap ParentContext.name).reverse.flatMap fun hop => hop.text ++ lit ".") ++ name.text

structure TypeDescriptor where
  address : U64
  flags : ContextDescriptorFlags
  parentVa : U64
  name : Str
deriving DecidableEq

def TypeDescriptor.qualifiedName (rt : Image) (descriptor : TypeDescriptor) (fuel : Nat) : Option Bytes :=
  (collect (ParentChain.next rt) fuel descriptor.parentVa).map fun contexts => qualify contexts descriptor.name

structure SwiftProtocol where
  address : U64
  flags : ContextDescriptorFlags
  parentVa : U64
  name : Str
  numRequirementsInSignature : U32
  numRequirements : U32
  associatedTypeNames : Option Str
deriving DecidableEq

def decodeProtocol (rt : Image) (descriptorVa : U64) : Option SwiftProtocol := do
  let header ← rt.readBytes descriptorVa 24
  let flagsRaw ← readU32LeAt header 0
  let parentRel ← readI32LeAt header 4
  let nameRel ← readI32LeAt header 8
  let numRequirementsInSignature ← readU32LeAt header 12
  let numRequirements ← readU32LeAt header 16
  let associatedRel ← readI32LeAt header 20
  let parentSlotVa ← checkedAdd descriptorVa 4
  let nameSlotVa ← checkedAdd descriptorVa 8
  let name ← rt.readCstr (relativePointer nameSlotVa nameRel)
  let associatedTypeNames ←
    if associatedRel = 0 then some none
    else (checkedAdd descriptorVa 20).map fun assocSlot => rt.readCstr (relativePointer assocSlot associatedRel)
  some {
    address := descriptorVa
    flags := ⟨flagsRaw⟩
    parentVa := resolveParent parentSlotVa parentRel
    name := name
    numRequirementsInSignature := numRequirementsInSignature
    numRequirements := numRequirements
    associatedTypeNames := associatedTypeNames
  }

def SwiftProtocol.qualifiedName (rt : Image) (p : SwiftProtocol) (fuel : Nat) : Option Bytes :=
  (collect (ParentChain.next rt) fuel p.parentVa).map fun contexts => qualify contexts p.name

/-- The header at `va` is mapped and its parent pointer leads to `parent`. -/
def ParentLink (rt : Image) (va parent : U64) : Prop :=
  va ≠ 0 ∧ va.toNat + 4 < 2^64 ∧ ∃ header rel,
    rt.readBytes va 8 = some header ∧ readI32LeAt header 4 = some rel ∧ parent = resolveParent (va + 4) rel

theorem readBytes_length {rt : Image} {va : U64} {len : Nat} {bytes : Slice}
    (read : rt.readBytes va len = some bytes) : bytes.length = len := by
  simp only [Image.readBytes, Option.bind_eq_bind, Option.bind_eq_some_iff] at read
  rcases read with ⟨off, -, stop, sum, found⟩
  rw [Slice.get_length found, checkedAddUsize_some sum, Nat.add_sub_cancel_left]

theorem goes_parentLink (rt : Image) : Goes (ParentChain.next rt) = ParentLink rt := by
  funext va parent
  apply propext
  constructor
  · intro given
    rcases given with ⟨context, step⟩
    unfold ParentChain.next at step
    by_cases null : va = 0
    · rw [if_pos null] at step
      cases step
    rw [if_neg null] at step
    simp only [Option.bind_eq_bind, Option.bind_eq_some_iff, Option.some.injEq, Prod.mk.injEq] at step
    rcases step with ⟨header, read, flagsRaw, -, rel, field, slot, sum, -, same⟩
    rcases checkedAdd_some sum with ⟨value, exact⟩
    have bound := slot.isLt
    have four : (4 : U64).toNat = 4 := rfl
    refine ⟨null, by omega, header, rel, read, field, ?_⟩
    rw [← same, value]
  · intro given
    rcases given with ⟨some?, fits, header, rel, read, field, rfl⟩
    have flags : ∃ flagsRaw, readU32LeAt header 0 = some flagsRaw := by
      have length := readBytes_length read
      exact Option.isSome_iff_exists.mp (readAt_isSome.mpr (by omega))
    rcases flags with ⟨flagsRaw, word⟩
    have sum : checkedAdd va 4 = some (va + 4) := checkedAdd_of_lt fits
    refine ⟨⟨va, ⟨flagsRaw⟩, readContextName rt va ⟨flagsRaw⟩⟩, ?_⟩
    rw [ParentChain.next, if_neg some?]
    simp only [read, word, field, sum, Option.bind_eq_bind, Option.bind_some]

/-- The walk up the parents of a descriptor ends, and the qualified names built from it are
    returned, exactly when no descriptor that it comes through is among its own parents. -/
theorem parent_walk_returns (rt : SwiftRuntime) (start : U64) (descriptor : TypeDescriptor) (p : SwiftProtocol) :
    ((∃ fuel contexts, collect (ParentChain.next rt.toImage) fuel start = some contexts) ↔
      Acyclic (ParentLink rt.toImage) start) ∧
    (Returns (descriptor.qualifiedName rt.toImage) ↔ Acyclic (ParentLink rt.toImage) descriptor.parentVa) ∧
    (Returns (p.qualifiedName rt.toImage) ↔ Acyclic (ParentLink rt.toImage) p.parentVa) := by
  have finite : Finite U64 := Finite.of_injective BitVec.toFin BitVec.toFin_injective
  refine ⟨?_, ?_, ?_⟩
  · rw [ends_iff_acc, acc_iff_acyclic, goes_parentLink]
  · rw [← goes_parentLink]
    exact returns_iff_acyclic _
  · rw [← goes_parentLink]
    exact returns_iff_acyclic _

/-- A protocol descriptor whose parent pointer leads back to its own first byte. -/
def selfParentImage : Image where
  data := ⟨0, leBytes 4 3 ++ leBytes 4 (2^32 - 4) ++ leBytes 4 16 ++ leBytes 12 0 ++ lit "P" ++ leBytes 3 0, by decide⟩
  segments := [⟨0x1000, 0x1000, 0, 28⟩]

theorem self_parent_never_ends :
    ∃ p, decodeProtocol selfParentImage 0x1000 = some p ∧ p.name.text = lit "P" ∧
      (¬ ∃ fuel contexts, collect (ParentChain.next selfParentImage) fuel p.parentVa = some contexts) ∧
      ¬ Returns (p.qualifiedName selfParentImage) := by
  have step : Goes (ParentChain.next selfParentImage) 0x1000 0x1000 :=
    ⟨⟨0x1000, ⟨3⟩, some ⟨some 24, lit "P"⟩⟩, by decide +kernel⟩
  have endless : ¬ ∃ fuel contexts, collect (ParentChain.next selfParentImage) fuel 0x1000 = some contexts := by
    rw [ends_iff_acc]
    exact fun accessible => acc_irrefl accessible step
  refine ⟨⟨0x1000, ⟨3⟩, 0x1000, ⟨some 24, lit "P"⟩, 0, 0, none⟩, by decide +kernel, rfl, endless, ?_⟩
  intro returns
  exact endless ((returns_map_iff _).mp returns)

end DarwinScope.Swift
