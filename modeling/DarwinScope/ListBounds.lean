import Mathlib.Algebra.Order.BigOperators.Group.List
import Mathlib.Algebra.Order.Ring.Nat
import DarwinScope.Machine.Counting
import DarwinScope.Objc.Enumeration
import DarwinScope.Swift.Fields
import DarwinScope.Util

namespace DarwinScope

open Machine

/-- The bytes of the file that a segment has behind its start. -/
def Image.room (image : Image) (seg : SegmentRange) : Nat := min seg.filesize.toNat (image.data.length - seg.fileoff.toNat)

/-- How many entries of `stride` bytes start in the parts of the file that the segments map, each segment
    counted by itself. -/
def Image.cellCount (image : Image) (stride : Nat) : Nat := (image.segments.map fun seg => cells (image.room seg) stride).sum

def Image.Stands (image : Image) (va : U64) : Prop :=
  ∃ off, image.vmToFileOffset va = some off ∧ off.toNat < image.data.length

def entryAddress (base stride : U64) (i : Nat) : Option U64 := (checkedMul (BitVec.ofNat 64 i) stride).bind (checkedAdd base)

section

variable {image : Image} {base stride va later : U64} {i j : Nat}

theorem entryAddress_toNat (small : i < 2^64) (found : entryAddress base stride i = some va) :
    va.toNat = base.toNat + i * stride.toNat := by
  rcases Option.bind_eq_some_iff.mp found with ⟨off, product, sum⟩
  rw [(checkedAdd_some sum).2, (checkedMul_some product).2, toNat_ofNat_of_lt small]

theorem entryAddress_apart (before : i < j) (small : j < 2^64) (first : entryAddress base stride i = some va)
    (second : entryAddress base stride j = some later) : va.toNat + stride.toNat ≤ later.toNat := by
  rw [entryAddress_toNat (by omega) first, entryAddress_toNat small second, Nat.add_assoc, ← Nat.succ_mul]
  exact Nat.add_le_add_left (Nat.mul_le_mul_right _ before) _

theorem cells_le {size limit stride : Nat} (below : size ≤ limit) : cells size stride ≤ cells limit stride :=
  Nat.div_le_div_right (by omega)

theorem cellCount_le_file (image : Image) (stride : Nat) :
    image.cellCount stride ≤ image.segments.length * cells image.data.length stride := by
  have each : ∀ n ∈ image.segments.map fun seg => cells (image.room seg) stride, n ≤ cells image.data.length stride := by
    intro n member
    rcases List.mem_map.mp member with ⟨seg, -, rfl⟩
    exact cells_le ((Nat.min_le_right _ _).trans (Nat.sub_le _ _))
  have sum := List.sum_le_card_nsmul _ _ each
  rwa [List.length_map, Nat.nsmul_eq_mul] at sum

theorem stands_of_bind {α : Type} {len : Nat} {entry : α} {next : Slice → Option α} (positive : 0 < len)
    (decoded : (image.readBytes va len).bind next = some entry) : image.Stands va := by
  rcases Option.bind_eq_some_iff.mp decoded with ⟨bytes, read, -⟩
  simp only [Image.readBytes, Option.bind_eq_bind, Option.bind_eq_some_iff] at read
  rcases read with ⟨off, found, stop, sum, part⟩
  obtain ⟨-, inside, -⟩ := Slice.get_some part
  rw [checkedAddUsize_some sum] at inside
  exact ⟨off, found, by omega⟩

theorem spaced_addresses_le {vas : List U64} {s : Nat} (positive : 0 < s) (spaced : Spaced s (vas.map BitVec.toNat))
    (placed : ∀ va ∈ vas, image.Stands va) : vas.length ≤ image.cellCount s := by
  have inside : ∀ n ∈ vas.map BitVec.toNat, ∃ w ∈ image.segments.map fun seg => (seg.vmaddr.toNat, image.room seg),
      w.1 ≤ n ∧ n < w.1 + w.2 := by
    intro n member
    rcases List.mem_map.mp member with ⟨va, listed, rfl⟩
    rcases placed va listed with ⟨off, found, stored⟩
    rcases places_of_vmToFileOffsetIn found with ⟨seg, known, ⟨low, -⟩, backed, place⟩
    refine ⟨_, List.mem_map_of_mem known, low, ?_⟩
    dsimp only [Image.room]
    omega
  have count := length_le_windows positive spaced inside
  rwa [List.length_map, List.map_map] at count

/-- A loop whose rows are read at addresses that stand apart has no more of them than the file has room for. -/
theorem rows_le {α : Type} {row : Nat → Row α} {count s : Nat} (positive : 0 < s) (wide : s ≤ stride.toNat)
    (few : count ≤ 2^64) (turn : ∀ i a, row i = .yield a → ∃ va, entryAddress base stride i = some va ∧ image.Stands va) :
    (rows row count).length ≤ image.cellCount s := by
  -- the address of a row stands for the row
  let addresses (i : Nat) : Row U64 := (row i).map fun _ => (entryAddress base stride i).getD 0
  have address {i : Nat} {va : U64} (found : addresses i = .yield va) :
      entryAddress base stride i = some va ∧ image.Stands va := by
    cases yielded : row i with
    | stop => simp [addresses, yielded, Row.map] at found
    | skip => simp [addresses, yielded, Row.map] at found
    | yield a =>
      rcases turn i a yielded with ⟨va', place, stands⟩
      simp only [addresses, yielded, Row.map, place, Option.getD_some, Row.yield.injEq] at found
      exact ⟨found ▸ place, found ▸ stands⟩
  have same : (rows row count).length = (rows addresses count).length := by
    apply rows_length_congr
    intro i
    simp only [addresses]
    cases row i <;> rfl
  rw [same]
  apply spaced_addresses_le positive
  · rw [Spaced, List.pairwise_map]
    apply rows_pairwise
    intro i j va later before bound first second
    have apart := entryAddress_apart before (by omega) (address first).1 (address second).1
    omega
  · intro va member
    rcases mem_rows member with ⟨i, -, found⟩
    exact (address found).2

end

namespace Objc

section

variable {rt : ObjcRuntime}

theorem listRows_le {α : Type} {decode : U64 → Option α} {layout : ListLayout} {s : Nat} (positive : 0 < s)
    (wide : s ≤ layout.entsize.toNat)
    (read : ∀ va entry, decode va = some entry → rt.Stands va) :
    (listRows decode layout).length ≤ rt.cellCount s := by
  have entsize : (layout.entsize.setWidth 64).toNat = layout.entsize.toNat := BitVec.toNat_setWidth_of_le (by decide)
  have few := layout.count.isLt
  apply @rows_le rt.toImage layout.baseVa (layout.entsize.setWidth 64) _ _ _ _ positive (wide.trans_eq entsize.symm)
    (by omega)
  intro i entry turn
  unfold entryRow at turn
  split at turn
  · cases turn
  · rename_i va place
    split at turn
    · rename_i found decoded
      cases turn
      exact ⟨va, place, read va entry decoded⟩
    · cases turn

theorem decodeMethod_stands {kind : MethodKind} {va : U64} {method : Method}
    (decoded : decodeMethod rt kind va = some method) :
    rt.Stands va := by
  cases kind with
  | legacy => exact stands_of_bind (by decide) decoded
  | smallIndirect => exact stands_of_bind (by decide) decoded
  | smallDirect => exact stands_of_bind (by decide) decoded

theorem plainListLayout_wide {listVa : U64} {least : Nat} {layout : ListLayout}
    (found : plainListLayout rt listVa least = some layout) : least ≤ layout.entsize.toNat := by
  rcases Option.bind_eq_some_iff.mp found with ⟨header, -, found⟩
  unfold plainLayout at found
  split at found
  · cases found
  · rename_i wide
    rcases Option.map_eq_some_iff.mp found with ⟨base, -, rfl⟩
    exact Nat.le_of_not_lt wide

theorem least_of_layout {listVa : U64} {entsize least count : U32} {chosen : MethodKind} {layout : ListLayout × MethodKind}
    (found : (if entsize < least then none
      else (checkedAdd listVa 8).map fun baseVa => ((⟨baseVa, entsize, count⟩ : ListLayout), chosen)) = some layout) :
    least.toNat ≤ layout.1.entsize.toNat := by
  split at found
  · cases found
  · rename_i wide
    rcases Option.map_eq_some_iff.mp found with ⟨base, -, rfl⟩
    exact Nat.le_of_not_lt wide

theorem methodListLayout_wide {listVa : U64} {layout : ListLayout} {kind : MethodKind}
    (found : methodListLayout rt listVa = some (layout, kind)) : 12 ≤ layout.entsize.toNat := by
  unfold methodListLayout at found
  split at found
  · cases found
  rcases Option.bind_eq_some_iff.mp found with ⟨header, -, found⟩
  unfold methodLayout at found
  dsimp only at found
  by_cases zero : header.1 &&& ~~~methodListFlagMask = 0
  · rw [if_pos zero] at found
    cases found
  rw [if_neg zero] at found
  generalize (if header.1 &&& smallMethodListFlag ≠ 0 then _ else MethodKind.legacy) = chosen at found
  cases chosen with
  | legacy => exact (least_of_layout found).trans' (by decide)
  | smallIndirect => exact least_of_layout found
  | smallDirect => exact least_of_layout found

theorem methods_le (rt : ObjcRuntime) (listVa : U64) : (methodListIter rt listVa).length ≤ rt.cellCount 12 := by
  unfold methodListIter
  cases found : methodListLayout rt listVa with
  | none => exact Nat.zero_le _
  | some layout =>
    rcases layout with ⟨layout, kind⟩
    exact listRows_le (by decide) (methodListLayout_wide found) fun va method decoded => decodeMethod_stands decoded

theorem ivars_le (rt : ObjcRuntime) (listVa : U64) : (ivarListIter rt listVa).length ≤ rt.cellCount ivarEntsize := by
  unfold ivarListIter
  split
  · exact Nat.zero_le _
  cases found : plainListLayout rt listVa ivarEntsize with
  | none => exact Nat.zero_le _
  | some layout =>
    exact listRows_le (by decide) (plainListLayout_wide found) fun va ivar decoded => stands_of_bind (by decide) decoded

theorem properties_le (rt : ObjcRuntime) (listVa : U64) :
    (propertyListIter rt listVa).length ≤ rt.cellCount propertyEntsize := by
  unfold propertyListIter
  split
  · exact Nat.zero_le _
  cases found : plainListLayout rt listVa propertyEntsize with
  | none => exact Nat.zero_le _
  | some layout =>
    exact listRows_le (by decide) (plainListLayout_wide found) fun va property decoded => stands_of_bind (by decide) decoded

theorem protocolNames_le (rt : ObjcRuntime) (listVa : U64) : (protocolNameIter rt listVa).length ≤ 2^20 := by
  unfold protocolNameIter
  split
  · exact Nat.zero_le _
  split
  · exact (rows_length_le _).trans (Nat.min_le_right _ _)
  · exact Nat.zero_le _

end

def ObjcRuntime.classSlots (rt : ObjcRuntime) : Nat :=
  (([rt.classList, rt.nlclslist].filterMap id).flatMap MappedSection.slots).length

def memberCount (rt : ObjcRuntime) (c : ObjcClass) : Nat :=
  match c.ro rt with
  | none => 0
  | some ro => (ro.methods rt).length + (ro.ivars rt).length + (ro.properties rt).length + (ro.protocols rt).length

def ObjcRuntime.memberLimit (rt : ObjcRuntime) : Nat :=
  rt.cellCount 12 + rt.cellCount ivarEntsize + rt.cellCount propertyEntsize + 2^20

section

variable (rt : ObjcRuntime)

theorem memberCount_le (c : ObjcClass) : memberCount rt c ≤ rt.memberLimit := by
  unfold memberCount ObjcRuntime.memberLimit
  cases c.ro rt with
  | none => exact Nat.zero_le _
  | some ro =>
    have methods := methods_le rt ro.baseMethodsVa
    have ivars := ivars_le rt ro.ivarsVa
    have properties := properties_le rt ro.basePropertiesVa
    have protocols := protocolNames_le rt ro.baseProtocolsVa
    exact Nat.add_le_add (Nat.add_le_add (Nat.add_le_add methods ivars) properties) protocols

theorem pointerTargets_length_le (sections : List (Option MappedSection)) :
    (rt.pointerTargets sections).length ≤ ((sections.filterMap id).flatMap MappedSection.slots).length := by
  have kept : (rt.pointerTargets sections).Subperm (rt.slotTargets sections) := by
    rw [pointerTargets_eq_eraseDups]
    apply List.subperm_of_subset (nodup_eraseDups _)
    intro va member
    exact (List.mem_filter.mp (List.mem_eraseDups.mp member)).1
  exact kept.length_le.trans (List.length_filterMap_le _ _)

theorem classRows_length_le (va : U64) : (classRows rt va).length ≤ 2 := by
  unfold classRows
  split
  · exact Nat.zero_le _
  · rw [List.length_cons]
    exact Nat.succ_le_succ Option.length_toList_le

theorem classes_length_le : rt.classes.length ≤ 2 * rt.classSlots := by
  have each : ∀ n ∈ (rt.pointerTargets [rt.classList, rt.nlclslist]).map fun va => (classRows rt va).length, n ≤ 2 := by
    intro n member
    rcases List.mem_map.mp member with ⟨va, -, rfl⟩
    exact classRows_length_le rt va
  have sum := List.sum_le_card_nsmul _ 2 each
  rw [List.length_map, Nat.nsmul_eq_mul] at sum
  have slots := pointerTargets_length_le rt [rt.classList, rt.nlclslist]
  rw [ObjcRuntime.classes, List.length_flatMap]
  exact sum.trans ((Nat.mul_le_mul_right 2 slots).trans_eq (Nat.mul_comm _ 2))

end

/-- Whatever counts an image stores, a list has no more rows than entries start in the parts of the file that the segments
    map, and a walk over all lists of all classes no more than that for each pointer of the class sections and its
    metaclass. -/
theorem class_walk_bounded (rt : ObjcRuntime) :
    (∀ s, rt.cellCount s ≤ rt.segments.length * cells rt.data.length s) ∧
    (∀ listVa, (methodListIter rt listVa).length ≤ rt.cellCount 12 ∧
      (ivarListIter rt listVa).length ≤ rt.cellCount ivarEntsize ∧
      (propertyListIter rt listVa).length ≤ rt.cellCount propertyEntsize ∧ (protocolNameIter rt listVa).length ≤ 2^20) ∧
    rt.classes.length ≤ 2 * rt.classSlots ∧ (rt.classes.map (memberCount rt)).sum ≤ 2 * rt.classSlots * rt.memberLimit := by
  refine ⟨cellCount_le_file rt.toImage, ?_, classes_length_le rt, ?_⟩
  · intro listVa
    exact ⟨methods_le rt listVa, ivars_le rt listVa, properties_le rt listVa, protocolNames_le rt listVa⟩
  · have each : ∀ n ∈ rt.classes.map (memberCount rt), n ≤ rt.memberLimit := by
      intro n member
      rcases List.mem_map.mp member with ⟨c, -, rfl⟩
      exact memberCount_le rt c
    have sum := List.sum_le_card_nsmul _ _ each
    rw [List.length_map, Nat.nsmul_eq_mul] at sum
    exact sum.trans (Nat.mul_le_mul_right _ (classes_length_le rt))

end Objc

namespace Swift

section

variable {image : Image}

theorem tableEntries_le {α : Type} {decode : U64 → Option α} {stride baseVa : U64} {count : U32} {s : Nat} (positive : 0 < s)
    (wide : s ≤ stride.toNat) (read : ∀ va entry, decode va = some entry → image.Stands va) :
    (tableEntries decode stride baseVa count).length ≤ image.cellCount s := by
  have few := count.isLt
  apply @rows_le image baseVa stride _ _ _ _ positive wide (by omega)
  intro i entry turn
  split at turn
  · cases turn
  · rename_i found decoded
    cases turn
    rcases Option.bind_eq_some_iff.mp decoded with ⟨va, place, decoded⟩
    exact ⟨va, place, read va entry decoded⟩

end

/-- The tables of a Swift class and the records of a field descriptor have no more rows than entries start in the parts of
    the file that the segments map, unless the records are of size zero: then only their count bounds them. -/
theorem tables_bounded (rt : SwiftRuntime) :
    (∀ s, rt.cellCount s ≤ rt.segments.length * cells rt.data.length s) ∧
    (∀ body : ClassBody,
      (∀ entries, body.vtable rt.toImage = some entries → entries.length ≤ rt.cellCount 8) ∧
      (∀ entries, body.overrideTable rt.toImage = some entries → entries.length ≤ rt.cellCount 12) ∧
      (∀ entries, body.defaultOverrideTable rt.toImage = some entries → entries.length ≤ rt.cellCount 8) ∧
      ∀ entries, body.prespecializations rt.toImage = some entries → entries.length ≤ rt.cellCount 4) ∧
    ∀ descriptor : FieldDescriptor, (descriptor.records rt).length ≤ descriptor.numFields.toNat ∧
      (descriptor.fieldRecordSize ≠ 0 → (descriptor.records rt).length ≤ rt.cellCount descriptor.fieldRecordSize.toNat) := by
  refine ⟨cellCount_le_file rt.toImage, fun body => ⟨?_, ?_, ?_, ?_⟩, fun descriptor => ⟨?_, ?_⟩⟩
  · intro entries found
    rcases Option.map_eq_some_iff.mp found with ⟨header, -, rfl⟩
    exact tableEntries_le (by decide) (by decide) fun va entry decoded => stands_of_bind (by decide) decoded
  · intro entries found
    rcases Option.map_eq_some_iff.mp found with ⟨header, -, rfl⟩
    exact tableEntries_le (by decide) (by decide) fun va entry decoded => stands_of_bind (by decide) decoded
  · intro entries found
    rcases Option.map_eq_some_iff.mp found with ⟨header, -, rfl⟩
    exact tableEntries_le (by decide) (by decide) fun va entry decoded => stands_of_bind (by decide) decoded
  · intro entries found
    simp only [ClassBody.prespecializations, Option.bind_eq_bind, Option.bind_eq_some_iff] at found
    rcases found with ⟨count, -, baseVa, -, same⟩
    cases same
    exact tableEntries_le (by decide) (by decide) fun va entry decoded => stands_of_bind (by decide) decoded
  · exact rows_length_le _
  · intro nonzero
    have size : (descriptor.fieldRecordSize.setWidth 64).toNat = descriptor.fieldRecordSize.toNat :=
      BitVec.toNat_setWidth_of_le (by decide)
    have positive : 0 < descriptor.fieldRecordSize.toNat := by
      rw [Nat.pos_iff_ne_zero]
      intro zero
      exact nonzero (BitVec.eq_of_toNat_eq zero)
    exact tableEntries_le positive size.ge fun va entry decoded => stands_of_bind (by decide) decoded

end Swift

end DarwinScope
