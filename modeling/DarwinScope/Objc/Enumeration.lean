import DarwinScope.Machine.FirstOccurrence
import DarwinScope.Objc.Category

namespace DarwinScope.Objc

open Machine

def ObjcRuntime.slotTargets (rt : ObjcRuntime) (sections : List (Option MappedSection)) : List U64 :=
  ((sections.filterMap id).flatMap MappedSection.slots).filterMap rt.resolvePointer

def ObjcRuntime.decodableTargets {α : Type} (rt : ObjcRuntime) (decode : U64 → Option α)
    (sections : List (Option MappedSection)) : List U64 :=
  ((rt.slotTargets sections).filter fun va => decide (va ≠ 0) && (decode va).isSome).eraseDups

/-- The state of the category iterator is the addresses that are still to come. -/
def CategoryIter.next (rt : ObjcRuntime) : List U64 → Option (ObjcCategory × List U64) := nextSome (decodeCategory rt)

def CategoryIter.new (rt : ObjcRuntime) : List U64 := rt.pointerTargets [rt.catList, rt.nlcatList]

section

variable {rt : ObjcRuntime}

theorem nonzero_targets (rt : ObjcRuntime) (slots : List U64) :
    (slots.map fun slot => (rt.resolvePointer slot).getD 0).filter (· ≠ 0) =
      (slots.filterMap rt.resolvePointer).filter (· ≠ 0) := by
  induction slots with
  | nil => rfl
  | cons slot slots ih =>
    rw [List.map_cons, List.filterMap_cons]
    cases rt.resolvePointer slot with
    | none => exact ih
    | some va =>
      rw [Option.getD_some, List.filter_cons, List.filter_cons, ih]

theorem pointerTargets_eq_eraseDups (rt : ObjcRuntime) (sections : List (Option MappedSection)) :
    rt.pointerTargets sections = ((rt.slotTargets sections).filter (· ≠ 0)).eraseDups := by
  have known := foldl_append_new ((rt.slotTargets sections).filter (· ≠ 0)) []
  simp only [List.nil_append, List.not_mem_nil, not_false_eq_true, decide_true, List.filter_true] at known
  rw [← known, ObjcRuntime.slotTargets, ← nonzero_targets, List.foldl_filter, ObjcRuntime.pointerTargets]
  congr 1
  funext ordered va
  by_cases zero : va = 0
  · simp only [zero, true_or, if_true, ne_eq, not_true_eq_false, decide_false, Bool.false_eq_true, if_false]
  · simp only [zero, false_or, ne_eq, not_false_eq_true, decide_true, if_true]

theorem decodableTargets_eq {α : Type} (decode : U64 → Option α) (sections : List (Option MappedSection)) :
    rt.decodableTargets decode sections = (rt.pointerTargets sections).filter fun va => (decode va).isSome := by
  rw [pointerTargets_eq_eraseDups, ← eraseDups_filter, List.filter_filter, ObjcRuntime.decodableTargets]
  congr 2
  funext va
  rw [Bool.and_comm]

end

/-- Each metaclass row stands behind an instance row whose `isa` it is, and at another address. -/
def AfterInstance (rows : List ObjcClass) : Prop :=
  ∀ i m, rows[i]? = some m → m.isMeta = true → ∃ j c, i = j + 1 ∧ rows[j]? = some c ∧ c.isMeta = false ∧
    m.address = c.isa ∧ m.address ≠ c.address

/-- Rows in groups: an instance row alone, or one and the metaclass that its `isa` points to. -/
inductive Paired : List ObjcClass → Prop where
  | nil : Paired []
  | alone {c : ObjcClass} {rows : List ObjcClass} : c.isMeta = false → Paired rows → Paired (c :: rows)
  | pair {c m : ObjcClass} {rows : List ObjcClass} : c.isMeta = false → m.isMeta = true → m.address = c.isa →
      m.address ≠ c.address → Paired rows → Paired (c :: m :: rows)

section

variable {rt : ObjcRuntime} {rows : List ObjcClass}

theorem AfterInstance.cons {c : ObjcClass} (inst : c.isMeta = false) (later : AfterInstance rows) :
    AfterInstance (c :: rows) := by
  intro i m found isMeta
  cases i with
  | zero =>
    cases found
    rw [inst] at isMeta
    cases isMeta
  | succ i =>
    rcases later i m found isMeta with ⟨j, before, rfl, here⟩
    exact ⟨j + 1, before, rfl, here⟩

theorem Paired.afterInstance (paired : Paired rows) : AfterInstance rows := by
  induction paired with
  | nil => exact fun i m found => nomatch found
  | alone inst _ ih => exact ih.cons inst
  | @pair c m rows inst metaclass link apart _ ih =>
    intro i row found isMeta
    match i with
    | 0 =>
      cases found
      rw [inst] at isMeta
      cases isMeta
    | 1 =>
      cases found
      exact ⟨0, c, rfl, rfl, inst, link, apart⟩
    | i + 2 =>
      rcases ih i row found isMeta with ⟨j, before, rfl, here⟩
      exact ⟨j + 2, before, rfl, here⟩

theorem AfterInstance.single (pairs : AfterInstance rows) {i : Nat} {m second : ObjcClass} (next : rows[i + 1]? = some m)
    (isMeta : m.isMeta = true) (found : rows[i + 2]? = some second) : second.isMeta = false := by
  by_contra more
  rcases pairs (i + 2) second found (by simpa using more) with ⟨j, c, place, before, inst, -⟩
  have same : j = i + 1 := by omega
  rw [same, next] at before
  cases before
  rw [isMeta] at inst
  cases inst

/-- What one address yields: nothing, an instance row, or one with its metaclass. -/
theorem classRows_paired (va : U64) (paired : Paired rows) : Paired (classRows rt va ++ rows) := by
  unfold classRows
  cases decoded : decodeClass rt va false with
  | none => exact paired
  | some c =>
    have fields := decodeClass_fields decoded
    dsimp only
    cases queued : (queuedMeta va c).bind fun metaVa => decodeClass rt metaVa true with
    | none => exact .alone fields.2 paired
    | some m =>
      rcases Option.bind_eq_some_iff.mp queued with ⟨metaVa, listed, decodedMeta⟩
      have metaFields := decodeClass_fields decodedMeta
      unfold queuedMeta at listed
      split at listed
      · rename_i apart
        cases listed
        exact .pair fields.2 metaFields.2 metaFields.1 (by rw [metaFields.1, fields.1]; exact apart.2) paired
      · cases listed

theorem classes_paired (rt : ObjcRuntime) : Paired rt.classes := by
  unfold ObjcRuntime.classes
  induction rt.pointerTargets [rt.classList, rt.nlclslist] with
  | nil => exact .nil
  | cons va vas ih =>
    rw [List.flatMap_cons]
    exact classRows_paired va ih

theorem instances_classRows (rt : ObjcRuntime) (va : U64) :
    ((classRows rt va).filter fun c => !c.isMeta).map ObjcClass.address =
      if (decodeClass rt va false).isSome then [va] else [] := by
  unfold classRows
  cases decoded : decodeClass rt va false with
  | none => rfl
  | some c =>
    have fields := decodeClass_fields decoded
    have none : ((queuedMeta va c).bind fun metaVa => decodeClass rt metaVa true).toList.filter (fun c => !c.isMeta) =
        [] := by
      apply List.filter_eq_nil_iff.mpr
      intro m queued
      rcases Option.bind_eq_some_iff.mp (Option.mem_toList.mp queued) with ⟨metaVa, -, decodedMeta⟩
      simp [decodeClass_fields decodedMeta]
    dsimp only
    rw [List.filter_cons_of_pos (by simp [fields]), none, List.map_singleton, fields.1]
    rfl

theorem instances_classes (rt : ObjcRuntime) :
    (rt.classes.filter fun c => !c.isMeta).map ObjcClass.address =
      rt.decodableTargets (fun va => decodeClass rt va false) [rt.classList, rt.nlclslist] := by
  rw [decodableTargets_eq]
  unfold ObjcRuntime.classes
  induction rt.pointerTargets [rt.classList, rt.nlclslist] with
  | nil => rfl
  | cons va vas ih =>
    rw [List.flatMap_cons, List.filter_append, List.map_append, ih, instances_classRows, List.filter_cons]
    split <;> rfl

theorem decodeCategory_address {va : U64} {category : ObjcCategory} (decoded : decodeCategory rt va = some category) :
    category.address = va := by
  simp only [decodeCategory, Option.bind_eq_bind, Option.bind_eq_some_iff] at decoded
  rcases decoded with ⟨_, -, _, -, _, -, _, -, _, -, _, -, _, -, decoded⟩
  split at decoded <;> simp only [Option.bind_eq_some_iff] at decoded <;>
    rcases decoded with ⟨_, -, _, -, same⟩ <;> cases same <;>
    rfl

theorem categories_addresses (rt : ObjcRuntime) :
    rt.categories.map ObjcCategory.address = rt.decodableTargets (decodeCategory rt) [rt.catList, rt.nlcatList] := by
  rw [decodableTargets_eq, ObjcRuntime.categories]
  induction rt.pointerTargets [rt.catList, rt.nlcatList] with
  | nil => rfl
  | cons va vas ih =>
    rw [List.filterMap_cons, List.filter_cons]
    cases decoded : decodeCategory rt va with
    | none => exact ih
    | some category =>
      rw [List.map_cons, ih, decodeCategory_address decoded]
      rfl

end

structure Enumeration (rt : ObjcRuntime) (classes : List ObjcClass) (listed : List ObjcCategory) : Prop where
  instances : (classes.filter fun c => !c.isMeta).map ObjcClass.address =
    rt.decodableTargets (fun va => decodeClass rt va false) [rt.classList, rt.nlclslist]
  distinct : ((classes.filter fun c => !c.isMeta).map ObjcClass.address).Nodup
  metaclasses : AfterInstance classes
  single : ∀ i c m second, classes[i]? = some c → c.isMeta = false → classes[i + 1]? = some m → m.isMeta = true →
    classes[i + 2]? = some second → second.isMeta = false
  categories : listed.map ObjcCategory.address = rt.decodableTargets (decodeCategory rt) [rt.catList, rt.nlcatList]
  once : (listed.map ObjcCategory.address).Nodup

/-- Both iterators end, and what they have handed out then is free of duplicates and paired. -/
theorem enumeration_paired (rt : ObjcRuntime) :
    ∃ classes categories bound, Enumeration rt classes categories ∧ ∀ fuel, bound ≤ fuel →
      collect (ClassIter.next rt) fuel (ClassIter.new rt) = some classes ∧
        collect (CategoryIter.next rt) fuel (CategoryIter.new rt) = some categories := by
  rcases collect_classes rt with ⟨enough, done⟩
  have pairs := (classes_paired rt).afterInstance
  refine ⟨rt.classes, rt.categories, max enough ((CategoryIter.new rt).length + 1), ?_, ?_⟩
  · refine ⟨instances_classes rt, ?_, pairs, ?_, categories_addresses rt, ?_⟩
    · rw [instances_classes]
      exact nodup_eraseDups _
    · exact fun i c m second _ _ next isMeta found => pairs.single next isMeta found
    · rw [categories_addresses]
      exact nodup_eraseDups _
  · intro fuel bound
    exact ⟨collect_more done (by omega), collect_nextSome _ _ (by omega)⟩

end DarwinScope.Objc
