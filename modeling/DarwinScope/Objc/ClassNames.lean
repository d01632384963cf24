import DarwinScope.Objc.Category

namespace DarwinScope.Objc

open Machine

theorem std_in_wide : fastDataMask64 = fastDataMaskArm64e &&& fastDataMask64 := by decide

theorem std_of_wide {x y : U64} (same : x &&& fastDataMaskArm64e = y &&& fastDataMaskArm64e) :
    x &&& fastDataMask64 = y &&& fastDataMask64 := by
  rw [std_in_wide, ← BitVec.and_assoc, ← BitVec.and_assoc, same]

theorem wide_stitched (x y : U64) :
    ((x &&& ~~~fastFlagsMask) ||| (y &&& fastFlagsMask)) &&& fastDataMaskArm64e = x &&& fastDataMaskArm64e := by
  have pointer : ~~~fastFlagsMask &&& fastDataMaskArm64e = fastDataMaskArm64e := by decide
  have flags : fastFlagsMask &&& fastDataMaskArm64e = 0#64 := by decide
  rw [BitVec.and_or_distrib_right, BitVec.and_assoc, BitVec.and_assoc, pointer, flags, BitVec.and_zero, BitVec.or_zero]

section

variable {rt : ObjcRuntime} {x y p : U64}

theorem maskClassRoPointer_congr (same : x &&& fastDataMaskArm64e = y &&& fastDataMaskArm64e) :
    maskClassRoPointer rt x = maskClassRoPointer rt y := by
  unfold maskClassRoPointer
  rw [same, std_of_wide same]

theorem maskClassRoPointer_some (masked : maskClassRoPointer rt x = some p) :
    p ≠ 0 ∧ (p = x &&& fastDataMaskArm64e ∧ (rt.vmToFileOffset p).isSome ∨ p = x &&& fastDataMask64) := by
  unfold maskClassRoPointer at masked
  dsimp only at masked
  split at masked
  · rename_i wide
    cases masked
    exact ⟨wide.1, Or.inl ⟨rfl, wide.2⟩⟩
  split at masked
  · rename_i std
    cases masked
    exact ⟨std.1, Or.inr rfl⟩
  split at masked
  · rename_i nonzero
    cases masked
    exact ⟨nonzero, Or.inr rfl⟩
  · cases masked

theorem maskClassRoPointer_zero : maskClassRoPointer rt 0 = none := by
  simp [maskClassRoPointer]

theorem masked_wide (masked : maskClassRoPointer rt x = some p) : p &&& fastDataMaskArm64e = p := by
  rcases (maskClassRoPointer_some masked).2 with ⟨rfl, -⟩ | rfl
  · rw [BitVec.and_assoc, BitVec.and_self]
  · have inside : fastDataMask64 &&& fastDataMaskArm64e = fastDataMask64 := by decide
    rw [BitVec.and_assoc, inside]

theorem maskClassRoPointer_fixed (wide : p &&& fastDataMaskArm64e = p) (nonzero : p ≠ 0)
    (mapped : (rt.vmToFileOffset p).isSome) : maskClassRoPointer rt p = some p := by
  unfold maskClassRoPointer
  dsimp only
  rw [wide, if_pos ⟨nonzero, mapped⟩]

theorem maskClassRoPointer_idem (masked : maskClassRoPointer rt x = some p) : maskClassRoPointer rt p = some p := by
  rcases maskClassRoPointer_some masked with ⟨nonzero, ⟨same, mapped⟩ | same⟩
  · exact maskClassRoPointer_fixed (masked_wide masked) nonzero mapped
  · by_cases mapped : (rt.vmToFileOffset p).isSome = true
    · exact maskClassRoPointer_fixed (masked_wide masked) nonzero mapped
    · have std : p &&& fastDataMask64 = p := by rw [same, BitVec.and_assoc, BitVec.and_self]
      unfold maskClassRoPointer
      dsimp only
      rw [masked_wide masked, std, if_neg fun both => mapped both.2, if_neg fun both => mapped both.2, if_pos nonzero]

end

def roName (rt : ObjcRuntime) (roVa : U64) : Option Str := (rt.requiredField roVa 24).bind rt.readCstr

theorem decodeClassRo_some {rt : ObjcRuntime} {roVa : U64} {ro : ClassRo} (decoded : decodeClassRo rt roVa = some ro) :
    ro.address = roVa ∧ roName rt roVa = some ro.name := by
  unfold decodeClassRo at decoded
  rcases Option.bind_eq_some_iff.mp decoded with ⟨_, -, decoded⟩
  -- flags, instance start and size
  rcases Option.bind_eq_some_iff.mp decoded with ⟨_, -, decoded⟩
  rcases Option.bind_eq_some_iff.mp decoded with ⟨_, -, decoded⟩
  rcases Option.bind_eq_some_iff.mp decoded with ⟨_, -, decoded⟩
  rcases Option.bind_eq_some_iff.mp decoded with ⟨_, -, decoded⟩
  rcases Option.bind_eq_some_iff.mp decoded with ⟨nameVa, field, decoded⟩
  -- the other six pointer fields
  rcases Option.bind_eq_some_iff.mp decoded with ⟨_, -, decoded⟩
  rcases Option.bind_eq_some_iff.mp decoded with ⟨_, -, decoded⟩
  rcases Option.bind_eq_some_iff.mp decoded with ⟨_, -, decoded⟩
  rcases Option.bind_eq_some_iff.mp decoded with ⟨_, -, decoded⟩
  rcases Option.bind_eq_some_iff.mp decoded with ⟨_, -, decoded⟩
  rcases Option.bind_eq_some_iff.mp decoded with ⟨name, string, same⟩
  cases same
  rw [roName, field, Option.bind_some, string]
  exact ⟨rfl, rfl⟩

/-- The name of a class as every consumer that knows only its address gives it. -/
def NamedAlike (rt : ObjcRuntime) (va : U64) (text : Bytes) : Prop :=
  (decodeClassName rt va).map Str.text = some text ∧
  (va ≠ 0 → (∀ c : ObjcClass, c.superclass = va → (c.superclassName rt).map Str.text = some text) ∧
    (∀ category : ObjcCategory, category.classVa = va → (category.className rt).map Str.text = some text) ∧
    ∀ slot, rt.resolvePointer slot = some va →
      ∃ name, refTargetAt rt (decodeClassName rt) slot = .local va (some name) ∧ name.text = text)

theorem namedAlike_iff (rt : ObjcRuntime) (va : U64) (text : Bytes) :
    NamedAlike rt va text ↔ (decodeClassName rt va).map Str.text = some text := by
  constructor
  · intro alike
    exact alike.1
  · intro found
    rcases Option.map_eq_some_iff.mp found with ⟨name, decoded, same⟩
    refine ⟨found, ?_⟩
    intro nonzero
    refine ⟨?_, ?_, ?_⟩
    · intro c superclass
      rw [ObjcClass.superclassName, superclass, if_pos nonzero, decoded]
      exact congrArg some same
    · intro category target
      rw [ObjcCategory.className, target, if_pos nonzero, decoded]
      exact congrArg some same
    · intro slot resolved
      refine ⟨name, ?_, same⟩
      unfold refTargetAt
      dsimp only
      rw [resolved, Option.getD_some, if_pos nonzero, decoded]

/-- Where masking moves the rebase target `t` of a bits slot, the name slots on both sides happen to lead
    to the same string. -/
def TargetNames (rt : ObjcRuntime) (t : U64) : Prop :=
  ∀ u, maskClassRoPointer rt t = some u → u ≠ t → (roName rt t).map Str.text = (roName rt u).map Str.text

section

variable {rt : ObjcRuntime} {va slot raw roVa t : U64}

theorem masked_once (masked : maskClassRoPointer rt ((maskClassRoPointer rt raw).getD 0) = some roVa) :
    maskClassRoPointer rt raw = some roVa := by
  cases found : maskClassRoPointer rt raw with
  | none =>
    rw [found, Option.getD_none, maskClassRoPointer_zero] at masked
    cases masked
  | some p =>
    rw [found, Option.getD_some, maskClassRoPointer_idem found] at masked
    exact masked

theorem decodeClassName_rebased (inside : (rt.readBytes va classTSize).isSome) (sum : checkedAdd va 32 = some slot)
    (rebase : rt.rebasesByVa slot = some t) : decodeClassName rt va = roName rt t := by
  rcases Option.isSome_iff_exists.mp inside with ⟨bytes, read⟩
  simp only [decodeClassName, read, sum, rebase, Option.bind_eq_bind, Option.bind_some]
  rfl

theorem decodeClassName_unrebased (inside : (rt.readBytes va classTSize).isSome) (sum : checkedAdd va 32 = some slot)
    (free : rt.rebasesByVa slot = none) (word : rt.readU64 slot = some raw)
    (masked : maskClassRoPointer rt raw = some roVa) : decodeClassName rt va = roName rt roVa := by
  rcases Option.isSome_iff_exists.mp inside with ⟨bytes, read⟩
  simp only [decodeClassName, read, sum, free, word, masked, Option.bind_eq_bind, Option.bind_some]
  rfl

end

/-- The two ways to the name of a class agree exactly when the bits slot has no rebase or masking does
    not change the name that its target leads to. -/
theorem class_names_agree {rt : ObjcRuntime} {va : U64} {isMeta : Bool} {c : ObjcClass} {ro : ClassRo}
    (decoded : decodeClass rt va isMeta = some c) (readOnly : c.ro rt = some ro) :
    NamedAlike rt va ro.name.text ↔ ∀ t, rt.rebasesByVa (va + 32) = some t → TargetNames rt t := by
  rw [namedAlike_iff]
  rcases decodeClass_eq_some.mp decoded with ⟨_, slot, raw, inside, -, sum, word, fields⟩
  have bits : c.bits = stitchBits rt slot raw := congrArg ObjcClass.bits fields
  rcases Option.bind_eq_some_iff.mp readOnly with ⟨roVa, masked, decodedRo⟩
  have named := (decodeClassRo_some decodedRo).2
  unfold stitchBits at bits
  dsimp only at bits
  rw [bits, maskClassRoPointer_congr (wide_stitched _ _)] at masked
  rw [← (checkedAdd_some sum).1]
  cases rebase : rt.rebasesByVa slot with
  | none =>
    rw [rebase] at masked
    rw [decodeClassName_unrebased inside sum rebase word (masked_once masked), named]
    constructor
    · intro _ t missing
      cases missing
    · intro _
      rfl
  | some t =>
    rw [rebase] at masked
    rw [decodeClassName_rebased inside sum rebase]
    constructor
    · intro same target found u moved _
      cases found
      cases Option.some.inj (masked.symm.trans moved)
      rw [same, named]
      rfl
    · intro names
      by_cases stays : roVa = t
      · rw [← stays, named]
        rfl
      · rw [names t rfl roVa masked stays, named]
        rfl

/-- A class `A` at `0x1000` whose `class_ro_t` is at `0x1040`. The rebase of its bits slot carries the
    given flags, its word the flags 2. -/
def rebasedClass (flags : Nat) : ObjcRuntime :=
  ObjcRuntime.flat 0x1000
    ⟨0, List.replicate 32 0 ++ leBytes 8 2 ++ List.replicate (24 + 72) 0 ++ lit "A" ++ [0], by decide +kernel⟩
    Map.empty (Map.ofRows [(0x1020, BitVec.ofNat 64 (0x1040 + flags)), (0x1058, 0x1088)])

theorem aligned_target_named :
    ∃ c ro, decodeClass (rebasedClass 0) 0x1000 false = some c ∧ c.ro (rebasedClass 0) = some ro ∧
      NamedAlike (rebasedClass 0) 0x1000 ro.name.text := by
  have decoded : decodeClass (rebasedClass 0) 0x1000 false = some ⟨0x1000, 0, 0, 0x1042, false⟩ := by decide +kernel
  have readOnly : ObjcClass.ro (rebasedClass 0) ⟨0x1000, 0, 0, 0x1042, false⟩ =
      some ⟨0x1040, 0, 0, 0, ⟨some 136, lit "A"⟩, 0, 0, 0, 0, 0, 0⟩ := by decide +kernel
  refine ⟨_, _, decoded, readOnly, (class_names_agree decoded readOnly).mpr ?_⟩
  intro t rebase u masked moved
  have target : t = 0x1040 := by
    have found : (rebasedClass 0).rebasesByVa (0x1000 + 32) = some 0x1040 := by decide +kernel
    exact Option.some.inj (rebase.symm.trans found)
  subst target
  have kept : maskClassRoPointer (rebasedClass 0) 0x1040 = some 0x1040 := by decide +kernel
  exact absurd (Option.some.inj (masked.symm.trans kept)) moved

theorem flagged_target_unnamed :
    ∃ c ro, decodeClass (rebasedClass 2) 0x1000 false = some c ∧ c.ro (rebasedClass 2) = some ro ∧
      ro.name.text = lit "A" ∧ decodeClassName (rebasedClass 2) 0x1000 = none ∧
      ¬ NamedAlike (rebasedClass 2) 0x1000 ro.name.text := by
  have unnamed : decodeClassName (rebasedClass 2) 0x1000 = none := by decide +kernel
  refine ⟨⟨0x1000, 0, 0, 0x1042, false⟩, ⟨0x1040, 0, 0, 0, ⟨some 136, lit "A"⟩, 0, 0, 0, 0, 0, 0⟩,
    by decide +kernel, by decide +kernel, rfl, unnamed, ?_⟩
  intro alike
  rw [NamedAlike, unnamed] at alike
  cases alike.1

end DarwinScope.Objc
