import DarwinScope.Objc.Category

namespace DarwinScope.Objc

open Machine

/-- The low 48 bits of the stored word of a slot. In the encoding of a bind they are its ordinal and
    addend bits. -/
def bindBits (rt : ObjcRuntime) (slot : U64) : U64 := ((rt.readU64 slot).map stripSignature).getD 0

def NamesSymbol (name : Option Str) (sym : Str) : Prop :=
  name.map Str.text = some (stripObjcSymbolPrefix sym).text

section

variable {rt : ObjcRuntime} {slot : U64} {sym dylib : Str}

theorem resolvePointer_unrebased (free : rt.rebasesByVa slot = none) :
    (rt.resolvePointer slot).getD 0 = bindBits rt slot := by
  unfold ObjcRuntime.resolvePointer bindBits
  rw [free]

theorem foreign_iff {va : U64} {name : Option Str} (stored : va = bindBits rt slot)
    (falls : va = 0 → name = some (stripObjcSymbolPrefix sym)) :
    va = 0 ∧ NamesSymbol name sym ↔ bindBits rt slot = 0 := by
  rw [← stored]
  constructor
  · intro both
    exact both.1
  · intro null
    rw [NamesSymbol, falls null]
    exact ⟨null, rfl⟩

theorem superclass_slot_iff (bound : rt.bindsByVa slot = some (sym, dylib)) (free : rt.rebasesByVa slot = none)
    {va : U64} {isMeta : Bool} {c : ObjcClass} (decoded : decodeClass rt va isMeta = some c)
    (place : checkedAdd va 8 = some slot) :
    c.superclass = 0 ∧ NamesSymbol (c.superclassName rt) sym ↔ bindBits rt slot = 0 := by
  have fields : c.address = va ∧ c.superclass = bindBits rt slot := by
    rw [← resolvePointer_unrebased free]
    rcases decodeClass_eq_some.mp decoded with ⟨superSlot, _, _, -, sum, -, -, same⟩
    cases Option.some.inj (sum.symm.trans place)
    rw [same]
    exact ⟨rfl, rfl⟩
  apply foreign_iff fields.2
  intro null
  unfold ObjcClass.superclassName
  rw [null, fields.1, if_neg (not_not_intro rfl)]
  simp only [place, bound, Option.bind_eq_bind, Option.bind_some]

theorem category_slot_iff (bound : rt.bindsByVa slot = some (sym, dylib)) (free : rt.rebasesByVa slot = none)
    {catVa : U64} {category : ObjcCategory} (decoded : decodeCategory rt catVa = some category)
    (place : checkedAdd catVa 8 = some slot) :
    category.classVa = 0 ∧ NamesSymbol (category.className rt) sym ↔ bindBits rt slot = 0 := by
  have fields : category.clsSlotVa = slot ∧ category.classVa = bindBits rt slot := by
    rw [← resolvePointer_unrebased free]
    simp only [decodeCategory, Option.bind_eq_bind, Option.bind_eq_some_iff] at decoded
    rcases decoded with ⟨_, -, _, -, clsSlot, sum, _, -, _, -, _, -, _, -, rest⟩
    cases Option.some.inj (sum.symm.trans place)
    -- the last field is read under a flag of the image only
    split at rest
    · obtain ⟨_, -, _, -, same⟩ := by simpa only [Option.bind_eq_some_iff] using rest
      cases same
      exact ⟨rfl, rfl⟩
    · obtain ⟨_, -, same⟩ := by simpa only [Option.bind_eq_some_iff, Option.bind_some] using rest
      cases same
      exact ⟨rfl, rfl⟩
  apply foreign_iff fields.2
  intro null
  unfold ObjcCategory.className
  rw [null, fields.1, if_neg (not_not_intro rfl)]
  simp only [bound, Option.map_some]

theorem reference_slot_iff (bound : rt.bindsByVa slot = some (sym, dylib)) (free : rt.rebasesByVa slot = none)
    (resolveLocal : U64 → Option Str) :
    refTargetAt rt resolveLocal slot = .external (stripObjcSymbolPrefix sym) dylib ↔
      bindBits rt slot = 0 ∨ resolveLocal (bindBits rt slot) = none := by
  unfold refTargetAt
  dsimp only
  rw [resolvePointer_unrebased free, bound]
  by_cases clear : bindBits rt slot = 0
  · rw [if_neg (not_not_intro clear)]
    simp only [clear, true_or]
  · rw [if_pos clear]
    cases named : resolveLocal (bindBits rt slot) with
    | some name =>
      constructor
      · intro same
        cases same
      · intro either
        rcases either with null | missing
        · exact absurd null clear
        · cases missing
    | none => simp

theorem protocol_slot_iff (bound : rt.bindsByVa slot = some (sym, dylib)) (free : rt.rebasesByVa slot = none) :
    NamesSymbol (protocolSlotName rt slot) sym ↔
      bindBits rt slot = 0 ∨ ∀ p, decodeProtocol rt (bindBits rt slot) = some p →
        p.name.text = (stripObjcSymbolPrefix sym).text := by
  unfold protocolSlotName NamesSymbol
  dsimp only
  rw [resolvePointer_unrebased free, bound]
  by_cases clear : bindBits rt slot = 0
  · rw [if_neg (not_not_intro clear)]
    simp [clear]
  · rw [if_pos clear]
    cases found : decodeProtocol rt (bindBits rt slot) with
    | some p =>
      constructor
      · intro same
        right
        intro q decoded
        cases decoded
        exact Option.some.inj same
      · intro either
        rcases either with null | same
        · exact absurd null clear
        · exact congrArg some (same p rfl)
    | none => simp

end

theorem protocolNameRow_at {rt : ObjcRuntime} {base slot : U64} {i : Nat}
    (place : (checkedMul (BitVec.ofNat 64 i) 8).bind (checkedAdd base) = some slot) (sym : Str) :
    (∃ name, protocolNameRow rt base i = .yield name ∧ NamesSymbol (some name) sym) ↔
      NamesSymbol (protocolSlotName rt slot) sym := by
  simp only [protocolNameRow, place]
  cases protocolSlotName rt slot with
  | some name =>
    constructor
    · intro found
      rcases found with ⟨other, row, names⟩
      cases row
      exact names
    · intro names
      exact ⟨name, rfl, names⟩
  | none =>
    constructor
    · intro found
      rcases found with ⟨other, row, -⟩
      cases row
    · intro names
      cases names

theorem nextRefTarget_at (rt : ObjcRuntime) {body : Slice} (vmaddr : U64) (resolveLocal : U64 → Option Str)
    {cursor : Nat} (inside : cursor + 8 ≤ body.length) :
    nextRefTarget rt body vmaddr resolveLocal cursor =
      some (refTargetAt rt resolveLocal (vmaddr + BitVec.ofNat 64 cursor), cursor + 8) := by
  have next : checkedAddUsize cursor 8 = some (cursor + 8) := by
    have bound := body.length_lt
    unfold checkedAddUsize
    rw [if_pos (by omega)]
  simp only [nextRefTarget, next, Option.bind_eq_bind, Option.bind_some]
  rw [if_neg (by omega)]

/-- A bind slot is read as a foreign pointer exactly when its word has no ordinal or addend bit below
    bit 48. A reference or a protocol list entry also is where these bits lead to nothing in the image. -/
theorem bind_slot_foreign_iff {rt : ObjcRuntime} {slot : U64} {sym dylib : Str}
    (bound : rt.bindsByVa slot = some (sym, dylib)) (free : rt.rebasesByVa slot = none) :
    (∀ va isMeta c, decodeClass rt va isMeta = some c → checkedAdd va 8 = some slot →
      (c.superclass = 0 ∧ NamesSymbol (c.superclassName rt) sym ↔ bindBits rt slot = 0)) ∧
    (∀ catVa category, decodeCategory rt catVa = some category → checkedAdd catVa 8 = some slot →
      (category.classVa = 0 ∧ NamesSymbol (category.className rt) sym ↔ bindBits rt slot = 0)) ∧
    (∀ (body : Slice) vmaddr resolveLocal cursor, cursor + 8 ≤ body.length →
      vmaddr + BitVec.ofNat 64 cursor = slot →
      (nextRefTarget rt body vmaddr resolveLocal cursor =
          some (.external (stripObjcSymbolPrefix sym) dylib, cursor + 8) ↔
        bindBits rt slot = 0 ∨ resolveLocal (bindBits rt slot) = none)) ∧
    (∀ base i, (checkedMul (BitVec.ofNat 64 i) 8).bind (checkedAdd base) = some slot →
      ((∃ name, protocolNameRow rt base i = .yield name ∧ NamesSymbol (some name) sym) ↔
        bindBits rt slot = 0 ∨ ∀ p, decodeProtocol rt (bindBits rt slot) = some p →
          p.name.text = (stripObjcSymbolPrefix sym).text)) := by
  refine ⟨?_, ?_, ?_, ?_⟩
  · intro va isMeta c decoded place
    exact superclass_slot_iff bound free decoded place
  · intro catVa category decoded place
    exact category_slot_iff bound free decoded place
  · intro body vmaddr resolveLocal cursor inside place
    rw [nextRefTarget_at rt vmaddr resolveLocal inside, place, ← reference_slot_iff bound free]
    simp
  · intro base i place
    rw [protocolNameRow_at place sym, protocol_slot_iff bound free]

/-- A class at `0x1000` whose superclass slot is a chained bind of `_OBJC_CLASS_$_B`, the import of the
    given index. -/
def subclassImage (index : Nat) : MachoBinary where
  data := ⟨0, leBytes 4 0 ++ leBytes 4 28 ++ leBytes 4 60 ++ leBytes 4 68 ++ leBytes 4 2 ++ leBytes 4 1 ++ leBytes 4 0 ++
    leBytes 4 1 ++ leBytes 4 8 ++
    leBytes 4 24 ++ leBytes 2 0x1000 ++ leBytes 2 6 ++ leBytes 8 0 ++ leBytes 4 0 ++ leBytes 2 1 ++ leBytes 2 8 ++
    leBytes 4 1 ++ leBytes 4 1 ++ lit "_OBJC_CLASS_$_B" ++ [0] ++
    leBytes 8 0 ++ leBytes 8 (2^63 + index) ++ leBytes 8 0 ++ leBytes 8 0 ++ leBytes 8 0 ++ lit "/B" ++ [0], by
      simp only [List.length_append, leBytes_length]
      decide⟩
  is64 := true
  loadCommands := [.dylib .load 124 3 0 0 0 0, .dyldChainedFixups 0 84]
  segments := [⟨0x1000, 0x1000, 84, 40, [
    some (bareImageInfo 0x1000)]⟩]
  legacyImports := some []
  borrowed := by simp

theorem first_import_foreign :
    ∃ rt c, ObjcRuntime.build (subclassImage 0) = some rt ∧ decodeClass rt 0x1000 false = some c ∧
      c.superclass = 0 ∧ NamesSymbol (c.superclassName rt) ⟨some 68, lit "_OBJC_CLASS_$_B"⟩ := by
  have read : (ObjcRuntime.build (subclassImage 0)).map (fun rt =>
      (rt.bindsByVa 0x1008, rt.rebasesByVa 0x1008, decodeClass rt 0x1000 false, bindBits rt 0x1008)) =
      some (some (⟨some 68, lit "_OBJC_CLASS_$_B"⟩, ⟨some 124, lit "/B"⟩), none, some ⟨0x1000, 0, 0, 0, false⟩, 0) := by
    decide +kernel
  rcases Option.map_eq_some_iff.mp read with ⟨rt, built, fields⟩
  simp only [Prod.mk.injEq] at fields
  rcases fields with ⟨bound, free, decoded, clear⟩
  refine ⟨rt, _, built, decoded, ?_⟩
  exact ((bind_slot_foreign_iff bound free).1 0x1000 false _ decoded rfl).mpr clear

theorem second_import_local :
    ∃ rt c, ObjcRuntime.build (subclassImage 1) = some rt ∧
      rt.bindsByVa 0x1008 = some (⟨some 68, lit "_OBJC_CLASS_$_B"⟩, ⟨some 124, lit "/B"⟩) ∧
      rt.rebasesByVa 0x1008 = none ∧ decodeClass rt 0x1000 false = some c ∧ c.superclass = 1 ∧
      ¬ (c.superclass = 0 ∧ NamesSymbol (c.superclassName rt) ⟨some 68, lit "_OBJC_CLASS_$_B"⟩) := by
  have read : (ObjcRuntime.build (subclassImage 1)).map (fun rt =>
      (rt.bindsByVa 0x1008, rt.rebasesByVa 0x1008, decodeClass rt 0x1000 false)) =
      some (some (⟨some 68, lit "_OBJC_CLASS_$_B"⟩, ⟨some 124, lit "/B"⟩), none, some ⟨0x1000, 0, 1, 0, false⟩) := by
    decide +kernel
  rcases Option.map_eq_some_iff.mp read with ⟨rt, built, fields⟩
  simp only [Prod.mk.injEq] at fields
  rcases fields with ⟨bound, free, decoded⟩
  refine ⟨rt, _, built, bound, free, decoded, rfl, ?_⟩
  intro foreign
  exact absurd foreign.1 (by decide)

end DarwinScope.Objc
