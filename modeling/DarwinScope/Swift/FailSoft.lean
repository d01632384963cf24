import DarwinScope.Swift.Fields

namespace DarwinScope.Swift

open Machine

def entryVa (stride baseVa : U64) (i : Nat) : Option U64 := (checkedMul (BitVec.ofNat 64 i) stride).bind (checkedAdd baseVa)

theorem tableEntries_eq {α : Type} (decode : U64 → Option α) (stride baseVa : U64) (count : U32) :
    tableEntries decode stride baseVa count =
      rows (fun i => Row.ofOption ((entryVa stride baseVa i).bind decode)) count.toNat :=
  rfl

def rowReadable (image : Image) (width : Nat) (stride baseVa : U64) (i : Nat) : Bool :=
  ((entryVa stride baseVa i).bind fun va => image.readBytes va width).isSome

/-- The rows of a table are those of its readable indices in order, and each is what stands at its own address. -/
def FailSoft {α : Type} (image : Image) (decode : U64 → Option α) (width : Nat) (stride baseVa : U64) (count : U32) : Prop :=
  List.Forall₂ (fun i row => (entryVa stride baseVa i).bind decode = some row)
    ((List.range count.toNat).filter (rowReadable image width stride baseVa)) (tableEntries decode stride baseVa count)

/-- Every readable row stands behind readable rows only, and the addresses of its words do not overflow. -/
def Gapless (image : Image) (width : Nat) (stride baseVa : U64) (count : U32) : Prop :=
  ∀ i < count.toNat, rowReadable image width stride baseVa i = true →
    (∀ va, entryVa stride baseVa i = some va → va.toNat + (width - 4) < 2^64) ∧
      ∀ j < i, rowReadable image width stride baseVa j = true

def DecodesRow {α : Type} (image : Image) (decode : U64 → Option α) (width : Nat) : Prop :=
  ∀ va, (decode va).isSome = true ↔ (image.readBytes va width).isSome = true ∧ va.toNat + (width - 4) < 2^64

theorem failSoft_iff_gapless {α : Type} {image : Image} {decode : U64 → Option α} {width : Nat}
    (decodes : DecodesRow image decode width) (stride baseVa : U64) (count : U32) :
    FailSoft image decode width stride baseVa count ↔ Gapless image width stride baseVa count := by
  have row (i : Nat) : ((entryVa stride baseVa i).bind decode).isSome = true ↔
      rowReadable image width stride baseVa i = true ∧
        ∀ va, entryVa stride baseVa i = some va → va.toNat + (width - 4) < 2^64 := by
    rw [rowReadable]
    cases entryVa stride baseVa i with
    | none => exact iff_of_false Bool.false_ne_true fun both => Bool.false_ne_true both.1
    | some va =>
      rw [Option.bind_some, Option.bind_some, decodes va]
      exact and_congr_right fun _ => ⟨fun fits _ same => by cases same; exact fits, fun fits => fits va rfl⟩
  rw [FailSoft, tableEntries_eq, rows_each_iff fun i decoded => ((row i).mp decoded).1]
  refine forall_congr' fun i => forall_congr' fun _ => forall_congr' fun readable => and_congr_left fun _ => ?_
  rw [row i]
  exact and_iff_right readable

section

variable (rt : Image)

theorem readWord {bytes : Slice} {off : Nat} (inside : off + 4 ≤ bytes.length) :
    ∃ word, readU32LeAt bytes off = some word ∧ readI32LeAt bytes off = some word :=
  ⟨_, readAt_of_le inside, readAt_of_le inside⟩

theorem slot_isSome {α : Type} (va n : U64) (f : U64 → α) :
    ((checkedAdd va n).bind fun slot => some (f slot)).isSome = true ↔ va.toNat + n.toNat < 2^64 := by
  unfold checkedAdd
  split <;> simp_all

theorem slots_isSome {α : Type} (va : U64) (f : U64 → U64 → α) :
    ((checkedAdd va 4).bind fun slot => (checkedAdd va 8).bind fun last => some (f slot last)).isSome = true ↔
      va.toNat + 8 < 2^64 := by
  by_cases near : va.toNat + (4 : U64).toNat < 2^64
  · rw [checkedAdd_of_lt near, Option.bind_some]
    exact slot_isSome va 8 _
  · rw [show checkedAdd va 4 = none from if_neg near]
    have four : (4 : U64).toNat = 4 := rfl
    exact iff_of_false Bool.false_ne_true (by omega)

theorem decodeVtableEntry_decodes : DecodesRow rt (decodeVtableEntry rt) 8 := by
  intro va
  cases read : rt.readBytes va 8 with
  | none => exact iff_of_false (by simp [decodeVtableEntry, read]) (by simp)
  | some bytes =>
    have length := readBytes_length read
    rcases readWord (by omega : 0 + 4 ≤ bytes.length) with ⟨flags, first, -⟩
    rcases readWord (by omega : 4 + 4 ≤ bytes.length) with ⟨impl, -, second⟩
    simp only [decodeVtableEntry, read, first, second, Option.bind_eq_bind, Option.bind_some, Option.isSome_some,
      true_and]
    exact slot_isSome va 4 _

theorem threeWords_decodes {α : Type} {image : Image} {decode : U64 → Option α}
    (entry : U64 → U32 → U32 → U32 → U64 → U64 → α)
    (shape : ∀ va, decode va = (do
      let bytes ← image.readBytes va 12
      let first ← readU32LeAt bytes 0
      let second ← readI32LeAt bytes 4
      let third ← readI32LeAt bytes 8
      let secondSlot ← checkedAdd va 4
      let thirdSlot ← checkedAdd va 8
      some (entry va first second third secondSlot thirdSlot))) : DecodesRow image decode 12 := by
  intro va
  rw [shape]
  cases read : image.readBytes va 12 with
  | none => exact iff_of_false (by simp) (by simp)
  | some bytes =>
    have length := readBytes_length read
    rcases readWord (by omega : 0 + 4 ≤ bytes.length) with ⟨first, word, -⟩
    rcases readWord (by omega : 4 + 4 ≤ bytes.length) with ⟨second, -, word'⟩
    rcases readWord (by omega : 8 + 4 ≤ bytes.length) with ⟨third, -, word''⟩
    simp only [word, word', word'', Option.bind_eq_bind, Option.bind_some, Option.isSome_some, true_and]
    exact slots_isSome va _

theorem decodeOverrideEntry_decodes : DecodesRow rt (decodeOverrideEntry rt) 12 :=
  threeWords_decodes (fun va classRel methodRel implRel methodSlotVa implSlotVa =>
    ⟨va, relativeTarget va classRel, relativeTarget methodSlotVa methodRel, relativeTarget implSlotVa implRel⟩) fun _ => rfl

theorem decodePrespecialization_decodes : DecodesRow rt (decodePrespecialization rt) 4 := by
  intro va
  cases read : rt.readBytes va 4 with
  | none => exact iff_of_false (by simp [decodePrespecialization, read]) (by simp)
  | some bytes =>
    have length := readBytes_length read
    rcases readWord (by omega : 0 + 4 ≤ bytes.length) with ⟨rel, -, first⟩
    simp only [decodePrespecialization, read, first, Option.bind_eq_bind, Option.bind_some, Option.isSome_some,
      true_and]
    exact iff_of_true trivial va.isLt

end

theorem decodeFieldRecord_decodes (rt : SwiftRuntime) : DecodesRow rt.toImage (decodeFieldRecord rt) 12 :=
  threeWords_decodes (fun _ flags mangledRel nameRel mangledSlotVa nameSlotVa =>
    ⟨⟨flags⟩, relativeName rt.readCstr mangledSlotVa mangledRel, relativeName (lookupFieldName rt) nameSlotVa nameRel⟩)
    fun _ => rfl

/-- The iterators over the method, override, field and prespecialization tables pass by the rows that cannot be read exactly
    where no readable row stands behind one of them: the first that does not decode ends them. -/
theorem failSoft_iff (rt : SwiftRuntime) (stride baseVa : U64) (count : U32) :
    (FailSoft rt.toImage (decodeVtableEntry rt.toImage) 8 8 baseVa count ↔ Gapless rt.toImage 8 8 baseVa count) ∧
      (FailSoft rt.toImage (decodeOverrideEntry rt.toImage) 12 12 baseVa count ↔ Gapless rt.toImage 12 12 baseVa count) ∧
      (FailSoft rt.toImage (decodeFieldRecord rt) 12 stride baseVa count ↔ Gapless rt.toImage 12 stride baseVa count) ∧
      (FailSoft rt.toImage (decodePrespecialization rt.toImage) 4 4 baseVa count ↔ Gapless rt.toImage 4 4 baseVa count) :=
  ⟨failSoft_iff_gapless (decodeVtableEntry_decodes rt.toImage) 8 baseVa count,
    failSoft_iff_gapless (decodeOverrideEntry_decodes rt.toImage) 12 baseVa count,
    failSoft_iff_gapless (decodeFieldRecord_decodes rt) stride baseVa count,
    failSoft_iff_gapless (decodePrespecialization_decodes rt.toImage) 4 baseVa count⟩

def gapImage : Image where
  data := ⟨0, [1, 0, 0, 0, 0, 0, 0, 0, 2, 0, 0, 0, 0, 0, 0, 0], by decide⟩
  segments := [⟨0x1000, 8, 0, 8⟩, ⟨0x1010, 8, 8, 8⟩]

/-- The third method of a table over the gap is readable, and is lost with the second. -/
theorem gap_ends_vtable : ¬ FailSoft gapImage (decodeVtableEntry gapImage) 8 8 0x1000 3 := by
  rw [failSoft_iff_gapless (decodeVtableEntry_decodes gapImage)]
  intro gapless
  rcases gapless 2 (by decide) (by decide) with ⟨-, earlier⟩
  exact absurd (earlier 1 (by decide)) (by decide)

end DarwinScope.Swift
