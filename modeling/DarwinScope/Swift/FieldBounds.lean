import DarwinScope.Swift.FailSoft

namespace DarwinScope.Swift

open Machine

namespace FieldDescriptor

/-- The address of the first record: zero where it overflows. -/
def recordsVa (d : FieldDescriptor) : U64 := (checkedAdd d.address (BitVec.ofNat 64 fieldDescriptorHeaderSize)).getD 0

def recordVa (d : FieldDescriptor) (i : Nat) : Option U64 := entryVa (d.fieldRecordSize.setWidth 64) d.recordsVa i

def ReadAt (d : FieldDescriptor) (rt : SwiftRuntime) (i : Nat) (va : U64) : Prop :=
  d.recordVa i = some va ∧ ∃ r, (d.records rt)[i]? = some r ∧ decodeFieldRecord rt va = some r

def stop (d : FieldDescriptor) : Nat :=
  d.address.toNat + fieldDescriptorHeaderSize + d.numFields.toNat * d.fieldRecordSize.toNat

/-- By address: each record is read within the range that the header announces, and no two ranges meet. -/
structure Contained (d : FieldDescriptor) (rt : SwiftRuntime) : Prop where
  read : ∀ i r, (d.records rt)[i]? = some r → ∃ va, d.ReadAt rt i va
  inside : ∀ i va, d.ReadAt rt i va → d.address.toNat + fieldDescriptorHeaderSize ≤ va.toNat ∧ va.toNat + 12 ≤ d.stop
  apart : ∀ i j va other, d.ReadAt rt i va → d.ReadAt rt j other → i ≠ j →
    va.toNat + 12 ≤ other.toNat ∨ other.toNat + 12 ≤ va.toNat

def Readable (d : FieldDescriptor) (rt : SwiftRuntime) (i : Nat) : Prop :=
  ∃ va, d.recordVa i = some va ∧ (rt.readBytes va 12).isSome = true ∧ va.toNat + 8 < 2^64

/-- There is no first record to be read; or the records follow the header and are as wide as they are read, or a second one
    cannot be read and the first fits. -/
def Wide (d : FieldDescriptor) (rt : SwiftRuntime) : Prop :=
  d.numFields = 0 ∨ ¬ d.Readable rt 0 ∨
    d.address.toNat + fieldDescriptorHeaderSize < 2^64 ∧
      (12 ≤ d.fieldRecordSize.toNat ∨
        12 ≤ d.numFields.toNat * d.fieldRecordSize.toNat ∧ ¬ d.Readable rt 1)

variable {d : FieldDescriptor} {rt : SwiftRuntime} {i : Nat} {va : U64}

theorem readable_iff : d.Readable rt i ↔ ((d.recordVa i).bind (decodeFieldRecord rt)).isSome = true := by
  rw [Readable]
  cases d.recordVa i with
  | none => exact iff_of_false nofun Bool.false_ne_true
  | some va =>
    rw [Option.bind_some, decodeFieldRecord_decodes rt va]
    constructor
    · rintro ⟨_, same, readable⟩
      cases same
      exact readable
    · exact fun readable => ⟨va, rfl, readable⟩

theorem records_getElem_iff {r : FieldRecord} : (d.records rt)[i]? = some r ↔
    i < d.numFields.toNat ∧ (d.recordVa i).bind (decodeFieldRecord rt) = some r ∧ ∀ j < i, d.Readable rt j := by
  rw [records, tableEntries_eq, rows_getElem_iff fun i => Row.ofOption_ne_skip _]
  simp only [Row.ofOption_eq_yield, Row.ofOption_ne_stop, readable_iff]
  rfl

theorem readAt_iff : d.ReadAt rt i va ↔
    d.recordVa i = some va ∧ i < d.numFields.toNat ∧ ∀ j ≤ i, d.Readable rt j := by
  constructor
  · rintro ⟨place, r, yielded, decoded⟩
    rcases records_getElem_iff.mp yielded with ⟨bound, value, before⟩
    refine ⟨place, bound, fun j early => ?_⟩
    rcases Nat.eq_or_lt_of_le early with rfl | early
    · exact readable_iff.mpr (by rw [value]; rfl)
    · exact before j early
  · rintro ⟨place, bound, readable⟩
    have here := readable_iff.mp (readable i (Nat.le_refl i))
    rw [place, Option.bind_some] at here
    rcases Option.isSome_iff_exists.mp here with ⟨r, decoded⟩
    refine ⟨place, r, records_getElem_iff.mpr ⟨bound, ?_, fun j early => readable j (Nat.le_of_lt early)⟩, decoded⟩
    rw [place, Option.bind_some, decoded]

theorem recordVa_zero : d.recordVa 0 = some d.recordsVa := by
  have product : checkedMul (BitVec.ofNat 64 0) (d.fieldRecordSize.setWidth 64 : U64) = some 0#64 := by
    rw [checkedMul_of_lt (by simp)]
    simp
  have sum : checkedAdd d.recordsVa 0#64 = some d.recordsVa := by
    rw [checkedAdd_of_lt (by simpa using d.recordsVa.isLt), BitVec.add_zero]
  rw [recordVa, entryVa, product, Option.bind_some, sum]

theorem recordVa_toNat (few : i < 2^32) (place : d.recordVa i = some va) :
    va.toNat = d.recordsVa.toNat + i * d.fieldRecordSize.toNat := by
  rcases Option.bind_eq_some_iff.mp place with ⟨off, product, sum⟩
  rw [(checkedAdd_some sum).2, (checkedMul_some product).2, toNat_ofNat_of_lt (by omega),
    BitVec.toNat_setWidth, Nat.mod_eq_of_lt (by omega)]

theorem recordsVa_toNat : d.recordsVa.toNat =
    if d.address.toNat + fieldDescriptorHeaderSize < 2^64 then d.address.toNat + fieldDescriptorHeaderSize else 0 := by
  have size : (BitVec.ofNat 64 fieldDescriptorHeaderSize).toNat = fieldDescriptorHeaderSize := rfl
  rw [recordsVa, checkedAdd, size]
  split
  · rename_i fits
    exact toNat_add_ofNat fits
  · rfl

/-- Rows that are no wider than the stride end where the next one starts. -/
theorem row_stop_le {i j width stride : Nat} (fits : width ≤ stride) (before : i < j) : i * stride + width ≤ j * stride := by
  have whole := Nat.mul_le_mul_right stride (Nat.succ_le_of_lt before)
  rw [Nat.succ_mul] at whole
  omega

theorem contained_of_wide (wide : d.Wide rt) : d.Contained rt := by
  have fields := d.numFields.isLt
  refine ⟨fun i r yielded => ?_, fun i va read => ?_, fun i j va other read read' differ => ?_⟩
  · rcases records_getElem_iff.mp yielded with ⟨-, value, -⟩
    rcases Option.bind_eq_some_iff.mp value with ⟨va, place, decoded⟩
    exact ⟨va, place, r, yielded, decoded⟩
  · rcases readAt_iff.mp read with ⟨place, bound, readable⟩
    have value := recordVa_toNat (by omega) place
    rcases wide with none | unread | ⟨fits, size⟩
    · rw [none] at bound
      cases bound
    · exact absurd (readable 0 (Nat.zero_le i)) unread
    rw [recordsVa_toNat, if_pos fits] at value
    refine ⟨by omega, ?_⟩
    rw [stop, value]
    rcases size with size | ⟨room, unread⟩
    · have room := row_stop_le size bound
      omega
    · cases i with
      | zero => omega
      | succ i => exact absurd (readable 1 (Nat.succ_le_succ (Nat.zero_le i))) unread
  · rcases readAt_iff.mp read with ⟨place, bound, readable⟩
    rcases readAt_iff.mp read' with ⟨place', bound', readable'⟩
    have value := recordVa_toNat (by omega) place
    have value' := recordVa_toNat (by omega) place'
    rcases wide with none | unread | ⟨-, size | ⟨-, unread⟩⟩
    · rw [none] at bound
      cases bound
    · exact absurd (readable 0 (Nat.zero_le i)) unread
    · rcases Nat.lt_or_gt_of_ne differ with before | before
      · have room := row_stop_le size before
        omega
      · have room := row_stop_le size before
        omega
    · -- one of two different records has a record 1 at or before it
      rcases Nat.eq_zero_or_pos i with rfl | some
      · exact absurd (readable' 1 (by omega)) unread
      · exact absurd (readable 1 some) unread

theorem wide_of_contained (contained : d.Contained rt) : d.Wide rt := by
  by_cases none : d.numFields = 0
  · exact .inl none
  by_cases unread : d.Readable rt 0
  swap
  · exact .inr (.inl unread)
  have count : 0 < d.numFields.toNat := Nat.pos_of_ne_zero fun zero => none (BitVec.eq_of_toNat_eq zero)
  have first : d.ReadAt rt 0 d.recordsVa :=
    readAt_iff.mpr ⟨recordVa_zero, count, fun j early => by rw [Nat.le_zero.mp early]; exact unread⟩
  rcases contained.inside 0 _ first with ⟨low, high⟩
  rw [recordsVa_toNat] at low high
  split at low
  swap
  · exact absurd low (Nat.not_le.mpr (Nat.succ_pos _))
  rename_i fits
  rw [if_pos fits, stop] at high
  refine .inr (.inr ⟨fits, ?_⟩)
  by_cases size : 12 ≤ d.fieldRecordSize.toNat
  · exact .inl size
  refine .inr ⟨by omega, fun readable => ?_⟩
  have several : 1 < d.numFields.toNat := by
    refine Nat.lt_of_not_le fun single => ?_
    have total := Nat.mul_le_mul_right d.fieldRecordSize.toNat single
    omega
  rcases readable with ⟨va, place, bytes, slots⟩
  have second : d.ReadAt rt 1 va := readAt_iff.mpr ⟨place, several, fun j early => by
    rcases Nat.le_one_iff_eq_zero_or_eq_one.mp early with rfl | rfl
    · exact unread
    · exact ⟨va, place, bytes, slots⟩⟩
  have value := recordVa_toNat (by decide) place
  have apart := contained.apart 0 1 _ _ first second Nat.zero_ne_one
  omega

end FieldDescriptor

/-- A record is read with its own width whatever stride the header declares, so the records of a descriptor keep to their
    bytes exactly where that stride is no less, or too few of them can be read for it to matter. -/
theorem fieldRecords_contained_iff (rt : SwiftRuntime) (d : FieldDescriptor) : d.Contained rt ↔ d.Wide rt :=
  ⟨FieldDescriptor.wide_of_contained, FieldDescriptor.contained_of_wide⟩

def narrowDescriptor : FieldDescriptor := ⟨0x1000, none, none, .struct, 4, 3⟩

def narrowRecords : Bytes := [0, 0, 0, 0, 0, 0, 0, 0, 0, 0, 4, 0, 3, 0, 0, 0, 0, 0, 0, 0, 0, 0, 0, 0, 0, 0, 0, 0]

/-- The section holds the descriptor alone, and other bytes follow it in its segment. -/
def narrowRuntime : SwiftRuntime :=
  ⟨⟨⟨0, narrowRecords ++ [0, 0, 0, 0, 0, 0, 0, 0], by decide⟩, [⟨0x1000, 36, 0, 36⟩]⟩, none, none, none,
    some ⟨⟨0, narrowRecords, by decide⟩, 0x1000⟩, none, none, none, none, none, none, none, none, none, none, fun _ => none,
    fun _ => none⟩

/-- The second record starts within the first and ends behind the third one's place. -/
theorem narrow_records_overlap :
    fieldDescriptors narrowRuntime 2 = some [narrowDescriptor] ∧ ¬ narrowDescriptor.Contained narrowRuntime := by
  refine ⟨by decide, fun contained => ?_⟩
  have readable : narrowDescriptor.Readable narrowRuntime 0 ∧ narrowDescriptor.Readable narrowRuntime 1 :=
    ⟨⟨0x1010, by decide, by decide, by decide⟩, ⟨0x1014, by decide, by decide, by decide⟩⟩
  have first : narrowDescriptor.ReadAt narrowRuntime 0 0x1010 :=
    FieldDescriptor.readAt_iff.mpr ⟨by decide, by decide, fun j early => by rw [Nat.le_zero.mp early]; exact readable.1⟩
  have second : narrowDescriptor.ReadAt narrowRuntime 1 0x1014 :=
    FieldDescriptor.readAt_iff.mpr ⟨by decide, by decide, fun j early => by
      rcases Nat.le_one_iff_eq_zero_or_eq_one.mp early with rfl | rfl
      · exact readable.1
      · exact readable.2⟩
  exact absurd (contained.apart 0 1 _ _ first second Nat.zero_ne_one) (by decide)

end DarwinScope.Swift
