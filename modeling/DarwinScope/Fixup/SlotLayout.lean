import DarwinScope.Machine.BitFields
import DarwinScope.Fixup.Slots

namespace DarwinScope.Fixup

open Machine

inductive Ptr64Slot where
  | rebase (target : BitVec 36) (high8 : U8)
  | bind (ordinal : BitVec 24) (addend : BitVec 8)

/-- The payload of a slot of the arm64e formats, whose import ordinals have `w` bits. -/
inductive Arm64eSlot (w : Nat) where
  | rebase (target : BitVec 43) (high8 : U8)
  | authRebase (target : BitVec 32) (auth : PtrAuth)
  | bind (ordinal : BitVec w) (addend : BitVec 19)
  | authBind (ordinal : BitVec w) (auth : PtrAuth)

def ordinalWidth : PointerFormat → Nat
  | .arm64eUserland24 => 24
  | _ => 16

def authFields (auth : PtrAuth) : List BitField :=
  [⟨16, auth.diversity⟩, ⟨1, BitVec.ofBool auth.addrDiv⟩, ⟨2, auth.key.bits⟩]

namespace Ptr64Slot

def isBind : Ptr64Slot → Bool
  | rebase _ _ => false
  | bind _ _ => true

def payload : Ptr64Slot → List BitField
  | rebase target high8 => [⟨36, target⟩, ⟨8, high8⟩, ⟨7, 0⟩]
  | bind ordinal addend => [⟨24, ordinal⟩, ⟨8, addend⟩, ⟨19, 0⟩]

def word (slot : Ptr64Slot) (next : BitVec 12) : U64 :=
  packed (slot.payload ++ [⟨12, next⟩, ⟨1, BitVec.ofBool slot.isBind⟩])

end Ptr64Slot

namespace Arm64eSlot

variable {w : Nat}

def isBind : Arm64eSlot w → Bool
  | rebase _ _ | authRebase _ _ => false
  | bind _ _ | authBind _ _ => true

def auth? : Arm64eSlot w → Option PtrAuth
  | rebase _ _ | bind _ _ => none
  | authRebase _ auth | authBind _ auth => some auth

def payload : Arm64eSlot w → List BitField
  | rebase target high8 => [⟨43, target⟩, ⟨8, high8⟩]
  | authRebase target auth => ⟨32, target⟩ :: authFields auth
  | bind ordinal addend => [⟨w, ordinal⟩, ⟨32 - w, 0⟩, ⟨19, addend⟩]
  | authBind ordinal auth => ⟨w, ordinal⟩ :: ⟨32 - w, 0⟩ :: authFields auth

def word (slot : Arm64eSlot w) (next : BitVec 11) : U64 :=
  packed (slot.payload ++ [⟨11, next⟩, ⟨1, BitVec.ofBool slot.isBind⟩, ⟨1, BitVec.ofBool slot.auth?.isSome⟩])

end Arm64eSlot

/-- What the target of a rebase without a signature counts from. -/
def rebaseBase (format : PointerFormat) (imageBase : U64) : U64 :=
  match format with
  | .ptr64 | .arm64e => 0
  | _ => imageBase

def importAddend (ctx : SlotCtx) (ordinal : Nat) : Int := ((ctx.imports[ordinal]?).map ChainedImport.addend).getD 0

section

variable (ctx : SlotCtx) (format : PointerFormat) (slot : U64)

def rebaseRow (target : U64) (auth : Option PtrAuth) (high8 : Option U8) : Entry := .rebase {
  segIndex := ctx.segIndex
  segmentOffset := ctx.segmentOffset
  vmAddress := ctx.vmAddress
  targetVmaddr := target
  rawSlot := slot
  ptrAuth := auth
  high8 := high8
  pointerFormat := format
}

def bindRow (ordinal : U32) (addend : Int) (auth : Option PtrAuth) : Entry := .bind {
  segIndex := ctx.segIndex
  segmentOffset := ctx.segmentOffset
  vmAddress := ctx.vmAddress
  importOrdinal := ordinal
  addend := addend
  name := (resolveImport ordinal ctx.imports ctx.dylibNames).1
  dylib := (resolveImport ordinal ctx.imports ctx.dylibNames).2.1
  isWeak := (resolveImport ordinal ctx.imports ctx.dylibNames).2.2.1
  ptrAuth := auth
  pointerFormat := format
  rawSlot := slot
}

end

theorem resolveImport_addend (ordinal : U32) (ctx : SlotCtx) :
    (resolveImport ordinal ctx.imports ctx.dylibNames).2.2.2 = importAddend ctx ordinal.toNat := by
  unfold resolveImport importAddend
  cases ctx.imports[ordinal.toNat]? <;> rfl

theorem saturatingAddSigned_of_fits {x y : Int} (low : -2^63 ≤ x + y) (high : x + y < 2^63) :
    saturatingAddSigned x y = x + y := by
  unfold saturatingAddSigned
  omega

theorem saturatingAdd_of_lt {x y : U64} (fits : x.toNat + y.toNat < 2^64) : saturatingAdd x y = x + y := if_pos fits

theorem sign_extend_19 (a : BitVec 19) :
    (if a.setWidth 64 &&& 0x0004_0000 ≠ 0 then (a.setWidth 64 ||| 0xffff_ffff_fff8_0000).toInt
      else (a.setWidth 64).toInt) = a.toInt := by
  have bound := a.isLt
  have wide : (a.setWidth 64).toNat = a.toNat := by
    rw [BitVec.toNat_setWidth, Nat.mod_eq_of_lt (by omega)]
  have sign := and_bit_ne_zero (a.setWidth 64) 0x0004_0000 18 rfl
  rw [wide] at sign
  have filled : (a.setWidth 64 ||| 0xffff_ffff_fff8_0000).toNat = 2^19 * (2^45 - 1) + a.toNat := by
    rw [Nat.two_pow_add_eq_or_of_lt bound, BitVec.toNat_or, wide, Nat.or_comm]
    rfl
  rw [BitVec.toInt_eq_toNat_cond, BitVec.toInt_eq_toNat_cond, BitVec.toInt_eq_toNat_cond, filled, wide]
  by_cases negative : a.toNat / 2^18 % 2 = 1
  · rw [if_pos (sign.mpr negative)]
    omega
  · rw [if_neg fun set => negative (sign.mp set)]
    omega

def Ptr64Slot.row (ctx : SlotCtx) (format : PointerFormat) (word : U64) : Ptr64Slot → Entry
  | .rebase target high8 =>
    rebaseRow ctx format word (rebaseBase format ctx.imageBase + target.setWidth 64) none (some high8)
  | .bind ordinal addend =>
    bindRow ctx format word (ordinal.setWidth 32) (addend.toNat + importAddend ctx ordinal.toNat) none

/-- The target is an address, or the sum of the addends an `i64`. -/
def Ptr64Slot.Fits (ctx : SlotCtx) (format : PointerFormat) : Ptr64Slot → Prop
  | .rebase target _ => (rebaseBase format ctx.imageBase).toNat + target.toNat < 2^64
  | .bind ordinal addend =>
    -2^63 ≤ addend.toNat + importAddend ctx ordinal.toNat ∧ addend.toNat + importAddend ctx ordinal.toNat < 2^63

def Arm64eSlot.row {w : Nat} (ctx : SlotCtx) (format : PointerFormat) (word : U64) : Arm64eSlot w → Entry
  | .rebase target high8 =>
    rebaseRow ctx format word (rebaseBase format ctx.imageBase + target.setWidth 64) none (some high8)
  | .authRebase target auth => rebaseRow ctx format word (ctx.imageBase + target.setWidth 64) (some auth) none
  | .bind ordinal addend =>
    bindRow ctx format word (ordinal.setWidth 32) (addend.toInt + importAddend ctx ordinal.toNat) none
  | .authBind ordinal auth =>
    bindRow ctx format word (ordinal.setWidth 32) (importAddend ctx ordinal.toNat) (some auth)

def Arm64eSlot.Fits {w : Nat} (ctx : SlotCtx) (format : PointerFormat) : Arm64eSlot w → Prop
  | .rebase target _ => (rebaseBase format ctx.imageBase).toNat + target.toNat < 2^64
  | .authRebase target _ => ctx.imageBase.toNat + target.toNat < 2^64
  | .bind ordinal addend =>
    -2^63 ≤ addend.toInt + importAddend ctx ordinal.toNat ∧ addend.toInt + importAddend ctx ordinal.toNat < 2^63
  | .authBind ordinal _ => -2^63 ≤ importAddend ctx ordinal.toNat ∧ importAddend ctx ordinal.toNat < 2^63

namespace Ptr64Slot

theorem payload_width (slot : Ptr64Slot) : packWidth slot.payload = 51 := by
  cases slot <;> rfl

variable (slot : Ptr64Slot) (next : BitVec 12)

theorem word_width : packWidth (slot.payload ++ [⟨12, next⟩, ⟨1, BitVec.ofBool slot.isBind⟩]) = 64 := by
  cases slot <;> rfl

theorem word_next : (slot.word next >>> 51) &&& 0x0fff = next.setWidth 64 :=
  packed_shift_and slot.payload [⟨1, BitVec.ofBool slot.isBind⟩] next _ _ rfl (slot.word_width next) slot.payload_width rfl
    (by decide)

theorem word_bind : (slot.word next >>> 63) &&& 1 = (BitVec.ofBool slot.isBind).setWidth 64 := by
  refine packed_shift_and (slot.payload ++ [⟨12, next⟩]) [] _ _ _ ?_ (slot.word_width next) ?_ rfl (by decide)
  · rw [List.append_assoc, List.singleton_append]
  · cases slot <;> rfl

end Ptr64Slot

namespace Arm64eSlot

variable {w : Nat} (narrow : w ≤ 32) (slot : Arm64eSlot w) (next : BitVec 11)

include narrow

theorem payload_width : packWidth slot.payload = 51 := by
  cases slot with
  | rebase target high8 => rfl
  | authRebase target auth => rfl
  | bind ordinal addend =>
    show w + (32 - w + 19) = 51
    omega
  | authBind ordinal auth =>
    show w + (32 - w + 19) = 51
    omega

theorem word_width :
    packWidth (slot.payload ++ [⟨11, next⟩, ⟨1, BitVec.ofBool slot.isBind⟩, ⟨1, BitVec.ofBool slot.auth?.isSome⟩]) = 64 := by
  rw [packWidth_append, slot.payload_width narrow]
  rfl

theorem word_next : (slot.word next >>> 51) &&& 0x07ff = next.setWidth 64 :=
  packed_shift_and slot.payload _ next _ _ rfl (slot.word_width narrow next) (slot.payload_width narrow) rfl (by decide)

theorem word_bind : (slot.word next >>> 62) &&& 1 = (BitVec.ofBool slot.isBind).setWidth 64 := by
  refine packed_shift_and (slot.payload ++ [⟨11, next⟩]) [⟨1, BitVec.ofBool slot.auth?.isSome⟩] _ _ _ ?_
    (slot.word_width narrow next) ?_ rfl (by decide)
  · rw [List.append_assoc, List.singleton_append]
  · rw [packWidth_append, slot.payload_width narrow]
    rfl

theorem word_auth : (slot.word next >>> 63) &&& 1 = (BitVec.ofBool slot.auth?.isSome).setWidth 64 := by
  refine packed_shift_and (slot.payload ++ [⟨11, next⟩, ⟨1, BitVec.ofBool slot.isBind⟩]) [] _ _ _ ?_
    (slot.word_width narrow next) ?_ rfl (by decide)
  · rw [List.append_assoc]
    rfl
  · rw [packWidth_append, slot.payload_width narrow]
    rfl

end Arm64eSlot

theorem authFields_read (slot : U64) (before after : List BitField) (auth : PtrAuth)
    (same : slot = packed (before ++ (authFields auth ++ after)))
    (whole : packWidth (before ++ (authFields auth ++ after)) = 64) (place : packWidth before = 32) :
    ((slot >>> 32) &&& 0xffff).setWidth 16 = auth.diversity ∧ decide ((slot >>> 48) &&& 1 ≠ 0) = auth.addrDiv ∧
      PacKey.fromBits (((slot >>> 49) &&& 3).setWidth 8) = auth.key := by
  have diversity : (slot >>> 32) &&& 0xffff = auth.diversity.setWidth 64 := by
    rw [same]
    exact packed_shift_and before _ auth.diversity _ _ rfl whole place rfl (by decide)
  have addrDiv : (slot >>> 48) &&& 1 = (BitVec.ofBool auth.addrDiv).setWidth 64 := by
    rw [same]
    refine packed_shift_and (before ++ [⟨16, auth.diversity⟩]) (⟨2, auth.key.bits⟩ :: after) _ _ _ ?_ whole ?_ rfl
      (by decide)
    · rw [List.append_assoc]
      rfl
    · rw [packWidth_append, place]
      rfl
  have key : (slot >>> 49) &&& 3 = auth.key.bits.setWidth 64 := by
    rw [same]
    refine packed_shift_and (before ++ [⟨16, auth.diversity⟩, ⟨1, BitVec.ofBool auth.addrDiv⟩]) after _ _ _ ?_ whole ?_
      rfl (by decide)
    · rw [List.append_assoc]
      rfl
    · rw [packWidth_append, place]
      rfl
  refine ⟨?_, ?_, ?_⟩
  · rw [diversity]
    simp
  · rw [addrDiv]
    cases auth.addrDiv <;> decide
  · rw [key]
    cases auth.key <;> rfl

section

variable {ctx : SlotCtx} {format : PointerFormat}

theorem ptr64_target {target : U64} (is64 : format = .ptr64 ∨ format = .ptr64Offset)
    (fits : (rebaseBase format ctx.imageBase).toNat + target.toNat < 2^64) :
    (if format = .ptr64Offset then saturatingAdd ctx.imageBase target else target) =
      rebaseBase format ctx.imageBase + target := by
  rcases is64 with rfl | rfl
  · exact (BitVec.zero_add target).symm
  · exact saturatingAdd_of_lt fits

theorem arm64e_target {target : U64} (isArm : format ≠ .ptr64)
    (fits : (rebaseBase format ctx.imageBase).toNat + target.toNat < 2^64) :
    (match format with
      | .arm64e => target
      | _ => saturatingAdd ctx.imageBase target) = rebaseBase format ctx.imageBase + target := by
  cases format with
  | arm64e => exact (BitVec.zero_add target).symm
  | ptr64 => exact absurd rfl isArm
  | _ => exact saturatingAdd_of_lt fits

theorem decodePtr64Slot_rebase (is64 : format = .ptr64 ∨ format = .ptr64Offset) (next : BitVec 12) (target : BitVec 36)
    (high8 : U8) (fits : (Ptr64Slot.rebase target high8).Fits ctx format) :
    decodePtr64Slot ((Ptr64Slot.rebase target high8).word next) format ctx =
      some ((Ptr64Slot.rebase target high8).row ctx format ((Ptr64Slot.rebase target high8).word next),
        next.setWidth 64) := by
  have kind := (Ptr64Slot.rebase target high8).word_bind next
  have link := (Ptr64Slot.rebase target high8).word_next next
  have place : (Ptr64Slot.rebase target high8).word next &&& 0x0000_000f_ffff_ffff = target.setWidth 64 :=
    packed_and _ target _ rfl rfl rfl (by decide)
  have high : ((Ptr64Slot.rebase target high8).word next >>> 36) &&& 0xff = high8.setWidth 64 :=
    packed_shift_and [⟨36, target⟩] _ high8 _ _ rfl rfl rfl rfl (by decide)
  generalize (Ptr64Slot.rebase target high8).word next = slot at *
  have rebase : (BitVec.ofBool (Ptr64Slot.rebase target high8).isBind).setWidth 64 = (0 : U64) := rfl
  have narrow : (high8.setWidth 64).setWidth 8 = high8 := by simp
  have fits : (rebaseBase format ctx.imageBase).toNat + (target.setWidth 64).toNat < 2^64 := by
    rw [BitVec.toNat_setWidth_of_le (by decide)]
    exact fits
  simp only [decodePtr64Slot, kind, link, place, high, narrow, rebase, if_true, Ptr64Slot.row, rebaseRow,
    ptr64_target is64 fits]

theorem decodePtr64Slot_bind (next : BitVec 12) (ordinal : BitVec 24) (addend : BitVec 8)
    (fits : (Ptr64Slot.bind ordinal addend).Fits ctx format) :
    decodePtr64Slot ((Ptr64Slot.bind ordinal addend).word next) format ctx =
      some ((Ptr64Slot.bind ordinal addend).row ctx format ((Ptr64Slot.bind ordinal addend).word next),
        next.setWidth 64) := by
  have kind := (Ptr64Slot.bind ordinal addend).word_bind next
  have link := (Ptr64Slot.bind ordinal addend).word_next next
  have index : (Ptr64Slot.bind ordinal addend).word next &&& 0x00ff_ffff = ordinal.setWidth 64 :=
    packed_and _ ordinal _ rfl rfl rfl (by decide)
  have shift : ((Ptr64Slot.bind ordinal addend).word next >>> 24) &&& 0xff = addend.setWidth 64 :=
    packed_shift_and [⟨24, ordinal⟩] _ addend _ _ rfl rfl rfl rfl (by decide)
  generalize (Ptr64Slot.bind ordinal addend).word next = slot at *
  have bind : (BitVec.ofBool (Ptr64Slot.bind ordinal addend).isBind).setWidth 64 = (1 : U64) := rfl
  have apart : (1 : U64) ≠ 0 := by decide
  have narrow : (ordinal.setWidth 64).setWidth 32 = ordinal.setWidth 32 := by simp
  have value : (addend.setWidth 64).toNat = addend.toNat := BitVec.toNat_setWidth_of_le (by decide)
  have place : (ordinal.setWidth 32).toNat = ordinal.toNat := BitVec.toNat_setWidth_of_le (by decide)
  have selected := resolveImport_addend (ordinal.setWidth 32) ctx
  rw [place] at selected
  simp only [decodePtr64Slot, kind, link, index, shift, narrow, value, bind, apart, if_false, Ptr64Slot.row, bindRow]
  rw [← saturatingAddSigned_of_fits fits.1 fits.2, ← selected]

theorem ordinalWidth_le (format : PointerFormat) : ordinalWidth format ≤ 32 := by
  unfold ordinalWidth
  split <;> decide

def arm64eOrdinal (format : PointerFormat) (slot : U64) : U32 :=
  match format with
  | .arm64eUserland24 => (slot &&& 0x00ff_ffff).setWidth 32
  | _ => (slot &&& 0xffff).setWidth 32

theorem ordinal_read (slot : U64) {after : List BitField} (ordinal : BitVec (ordinalWidth format))
    (same : slot = packed (⟨ordinalWidth format, ordinal⟩ :: after))
    (whole : packWidth (⟨ordinalWidth format, ordinal⟩ :: after) = 64) :
    arm64eOrdinal format slot = ordinal.setWidth 32 := by
  have narrow : (ordinal.setWidth 64).setWidth 32 = ordinal.setWidth 32 := by simp
  have fits : ordinalWidth format ≤ 64 := (ordinalWidth_le format).trans (by decide)
  rw [same, ← narrow]
  cases format with
  | arm64eUserland24 => exact congrArg (BitVec.setWidth 32) (packed_and after ordinal 0x00ff_ffff rfl whole rfl fits)
  | _ => exact congrArg (BitVec.setWidth 32) (packed_and after ordinal 0xffff rfl whole rfl fits)

theorem extractSigned19_read (slot : U64) (before after : List BitField) (addend : BitVec 19)
    (same : slot = packed (before ++ ⟨19, addend⟩ :: after)) (whole : packWidth (before ++ ⟨19, addend⟩ :: after) = 64)
    (place : packWidth before = 32) : extractSigned19 slot = addend.toInt := by
  have field := packed_shift_and before after addend 0x0007_ffff 32 rfl whole place rfl (by decide)
  rw [← same] at field
  simp only [extractSigned19, field]
  exact sign_extend_19 addend

theorem decodeArm64eSlot_rebase (isArm : format ≠ .ptr64) {w : Nat} (narrow : w ≤ 32) (next : BitVec 11)
    (target : BitVec 43) (high8 : U8) (fits : (Arm64eSlot.rebase (w := w) target high8).Fits ctx format) :
    decodeArm64eSlot ((Arm64eSlot.rebase (w := w) target high8).word next) format ctx =
      some ((Arm64eSlot.rebase (w := w) target high8).row ctx format ((Arm64eSlot.rebase (w := w) target high8).word next),
        next.setWidth 64) := by
  have whole := (Arm64eSlot.rebase (w := w) target high8).word_width narrow next
  have auth := (Arm64eSlot.rebase (w := w) target high8).word_auth narrow next
  have kind := (Arm64eSlot.rebase (w := w) target high8).word_bind narrow next
  have link := (Arm64eSlot.rebase (w := w) target high8).word_next narrow next
  have place : (Arm64eSlot.rebase (w := w) target high8).word next &&& 0x0000_07ff_ffff_ffff = target.setWidth 64 :=
    packed_and _ target _ rfl whole rfl (by decide)
  have high : ((Arm64eSlot.rebase (w := w) target high8).word next >>> 43) &&& 0xff = high8.setWidth 64 :=
    packed_shift_and [⟨43, target⟩] _ high8 _ _ rfl whole rfl rfl (by decide)
  generalize (Arm64eSlot.rebase (w := w) target high8).word next = slot at *
  have unsigned : (BitVec.ofBool (Arm64eSlot.rebase (w := w) target high8).auth?.isSome).setWidth 64 = (0 : U64) := rfl
  have rebase : (BitVec.ofBool (Arm64eSlot.rebase (w := w) target high8).isBind).setWidth 64 = (0 : U64) := rfl
  have byte : (high8.setWidth 64).setWidth 8 = high8 := by simp
  have fits : (rebaseBase format ctx.imageBase).toNat + (target.setWidth 64).toNat < 2^64 := by
    rw [BitVec.toNat_setWidth_of_le (by decide)]
    exact fits
  simp only [decodeArm64eSlot, auth, kind, link, place, high, unsigned, rebase, byte, ne_eq, not_true_eq_false, if_true,
    if_false, Arm64eSlot.row, rebaseRow]
  exact congrArg (fun targetVmaddr => some (Entry.rebase ⟨ctx.segIndex, ctx.segmentOffset, ctx.vmAddress, targetVmaddr,
    slot, none, some high8, format⟩, next.setWidth 64)) (arm64e_target isArm fits)

theorem decodeArm64eSlot_authRebase {w : Nat} (narrow : w ≤ 32) (next : BitVec 11) (target : BitVec 32) (pa : PtrAuth)
    (fits : (Arm64eSlot.authRebase (w := w) target pa).Fits ctx format) :
    decodeArm64eSlot ((Arm64eSlot.authRebase (w := w) target pa).word next) format ctx =
      some ((Arm64eSlot.authRebase (w := w) target pa).row ctx format
        ((Arm64eSlot.authRebase (w := w) target pa).word next), next.setWidth 64) := by
  have whole := (Arm64eSlot.authRebase (w := w) target pa).word_width narrow next
  have auth := (Arm64eSlot.authRebase (w := w) target pa).word_auth narrow next
  have kind := (Arm64eSlot.authRebase (w := w) target pa).word_bind narrow next
  have link := (Arm64eSlot.authRebase (w := w) target pa).word_next narrow next
  have place : (Arm64eSlot.authRebase (w := w) target pa).word next &&& 0xffff_ffff = target.setWidth 64 :=
    packed_and _ target _ rfl whole rfl (by decide)
  obtain ⟨diversity, addrDiv, key⟩ :=
    authFields_read ((Arm64eSlot.authRebase (w := w) target pa).word next) [⟨32, target⟩] _ pa rfl whole rfl
  generalize (Arm64eSlot.authRebase (w := w) target pa).word next = slot at *
  have signed : (BitVec.ofBool (Arm64eSlot.authRebase (w := w) target pa).auth?.isSome).setWidth 64 = (1 : U64) := rfl
  have rebase : (BitVec.ofBool (Arm64eSlot.authRebase (w := w) target pa).isBind).setWidth 64 = (0 : U64) := rfl
  have apart : (1 : U64) ≠ 0 := by decide
  have fits : ctx.imageBase.toNat + (target.setWidth 64).toNat < 2^64 := by
    rw [BitVec.toNat_setWidth_of_le (by decide)]
    exact fits
  simp only [decodeArm64eSlot, auth, kind, link, place, signed, rebase, diversity, addrDiv, key, ne_eq, apart,
    not_false_eq_true, if_true, if_false, Arm64eSlot.row, rebaseRow, saturatingAdd_of_lt fits]

theorem ordinal_half (format : PointerFormat) (ordinal : BitVec (ordinalWidth format)) :
    packWidth [⟨ordinalWidth format, ordinal⟩, ⟨32 - ordinalWidth format, 0⟩] = 32 := by
  have narrow := ordinalWidth_le format
  show ordinalWidth format + (32 - ordinalWidth format) = 32
  omega

theorem import_selected (ctx : SlotCtx) (ordinal : BitVec (ordinalWidth format)) :
    (resolveImport (ordinal.setWidth 32) ctx.imports ctx.dylibNames).2.2.2 = importAddend ctx ordinal.toNat := by
  rw [resolveImport_addend, BitVec.toNat_setWidth_of_le (ordinalWidth_le format)]

theorem decodeArm64eSlot_bind (next : BitVec 11) (ordinal : BitVec (ordinalWidth format)) (addend : BitVec 19)
    (fits : (Arm64eSlot.bind ordinal addend).Fits ctx format) :
    decodeArm64eSlot ((Arm64eSlot.bind ordinal addend).word next) format ctx =
      some ((Arm64eSlot.bind ordinal addend).row ctx format ((Arm64eSlot.bind ordinal addend).word next),
        next.setWidth 64) := by
  have narrow := ordinalWidth_le format
  have whole := (Arm64eSlot.bind ordinal addend).word_width narrow next
  have auth := (Arm64eSlot.bind ordinal addend).word_auth narrow next
  have kind := (Arm64eSlot.bind ordinal addend).word_bind narrow next
  have link := (Arm64eSlot.bind ordinal addend).word_next narrow next
  have index := ordinal_read ((Arm64eSlot.bind ordinal addend).word next) ordinal rfl whole
  have slotAddend := extractSigned19_read ((Arm64eSlot.bind ordinal addend).word next)
    [⟨ordinalWidth format, ordinal⟩, ⟨32 - ordinalWidth format, 0⟩] _ addend rfl whole (ordinal_half format ordinal)
  generalize (Arm64eSlot.bind ordinal addend).word next = slot at *
  have unsigned : (BitVec.ofBool (Arm64eSlot.bind ordinal addend).auth?.isSome).setWidth 64 = (0 : U64) := rfl
  have bind : (BitVec.ofBool (Arm64eSlot.bind ordinal addend).isBind).setWidth 64 = (1 : U64) := rfl
  have apart : (1 : U64) ≠ 0 := by decide
  simp only [decodeArm64eSlot, auth, kind, link, slotAddend, unsigned, bind, apart, ne_eq, not_true_eq_false, if_false,
    Arm64eSlot.row, bindRow]
  rw [← saturatingAddSigned_of_fits fits.1 fits.2, ← import_selected ctx ordinal, ← index]
  rfl

theorem decodeArm64eSlot_authBind (next : BitVec 11) (ordinal : BitVec (ordinalWidth format)) (pa : PtrAuth)
    (fits : (Arm64eSlot.authBind ordinal pa).Fits ctx format) :
    decodeArm64eSlot ((Arm64eSlot.authBind ordinal pa).word next) format ctx =
      some ((Arm64eSlot.authBind ordinal pa).row ctx format ((Arm64eSlot.authBind ordinal pa).word next),
        next.setWidth 64) := by
  have narrow := ordinalWidth_le format
  have whole := (Arm64eSlot.authBind ordinal pa).word_width narrow next
  have auth := (Arm64eSlot.authBind ordinal pa).word_auth narrow next
  have kind := (Arm64eSlot.authBind ordinal pa).word_bind narrow next
  have link := (Arm64eSlot.authBind ordinal pa).word_next narrow next
  have index := ordinal_read ((Arm64eSlot.authBind ordinal pa).word next) ordinal rfl whole
  obtain ⟨diversity, addrDiv, key⟩ := authFields_read ((Arm64eSlot.authBind ordinal pa).word next)
    [⟨ordinalWidth format, ordinal⟩, ⟨32 - ordinalWidth format, 0⟩] _ pa rfl whole (ordinal_half format ordinal)
  generalize (Arm64eSlot.authBind ordinal pa).word next = slot at *
  have signed : (BitVec.ofBool (Arm64eSlot.authBind ordinal pa).auth?.isSome).setWidth 64 = (1 : U64) := rfl
  have bind : (BitVec.ofBool (Arm64eSlot.authBind ordinal pa).isBind).setWidth 64 = (1 : U64) := rfl
  have apart : (1 : U64) ≠ 0 := by decide
  have sum : saturatingAddSigned 0 (importAddend ctx ordinal.toNat) = importAddend ctx ordinal.toNat := by
    rw [saturatingAddSigned_of_fits (by rw [Int.zero_add]; exact fits.1) (by rw [Int.zero_add]; exact fits.2),
      Int.zero_add]
  simp only [decodeArm64eSlot, auth, kind, link, diversity, addrDiv, key, signed, bind, apart, ne_eq, not_false_eq_true,
    if_true, if_false, Arm64eSlot.row, bindRow]
  rw [← sum, ← import_selected ctx ordinal, ← index]
  rfl

theorem decodeArm64eSlot_word (isArm : format ≠ .ptr64) (slot : Arm64eSlot (ordinalWidth format)) (next : BitVec 11)
    (fits : slot.Fits ctx format) :
    decodeArm64eSlot (slot.word next) format ctx =
      some (slot.row ctx format (slot.word next), next.setWidth 64) := by
  cases slot with
  | rebase target high8 => exact decodeArm64eSlot_rebase isArm (ordinalWidth_le format) next target high8 fits
  | authRebase target auth => exact decodeArm64eSlot_authRebase (ordinalWidth_le format) next target auth fits
  | bind ordinal addend => exact decodeArm64eSlot_bind next ordinal addend fits
  | authBind ordinal auth => exact decodeArm64eSlot_authBind next ordinal auth fits

theorem decodePtr64Slot_word (is64 : format = .ptr64 ∨ format = .ptr64Offset) (slot : Ptr64Slot) (next : BitVec 12)
    (fits : slot.Fits ctx format) :
    decodePtr64Slot (slot.word next) format ctx = some (slot.row ctx format (slot.word next), next.setWidth 64) := by
  cases slot with
  | rebase target high8 => exact decodePtr64Slot_rebase is64 next target high8 fits
  | bind ordinal addend => exact decodePtr64Slot_bind next ordinal addend fits

end

/-- Every slot that is packed by the documented layout of its format comes back as the row of its
    fields, together with its link. -/
theorem decodeChainEntry_word (ctx : SlotCtx) :
    (∀ format ∈ [PointerFormat.ptr64, .ptr64Offset], ∀ (slot : Ptr64Slot) (next : BitVec 12), slot.Fits ctx format →
      decodeChainEntry (slot.word next) format ctx = some (slot.row ctx format (slot.word next), next.setWidth 64)) ∧
    ∀ format ∈ [PointerFormat.arm64e, .arm64eKernel, .arm64eUserland, .arm64eUserland24],
      ∀ (slot : Arm64eSlot (ordinalWidth format)) (next : BitVec 11), slot.Fits ctx format →
        decodeChainEntry (slot.word next) format ctx =
          some (slot.row ctx format (slot.word next), next.setWidth 64) := by
  constructor
  · intro format listed slot next fits
    have is64 : format = .ptr64 ∨ format = .ptr64Offset := List.mem_pair.mp listed
    have decoded := decodePtr64Slot_word is64 slot next fits
    rcases is64 with rfl | rfl
    · exact decoded
    · exact decoded
  · intro format listed slot next fits
    have isArm : format ≠ .ptr64 := by
      rintro rfl
      exact absurd listed (by decide)
    rw [← decodeArm64eSlot_word isArm slot next fits]
    cases format with
    | arm64e | arm64eKernel | arm64eUserland | arm64eUserland24 => rfl
    | _ => simp at listed

def bareSlotCtx : SlotCtx := ⟨0x1000, 1, 8, 0x2008, [], []⟩

theorem decodeChainEntry_word_samples :
    decodeChainEntry ((Ptr64Slot.bind 5 7).word 3) .ptr64 bareSlotCtx =
        some ((Ptr64Slot.bind 5 7).row bareSlotCtx .ptr64 ((Ptr64Slot.bind 5 7).word 3), 3) ∧
      decodeChainEntry ((Arm64eSlot.authRebase (w := 16) 0x20 ⟨0xbeef, true, .da⟩).word 4) .arm64eKernel bareSlotCtx =
        some ((Arm64eSlot.authRebase (w := 16) 0x20 ⟨0xbeef, true, .da⟩).row bareSlotCtx .arm64eKernel
          ((Arm64eSlot.authRebase (w := 16) 0x20 ⟨0xbeef, true, .da⟩).word 4), 4) := by
  rcases decodeChainEntry_word bareSlotCtx with ⟨ptr64, arm64e⟩
  refine ⟨ptr64 .ptr64 (by decide) (.bind 5 7) 3 ⟨by decide, by decide⟩, ?_⟩
  have fits : (0x1000 : U64).toNat + (0x20 : BitVec 32).toNat < 2^64 := by decide
  exact arm64e .arm64eKernel (by decide) (.authRebase 0x20 ⟨0xbeef, true, .da⟩) 4 fits

end DarwinScope.Fixup
