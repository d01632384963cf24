import DarwinScope.Machine.Words

namespace Machine

/-- A field of a packed word, lowest first in a list of them. -/
abbrev BitField : Type := Σ w : Nat, BitVec w

def pack : List BitField → Nat
  | [] => 0
  | field :: rest => field.2.toNat + 2^field.1 * pack rest

def packWidth (fields : List BitField) : Nat := (fields.map Sigma.fst).sum

theorem packWidth_cons (field : BitField) (rest : List BitField) :
    packWidth (field :: rest) = field.1 + packWidth rest := by
  rw [packWidth, List.map_cons, List.sum_cons, packWidth]

theorem packWidth_append (before after : List BitField) :
    packWidth (before ++ after) = packWidth before + packWidth after := by
  rw [packWidth, List.map_append, List.sum_append, packWidth, packWidth]

theorem pack_lt (fields : List BitField) : pack fields < 2^packWidth fields := by
  induction fields with
  | nil => decide
  | cons field rest ih =>
    have small := field.2.isLt
    have whole : 2^field.1 * (pack rest + 1) ≤ 2^field.1 * 2^packWidth rest := Nat.mul_le_mul_left _ ih
    rw [packWidth_cons, Nat.pow_add]
    rw [Nat.mul_succ] at whole
    rw [pack]
    omega

theorem pack_above (field : BitField) (rest : List BitField) : pack (field :: rest) / 2^field.1 = pack rest := by
  rw [pack, Nat.add_mul_div_left _ _ (Nat.two_pow_pos _), Nat.div_eq_of_lt field.2.isLt, Nat.zero_add]

theorem pack_behind (before after : List BitField) : pack (before ++ after) / 2^packWidth before = pack after := by
  induction before with
  | nil => exact Nat.div_one _
  | cons field before ih =>
    rw [packWidth_cons, Nat.pow_add, ← Nat.div_div_eq_div_mul, List.cons_append, pack_above, ih]

theorem pack_field (before after : List BitField) {w : Nat} (v : BitVec w) :
    pack (before ++ ⟨w, v⟩ :: after) / 2^packWidth before % 2^w = v.toNat := by
  rw [pack_behind, pack, Nat.add_mul_mod_self_left, Nat.mod_eq_of_lt v.isLt]

def packed (fields : List BitField) : U64 := BitVec.ofNat 64 (pack fields)

section

variable {fields : List BitField}

theorem packed_toNat (whole : packWidth fields = 64) : (packed fields).toNat = pack fields := by
  have bound := pack_lt fields
  rw [whole] at bound
  rw [packed, toNat_ofNat_of_lt bound]

theorem packed_shift_and (before after : List BitField) {w : Nat} (v : BitVec w) (mask : U64) (n : Nat)
    (at? : fields = before ++ ⟨w, v⟩ :: after) (whole : packWidth fields = 64) (place : packWidth before = n)
    (low : mask.toNat = 2^w - 1) (narrow : w ≤ 64) : (packed fields >>> n) &&& mask = v.setWidth 64 := by
  apply BitVec.eq_of_toNat_eq
  have bound : v.toNat < 2^64 := Nat.lt_of_lt_of_le v.isLt (Nat.pow_le_pow_right (by decide) narrow)
  rw [field_toNat _ _ _ w low, packed_toNat whole, at?, ← place, pack_field, BitVec.toNat_setWidth, Nat.mod_eq_of_lt bound]

theorem packed_and (after : List BitField) {w : Nat} (v : BitVec w) (mask : U64) (at? : fields = ⟨w, v⟩ :: after)
    (whole : packWidth fields = 64) (low : mask.toNat = 2^w - 1) (narrow : w ≤ 64) :
    packed fields &&& mask = v.setWidth 64 := by
  have shifted := packed_shift_and [] after v mask 0 at? whole rfl low narrow
  rwa [BitVec.ushiftRight_zero] at shifted

end

section

variable {w n : Nat} {fields : List BitField}

def packedIn (w : Nat) (fields : List BitField) : BitVec w := BitVec.ofNat w (pack fields)

theorem packedIn_toNat (whole : packWidth fields = w) : (packedIn w fields).toNat = pack fields := by
  have bound := pack_lt fields
  rw [whole] at bound
  rw [packedIn, BitVec.toNat_ofNat, Nat.mod_eq_of_lt bound]

theorem packedIn_shift_and (before after : List BitField) {k : Nat} (v : BitVec k) (mask : BitVec w)
    (at? : fields = before ++ ⟨k, v⟩ :: after) (whole : packWidth fields = w) (place : packWidth before = n)
    (low : mask.toNat = 2^k - 1) : ((packedIn w fields >>> n) &&& mask).toNat = v.toNat := by
  rw [field_toNat _ _ _ k low, packedIn_toNat whole, at?, ← place, pack_field]

theorem packedIn_and (after : List BitField) {k : Nat} (v : BitVec k) (mask : BitVec w)
    (at? : fields = ⟨k, v⟩ :: after) (whole : packWidth fields = w) (low : mask.toNat = 2^k - 1) :
    (packedIn w fields &&& mask).toNat = v.toNat := by
  rw [and_lowMask_toNat _ _ k low, packedIn_toNat whole, at?, pack, Nat.add_mul_mod_self_left, Nat.mod_eq_of_lt v.isLt]

theorem packedIn_shift (before : List BitField) {k : Nat} (v : BitVec k) (at? : fields = before ++ [⟨k, v⟩])
    (whole : packWidth fields = w) (place : packWidth before = n) : (packedIn w fields >>> n).toNat = v.toNat := by
  rw [shiftRight_toNat, packedIn_toNat whole, at?, ← place, pack_behind, pack, pack, Nat.mul_zero, Nat.add_zero]

end

section

variable {w n : Nat}

theorem widened {k : Nat} {word : BitVec w} {v : BitVec k} (same : word.toNat = v.toNat) :
    word.setWidth n = v.setWidth n := by
  apply BitVec.eq_of_toNat_eq
  rw [BitVec.toNat_setWidth, BitVec.toNat_setWidth, same]

theorem setWidth_of_toNat {word : BitVec w} {v : BitVec n} (same : word.toNat = v.toNat) : word.setWidth n = v := by
  rw [widened same, BitVec.setWidth_eq]

end

end Machine
