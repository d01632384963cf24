import DarwinScope.Machine.Tlv

namespace Machine

def signedNumber (bytes : Bytes) : Int :=
  if 2 * beNumber bytes < 256 ^ bytes.length then beNumber bytes else (beNumber bytes : Int) - (256 ^ bytes.length : Nat)

theorem leNumber_lt (bytes : Bytes) : leNumber bytes < 256 ^ bytes.length := by
  induction bytes with
  | nil => exact Nat.one_pos
  | cons byte bytes ih =>
    have small := byte.isLt
    rw [leNumber_cons, List.length_cons, Nat.pow_succ]
    omega

theorem leBytes_leNumber (bytes : Bytes) : leBytes bytes.length (leNumber bytes) = bytes := by
  induction bytes with
  | nil => rfl
  | cons byte bytes ih =>
    have small := byte.isLt
    have low : BitVec.ofNat 8 (byte.toNat + 256 * leNumber bytes) = byte := by
      apply BitVec.eq_of_toNat_eq
      rw [BitVec.toNat_ofNat]
      omega
    have high : (byte.toNat + 256 * leNumber bytes) / 256 = leNumber bytes := by omega
    rw [List.length_cons, leNumber_cons, leBytes, low, high, ih]

theorem beNumber_lt (bytes : Bytes) : beNumber bytes < 256 ^ bytes.length := by
  have bound := leNumber_lt bytes.reverse
  rwa [List.length_reverse] at bound

variable {xs ys : Bytes}

theorem beNumber_inj (length : xs.length = ys.length) (same : beNumber xs = beNumber ys) : xs = ys := by
  have back : ∀ bytes : Bytes, (leBytes bytes.length (beNumber bytes)).reverse = bytes := by
    intro bytes
    have whole := leBytes_leNumber bytes.reverse
    rw [List.length_reverse] at whole
    rw [beNumber, whole, List.reverse_reverse]
  rw [← back xs, ← back ys, length, same]

theorem signedNumber_inj (length : xs.length = ys.length) (same : signedNumber xs = signedNumber ys) : xs = ys := by
  have below := beNumber_lt xs
  have below' := beNumber_lt ys
  apply beNumber_inj length
  rw [signedNumber, signedNumber, length] at same
  rw [length] at below
  split at same <;> split at same <;> omega

theorem signedNumber_eq_beNumber_iff : signedNumber xs = beNumber xs ↔ 2 * beNumber xs < 256 ^ xs.length := by
  have positive : 0 < 256 ^ xs.length := Nat.pow_pos (by decide)
  rw [signedNumber]
  split
  · simp [*]
  · simp only [*, iff_false]
    omega

theorem high_bit_clear_iff (byte : U8) (bytes : Bytes) :
    2 * beNumber (byte :: bytes) < 256 ^ (byte :: bytes).length ↔ byte.toNat < 128 := by
  have below := beNumber_lt bytes
  have positive : 0 < 256 ^ bytes.length := Nat.pow_pos (by decide)
  rw [beNumber_cons, List.length_cons, Nat.pow_succ]
  constructor
  · intro small
    by_contra high
    have product : 128 * 256 ^ bytes.length ≤ byte.toNat * 256 ^ bytes.length := Nat.mul_le_mul_right _ (by omega)
    omega
  · intro low
    have product : (byte.toNat + 1) * 256 ^ bytes.length ≤ 128 * 256 ^ bytes.length := Nat.mul_le_mul_right _ low
    rw [Nat.add_mul, Nat.one_mul] at product
    omega

theorem toInt_word {w : Nat} (bytes : Bytes) (whole : 2^w = 256 ^ bytes.length) :
    (BitVec.ofNat w (beNumber bytes)).toInt = signedNumber bytes := by
  have below := beNumber_lt bytes
  rw [BitVec.toInt_eq_toNat_cond, BitVec.toNat_ofNat, whole, Nat.mod_eq_of_lt below, signedNumber]

end Machine
