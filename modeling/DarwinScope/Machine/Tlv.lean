import Mathlib.Data.Nat.Log
import Mathlib.Tactic.Linarith
import Mathlib.Tactic.Ring
import DarwinScope.Machine.Slices

namespace Machine

def byteCount (n : Nat) : Nat := Nat.log 256 n + 1

/-- The definite length field: one byte, or the number of bytes that follow and then these. -/
def definiteLength (n : Nat) : Bytes :=
  if n < 128 then [BitVec.ofNat 8 n] else BitVec.ofNat 8 (128 + byteCount n) :: beBytes (byteCount n) n

def tlv (tag : U8) (body : Bytes) : Bytes := tag :: (definiteLength body.length ++ body)

/-- The content of a non-negative integer, with a clear sign bit and as short as that allows. -/
def integerBytes (n : Nat) : Bytes := beBytes (byteCount (2 * n)) n

variable {n count : Nat} {bytes : Bytes}

theorem lt_byteCount (n : Nat) : n < 256 ^ byteCount n := Nat.lt_pow_succ_log_self (by decide) n

theorem byteCount_le (some : 0 < count) (fits : n < 256 ^ count) : byteCount n ≤ count := by
  unfold byteCount
  by_cases zero : n = 0
  · rw [zero, Nat.log_zero_right]
    omega
  · have below := Nat.log_lt_of_lt_pow zero fits
    omega

theorem leNumber_append (first second : Bytes) :
    leNumber (first ++ second) = leNumber first + 256 ^ first.length * leNumber second := by
  induction first with
  | nil => simp
  | cons byte first ih =>
    rw [List.cons_append, leNumber_cons, ih, leNumber_cons, List.length_cons, Nat.pow_succ]
    ring

theorem beNumber_cons (byte : U8) (bytes : Bytes) :
    beNumber (byte :: bytes) = byte.toNat * 256 ^ bytes.length + beNumber bytes := by
  rw [beNumber, List.reverse_cons, leNumber_append, List.length_reverse, leNumber_cons, leNumber_nil, beNumber]
  ring

theorem shift_or (acc : Nat) (byte : U8) : acc <<< 8 ||| byte.toNat = acc * 256 + byte.toNat := by
  rw [← Nat.shiftLeft_add_eq_or_of_lt byte.isLt, Nat.shiftLeft_eq]

theorem foldl_shift (acc : Nat) (bytes : Bytes) :
    bytes.foldl (fun acc byte => acc <<< 8 ||| byte.toNat) acc = acc * 256 ^ bytes.length + beNumber bytes := by
  induction bytes generalizing acc with
  | nil => simp [beNumber]
  | cons byte bytes ih =>
    rw [List.foldl_cons, ih, shift_or, beNumber_cons, List.length_cons, Nat.pow_succ]
    ring

theorem foldl_word {w : Nat} (acc : BitVec w) (bytes : Bytes) (wide : 8 ≤ w)
    (fits : acc.toNat * 256 ^ bytes.length + beNumber bytes < 2^w) :
    (bytes.foldl (fun (acc : BitVec w) (byte : U8) => acc <<< 8 ||| byte.setWidth w) acc).toNat =
      acc.toNat * 256 ^ bytes.length + beNumber bytes := by
  induction bytes generalizing acc with
  | nil => simp [beNumber]
  | cons byte bytes ih =>
    have small := byte.isLt
    have positive : 0 < 256 ^ bytes.length := Nat.pow_pos (by decide)
    rw [beNumber_cons, List.length_cons, Nat.pow_succ] at fits
    have head : (acc <<< 8 ||| byte.setWidth w).toNat = acc.toNat * 256 + byte.toNat := by
      have room : acc.toNat * 256 < 2^w := by nlinarith
      have whole : 2^8 ≤ 2^w := Nat.pow_le_pow_right (by decide) wide
      rw [BitVec.toNat_or, BitVec.toNat_shiftLeft, BitVec.toNat_setWidth, Nat.mod_eq_of_lt (a := byte.toNat) (by omega),
        Nat.shiftLeft_eq, Nat.mod_eq_of_lt (by omega), ← shift_or, Nat.shiftLeft_eq]
    have next : (acc.toNat * 256 + byte.toNat) * 256 ^ bytes.length + beNumber bytes < 2^w := by
      calc (acc.toNat * 256 + byte.toNat) * 256 ^ bytes.length + beNumber bytes
          = acc.toNat * (256 ^ bytes.length * 256) + (byte.toNat * 256 ^ bytes.length + beNumber bytes) := by ring
        _ < 2^w := fits
    rw [List.foldl_cons, ih _ (by rw [head]; exact next), head, beNumber_cons, List.length_cons, Nat.pow_succ]
    ring

theorem beNumber_integerBytes (n : Nat) : beNumber (integerBytes n) = n := by
  have bound := lt_byteCount (2 * n)
  exact beNumber_beBytes _ n (by omega)

theorem integerBytes_length_le (some : 0 < count) (fits : 2 * n < 256 ^ count) : (integerBytes n).length ≤ count := by
  rw [integerBytes, beBytes_length]
  exact byteCount_le some fits

theorem tlv_length (tag : U8) (body : Bytes) :
    (tlv tag body).length = 1 + (definiteLength body.length).length + body.length := by
  rw [tlv, List.length_cons, List.length_append]
  omega

end Machine
