import Mathlib.Data.BitVec
import Mathlib.Data.Nat.Bitwise

namespace Machine

abbrev U8 := BitVec 8
abbrev U16 := BitVec 16
abbrev U32 := BitVec 32
abbrev U64 := BitVec 64

variable {w : Nat}

def checkedAdd (x y : BitVec w) : Option (BitVec w) :=
  if x.toNat + y.toNat < 2^w then some (x + y) else none

def checkedMul (x y : BitVec w) : Option (BitVec w) :=
  if x.toNat * y.toNat < 2^w then some (x * y) else none

def checkedSub (x y : BitVec w) : Option (BitVec w) :=
  if y.toNat ≤ x.toNat then some (x - y) else none

def saturatingAdd (x y : BitVec w) : BitVec w :=
  if x.toNat + y.toNat < 2^w then x + y else BitVec.allOnes w

def saturatingMul (x y : BitVec w) : BitVec w :=
  if x.toNat * y.toNat < 2^w then x * y else BitVec.allOnes w

def saturatingAddSigned (x y : Int) : Int :=
  max (-2^63) (min (2^63 - 1) (x + y))

/-- A `usize` is a natural number below `2^64`; its checked addition tests the same bound. -/
def checkedAddUsize (x y : Nat) : Option Nat :=
  if x + y < 2^64 then some (x + y) else none

def checkedMulUsize (x y : Nat) : Option Nat :=
  if x * y < 2^64 then some (x * y) else none

def saturatingAddUsize (x y : Nat) : Nat :=
  min (x + y) (2^64 - 1)

def saturatingMulUsize (x y : Nat) : Nat :=
  min (x * y) (2^64 - 1)

theorem checkedAdd_of_lt {x y : BitVec w} (fits : x.toNat + y.toNat < 2^w) :
    checkedAdd x y = some (x + y) := if_pos fits

theorem checkedAdd_some {x y z : BitVec w} (sum : checkedAdd x y = some z) :
    z = x + y ∧ z.toNat = x.toNat + y.toNat := by
  unfold checkedAdd at sum
  split at sum
  · rename_i fits
    cases sum
    exact ⟨rfl, by rw [BitVec.toNat_add, Nat.mod_eq_of_lt fits]⟩
  · cases sum

theorem checkedMul_of_lt {x y : BitVec w} (fits : x.toNat * y.toNat < 2^w) :
    checkedMul x y = some (x * y) := if_pos fits

theorem checkedMul_some {x y z : BitVec w} (product : checkedMul x y = some z) :
    z = x * y ∧ z.toNat = x.toNat * y.toNat := by
  unfold checkedMul at product
  split at product
  · rename_i fits
    cases product
    exact ⟨rfl, by rw [BitVec.toNat_mul, Nat.mod_eq_of_lt fits]⟩
  · cases product

theorem checkedAdd_value {x y : BitVec w} (fits : x.toNat + y.toNat < 2^w) :
    ∃ z, checkedAdd x y = some z ∧ z.toNat = x.toNat + y.toNat :=
  ⟨_, checkedAdd_of_lt fits, (checkedAdd_some (checkedAdd_of_lt fits)).2⟩

theorem checkedMul_value {x y : BitVec w} (fits : x.toNat * y.toNat < 2^w) :
    ∃ z, checkedMul x y = some z ∧ z.toNat = x.toNat * y.toNat :=
  ⟨_, checkedMul_of_lt fits, (checkedMul_some (checkedMul_of_lt fits)).2⟩

theorem toNat_ofNat_of_lt {n : Nat} (fits : n < 2^w) : (BitVec.ofNat w n).toNat = n := by
  rw [BitVec.toNat_ofNat, Nat.mod_eq_of_lt fits]

theorem toNat_add_of_lt {x y : BitVec w} (fits : x.toNat + y.toNat < 2^w) :
    (x + y).toNat = x.toNat + y.toNat := by
  rw [BitVec.toNat_add, Nat.mod_eq_of_lt fits]

theorem toNat_add_ofNat {x : BitVec w} {n : Nat} (fits : x.toNat + n < 2^w) :
    (x + BitVec.ofNat w n).toNat = x.toNat + n := by
  rw [BitVec.toNat_add, toNat_ofNat_of_lt (by omega : n < 2^w), Nat.mod_eq_of_lt fits]

theorem add_ofNat_add (x : BitVec w) (m n : Nat) :
    x + BitVec.ofNat w m + BitVec.ofNat w n = x + BitVec.ofNat w (m + n) := by
  rw [BitVec.add_assoc, ← BitVec.ofNat_add]

theorem checkedAdd_ofNat {x : BitVec w} {n : Nat} (fits : x.toNat + n < 2^w) :
    checkedAdd x (BitVec.ofNat w n) = some (x + BitVec.ofNat w n) := by
  apply checkedAdd_of_lt
  rwa [toNat_ofNat_of_lt (by omega : n < 2^w)]

theorem toNat_mul_of_lt {x y : BitVec w} (fits : x.toNat * y.toNat < 2^w) :
    (x * y).toNat = x.toNat * y.toNat := by
  rw [BitVec.toNat_mul, Nat.mod_eq_of_lt fits]

theorem checkedMul_ofNat {m n : Nat} (fits : m * n < 2^w) (left : m < 2^w) (right : n < 2^w) :
    checkedMul (BitVec.ofNat w m) (BitVec.ofNat w n) = some (BitVec.ofNat w (m * n)) := by
  have first : (BitVec.ofNat w m).toNat = m := toNat_ofNat_of_lt left
  have second : (BitVec.ofNat w n).toNat = n := toNat_ofNat_of_lt right
  rw [checkedMul_of_lt (by rwa [first, second]), ← BitVec.ofNat_mul]

theorem checkedEntry {base : BitVec w} {stride i n : Nat} (some : 0 < stride) (below : i < n)
    (room : base.toNat + stride * n < 2^w) :
    checkedMul (BitVec.ofNat w i) (BitVec.ofNat w stride) = .some (BitVec.ofNat w (stride * i)) ∧
      checkedAdd base (BitVec.ofNat w (stride * i)) = .some (base + BitVec.ofNat w (stride * i)) := by
  have inside : stride * i + stride ≤ stride * n := by
    rw [← Nat.mul_succ]
    exact Nat.mul_le_mul_left stride below
  have index : i ≤ stride * i := Nat.le_mul_of_pos_left i some
  constructor
  · have turned := Nat.mul_comm i stride
    rw [← turned]
    apply checkedMul_ofNat <;> omega
  · exact checkedAdd_ofNat (by omega)

theorem saturatingAdd_toNat (x y : BitVec w) :
    (saturatingAdd x y).toNat = min (x.toNat + y.toNat) (2^w - 1) := by
  unfold saturatingAdd
  split
  · rename_i fits
    rw [toNat_add_of_lt fits]
    omega
  · rw [BitVec.toNat_allOnes]
    omega

theorem saturatingMul_toNat (x y : BitVec w) :
    (saturatingMul x y).toNat = min (x.toNat * y.toNat) (2^w - 1) := by
  unfold saturatingMul
  split
  · rename_i fits
    rw [toNat_mul_of_lt fits]
    omega
  · rw [BitVec.toNat_allOnes]
    omega

theorem checkedAddUsize_of_lt {x y : Nat} (fits : x + y < 2^64) :
    checkedAddUsize x y = some (x + y) := if_pos fits

theorem checkedAddUsize_some {x y z : Nat} (sum : checkedAddUsize x y = some z) :
    z = x + y := by
  unfold checkedAddUsize at sum
  split at sum <;> cases sum
  rfl

theorem checkedMulUsize_some {x y z : Nat} (product : checkedMulUsize x y = some z) : z = x * y := by
  unfold checkedMulUsize at product
  split at product
  · cases product
    rfl
  · cases product

theorem checkedAddUsize_none {x y : Nat} (none : checkedAddUsize x y = none) : 2^64 ≤ x + y := by
  by_contra short
  rw [checkedAddUsize_of_lt (Nat.lt_of_not_le short)] at none
  cases none

theorem and_lowMask_toNat (x mask : BitVec w) (k : Nat) (low : mask.toNat = 2^k - 1) :
    (x &&& mask).toNat = x.toNat % 2^k := by
  rw [BitVec.toNat_and, low, Nat.and_two_pow_sub_one_eq_mod]

theorem and_twoPow_of_lt {n k : Nat} (small : n < 2^k) : n &&& 2^k = 0 := by
  apply Nat.eq_of_testBit_eq
  intro i
  rw [Nat.testBit_and, Nat.testBit_two_pow, Nat.zero_testBit]
  by_cases same : k = i
  · rw [← same, Nat.testBit_lt_two_pow small, Bool.false_and]
  · rw [decide_eq_false same, Bool.and_false]

theorem or_and_mask (x low mask : BitVec w) (k n : Nat) (aligned : x.toNat % 2^k = 0) (small : x.toNat < 2^n)
    (few : low.toNat < 2^k) (empty : ∀ i < k, mask.toNat.testBit i = false)
    (full : ∀ i < n, k ≤ i → mask.toNat.testBit i = true) : (x ||| low) &&& mask = x := by
  apply BitVec.eq_of_toNat_eq
  rw [BitVec.toNat_and, BitVec.toNat_or]
  apply Nat.eq_of_testBit_eq
  intro i
  rw [Nat.testBit_and, Nat.testBit_or]
  by_cases lower : i < k
  · have bit := Nat.testBit_mod_two_pow x.toNat k i
    rw [aligned, Nat.zero_testBit, decide_eq_true lower, Bool.true_and] at bit
    rw [empty i lower, Bool.and_false, ← bit]
  · have above : low.toNat < 2^i := Nat.lt_of_lt_of_le few (Nat.pow_le_pow_right (by decide) (by omega))
    rw [Nat.testBit_lt_two_pow above, Bool.or_false]
    by_cases inside : i < n
    · rw [full i inside (by omega), Bool.and_true]
    · have past : x.toNat < 2^i := Nat.lt_of_lt_of_le small (Nat.pow_le_pow_right (by decide) (by omega))
      rw [Nat.testBit_lt_two_pow past, Bool.false_and]

theorem shiftRight_toNat (x : BitVec w) (k : Nat) : (x >>> k).toNat = x.toNat / 2^k := by
  rw [BitVec.toNat_ushiftRight, Nat.shiftRight_eq_div_pow]

theorem field_toNat (x mask : BitVec w) (n k : Nat) (low : mask.toNat = 2^k - 1) :
    ((x >>> n) &&& mask).toNat = x.toNat / 2^n % 2^k := by
  rw [and_lowMask_toNat _ _ k low, shiftRight_toNat]

theorem and_bit_ne_zero (x mask : BitVec w) (k : Nat) (bit : mask.toNat = 2^k) :
    x &&& mask ≠ 0 ↔ x.toNat / 2^k % 2 = 1 := by
  have value : (x &&& mask).toNat = (x.toNat.testBit k).toNat * 2^k := by
    rw [BitVec.toNat_and, bit, Nat.and_two_pow]
  have place : x.toNat.testBit k = decide (x.toNat / 2^k % 2 = 1) := Nat.testBit_eq_decide_div_mod_eq
  cases set : x.toNat.testBit k with
  | false =>
    rw [set] at value place
    have zero : x &&& mask = 0 := BitVec.eq_of_toNat_eq (by simpa using value)
    exact iff_of_false (not_not.mpr zero) (of_decide_eq_false place.symm)
  | true =>
    rw [set] at value place
    have nonzero : x &&& mask ≠ 0 := by
      intro zero
      have positive := Nat.two_pow_pos k
      rw [zero] at value
      simp at value
      omega
    exact iff_of_true nonzero (of_decide_eq_true place.symm)

def hasBit (x : BitVec w) (n : Nat) : Bool := decide (x &&& 1#w <<< n ≠ 0)

theorem oneBit_toNat {n : Nat} (inside : n < w) : (1#w <<< n).toNat = 2^n := by
  have one : (1#w).toNat = 1 := Nat.mod_eq_of_lt (Nat.one_lt_two_pow (Nat.ne_zero_of_lt inside))
  have small : 2^n < 2^w := Nat.pow_lt_pow_right (by decide) inside
  rw [BitVec.toNat_shiftLeft, one, Nat.one_shiftLeft, Nat.mod_eq_of_lt small]

theorem and_or_ne_zero (x a b : BitVec w) :
    decide (x &&& (a ||| b) ≠ 0) = (decide (x &&& a ≠ 0) || decide (x &&& b ≠ 0)) := by
  have both : (x &&& a) ||| (x &&& b) = 0 ↔ x &&& a = 0 ∧ x &&& b = 0 := BitVec.or_eq_zero_iff
  rw [← Bool.decide_or, decide_eq_decide, BitVec.and_or_distrib_left, Ne, both]
  exact not_and_or

theorem and_place_toNat (x mask : BitVec w) (n k : Nat) (place : mask.toNat = (2^k - 1) * 2^n) :
    (x &&& mask).toNat = x.toNat / 2^n % 2^k * 2^n := by
  apply Nat.eq_of_testBit_eq
  intro i
  rw [BitVec.toNat_and, place, Nat.testBit_and, Nat.testBit_mul_two_pow, Nat.testBit_mul_two_pow,
    Nat.testBit_two_pow_sub_one, Nat.testBit_mod_two_pow, Nat.testBit_div_two_pow]
  by_cases inside : n ≤ i
  · rw [Nat.sub_add_cancel inside]
    cases x.toNat.testBit i <;> simp
  · simp [inside]

theorem and_bit_eq_iff (x mask : BitVec w) (k : Nat) (bit : mask.toNat = 2^k) : x &&& mask = mask ↔ x &&& mask ≠ 0 := by
  have kept : (x &&& mask).toNat = (x.toNat.testBit k).toNat * 2^k := by rw [BitVec.toNat_and, bit, Nat.and_two_pow]
  have nonzero := Nat.two_pow_pos k
  rw [Ne, ← BitVec.toNat_inj, ← BitVec.toNat_inj, kept, bit]
  cases x.toNat.testBit k with
  | false =>
    simp
    omega
  | true => simp

end Machine
