import DarwinScope.Machine.Base128

namespace Machine

def signedPayload (byte : U8) : Int := if 64 ≤ payload byte then (payload byte : Int) - 128 else payload byte

/-- The sum of the payloads, less `2^(7 n)` for `n` bytes when bit six of the last one is set. -/
def signedSum (bytes : Bytes) : Int :=
  if 64 ≤ (bytes.getLast?.map payload).getD 0 then (payloadSum bytes : Int) - (128 ^ bytes.length : Nat)
  else payloadSum bytes

def sleb128 (v : Int) : Bytes :=
  if -64 ≤ v ∧ v < 64 then [BitVec.ofNat 8 (v % 128).toNat]
  else BitVec.ofNat 8 (128 + (v % 128).toNat) :: sleb128 (v / 128)
termination_by v.natAbs
decreasing_by omega

section

variable {passed enc : Bytes} {last : U8} {v : Int}

theorem signedSum_snoc (passed : Bytes) (last : U8) :
    signedSum (passed ++ [last]) = payloadSum passed + signedPayload last * (128 ^ passed.length : Nat) := by
  have length : 128 ^ (passed ++ [last]).length = 128 * 128 ^ passed.length := by
    rw [List.length_append, List.length_singleton, Nat.pow_succ, Nat.mul_comm]
  rw [signedSum, List.getLast?_concat, Option.map_some, Option.getD_some, payloadSum_snoc, length, signedPayload]
  split
  · push_cast
    ring
  · push_cast
    ring

theorem signedSum_cons (byte : U8) (passed : Bytes) (last : U8) :
    signedSum (byte :: (passed ++ [last])) = payload byte + 128 * signedSum (passed ++ [last]) := by
  rw [← List.cons_append, signedSum_snoc, signedSum_snoc, payloadSum_cons, List.length_cons, Nat.pow_succ]
  push_cast
  ring

theorem signedSum_bounds (passed : Bytes) (last : U8) :
    -(64 * (128 ^ passed.length : Nat) : Int) ≤ signedSum (passed ++ [last]) ∧
      signedSum (passed ++ [last]) < 64 * (128 ^ passed.length : Nat) := by
  have below := payloadSum_lt passed
  have small := payload_lt last
  have low : -64 ≤ signedPayload last ∧ signedPayload last ≤ 63 := by
    rw [signedPayload]
    split <;> omega
  have least : -64 * (128 ^ passed.length : Nat) ≤ signedPayload last * (128 ^ passed.length : Nat) :=
    Int.mul_le_mul_of_nonneg_right low.1 (Int.natCast_nonneg _)
  have most : signedPayload last * (128 ^ passed.length : Nat) ≤ 63 * (128 ^ passed.length : Nat) :=
    Int.mul_le_mul_of_nonneg_right low.2 (Int.natCast_nonneg _)
  rw [signedSum_snoc]
  omega

theorem sleb128_framed (v : Int) :
    ∃ passed last, sleb128 v = passed ++ [last] ∧ (∀ byte ∈ passed, Continues byte) ∧ ¬ Continues last ∧
      signedSum (passed ++ [last]) = v := by
  induction v using sleb128.induct with
  | case1 v small =>
    have low : (v % 128).toNat < 128 := by omega
    refine ⟨[], _, by rw [sleb128, if_pos small, List.nil_append], (fun _ member => nomatch member), not_continues low, ?_⟩
    rw [signedSum_snoc, signedPayload, payload_ofNat low]
    simp only [payloadSum, List.map_nil, Nat.ofDigits_nil, List.length_nil, pow_zero]
    split <;> omega
  | case2 v wide ih =>
    have low : (v % 128).toNat < 128 := by omega
    rcases ih with ⟨passed, last, same, continued, ends, sum⟩
    refine ⟨BitVec.ofNat 8 (128 + (v % 128).toNat) :: passed, last, ?_, List.forall_mem_cons.mpr ⟨continues_more low,
      continued⟩, ends, ?_⟩
    · rw [sleb128, if_neg wide, same, List.cons_append]
    · rw [List.cons_append, signedSum_cons, sum, payload_more low]
      omega

theorem sleb128_length_le (v : Int) (n : Nat) (least : -(64 * (128 ^ n : Nat) : Int) ≤ v) (most : v < 64 * (128 ^ n : Nat)) :
    (sleb128 v).length ≤ n + 1 := by
  induction v using sleb128.induct generalizing n with
  | case1 v small =>
    rw [sleb128, if_pos small]
    exact Nat.succ_le_succ (Nat.zero_le n)
  | case2 v wide ih =>
    rw [sleb128, if_neg wide, List.length_cons]
    cases n with
    | zero => omega
    | succ n =>
      rw [Nat.pow_succ] at least most
      have shorter := ih n (by omega) (by omega)
      omega

/-- No byte run that stands for the number is shorter. -/
theorem sleb128_shortest {enc : Bytes} (some : enc ≠ []) (sum : signedSum enc = v) : (sleb128 v).length ≤ enc.length := by
  rcases List.eq_nil_or_concat enc with none | ⟨passed, last, rfl⟩
  · exact absurd none some
  · rcases signedSum_bounds passed last with ⟨least, most⟩
    rw [List.concat_eq_append] at sum ⊢
    rw [sum] at least most
    have length := sleb128_length_le v passed.length least most
    rwa [List.length_append, List.length_singleton]

end

end Machine
