import Mathlib.Data.Nat.Digits.Lemmas
import DarwinScope.Machine.Slices

namespace Machine

/-- The groups of seven bits of a number, the lowest first, and none more than it needs. -/
def groups (n : Nat) : List Nat := if n = 0 then [0] else Nat.digits 128 n

/-- The bytes of the groups: the high bit says that one more group follows. -/
def continued : List Nat → Bytes
  | [] => []
  | [group] => [BitVec.ofNat 8 group]
  | group :: rest => BitVec.ofNat 8 (128 + group) :: continued rest

def uleb128 (n : Nat) : Bytes := continued (groups n)

theorem groups_ne_nil (n : Nat) : groups n ≠ [] := by
  by_cases zero : n = 0
  · simp [groups, zero]
  · simpa [groups, zero] using Nat.digits_ne_nil_iff_ne_zero.mpr zero

theorem groups_lt {n group : Nat} (member : group ∈ groups n) : group < 128 := by
  by_cases zero : n = 0
  · rw [groups, if_pos zero, List.mem_singleton] at member
    omega
  · rw [groups, if_neg zero] at member
    exact Nat.digits_lt_base (by decide) member

theorem ofDigits_groups (n : Nat) : Nat.ofDigits 128 (groups n) = n := by
  by_cases zero : n = 0
  · simp [groups, zero]
  · rw [groups, if_neg zero, Nat.ofDigits_digits]

theorem groups_length_le {n count : Nat} (some : 0 < count) (fits : n < 128 ^ count) : (groups n).length ≤ count := by
  by_cases zero : n = 0
  · rw [groups, if_pos zero]
    exact some
  · rw [groups, if_neg zero]
    exact (Nat.digits_length_le_iff (by decide) n).mpr fits

theorem foldl_groups (n : Nat) : (groups n).reverse.foldl (fun number group => number * 128 + group) 0 = n := by
  rw [List.foldl_reverse]
  have number := ofDigits_groups n
  rw [Nat.ofDigits_eq_foldr] at number
  refine Eq.trans (congrArg (fun f => List.foldr f 0 (groups n)) ?_) number
  funext group number
  simp only [Nat.cast_id]
  omega

theorem continued_cons (group : Nat) {rest : List Nat} (some : rest ≠ []) :
    continued (group :: rest) = BitVec.ofNat 8 (128 + group) :: continued rest := by
  cases rest with
  | nil => exact absurd rfl some
  | cons next rest => rfl

theorem continued_length (digits : List Nat) : (continued digits).length = digits.length := by
  induction digits with
  | nil => rfl
  | cons group rest ih =>
    by_cases last : rest = []
    · rw [last]
      rfl
    · rw [continued_cons group last, List.length_cons, ih, List.length_cons]

theorem last_group_bits : ∀ group < 128, BitVec.ofNat 8 group &&& 0x80 = 0 ∧
    (BitVec.ofNat 8 group &&& 0x7f).toNat = group := by decide +kernel

theorem more_group_bits : ∀ group < 128, BitVec.ofNat 8 (128 + group) &&& 0x80 ≠ 0 ∧
    (BitVec.ofNat 8 (128 + group) &&& 0x7f).toNat = group := by decide +kernel

def payload (byte : U8) : Nat := byte.toNat % 128

def Continues (byte : U8) : Prop := 128 ≤ byte.toNat

instance (byte : U8) : Decidable (Continues byte) := inferInstanceAs (Decidable (_ ≤ _))

/-- The sum of the payloads, the one of byte `i` times `2^(7 i)`. -/
def payloadSum (bytes : Bytes) : Nat := Nat.ofDigits 128 (bytes.map payload)

def lastPlace (bytes : Bytes) : Option Nat := bytes.findIdx? fun byte => !decide (Continues byte)

section

variable {byte last : U8} {passed rest bytes : Bytes}

theorem payload_lt (byte : U8) : payload byte < 128 := Nat.mod_lt _ (by decide)

theorem payload_and (byte : U8) : (byte &&& 0x7f).toNat = payload byte := and_lowMask_toNat byte 0x7f 7 rfl

theorem high_bit_ne_zero : byte &&& 0x80 ≠ 0 ↔ Continues byte := by
  have bound := byte.isLt
  rw [and_bit_ne_zero byte 0x80 7 rfl, Continues]
  omega

theorem high_bit_eq_zero : byte &&& 0x80 = 0 ↔ ¬ Continues byte := by
  rw [← high_bit_ne_zero, not_not]

theorem payloadSum_cons (byte : U8) (bytes : Bytes) : payloadSum (byte :: bytes) = payload byte + 128 * payloadSum bytes :=
  Nat.ofDigits_cons

theorem payloadSum_append (xs ys : Bytes) : payloadSum (xs ++ ys) = payloadSum xs + 128 ^ xs.length * payloadSum ys := by
  rw [payloadSum, List.map_append, Nat.ofDigits_append, List.length_map, payloadSum, payloadSum]

theorem payloadSum_snoc (passed : Bytes) (last : U8) :
    payloadSum (passed ++ [last]) = payloadSum passed + payload last * 128 ^ passed.length := by
  rw [payloadSum_append, payloadSum_cons, payloadSum, payloadSum, List.map_nil, Nat.ofDigits_nil]
  ring

theorem payloadSum_lt (bytes : Bytes) : payloadSum bytes < 128 ^ bytes.length := by
  have below := Nat.ofDigits_lt_base_pow_length (b := 128) (l := bytes.map payload) (by decide)
    fun group member => by
      rcases List.mem_map.mp member with ⟨byte, -, rfl⟩
      exact payload_lt byte
  rwa [List.length_map] at below

theorem framed_cases (bytes : Bytes) :
    (∃ passed last rest, bytes = passed ++ last :: rest ∧ (∀ byte ∈ passed, Continues byte) ∧ ¬ Continues last) ∨
      ∀ byte ∈ bytes, Continues byte := by
  induction bytes with
  | nil => exact .inr (fun byte member => nomatch member)
  | cons byte bytes ih =>
    by_cases more : Continues byte
    · rcases ih with ⟨passed, last, rest, rfl, continued, ends⟩ | continued
      · exact .inl ⟨byte :: passed, last, rest, rfl, List.forall_mem_cons.mpr ⟨more, continued⟩, ends⟩
      · exact .inr (List.forall_mem_cons.mpr ⟨more, continued⟩)
    · exact .inl ⟨[], byte, bytes, rfl, (fun _ member => nomatch member), more⟩

theorem lastPlace_framed (continued : ∀ byte ∈ passed, Continues byte) (ends : ¬ Continues last) (rest : Bytes) :
    lastPlace (passed ++ last :: rest) = some passed.length := by
  have none : passed.findIdx? (fun byte => !decide (Continues byte)) = none := by
    rw [List.findIdx?_eq_none_iff]
    intro byte member
    rw [decide_eq_true (continued byte member), Bool.not_true]
  rw [lastPlace, List.findIdx?_append, none, List.findIdx?_cons, decide_eq_false ends]
  simp

theorem payload_ofNat {group : Nat} (small : group < 128) : payload (BitVec.ofNat 8 group) = group := by
  rw [payload, BitVec.toNat_ofNat]
  omega

theorem payload_more {group : Nat} (small : group < 128) : payload (BitVec.ofNat 8 (128 + group)) = group := by
  rw [payload, BitVec.toNat_ofNat]
  omega

theorem continues_more {group : Nat} (small : group < 128) : Continues (BitVec.ofNat 8 (128 + group)) := by
  rw [Continues, BitVec.toNat_ofNat]
  omega

theorem not_continues {group : Nat} (small : group < 128) : ¬ Continues (BitVec.ofNat 8 group) := by
  rw [Continues, BitVec.toNat_ofNat]
  omega

theorem payloadSum_continued {digits : List Nat} (small : ∀ group ∈ digits, group < 128) :
    payloadSum (continued digits) = Nat.ofDigits 128 digits := by
  induction digits with
  | nil => rfl
  | cons group digits ih =>
    rcases List.forall_mem_cons.mp small with ⟨here, later⟩
    by_cases last : digits = []
    · rw [last, continued, payloadSum_cons, payload_ofNat here, Nat.ofDigits_cons]
      rfl
    · rw [continued_cons group last, payloadSum_cons, payload_more here, ih later, Nat.ofDigits_cons]

theorem continued_framed {digits : List Nat} (small : ∀ group ∈ digits, group < 128) (some : digits ≠ []) :
    ∃ passed last, continued digits = passed ++ [last] ∧ (∀ byte ∈ passed, Continues byte) ∧ ¬ Continues last := by
  induction digits with
  | nil => exact absurd rfl some
  | cons group digits ih =>
    rcases List.forall_mem_cons.mp small with ⟨here, later⟩
    by_cases last : digits = []
    · rw [last]
      exact ⟨[], _, rfl, (fun _ member => nomatch member), not_continues here⟩
    · rcases ih later last with ⟨passed, ending, same, more, ends⟩
      refine ⟨BitVec.ofNat 8 (128 + group) :: passed, ending, ?_, List.forall_mem_cons.mpr ⟨continues_more here, more⟩, ends⟩
      rw [continued_cons group last, same, List.cons_append]

theorem take_framed (passed : Bytes) (last : U8) (rest : Bytes) :
    (passed ++ last :: rest).take (passed.length + 1) = passed ++ [last] := by
  rw [List.take_length_add_append]
  rfl

theorem lastPlace_continued (continued : ∀ byte ∈ bytes, Continues byte) : lastPlace bytes = none := by
  rw [lastPlace, List.findIdx?_eq_none_iff]
  intro byte member
  rw [decide_eq_true (continued byte member), Bool.not_true]

theorem framed_of_lastPlace {place : Nat} (found : lastPlace bytes = some place) :
    ∃ passed last rest, bytes = passed ++ last :: rest ∧ passed.length = place ∧ (∀ byte ∈ passed, Continues byte) ∧
      ¬ Continues last := by
  rcases framed_cases bytes with ⟨passed, last, rest, rfl, continued, ends⟩ | continued
  · rw [lastPlace_framed continued ends rest] at found
    cases found
    exact ⟨passed, last, rest, rfl, rfl, continued, ends⟩
  · rw [lastPlace_continued continued] at found
    cases found


end

end Machine
