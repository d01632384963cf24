import DarwinScope.Leb128
import DarwinScope.Machine.SignedBase128

namespace DarwinScope

open Machine

/-- The loop over the bytes; the word holds an `i64`. Its checked sums and its checked shift cannot fail. -/
def sleb128From (result : U64) (shift consumed : Nat) : Bytes → Option (U64 × Nat)
  | [] => none
  | byte :: rest =>
    let payload : U64 := (byte &&& 0x7f).setWidth 64
    if 64 ≤ shift then
      if byte &&& 0x80 ≠ 0 then none
      else
        let expected : U64 := if result.slt 0 then 0x7f else 0
        if payload ≠ expected then none else some (result, consumed + 1)
    else
      let result := result ||| payload <<< shift
      let nextShift := shift + 7
      if byte &&& 0x80 = 0 then
        let result := if byte &&& 0x40 ≠ 0 ∧ nextShift < 64 then result ||| (-1 : U64) <<< nextShift else result
        some (result, consumed + 1)
      else sleb128From result nextShift (consumed + 1) rest

def readSleb128 (bytes : Bytes) : Option (U64 × Nat) := sleb128From 0 0 0 bytes

variable {byte last tenth : U8} {passed nine rest bytes : Bytes} {result value : U64} {shift used : Nat}

theorem sleb128From_accumulates : Accumulates sleb128From := by
  intro result shift consumed byte rest more room
  rw [sleb128From]
  simp only [if_neg (by omega : ¬ 64 ≤ shift), if_neg (high_bit_ne_zero.mpr more)]

theorem sign_bit_ne_zero (byte : U8) : byte &&& 0x40 ≠ 0 ↔ 64 ≤ payload byte := by
  rw [and_bit_ne_zero byte 0x40 6 rfl, payload]
  omega

theorem or_ones_toInt (below : result.toNat < 2^shift) (room : shift < 64) :
    (result ||| (-1 : U64) <<< shift).toInt = (result.toNat : Int) - (2^shift : Nat) := by
  have whole : 2^64 = 2^(64 - shift) * 2^shift := by rw [← Nat.pow_add, Nat.sub_add_cancel (by omega)]
  have half : 2^64 = 2^(63 - shift) * (2 * 2^shift) := by
    rw [← Nat.mul_assoc, Nat.mul_comm _ 2, Nat.mul_assoc, ← Nat.pow_add, Nat.sub_add_cancel (by omega)]
    rfl
  have some : 1 ≤ 2^(63 - shift) := Nat.two_pow_pos _
  have product : 1 * (2 * 2^shift) ≤ 2^(63 - shift) * (2 * 2^shift) := Nat.mul_le_mul_right _ some
  have ones : (-1 : U64).toNat % 2^(64 - shift) = 2^(64 - shift) - 1 := by
    obtain ⟨count, units⟩ : ∃ count, 2^shift = count + 1 := ⟨2^shift - 1, by have := Nat.two_pow_pos shift; omega⟩
    have full : (-1 : U64).toNat = 2^(64 - shift) - 1 + 2^(64 - shift) * count := by
      have top : (-1 : U64).toNat = 2^64 - 1 := rfl
      have positive := Nat.two_pow_pos (64 - shift)
      rw [top, whole, units, Nat.mul_succ]
      omega
    rw [full, Nat.add_mul_mod_self_left, Nat.mod_eq_of_lt (Nat.sub_lt (Nat.two_pow_pos _) Nat.one_pos)]
  have value := @or_shift_toNat result shift (-1) below room
  rw [ones, Nat.sub_mul, Nat.one_mul, ← whole] at value
  rw [BitVec.toInt_eq_toNat_cond, value]
  split <;> omega

theorem toInt_of_small (small : result.toNat < 2^63) : result.toInt = result.toNat := by
  rw [BitVec.toInt_eq_toNat_cond, if_pos (by omega)]

theorem sleb128From_last (ends : ¬ Continues last) (room : shift < 64) (consumed : Nat) (rest : Bytes) :
    sleb128From result shift consumed (last :: rest) = some
      (if 64 ≤ payload last ∧ shift + 7 < 64 then
        result ||| ((last &&& 0x7f).setWidth 64 : U64) <<< shift ||| (-1 : U64) <<< (shift + 7)
      else result ||| ((last &&& 0x7f).setWidth 64 : U64) <<< shift, consumed + 1) := by
  rw [sleb128From]
  simp only [if_neg (by omega : ¬ 64 ≤ shift), if_pos (high_bit_eq_zero.mpr ends), sign_bit_ne_zero]

theorem readSleb128_short (continued : ∀ byte ∈ passed, Continues byte) (few : passed.length < 9) (ends : ¬ Continues last)
    (rest : Bytes) : ∃ value : U64, readSleb128 (passed ++ last :: rest) = some (value, passed.length + 1) ∧
      value.toInt = signedSum (passed ++ [last]) := by
  rcases sleb128From_accumulates.start continued (by omega) (last :: rest) with ⟨word, same, sum, below⟩
  rw [← sum] at below
  have chunk := chunk_toNat_of_room below (by omega) last
  have higher := chunk_below below last
  have unit : 2^(7 * passed.length) = 128 ^ passed.length := by rw [Nat.pow_mul]
  have next : 2^(7 * passed.length + 7) = 128 * 128 ^ passed.length := by rw [Nat.pow_add, unit, Nat.mul_comm]
  have room : 2^(7 * passed.length + 7) ≤ 2^63 := Nat.pow_le_pow_right (by decide) (by omega)
  rw [readSleb128, same, sleb128From_last ends (by omega)]
  refine ⟨_, rfl, ?_⟩
  rw [signedSum_snoc, signedPayload]
  by_cases negative : 64 ≤ payload last
  · rw [if_pos ⟨negative, by omega⟩, if_pos negative, or_ones_toInt (by rw [chunk]; exact higher) (by omega), chunk,
      sum, next, unit]
    push_cast
    ring
  · rw [if_neg fun both => negative both.1, if_neg negative, toInt_of_small (by rw [chunk]; omega), chunk, sum, unit]
    push_cast
    ring

theorem readSleb128_broken (continued : ∀ byte ∈ bytes, Continues byte) (few : bytes.length ≤ 9) :
    readSleb128 bytes = none := by
  rcases sleb128From_accumulates.start continued few [] with ⟨word, same, -⟩
  rw [List.append_nil] at same
  rw [readSleb128, same, sleb128From]

/-- A byte behind the tenth is taken only when it repeats the sign bit of the word in all of its payload. -/
theorem sleb128From_past {value : U64} {low bit : Nat} (word : value.toNat = low + bit * 2^63) (small : low < 2^63)
    (single : bit < 2) (consumed : Nat) (byte : U8) (rest : Bytes) :
    sleb128From value 70 consumed (byte :: rest) = if byte.toNat = bit * 127 then some (value, consumed + 1) else none := by
  have bound := byte.isLt
  rw [sleb128From]
  simp only [if_pos (by decide : 64 ≤ 70)]
  by_cases more : Continues byte
  · rw [if_pos (high_bit_ne_zero.mpr more), if_neg]
    rw [Continues] at more
    omega
  · have low : ((byte &&& 0x7f).setWidth 64 : U64).toNat = byte.toNat := by
      rw [Continues] at more
      rw [BitVec.toNat_setWidth, payload_and, payload]
      omega
    have expected : (if value.slt 0 then (0x7f : U64) else 0).toNat = bit * 127 := by
      have sign : value.slt 0 = decide (2^63 ≤ value.toNat) := by
        have zero : (0 : U64).toInt = 0 := rfl
        rw [BitVec.slt, zero, BitVec.toInt_eq_toNat_cond]
        apply decide_eq_decide.mpr
        split <;> omega
      rw [sign]
      split <;> rename_i negative
      · have one : bit = 1 := by
          have past := of_decide_eq_true negative
          omega
        rw [one]
        rfl
      · have zero : bit = 0 := by
          have short := of_decide_eq_false (Bool.eq_false_of_not_eq_true negative)
          omega
        rw [zero]
        rfl
    have equal : ((byte &&& 0x7f).setWidth 64 : U64) ≠ (if value.slt 0 then 0x7f else 0) ↔ ¬ byte.toNat = bit * 127 := by
      rw [← low, ← expected, not_iff_not]
      exact ⟨congrArg BitVec.toNat, BitVec.eq_of_toNat_eq⟩
    rw [if_neg (not_not.mpr (high_bit_eq_zero.mpr more))]
    simp only [equal, ite_not]

/-- Behind nine bytes that continue only the lowest payload bit has room, and only a byte that repeats it may follow. -/
theorem readSleb128_long (continued : ∀ byte ∈ nine, Continues byte) (nines : nine.length = 9) (tenth : U8) (rest : Bytes) :
    ∃ value : U64, value.toNat = payloadSum nine + payload tenth % 2 * 2^63 ∧ payloadSum nine < 2^63 ∧
      readSleb128 (nine ++ tenth :: rest) =
        if Continues tenth then
          if rest.head?.map BitVec.toNat = some (payload tenth % 2 * 127) then some (value, 11) else none
        else some (value, 10) := by
  rcases sleb128From_accumulates.start continued (by omega) (tenth :: rest) with ⟨word, same, sum, below⟩
  rw [nines] at same below
  have above := below
  rw [← sum] at above
  have chunk := chunk_toNat above (by decide) tenth
  have value := chunk.trans (by rw [sum]; rfl : _ = payloadSum nine + payload tenth % 2 * 2^63)
  refine ⟨_, value, below, ?_⟩
  rw [readSleb128, same]
  by_cases more : Continues tenth
  · rw [sleb128From_accumulates _ _ _ _ _ more (by decide), if_pos more]
    cases rest with
    | nil => rfl
    | cons byte rest =>
      simp only [List.head?_cons, Option.map_some, Option.some.injEq]
      exact sleb128From_past value below (Nat.mod_lt _ (by decide)) 10 byte rest
  · rw [if_neg more, sleb128From_last more (by decide), if_neg (by omega)]

/-- The read takes the bytes up to the first one with a clear high bit and returns their signed sum. -/
def Sleb128Exact (bytes : Bytes) : Prop :=
  ∀ value used, readSleb128 bytes = some (value, used) → ∃ place, lastPlace bytes = some place ∧ used = place + 1 ∧
    value.toInt = signedSum (bytes.take used)

/-- Nine bytes continue, and the payload of a tenth one, which is not one bit repeated, is the last or has only a byte
    behind it that repeats its lowest bit. -/
def TenthMixes (bytes : Bytes) : Prop :=
  (∀ byte ∈ bytes.take 9, Continues byte) ∧ ∃ tenth, bytes[9]? = some tenth ∧ payload tenth ≠ 0 ∧ payload tenth ≠ 127 ∧
    (Continues tenth → bytes[10]?.map BitVec.toNat = some (payload tenth % 2 * 127))

theorem toInt_of_top {low bit : Nat} (word : value.toNat = low + bit * 2^63) (small : low < 2^63) (single : bit < 2) :
    value.toInt = (low : Int) - bit * 2^63 := by
  rw [BitVec.toInt_eq_toNat_cond, word]
  split <;> omega

/-- The value of ten bytes is the signed sum when the tenth payload is one bit repeated, and only then. -/
theorem signedSum_ten_iff (nines : nine.length = 9) (tenth : U8) :
    ((payloadSum nine : Int) - (payload tenth % 2 : Nat) * 2^63 = signedSum (nine ++ [tenth])) ↔
      payload tenth = 0 ∨ payload tenth = 127 := by
  have small := payload_lt tenth
  rw [signedSum_snoc, nines, signedPayload]
  have unit : ((128 ^ 9 : Nat) : Int) = 2^63 := rfl
  rw [unit]
  split <;> omega

theorem signedSum_eleven_iff {byte : U8} (nines : nine.length = 9) (repeated : byte.toNat = payload tenth % 2 * 127) :
    ((payloadSum nine : Int) - (payload tenth % 2 : Nat) * 2^63 = signedSum (nine ++ [tenth] ++ [byte])) ↔
      payload tenth = 0 ∨ payload tenth = 127 := by
  have small := payload_lt tenth
  have unit : ((128 ^ (nine ++ [tenth]).length : Nat) : Int) = 2^70 := by
    rw [List.length_append, nines]
    rfl
  have same : payload byte = payload tenth % 2 * 127 := by
    rw [payload, repeated, Nat.mod_eq_of_lt (by omega)]
  rw [signedSum_snoc, unit, payloadSum_snoc, nines, signedPayload, same]
  push_cast
  split <;> omega

theorem tenthMixes_long (continued : ∀ byte ∈ nine, Continues byte) (nines : nine.length = 9) :
    TenthMixes (nine ++ tenth :: rest) ↔ ¬ (payload tenth = 0 ∨ payload tenth = 127) ∧
      (Continues tenth → rest.head?.map BitVec.toNat = some (payload tenth % 2 * 127)) := by
  rcases nine_places nines tenth rest with ⟨first, place, behind⟩
  rw [TenthMixes, first, place, behind, not_or, and_assoc]
  constructor
  · rintro ⟨-, other, same, mixed⟩
    cases same
    exact mixed
  · intro mixed
    exact ⟨continued, tenth, rfl, mixed⟩

theorem readSleb128_long_some (continued : ∀ byte ∈ nine, Continues byte) (nines : nine.length = 9)
    (read : readSleb128 (nine ++ tenth :: rest) = some (value, used)) :
    (Continues tenth → rest.head?.map BitVec.toNat = some (payload tenth % 2 * 127)) ∧
      (∃ place, lastPlace (nine ++ tenth :: rest) = some place ∧ used = place + 1) ∧
      (value.toInt = signedSum ((nine ++ tenth :: rest).take used) ↔ payload tenth = 0 ∨ payload tenth = 127) := by
  rcases readSleb128_long continued nines tenth rest with ⟨word, sum, small, whole⟩
  have top := toInt_of_top sum small (Nat.mod_lt _ (by decide))
  rw [whole] at read
  by_cases more : Continues tenth
  · rw [if_pos more] at read
    split at read
    · rename_i repeated
      cases read
      rcases Option.map_eq_some_iff.mp repeated with ⟨byte, head, value⟩
      rcases List.head?_eq_some_iff.mp head with ⟨tail, rfl⟩
      have ends : ¬ Continues byte := by
        rw [Continues, value]
        omega
      rcases eleven_framed continued nines more ends tail with ⟨place, taken⟩
      exact ⟨fun _ => repeated, ⟨10, place, rfl⟩, by rw [taken, top, signedSum_eleven_iff nines value]⟩
    · cases read
  · rw [if_neg more] at read
    cases read
    rcases ten_framed continued nines more rest with ⟨place, taken⟩
    exact ⟨fun other => absurd other more, ⟨9, place, rfl⟩, by rw [taken, top, signedSum_ten_iff nines]⟩

theorem sleb128Exact_long_iff (continued : ∀ byte ∈ nine, Continues byte) (nines : nine.length = 9) :
    Sleb128Exact (nine ++ tenth :: rest) ↔ ¬ TenthMixes (nine ++ tenth :: rest) := by
  rw [tenthMixes_long continued nines]
  constructor
  · rintro exact ⟨mixed, behind⟩
    rcases readSleb128_long continued nines tenth rest with ⟨word, -, -, whole⟩
    have read : ∃ used, readSleb128 (nine ++ tenth :: rest) = some (word, used) := by
      by_cases more : Continues tenth
      · exact ⟨11, by rw [whole, if_pos more, if_pos (behind more)]⟩
      · exact ⟨10, by rw [whole, if_neg more]⟩
    rcases read with ⟨used, read⟩
    rcases exact word used read with ⟨_, -, -, value⟩
    exact mixed ((readSleb128_long_some continued nines read).2.2.mp value)
  · intro even value used read
    rcases readSleb128_long_some continued nines read with ⟨behind, ⟨place, last, taken⟩, exact⟩
    have uniform : payload tenth = 0 ∨ payload tenth = 127 := by
      by_contra mixed
      exact even ⟨mixed, behind⟩
    exact ⟨place, last, taken, exact.mpr uniform⟩

theorem sleb128Exact_iff (bytes : Bytes) : Sleb128Exact bytes ↔ ¬ TenthMixes bytes := by
  rcases nine_cases bytes with ⟨passed, last, rest, rfl, few, continued, ends⟩ | ⟨few, continued⟩ | long
  · refine iff_of_true ?_ ?_
    · rcases readSleb128_short continued few ends rest with ⟨value, read, sum⟩
      intro found used same
      rw [read] at same
      cases same
      exact ⟨passed.length, lastPlace_framed continued ends rest, rfl, by rw [take_framed]; exact sum⟩
    · rintro ⟨continues, -⟩
      exact not_continues_nine few ends rest continues
  · refine iff_of_true ?_ ?_
    · intro value used read
      rw [readSleb128_broken continued few] at read
      cases read
    · rintro ⟨-, tenth, found, -⟩
      have size := (List.getElem?_eq_some_iff.mp found).1
      omega
  · rcases long with ⟨nine, tenth, rest, rfl, nines, continued⟩
    exact sleb128Exact_long_iff continued nines

theorem readSleb128_encode (v : U64) (rest : Bytes) :
    readSleb128 (sleb128 v.toInt ++ rest) = some (v, (sleb128 v.toInt).length) := by
  have least := BitVec.le_toInt v
  have most := BitVec.toInt_lt (x := v)
  have short := sleb128_length_le v.toInt 9 (by omega) (by omega)
  rcases sleb128_framed v.toInt with ⟨passed, last, same, continued, ends, sum⟩
  have size := congrArg List.length same
  rw [List.length_append, List.length_singleton] at size
  rw [size, same, List.append_assoc, List.singleton_append]
  by_cases few : passed.length < 9
  · rcases readSleb128_short continued few ends rest with ⟨value, read, found⟩
    rw [read, BitVec.eq_of_toInt_eq (found.trans sum)]
  · have nines : passed.length = 9 := by omega
    rcases readSleb128_long continued nines last rest with ⟨value, word, small, read⟩
    have top := toInt_of_top word small (Nat.mod_lt _ (by decide))
    -- an `i64` leaves one bit for the tenth payload, and the encoder repeats it
    have uniform : payload last = 0 ∨ payload last = 127 := by
      have bound := payload_lt last
      have total := signedSum_snoc passed last
      have unit : ((128 ^ 9 : Nat) : Int) = 2^63 := rfl
      rw [sum, nines, unit, signedPayload] at total
      split at total <;> omega
    have found := top.trans ((signedSum_ten_iff nines last).mpr uniform)
    rw [read, if_neg ends, nines, BitVec.eq_of_toInt_eq (found.trans sum)]

/-- A SLEB128 read returns every `i64` from its shortest encoding, and what it returns is exact unless the payload of a
    tenth byte mixes bits, which are lost past the word. -/
theorem sleb128_exact_iff (bytes : Bytes) :
    (∀ (v : U64) (rest : Bytes), readSleb128 (sleb128 v.toInt ++ rest) = some (v, (sleb128 v.toInt).length)) ∧
      (∀ (v : Int) (enc : Bytes), enc ≠ [] → signedSum enc = v → (sleb128 v).length ≤ enc.length) ∧
      (Sleb128Exact bytes ↔ ¬ TenthMixes bytes) :=
  ⟨readSleb128_encode, fun _ _ some sum => sleb128_shortest some sum, sleb128Exact_iff bytes⟩

/-- Nine groups without payload and a tenth with the bit that stands for `2^64`. -/
theorem tenth_byte_wrapped : ¬ ∀ bytes, Sleb128Exact bytes := by
  intro exact
  have read : readSleb128 [0x80, 0x80, 0x80, 0x80, 0x80, 0x80, 0x80, 0x80, 0x80, 0x02] = some (0, 10) := by decide +kernel
  rcases exact _ _ _ read with ⟨-, -, -, sum⟩
  exact absurd sum (by decide +kernel)

end DarwinScope
