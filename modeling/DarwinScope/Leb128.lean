import DarwinScope.Machine.Base128

namespace DarwinScope

open Machine

/-- The loop over the bytes. Its checked sums and its checked shift cannot fail: a shift of 64 or more ends it. -/
def uleb128From (result : U64) (shift consumed : Nat) : Bytes → Option (U64 × Nat)
  | [] => none
  | byte :: rest =>
    let payload : U64 := (byte &&& 0x7f).setWidth 64
    if 64 ≤ shift then
      if payload ≠ 0 ∨ byte &&& 0x80 ≠ 0 then none else some (result, consumed + 1)
    else
      -- the shift keeps the low 64 bits
      let result := result ||| payload <<< shift
      if byte &&& 0x80 = 0 then some (result, consumed + 1) else uleb128From result (shift + 7) (consumed + 1) rest

def readUleb128 (bytes : Bytes) : Option (U64 × Nat) := uleb128From 0 0 0 bytes

variable {α : Type} {loop : U64 → Nat → Nat → Bytes → Option α} {byte last tenth : U8} {passed nine rest bytes : Bytes}
  {result value : U64} {shift consumed used : Nat}

theorem uleb128From_used (read : uleb128From result shift consumed bytes = some (value, used)) :
    consumed < used ∧ used ≤ consumed + bytes.length := by
  induction bytes generalizing result shift consumed with
  | nil => cases read
  | cons byte bytes ih =>
    simp only [uleb128From] at read
    rw [List.length_cons]
    split at read
    · split at read
      · cases read
      · cases read
        omega
    · split at read
      · cases read
        omega
      · have later := ih read
        omega

theorem readUleb128_used (read : readUleb128 bytes = some (value, used)) : 0 < used ∧ used ≤ bytes.length := by
  have bounds := uleb128From_used read
  omega

def Accumulates {α : Type} (loop : U64 → Nat → Nat → Bytes → Option α) : Prop :=
  ∀ result shift consumed byte rest, Continues byte → shift < 64 → loop result shift consumed (byte :: rest) =
    loop (result ||| ((byte &&& 0x7f).setWidth 64 : U64) <<< shift) (shift + 7) (consumed + 1) rest

theorem or_shift_toNat {high : U64} (below : result.toNat < 2^shift) (room : shift < 64) :
    (result ||| high <<< shift).toNat = result.toNat + high.toNat % 2^(64 - shift) * 2^shift := by
  have whole : 2^64 = 2^(64 - shift) * 2^shift := by rw [← Nat.pow_add, Nat.sub_add_cancel (by omega)]
  have word : (high <<< shift).toNat = (high.toNat % 2^(64 - shift)) <<< shift := by
    rw [BitVec.toNat_shiftLeft, Nat.shiftLeft_eq, Nat.shiftLeft_eq, whole, Nat.mul_mod_mul_right]
  rw [BitVec.toNat_or, word, Nat.or_comm, ← Nat.shiftLeft_add_eq_or_of_lt below, Nat.shiftLeft_eq, Nat.add_comm]

theorem chunk_toNat (below : result.toNat < 2^shift) (room : shift < 64) (byte : U8) :
    (result ||| ((byte &&& 0x7f).setWidth 64 : U64) <<< shift).toNat =
      result.toNat + payload byte % 2^(64 - shift) * 2^shift := by
  have small := payload_lt byte
  have low : ((byte &&& 0x7f).setWidth 64 : U64).toNat = payload byte := by
    rw [BitVec.toNat_setWidth, payload_and, Nat.mod_eq_of_lt (by omega)]
  rw [or_shift_toNat below room, low]

theorem chunk_toNat_of_room (below : result.toNat < 2^shift) (room : shift + 7 ≤ 64) (byte : U8) :
    (result ||| ((byte &&& 0x7f).setWidth 64 : U64) <<< shift).toNat = result.toNat + payload byte * 2^shift := by
  have small := payload_lt byte
  have wide : 2^7 ≤ 2^(64 - shift) := Nat.pow_le_pow_right (by decide) (by omega)
  rw [chunk_toNat below (by omega), Nat.mod_eq_of_lt (by omega)]

theorem chunk_below (below : result.toNat < 2^shift) (byte : U8) :
    result.toNat + payload byte * 2^shift < 2^(shift + 7) := by
  have product : (payload byte + 1) * 2^shift ≤ 128 * 2^shift := Nat.mul_le_mul_right _ (payload_lt byte)
  rw [Nat.add_mul, Nat.one_mul] at product
  rw [Nat.pow_add]
  omega

/-- Bytes that all continue leave their payloads in the word. -/
theorem Accumulates.run (steps : Accumulates loop) (continued : ∀ byte ∈ passed, Continues byte)
    (below : result.toNat < 2^shift) (room : shift + 7 * passed.length ≤ 64) (consumed : Nat) (rest : Bytes) :
    ∃ word : U64, loop result shift consumed (passed ++ rest) =
        loop word (shift + 7 * passed.length) (consumed + passed.length) rest ∧
      word.toNat = result.toNat + payloadSum passed * 2^shift := by
  induction passed generalizing result shift consumed with
  | nil => exact ⟨result, rfl, by simp [payloadSum]⟩
  | cons byte passed ih =>
    rw [List.length_cons] at room ⊢
    have chunk := chunk_toNat_of_room below (by omega) byte
    have higher := chunk_below below byte
    rcases ih (fun b member => continued b (List.mem_cons_of_mem byte member)) (by rw [chunk]; exact higher)
      (by omega : shift + 7 + 7 * passed.length ≤ 64) (consumed + 1) with ⟨word, same, sum⟩
    have place : shift + 7 * (passed.length + 1) = shift + 7 + 7 * passed.length := by omega
    have taken : consumed + (passed.length + 1) = consumed + 1 + passed.length := by omega
    refine ⟨word, ?_, ?_⟩
    · rw [List.cons_append, steps _ _ _ _ _ (continued byte List.mem_cons_self) (by omega), same, place, taken]
    · rw [sum, chunk, payloadSum_cons, Nat.pow_add]
      ring

theorem Accumulates.start (steps : Accumulates loop) (continued : ∀ byte ∈ passed, Continues byte)
    (few : passed.length ≤ 9) (rest : Bytes) : ∃ word : U64, loop 0 0 0 (passed ++ rest) =
        loop word (7 * passed.length) passed.length rest ∧
      word.toNat = payloadSum passed ∧ payloadSum passed < 2^(7 * passed.length) := by
  rcases steps.run continued (by decide : (0 : U64).toNat < 2^0) (by omega) 0 rest with ⟨word, same, sum⟩
  have bound := payloadSum_lt passed
  rw [show (128 : Nat) = 2^7 by rfl, ← Nat.pow_mul] at bound
  simp only [Nat.zero_add] at same
  refine ⟨word, same, ?_, bound⟩
  rw [sum]
  simp

theorem nine_cases (bytes : Bytes) :
    (∃ passed last rest, bytes = passed ++ last :: rest ∧ passed.length < 9 ∧ (∀ byte ∈ passed, Continues byte) ∧
        ¬ Continues last) ∨
      (bytes.length ≤ 9 ∧ ∀ byte ∈ bytes, Continues byte) ∨
      ∃ nine tenth rest, bytes = nine ++ tenth :: rest ∧ nine.length = 9 ∧ ∀ byte ∈ nine, Continues byte := by
  by_cases long : ∀ byte ∈ bytes.take 9, Continues byte
  · by_cases short : bytes.length ≤ 9
    · rw [List.take_of_length_le short] at long
      exact .inr (.inl ⟨short, long⟩)
    · refine .inr (.inr ⟨bytes.take 9, bytes[9], bytes.drop 10, ?_, ?_, long⟩)
      · rw [List.cons_getElem_drop_succ, List.take_append_drop]
      · rw [List.length_take]
        omega
  · rcases framed_cases (bytes.take 9) with ⟨passed, last, rest, cut, continued, ends⟩ | continued
    · have size := congrArg List.length cut
      have few := List.length_take_le 9 bytes
      rw [List.length_append, List.length_cons] at size
      refine .inl ⟨passed, last, rest ++ bytes.drop 9, ?_, by omega, continued, ends⟩
      rw [← List.cons_append, ← List.append_assoc, ← cut, List.take_append_drop]
    · exact absurd continued long

theorem not_continues_nine (few : passed.length < 9) (ends : ¬ Continues last) (rest : Bytes) :
    ¬ ∀ byte ∈ (passed ++ last :: rest).take 9, Continues byte := by
  intro continues
  refine ends (continues last (List.mem_take_iff_getElem.mpr ⟨passed.length, ?_, ?_⟩))
  · rw [List.length_append, List.length_cons]
    omega
  · simp

theorem nine_places (nines : nine.length = 9) (tenth : U8) (rest : Bytes) :
    (nine ++ tenth :: rest).take 9 = nine ∧ (nine ++ tenth :: rest)[9]? = some tenth ∧
      (nine ++ tenth :: rest)[10]? = rest.head? := by
  refine ⟨by rw [← nines, List.take_left], ?_, ?_⟩
  · rw [List.getElem?_append_right (by omega), nines]
    rfl
  · rw [List.getElem?_append_right (by omega), nines, List.head?_eq_getElem?]
    rfl

theorem ten_framed (continued : ∀ byte ∈ nine, Continues byte) (nines : nine.length = 9) (ends : ¬ Continues tenth)
    (rest : Bytes) : lastPlace (nine ++ tenth :: rest) = some 9 ∧ (nine ++ tenth :: rest).take 10 = nine ++ [tenth] := by
  have place := lastPlace_framed continued ends rest
  have taken := take_framed nine tenth rest
  rw [nines] at place taken
  exact ⟨place, taken⟩

theorem eleven_framed (continued : ∀ byte ∈ nine, Continues byte) (nines : nine.length = 9) (more : Continues tenth)
    (ends : ¬ Continues last) (rest : Bytes) :
    lastPlace (nine ++ tenth :: last :: rest) = some 10 ∧
      (nine ++ tenth :: last :: rest).take 11 = nine ++ [tenth] ++ [last] := by
  have ten : ∀ byte ∈ nine ++ [tenth], Continues byte :=
    List.forall_mem_append.mpr ⟨continued, List.forall_mem_singleton.mpr more⟩
  have cut : nine ++ tenth :: last :: rest = nine ++ [tenth] ++ last :: rest := by
    rw [List.append_assoc, List.singleton_append]
  have size : (nine ++ [tenth]).length = 10 := by rw [List.length_append, nines, List.length_singleton]
  have place := lastPlace_framed ten ends rest
  have taken := take_framed (nine ++ [tenth]) last rest
  rw [size] at place taken
  rw [cut]
  exact ⟨place, taken⟩

theorem uleb128From_accumulates : Accumulates uleb128From := by
  intro result shift consumed byte rest more room
  rw [uleb128From]
  simp only [if_neg (by omega : ¬ 64 ≤ shift), if_neg (high_bit_ne_zero.mpr more)]

theorem nonzero_bits : ((byte &&& 0x7f).setWidth 64 : U64) ≠ 0 ∨ byte &&& 0x80 ≠ 0 ↔ byte ≠ 0 := by
  constructor
  · rintro bits rfl
    exact bits.elim (fun low => low rfl) fun high => high rfl
  · intro nonzero
    by_contra clear
    rw [not_or, not_not, not_not] at clear
    have low : (byte &&& 0x7f).toNat = 0 := by
      have wide := congrArg BitVec.toNat clear.1
      rwa [BitVec.toNat_setWidth, Nat.mod_eq_of_lt (Nat.lt_trans (byte &&& 0x7f).isLt (by decide))] at wide
    have high := high_bit_eq_zero.mp clear.2
    rw [payload_and, payload] at low
    rw [Continues] at high
    exact nonzero (BitVec.eq_of_toNat_eq (by omega : byte.toNat = 0))

theorem readUleb128_short (continued : ∀ byte ∈ passed, Continues byte) (few : passed.length < 9) (ends : ¬ Continues last)
    (rest : Bytes) : ∃ value : U64, readUleb128 (passed ++ last :: rest) = some (value, passed.length + 1) ∧
      value.toNat = payloadSum (passed ++ [last]) := by
  rcases uleb128From_accumulates.start continued (by omega) (last :: rest) with ⟨word, same, sum, below⟩
  rw [← sum] at below
  have chunk := chunk_toNat_of_room below (by omega) last
  refine ⟨_, ?_, chunk.trans ?_⟩
  · rw [readUleb128, same, uleb128From]
    simp only [if_neg (by omega : ¬ 64 ≤ 7 * passed.length), if_pos (high_bit_eq_zero.mpr ends)]
  · rw [payloadSum_snoc, sum, Nat.pow_mul]

theorem readUleb128_broken (continued : ∀ byte ∈ bytes, Continues byte) (few : bytes.length ≤ 9) :
    readUleb128 bytes = none := by
  rcases uleb128From_accumulates.start continued few [] with ⟨word, same, -⟩
  rw [List.append_nil] at same
  rw [readUleb128, same, uleb128From]

/-- Behind nine bytes that continue only the lowest payload bit has room, and only a zero byte may follow. -/
theorem readUleb128_long (continued : ∀ byte ∈ nine, Continues byte) (nines : nine.length = 9) (tenth : U8) (rest : Bytes) :
    ∃ value : U64, value.toNat = payloadSum nine + payload tenth % 2 * 2^63 ∧
      readUleb128 (nine ++ tenth :: rest) =
        if Continues tenth then if rest.head? = some 0 then some (value, 11) else none else some (value, 10) := by
  rcases uleb128From_accumulates.start continued (by omega) (tenth :: rest) with ⟨word, same, sum, below⟩
  rw [nines, ← sum] at below
  rw [nines] at same
  have chunk := chunk_toNat below (by decide) tenth
  refine ⟨_, chunk.trans (by rw [sum]; rfl), ?_⟩
  rw [readUleb128, same]
  by_cases more : Continues tenth
  · rw [uleb128From_accumulates _ _ _ _ _ more (by decide), if_pos more]
    cases rest with
    | nil => rfl
    | cons byte rest =>
      rw [uleb128From, List.head?_cons]
      simp only [if_pos (by decide : 64 ≤ 7 * 9 + 7)]
      by_cases zero : byte = 0
      · rw [zero]
        rfl
      · rw [if_neg (fun same => zero (Option.some.inj same)), if_pos (nonzero_bits.mpr zero)]
  · rw [if_neg more, uleb128From]
    simp only [if_neg (by decide : ¬ 64 ≤ 7 * 9), if_pos (high_bit_eq_zero.mpr more)]

theorem readUleb128_of_fits {place : Nat} (near : place ≤ 9) (found : lastPlace bytes = some place)
    (fits : payloadSum (bytes.take (place + 1)) < 2^64) :
    readUleb128 bytes = some (BitVec.ofNat 64 (payloadSum (bytes.take (place + 1))), place + 1) := by
  rcases framed_of_lastPlace found with ⟨passed, last, rest, rfl, rfl, continued, ends⟩
  rw [take_framed] at fits ⊢
  by_cases few : passed.length < 9
  · rcases readUleb128_short continued few ends rest with ⟨value, read, sum⟩
    rw [read, ← sum, BitVec.ofNat_toNat, BitVec.setWidth_eq]
  · have nines : passed.length = 9 := by omega
    rcases readUleb128_long continued nines last rest with ⟨value, sum, read⟩
    rw [payloadSum_snoc, nines] at fits ⊢
    rw [read, if_neg ends]
    congr 2
    apply BitVec.eq_of_toNat_eq
    rw [toNat_ofNat_of_lt fits, sum]
    omega

theorem readUleb128_encode {n : Nat} (fits : n < 2^64) (rest : Bytes) :
    readUleb128 (uleb128 n ++ rest) = some (BitVec.ofNat 64 n, (uleb128 n).length) := by
  have short := @groups_length_le n 10 (by decide) (Nat.lt_trans fits (by decide))
  have sum := payloadSum_continued fun group (member : group ∈ groups n) => groups_lt member
  rw [ofDigits_groups] at sum
  rcases continued_framed (fun group => groups_lt) (groups_ne_nil n) with ⟨passed, last, same, continued, ends⟩
  have size := congrArg List.length same
  rw [continued_length, List.length_append, List.length_singleton] at size
  have read := readUleb128_of_fits (by omega : passed.length ≤ 9) (lastPlace_framed continued ends rest)
  rw [take_framed, ← same, sum] at read
  rw [uleb128, continued_length, size, ← read fits, same, List.append_assoc, List.singleton_append]

/-- The read takes the bytes up to the first one with a clear high bit and returns the sum of their payloads, and
    it returns every sum of at most ten payloads that fits the word. -/
def Uleb128Exact (bytes : Bytes) : Prop :=
  (∀ value used, readUleb128 bytes = some (value, used) → ∃ place, lastPlace bytes = some place ∧ used = place + 1 ∧
    value.toNat = payloadSum (bytes.take used)) ∧
  ∀ place ≤ 9, lastPlace bytes = some place → payloadSum (bytes.take (place + 1)) < 2^64 →
    readUleb128 bytes = some (BitVec.ofNat 64 (payloadSum (bytes.take (place + 1))), place + 1)

/-- Nine bytes continue, and a tenth one that has more than the last bit of the word is the last byte or has only a
    zero byte behind it. -/
def TenthSpills (bytes : Bytes) : Prop :=
  (∀ byte ∈ bytes.take 9, Continues byte) ∧ ∃ tenth, bytes[9]? = some tenth ∧ 1 < payload tenth ∧
    (Continues tenth → bytes[10]? = some 0)

theorem uleb128Exact_short (continued : ∀ byte ∈ passed, Continues byte) (few : passed.length < 9) (ends : ¬ Continues last)
    (rest : Bytes) : Uleb128Exact (passed ++ last :: rest) := by
  rcases readUleb128_short continued few ends rest with ⟨value, read, sum⟩
  refine ⟨?_, ?_⟩
  · intro found used same
    rw [read] at same
    cases same
    exact ⟨passed.length, lastPlace_framed continued ends rest, rfl, by rw [take_framed]; exact sum⟩
  · exact fun place near found small => readUleb128_of_fits near found small

theorem uleb128Exact_broken (continued : ∀ byte ∈ bytes, Continues byte) (few : bytes.length ≤ 9) : Uleb128Exact bytes := by
  refine ⟨?_, ?_⟩
  · intro value used read
    rw [readUleb128_broken continued few] at read
    cases read
  · exact fun place near found small => readUleb128_of_fits near found small

theorem tenthSpills_long (continued : ∀ byte ∈ nine, Continues byte) (nines : nine.length = 9) :
    TenthSpills (nine ++ tenth :: rest) ↔ 1 < payload tenth ∧ (Continues tenth → rest.head? = some 0) := by
  rcases nine_places nines tenth rest with ⟨first, place, behind⟩
  rw [TenthSpills, first, place, behind]
  constructor
  · rintro ⟨-, other, same, spill⟩
    cases same
    exact spill
  · intro spill
    exact ⟨continued, tenth, rfl, spill⟩

theorem sum_of_ten (nines : nine.length = 9) (tenth : U8) :
    payloadSum (nine ++ [tenth]) = payloadSum nine + payload tenth * 2^63 := by
  rw [payloadSum_snoc, nines]
  rfl

theorem sum_of_eleven (nines : nine.length = 9) (tenth : U8) :
    payloadSum (nine ++ [tenth] ++ [0]) = payloadSum nine + payload tenth * 2^63 := by
  rw [payloadSum_snoc, sum_of_ten nines]
  exact Nat.add_eq_left.mpr (Nat.zero_mul _)

theorem readUleb128_long_some (continued : ∀ byte ∈ nine, Continues byte) (nines : nine.length = 9)
    {value : U64} {used : Nat}
    (read : readUleb128 (nine ++ tenth :: rest) = some (value, used)) :
    value.toNat = payloadSum nine + payload tenth % 2 * 2^63 ∧ (Continues tenth → rest.head? = some 0) ∧
      ∃ place, lastPlace (nine ++ tenth :: rest) = some place ∧ used = place + 1 ∧
        payloadSum ((nine ++ tenth :: rest).take used) = payloadSum nine + payload tenth * 2^63 := by
  rcases readUleb128_long continued nines tenth rest with ⟨word, sum, whole⟩
  rw [whole] at read
  by_cases more : Continues tenth
  · rw [if_pos more] at read
    split at read
    · rename_i zero
      cases read
      rcases List.head?_eq_some_iff.mp zero with ⟨tail, rfl⟩
      rcases eleven_framed continued nines more (by decide : ¬ Continues 0) tail with ⟨place, taken⟩
      exact ⟨sum, fun _ => zero, 10, place, rfl, by rw [taken, sum_of_eleven nines]⟩
    · cases read
  · rw [if_neg more] at read
    cases read
    rcases ten_framed continued nines more rest with ⟨place, taken⟩
    exact ⟨sum, fun other => absurd other more, 9, place, rfl, by rw [taken, sum_of_ten nines]⟩

theorem uleb128Exact_long_iff (continued : ∀ byte ∈ nine, Continues byte) (nines : nine.length = 9) :
    Uleb128Exact (nine ++ tenth :: rest) ↔ ¬ TenthSpills (nine ++ tenth :: rest) := by
  rw [tenthSpills_long continued nines]
  rcases readUleb128_long continued nines tenth rest with ⟨word, sum, whole⟩
  constructor
  · intro exact spill
    have read : ∃ used, readUleb128 (nine ++ tenth :: rest) = some (word, used) := by
      by_cases more : Continues tenth
      · exact ⟨11, by rw [whole, if_pos more, if_pos (spill.2 more)]⟩
      · exact ⟨10, by rw [whole, if_neg more]⟩
    rcases read with ⟨used, read⟩
    rcases exact.1 word used read with ⟨_, -, -, value⟩
    rcases readUleb128_long_some continued nines read with ⟨-, -, _, -, -, total⟩
    omega
  · intro fits
    refine ⟨?_, ?_⟩
    · intro value used read
      rcases readUleb128_long_some continued nines read with ⟨found, behind, place, last, taken, total⟩
      have narrow : ¬ 1 < payload tenth := fun wide => fits ⟨wide, behind⟩
      exact ⟨place, last, taken, by omega⟩
    · exact fun place near last small => readUleb128_of_fits near last small

/-- A ULEB128 read is exact unless a tenth byte spills over the word: there it returns the truncated number. -/
theorem uleb128_exact_iff (bytes : Bytes) : Uleb128Exact bytes ↔ ¬ TenthSpills bytes := by
  rcases nine_cases bytes with ⟨passed, last, rest, rfl, few, continued, ends⟩ | ⟨few, continued⟩ | long
  · have none : ¬ TenthSpills (passed ++ last :: rest) := fun spills => not_continues_nine few ends rest spills.1
    exact iff_of_true (uleb128Exact_short continued few ends rest) none
  · have none : ¬ TenthSpills bytes := by
      rintro ⟨-, tenth, found, -⟩
      have size := (List.getElem?_eq_some_iff.mp found).1
      omega
    exact iff_of_true (uleb128Exact_broken continued few) none
  · rcases long with ⟨nine, tenth, rest, rfl, nines, continued⟩
    exact uleb128Exact_long_iff continued nines

/-- Nine groups without payload and a tenth with the bit that stands for `2^64`. -/
theorem tenth_byte_truncated : ¬ ∀ bytes, Uleb128Exact bytes := by
  intro exact
  have read : readUleb128 [0x80, 0x80, 0x80, 0x80, 0x80, 0x80, 0x80, 0x80, 0x80, 0x02] = some (0, 10) := by decide +kernel
  rcases (exact _).1 _ _ read with ⟨-, -, -, sum⟩
  exact absurd sum (by decide +kernel)


end DarwinScope
