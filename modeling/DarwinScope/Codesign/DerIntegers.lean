import DarwinScope.Codesign.DerRoundTrip

namespace DarwinScope.Codesign

open Machine

structure IntegerEntry (item : DerItem) (key body : Bytes) where
  khdr : DerHeader
  vhdr : DerHeader
  sequence : item.tag = 0x30
  keyHeader : derReadHeader item.body = some khdr
  keyTag : khdr.tag = 0x0c
  keyBytes : derRange item.body khdr.headerLen khdr.size = some key
  keyValid : validUtf8 key = true
  valueHeader : derReadHeader (item.body.drop khdr.size) = some vhdr
  valueTag : vhdr.tag = 0x02
  valueBytes : derRange (item.body.drop khdr.size) vhdr.headerLen vhdr.size = some body
  valueSome : body ≠ []

/-- The number that a body stands for: all of it up to eight bytes, and the last eight of a longer one. -/
def integerValue (body : Bytes) : Int := signedNumber (body.drop (body.length - 8))

/-- A whole word, a shorter body with a clear sign bit, or a longer one that begins as it ends. -/
def Kept (body : Bytes) : Prop :=
  body.length = 8 ∨ (body.length < 8 ∧ ∀ byte ∈ body.head?, byte.toNat < 128) ∨
    (8 < body.length ∧ body.take 8 = body.drop (body.length - 8))

section

variable {item : DerItem} {key body : Bytes}

theorem derDecodeInteger_long (long : 8 ≤ body.length) : derDecodeInteger body = signedNumber (body.take 8) := by
  have length : (body.take 8).length = 8 := by
    rw [List.length_take]
    omega
  rw [derDecodeInteger_eq]
  apply toInt_word
  rw [length]
  rfl

theorem derDecodeInteger_short (short : body.length < 8) : derDecodeInteger body = beNumber body := by
  have below := beNumber_lt body
  have bound : 256 ^ body.length ≤ 256 ^ 7 := Nat.pow_le_pow_right (by decide) (by omega)
  rw [derDecodeInteger_eq, List.take_of_length_le (by omega), BitVec.toInt_eq_toNat_cond, BitVec.toNat_ofNat,
    Nat.mod_eq_of_lt (by omega), if_pos (by omega)]

theorem derDecodeInteger_iff (some : body ≠ []) : derDecodeInteger body = integerValue body ↔ Kept body := by
  rcases Nat.lt_trichotomy body.length 8 with short | word | long
  · have whole : body.length - 8 = 0 := by omega
    cases body with
    | nil => exact absurd rfl some
    | cons byte rest =>
      rw [derDecodeInteger_short short, integerValue, whole, List.drop_zero, eq_comm, signedNumber_eq_beNumber_iff,
        high_bit_clear_iff]
      simp only [Kept, short, Nat.ne_of_lt short, Nat.not_lt_of_lt short, List.head?_cons, Option.mem_def, Option.some.injEq,
        forall_eq', true_and, false_and, false_or, or_false]
  · have whole : body.length - 8 = 0 := by omega
    rw [derDecodeInteger_long (by omega), integerValue, whole, List.drop_zero, List.take_of_length_le (by omega)]
    simp only [Kept, word, true_or]
  · have lengths : (body.take 8).length = (body.drop (body.length - 8)).length := by
      rw [List.length_take, List.length_drop]
      omega
    rw [derDecodeInteger_long (by omega), integerValue]
    simp only [Kept, Nat.ne_of_gt long, Nat.not_lt_of_lt long, long, true_and, false_and, false_or]
    exact ⟨signedNumber_inj lengths, fun same => by rw [same]⟩

theorem IntegerEntry.decoded (entry : IntegerEntry item key body) :
    derDecodeValue (item.body.drop entry.khdr.size) 0 = some (.integer (derDecodeInteger body)) := by
  rw [derDecodeValue, dif_neg (by decide), entry.valueHeader]
  simp only [Option.bind_eq_bind, Option.bind_some, entry.valueBytes, entry.valueTag]
  rfl

theorem IntegerEntry.pair (entry : IntegerEntry item key body) :
    derEntryPair item.body = some (key, .integer (derDecodeInteger body)) := by
  have bytes := entry.keyBytes
  have inside : entry.khdr.size ≤ item.body.length := by
    by_contra past
    rw [derRange, if_neg fun within => past within.2] at bytes
    cases bytes
  have rest : derRange item.body entry.khdr.size item.body.length = some (item.body.drop entry.khdr.size) := by
    rw [derRange, if_pos ⟨inside, Nat.le_refl _⟩, ← List.length_drop, List.take_length]
  rw [derEntryPair, entry.keyHeader]
  simp only [Option.bind_eq_bind, Option.bind_some, entry.keyTag, ne_eq, not_true, if_false, bytes, entry.keyValid, if_true,
    rest, entry.decoded, Option.getD_some]

theorem integer_pairs {e : DerEntitlements} {before after : List DerItem} (entry : IntegerEntry item key body)
    (found : e.items = before ++ item :: after) :
    e.pairs = entryPairs before ++ (key, .integer (derDecodeInteger body)) :: entryPairs after := by
  rw [e.pairs_eq, found, entryPairs_append]
  congr 1
  rw [entryPairs, List.filterMap_cons, if_pos entry.sequence, entry.pair]
  rfl

end

/-- An integer entry is reported with its value exactly when the first eight bytes, taken without a sign below eight,
    are that value. -/
theorem der_integer_value_iff (e : DerEntitlements) (before after : List DerItem) (item : DerItem) (key body : Bytes)
    (entry : IntegerEntry item key body) (found : e.items = before ++ item :: after) :
    e.pairs = entryPairs before ++ (key, .integer (integerValue body)) :: entryPairs after ↔ Kept body := by
  rw [integer_pairs entry found, ← derDecodeInteger_iff entry.valueSome, List.append_cancel_left_eq, List.cons.injEq,
    Prod.mk.injEq, DerEntitlementValue.integer.injEq]
  simp only [true_and, and_true]

def integerItem (body : Bytes) : DerItem :=
  ⟨0x30, tlv 0x0c [0x6b] ++ tlv 0x02 body, tlv 0x30 (tlv 0x0c [0x6b] ++ tlv 0x02 body)⟩

def integerItem_entry {body : Bytes} (some : body ≠ []) (small : body.length < 2^32) :
    IntegerEntry (integerItem body) [0x6b] body where
  khdr := ⟨0x0c, 1, 1 + (definiteLength 1).length⟩
  vhdr := ⟨0x02, body.length, 1 + (definiteLength body.length).length⟩
  sequence := rfl
  keyHeader := definiteLength_read (by decide) _
  keyTag := rfl
  keyBytes := derRange_body 0x0c [0x6b] _
  keyValid := rfl
  valueHeader := by
    have read := @definiteLength_read 0x02 body small []
    rwa [List.append_nil] at read
  valueTag := rfl
  valueBytes := by
    have bytes := derRange_body 0x02 body []
    rw [List.append_nil] at bytes
    rw [header_size]
    exact bytes
  valueSome := some

def positiveLimit : DerEntitlements := ⟨⟨0, (integerItem [0x01, 0x2c]).whole, by decide +kernel⟩⟩

theorem der_integer_value_iff_positive : positiveLimit.pairs = [([0x6b], .integer 300)] :=
  (der_integer_value_iff positiveLimit [] [] (integerItem [0x01, 0x2c]) [0x6b] [0x01, 0x2c]
    (integerItem_entry (by decide) (by decide)) (by decide +kernel)).mpr (.inr (.inl ⟨by decide, by decide⟩))

def minusOne : DerEntitlements := ⟨⟨0, (integerItem [0xff]).whole, by decide +kernel⟩⟩

/-- The sign is lost. -/
theorem minus_one_read_as_255 :
    integerValue [0xff] = -1 ∧ minusOne.pairs = [([0x6b], .integer 255)] ∧ minusOne.pairs ≠ [([0x6b], .integer (-1))] := by
  have entry : IntegerEntry (integerItem [0xff]) [0x6b] [0xff] := integerItem_entry (by decide) (by decide)
  have pairs : minusOne.pairs = [([0x6b], .integer 255)] :=
    integer_pairs entry (show minusOne.items = [] ++ _ :: [] by decide +kernel)
  refine ⟨by decide, pairs, ?_⟩
  rw [pairs]
  simp

end DarwinScope.Codesign
