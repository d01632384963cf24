import DarwinScope.Machine.TwosComplement
import DarwinScope.Codesign.DerKeys

namespace DarwinScope.Codesign

open Machine

/-- An entitlement value as a signer writes it, with the tag of each container and the body of each
    value whose tag has no meaning here. -/
inductive DerTree where
  | bool (b : Bool)
  | integer (n : Nat)
  | string (text : Bytes)
  | array (tag : U8) (items : List DerTree)
  | other (tag : U8) (body : Bytes)

namespace DerTree

abbrev ContainerTag (tag : U8) : Prop := tag = 0x30 ∨ tag = 0x31 ∨ tag = 0xa0 ∨ tag = 0xb0

mutual

def encode : DerTree → Bytes
  | bool b => tlv 0x01 [if b then 0xff else 0]
  | integer n => tlv 0x02 (integerBytes n)
  | string text => tlv 0x0c text
  | array tag items => tlv tag (encodeItems items)
  | other tag body => tlv tag body

def encodeItems : List DerTree → Bytes
  | [] => []
  | item :: items => item.encode ++ encodeItems items

end

mutual

def value : DerTree → DerEntitlementValue
  | bool b => .bool b
  | integer n => .integer n
  | string text => .string text
  | array _ items => .array (values items)
  | other tag _ => .other tag

def values : List DerTree → List DerEntitlementValue
  | [] => []
  | item :: items => item.value :: values items

end

/-- No value of the tree stands in more than `levels` arrays, and each is one that the format has. -/
inductive Fits : DerTree → Nat → Prop where
  | bool {b : Bool} {levels : Nat} : Fits (bool b) levels
  | integer {n levels : Nat} : n < 2^63 → Fits (integer n) levels
  | string {text : Bytes} {levels : Nat} : validUtf8 text = true → Fits (string text) levels
  | empty {tag : U8} {levels : Nat} : ContainerTag tag → Fits (array tag []) levels
  | array {tag : U8} {items : List DerTree} {levels : Nat} : ContainerTag tag → items.length ≤ maxDerArrayItems →
      (∀ item ∈ items, Fits item levels) → Fits (array tag items) (levels + 1)
  | other {tag : U8} {body : Bytes} {levels : Nat} : tag ∉ [0x01, 0x02, 0x0c, 0x30, 0x31, 0xa0, 0xb0] →
      Fits (other tag body) levels

end DerTree

section

variable {tag : U8} {body rest buf : Bytes} {part : Bytes}

theorem definiteLength_read (small : body.length < 2^32) (rest : Bytes) :
    derReadHeader (tlv tag body ++ rest) =
      some ⟨tag, body.length, 1 + (definiteLength body.length).length⟩ := by
  unfold tlv definiteLength
  by_cases short : body.length < 128
  · rw [if_pos short]
    have value : (BitVec.ofNat 8 body.length).toNat = body.length := by
      rw [toNat_ofNat_of_lt (by omega)]
    have low : BitVec.ofNat 8 body.length < 0x80#8 := by
      rw [BitVec.lt_def, value]
      exact short
    simp only [List.cons_append, List.nil_append, derReadHeader, List.getElem?_cons_zero, List.getElem?_cons_succ,
      Option.bind_eq_bind, Option.bind_some, if_pos low, value]
    rfl
  · rw [if_neg short]
    have few : byteCount body.length ≤ 4 := byteCount_le (by decide) small
    have positive : 0 < byteCount body.length := Nat.succ_pos _
    have field : (BitVec.ofNat 8 (128 + byteCount body.length)).toNat = 128 + byteCount body.length := by
      rw [toNat_ofNat_of_lt (by omega)]
    have high : ¬ BitVec.ofNat 8 (128 + byteCount body.length) < 0x80#8 := by
      rw [BitVec.lt_def, field, Nat.not_lt]
      exact Nat.le_add_right 128 _
    have count : (BitVec.ofNat 8 (128 + byteCount body.length) &&& 0x7f).toNat = byteCount body.length := by
      rw [and_lowMask_toNat _ 0x7f 7 rfl, field]
      omega
    have octets : ((beBytes (byteCount body.length) body.length ++ (body ++ rest)).take (byteCount body.length)) =
        beBytes (byteCount body.length) body.length := by
      rw [List.take_left' (beBytes_length _ _)]
    simp only [List.cons_append, List.append_assoc, derReadHeader, List.getElem?_cons_zero, List.getElem?_cons_succ,
      Option.bind_eq_bind, Option.bind_some, if_neg high, count, List.drop_succ_cons, List.drop_zero, octets,
      beBytes_length, Nat.lt_irrefl, if_false, foldl_shift, beNumber_beBytes _ _ (lt_byteCount _)]
    rw [if_neg (by omega)]
    simp only [Nat.zero_mul, Nat.zero_add, List.length_cons, beBytes_length]
    rw [Nat.add_comm (byteCount body.length) 1, ← Nat.add_assoc]

theorem header_size (tag : U8) (body : Bytes) :
    DerHeader.size ⟨tag, body.length, 1 + (definiteLength body.length).length⟩ = (tlv tag body).length := by
  rw [DerHeader.size, tlv_length]

theorem derRange_body (tag : U8) (body rest : Bytes) :
    derRange (tlv tag body ++ rest) (1 + (definiteLength body.length).length) (tlv tag body).length = some body := by
  have head : (tag :: definiteLength body.length).length = 1 + (definiteLength body.length).length := by
    rw [List.length_cons, Nat.add_comm]
  have shape : tlv tag body ++ rest = (tag :: definiteLength body.length) ++ (body ++ rest) := by
    rw [tlv, List.cons_append, List.cons_append, List.append_assoc]
  have total := tlv_length tag body
  rw [derRange, if_pos (by rw [List.length_append]; omega), total, shape, List.drop_left' head]
  rw [show 1 + (definiteLength body.length).length + body.length - (1 + (definiteLength body.length).length) =
    body.length by omega, List.take_left]

theorem derItems_nil : derItems [] = [] := derItems_of_none rfl

theorem derItems_tlv (small : body.length < 2^32) (rest : Bytes) :
    derItems (tlv tag body ++ rest) = ⟨tag, body, tlv tag body⟩ :: derItems rest := by
  have cut := derRange_body tag body rest
  have total := tlv_length tag body
  rw [derItems_of_inside (definiteLength_read small rest) (by rw [header_size, List.length_append]; omega), header_size,
    List.take_left, List.drop_left]
  rw [derRange, if_pos (by rw [List.length_append]; omega), Option.some.injEq] at cut
  rw [show (tlv tag body).length - (1 + (definiteLength body.length).length) = body.length by omega] at cut
  rw [cut]

theorem length_le_flatMap {α : Type} (encode : α → Bytes) {items : List α} {item : α} (member : item ∈ items) :
    (encode item).length ≤ (items.flatMap encode).length := by
  rcases List.append_of_mem member with ⟨before, after, rfl⟩
  rw [List.flatMap_append, List.flatMap_cons, List.length_append, List.length_append]
  omega

theorem derItems_flatMap {α : Type} {encode body : α → Bytes} {tag : α → U8} (shape : ∀ a, encode a = tlv (tag a) (body a))
    {items : List α} (small : (items.flatMap encode).length < 2^32) :
    derItems (items.flatMap encode) = items.map fun a => ⟨tag a, body a, encode a⟩ := by
  induction items with
  | nil => exact derItems_nil
  | cons item items ih =>
    have total := tlv_length (tag item) (body item)
    rw [List.flatMap_cons, List.length_append, shape] at small
    rw [List.flatMap_cons, shape, derItems_tlv (by omega), List.map_cons, ih (by omega), shape]

theorem derInner_nil : derInner [] = none := by
  rw [derInner]
  rfl

theorem derInner_integer (small : body.length < 2^32) (rest : Bytes) : derInner (tlv 0x02 body ++ rest) = derInner rest := by
  have read := @definiteLength_read 0x02 body small rest
  rw [derInner]
  split
  · rename_i none
    rw [read] at none
    cases none
  · rename_i hdr found
    rw [read] at found
    cases found
    rw [if_pos rfl, header_size, dif_neg (by rw [List.length_append]; omega), List.drop_left]

/-- Behind the integers a container is what is looked for, and any other value ends the search. -/
theorem derInner_tlv (integer : tag ≠ 0x02) (small : body.length < 2^32) (rest : Bytes) :
    derInner (tlv tag body ++ rest) =
      if tag = 0x30 ∨ tag = 0x31 ∨ tag = 0xa0 ∨ tag = 0xb0 then some body else none := by
  have read := @definiteLength_read tag body small rest
  rw [derInner]
  split
  · rename_i none
    rw [read] at none
    cases none
  · rename_i hdr found
    rw [read] at found
    cases found
    rw [if_neg integer, header_size, derRange_body]

theorem derLocateEntries_tlv (small : body.length < 2^32) (rest : Bytes) :
    derLocateEntries (tlv tag body ++ rest) = derInner body := by
  rw [derLocateEntries, definiteLength_read small rest]
  simp only [Option.bind_eq_bind, Option.bind_some, header_size, derRange_body]

theorem derDecodeValue_tlv {depth : Nat} (shallow : depth ≤ maxDerValueDepth) (small : body.length < 2^32) (rest : Bytes) :
    derDecodeValue (tlv tag body ++ rest) depth =
      if tag = 0x01 then some (.bool (decide (body[0]?.getD 0 ≠ 0)))
      else if tag = 0x02 then some (.integer (derDecodeInteger body))
      else if tag = 0x0c then some (.string (utf8Lossy body))
      else if tag = 0x30 ∨ tag = 0x31 ∨ tag = 0xa0 ∨ tag = 0xb0 then
        some (.array (((derItems body).filterMap fun item => derDecodeValue item.whole (depth + 1)).take maxDerArrayItems))
      else some (.other tag) := by
  rw [derDecodeValue, dif_neg (Nat.not_lt.mpr shallow), definiteLength_read small rest]
  simp only [Option.bind_eq_bind, Option.bind_some, header_size, derRange_body]

theorem derDecodeInteger_eq (body : Bytes) : derDecodeInteger body = (BitVec.ofNat 64 (beNumber (body.take 8))).toInt := by
  have below := beNumber_lt (body.take 8)
  have few : (body.take 8).length ≤ 8 := by
    rw [List.length_take]
    exact Nat.min_le_left 8 _
  have bound : 256 ^ (body.take 8).length ≤ 256 ^ 8 := Nat.pow_le_pow_right (by decide) few
  have word := foldl_word (0 : U64) (body.take 8) (by decide) (by simp; omega)
  rw [derDecodeInteger]
  congr 1
  apply BitVec.eq_of_toNat_eq
  rw [word, toNat_ofNat_of_lt (by omega)]
  simp

theorem derDecodeInteger_bytes {n : Nat} (small : n < 2^63) : derDecodeInteger (integerBytes n) = n := by
  have short : (integerBytes n).length ≤ 8 := integerBytes_length_le (by decide) (by omega)
  rw [derDecodeInteger_eq, List.take_of_length_le short, beNumber_integerBytes, BitVec.toInt_eq_toNat_cond,
    toNat_ofNat_of_lt (by omega), if_pos (by omega)]

end

namespace DerTree

theorem encodeItems_eq (items : List DerTree) : encodeItems items = items.flatMap encode := by
  induction items with
  | nil => rw [encodeItems, List.flatMap_nil]
  | cons item items ih => rw [encodeItems, ih, List.flatMap_cons]

theorem values_eq (items : List DerTree) : values items = items.map value := by
  induction items with
  | nil => rw [values, List.map_nil]
  | cons item items ih => rw [values, ih, List.map_cons]

theorem encode_tlv (t : DerTree) : ∃ tag body, t.encode = tlv tag body := by
  cases t <;> exact ⟨_, _, by rw [encode]⟩

theorem derItems_encode {items : List DerTree} (small : (items.flatMap encode).length < 2^32) :
    (derItems (items.flatMap encode)).map DerItem.whole = items.map encode := by
  choose tag body shape using encode_tlv
  rw [derItems_flatMap shape small, List.map_map]
  rfl

theorem not_leaf {tag : U8} (container : ContainerTag tag) : tag ≠ 0x01 ∧ tag ≠ 0x02 ∧ tag ≠ 0x0c := by
  rcases container with rfl | rfl | rfl | rfl <;> decide

theorem decode_encode {t : DerTree} {levels depth : Nat} (fits : t.Fits levels) (room : depth + levels ≤ maxDerValueDepth)
    (small : t.encode.length < 2^32) (rest : Bytes) : derDecodeValue (t.encode ++ rest) depth = some t.value := by
  induction fits generalizing depth rest with
  | @bool b levels =>
    rw [encode, tlv_length] at small
    rw [encode, derDecodeValue_tlv (by omega) (by omega), if_pos rfl, value]
    cases b <;> rfl
  | @integer n levels bound =>
    rw [encode, tlv_length] at small
    rw [encode, derDecodeValue_tlv (by omega) (by omega), if_neg (by decide), if_pos rfl, value,
      derDecodeInteger_bytes bound]
  | @string text levels valid =>
    rw [encode, tlv_length] at small
    rw [encode, derDecodeValue_tlv (by omega) (by omega), if_neg (by decide), if_neg (by decide), if_pos rfl, value,
      utf8Lossy_of_valid valid]
  | @empty tag levels container =>
    rcases not_leaf container with ⟨first, second, third⟩
    rw [encode, tlv_length] at small
    rw [encode, derDecodeValue_tlv (by omega) (by omega), if_neg first, if_neg second, if_neg third, if_pos container,
      encodeItems, derItems_nil, value, values]
    rfl
  | @array tag items levels container few fits ih =>
    rcases not_leaf container with ⟨first, second, third⟩
    rw [encode, encodeItems_eq, tlv_length] at small
    have each : ∀ item ∈ items, derDecodeValue item.encode (depth + 1) = some item.value := by
      intro item member
      have shorter := length_le_flatMap encode member
      have decoded : derDecodeValue (item.encode ++ []) (depth + 1) = some item.value :=
        ih item member (by omega) (by omega) []
      rwa [List.append_nil] at decoded
    have whole : (derItems (items.flatMap encode)).filterMap (fun item => derDecodeValue item.whole (depth + 1)) =
        items.map value := by
      have walked := congrArg (List.filterMap fun item => derDecodeValue item (depth + 1))
        (@derItems_encode items (by omega))
      rw [List.filterMap_map, List.filterMap_map] at walked
      rw [← List.filterMap_eq_map', ← List.filterMap_congr each]
      exact walked
    rw [encode, encodeItems_eq, derDecodeValue_tlv (by omega) (by omega), if_neg first, if_neg second, if_neg third,
      if_pos container, whole, value, values_eq, List.take_of_length_le (by rw [List.length_map]; exact few)]
  | @other tag body levels unknown =>
    rw [encode, tlv_length] at small
    simp only [List.mem_cons, List.not_mem_nil, or_false, not_or] at unknown
    have container : ¬ (tag = 0x30 ∨ tag = 0x31 ∨ tag = 0xa0 ∨ tag = 0xb0) := by
      simp only [not_or]
      exact unknown.2.2.2
    rw [encode, derDecodeValue_tlv (by omega) (by omega), if_neg unknown.1, if_neg unknown.2.1, if_neg unknown.2.2.1,
      if_neg container, value]

end DerTree

abbrev DerEntry := Bytes × DerTree

def DerEntry.body (e : DerEntry) : Bytes := tlv 0x0c e.1 ++ e.2.encode

def DerEntry.encode (e : DerEntry) : Bytes := tlv 0x30 (DerEntry.body e)

def encodeEntries (entries : List DerEntry) : Bytes := entries.flatMap DerEntry.encode

/-- `[APPLICATION 16] { INTEGER version, container { SEQUENCE { UTF8String key, value } … } }` -/
def encodeEntitlements (version : Bytes) (container : U8) (entries : List DerEntry) : Bytes :=
  tlv 0x70 (tlv 0x02 version ++ tlv container (encodeEntries entries))

section

variable {version : Bytes} {container : U8} {entries : List DerEntry} {e : DerEntry}

theorem derItems_entries (small : (encodeEntries entries).length < 2^32) :
    derItems (encodeEntries entries) = entries.map fun e => ⟨0x30, DerEntry.body e, DerEntry.encode e⟩ :=
  derItems_flatMap (fun _ => rfl) small

theorem derLocateEntries_encode (listed : container = 0xb0 ∨ container = 0xa0)
    (small : (encodeEntitlements version container entries).length < 2^32) :
    derLocateEntries (encodeEntitlements version container entries) = some (encodeEntries entries) := by
  rw [encodeEntitlements, tlv_length, List.length_append, tlv_length, tlv_length] at small
  have located := @derLocateEntries_tlv 0x70 (tlv 0x02 version ++ tlv container (encodeEntries entries))
    (by rw [List.length_append, tlv_length, tlv_length]; omega) []
  have other : container ≠ 0x02 := by rcases listed with rfl | rfl <;> decide
  have inner := @derInner_tlv container (encodeEntries entries) other (by omega) []
  rw [List.append_nil] at located inner
  rw [encodeEntitlements, located, derInner_integer (by omega), inner, if_pos (.inr (.inr listed.symm))]

theorem derRange_rest (first rest : Bytes) : derRange (first ++ rest) first.length (first ++ rest).length = some rest := by
  rw [derRange, if_pos (by rw [List.length_append]; omega), List.drop_left, List.length_append, Nat.add_sub_cancel_left,
    List.take_length]

theorem derEntryPair_encode (valid : validUtf8 e.1 = true) (fits : e.2.Fits maxDerValueDepth)
    (small : (DerEntry.body e).length < 2^32) : derEntryPair (DerEntry.body e) = some (e.1, e.2.value) := by
  have whole := derRange_rest (tlv 0x0c e.1) e.2.encode
  rw [DerEntry.body, List.length_append, tlv_length] at small
  have decoded := DerTree.decode_encode fits (Nat.le_of_eq (Nat.zero_add _)) (by omega) []
  rw [List.append_nil] at decoded
  rw [DerEntry.body, derEntryPair, definiteLength_read (by omega) e.2.encode]
  simp only [Option.bind_eq_bind, Option.bind_some, ne_eq, not_true, if_false, header_size, derRange_body, valid, if_true,
    whole, decoded, Option.getD_some]

theorem derFirstUtf8String_encode (valid : validUtf8 e.1 = true) (small : (DerEntry.body e).length < 2^32) :
    derFirstUtf8String (DerEntry.body e) = some e.1 := by
  rw [DerEntry.body, List.length_append, tlv_length] at small
  rw [DerEntry.body, derFirstUtf8String, definiteLength_read (by omega) e.2.encode]
  simp only [Option.bind_eq_bind, Option.bind_some, ne_eq, not_true, if_false, header_size, derRange_body, valid, if_true]

theorem derCollect_encode {α : Type} {read : Bytes → Option α} {f : DerEntry → α}
    (listed : container = 0xb0 ∨ container = 0xa0) (small : (encodeEntitlements version container entries).length < 2^32)
    (each : ∀ e ∈ entries, (DerEntry.body e).length < 2^32 → read (DerEntry.body e) = some (f e)) :
    derCollect read (encodeEntitlements version container entries) = entries.map f := by
  have located := derLocateEntries_encode listed small
  rw [encodeEntitlements, tlv_length, List.length_append, tlv_length, tlv_length] at small
  rw [derCollect, located, Option.getD_some, derItems_entries (by omega), List.filterMap_map, ← List.filterMap_eq_map']
  apply List.filterMap_congr
  intro e member
  have shorter : (DerEntry.encode e).length ≤ (encodeEntries entries).length := length_le_flatMap DerEntry.encode member
  rw [DerEntry.encode, tlv_length] at shorter
  exact each e member (by omega)

end

/-- The DER entitlements round trip. The pairs are the entries that were written, in order, and the keys are
    the strictly ascending list of the same keys. -/
theorem der_entitlements_round_trip (version : Bytes) (container : U8) (entries : List DerEntry)
    (listed : container = 0xb0 ∨ container = 0xa0) (keys : ∀ e ∈ entries, validUtf8 e.1 = true)
    (fits : ∀ e ∈ entries, e.2.Fits maxDerValueDepth) (ents : DerEntitlements)
    (payload : ents.payload.bytes = encodeEntitlements version container entries)
    (small : (encodeEntitlements version container entries).length < 2^32) :
    ents.pairs = entries.map (fun e => (e.1, e.2.value)) ∧
      ents.keys.Pairwise (· < ·) ∧ ∀ key, key ∈ ents.keys ↔ key ∈ entries.map Prod.fst := by
  have pairs : ents.pairs = entries.map fun e => (e.1, e.2.value) := by
    rw [DerEntitlements.pairs, payload]
    exact derCollect_encode listed small fun e member short => derEntryPair_encode (keys e member) (fits e member) short
  have collected : derCollectKeys ents.payload.bytes = entries.map Prod.fst := by
    rw [payload]
    exact derCollect_encode listed small fun e member short => derFirstUtf8String_encode (keys e member) short
  have same : ents.keys = ((entries.map Prod.fst).insertionSort (· ≤ ·)).destutter (· ≠ ·) := by
    rw [DerEntitlements.keys, collected]
  rw [same]
  exact ⟨pairs, sorted_distinct (entries.map Prod.fst)⟩

def nestedEntries : List DerEntry :=
  [([0x6b], .array 0x30 [.bool true, .array 0x31 [.integer 200]]), ([0x61], .other 0x05 [])]

def nestedEntitlements : DerEntitlements := ⟨⟨0, encodeEntitlements [1] 0xb0 nestedEntries, by decide +kernel⟩⟩

theorem der_entitlements_round_trip_nested :
    nestedEntitlements.pairs = [([0x6b], .array [.bool true, .array [.integer 200]]), ([0x61], .other 0x05)] ∧
      nestedEntitlements.keys.Pairwise (· < ·) ∧
        ∀ key, key ∈ nestedEntitlements.keys ↔ key ∈ nestedEntries.map Prod.fst :=
  der_entitlements_round_trip [1] 0xb0 nestedEntries (.inl rfl) (by decide)
    (by
      simp only [nestedEntries, List.forall_mem_cons]
      refine ⟨.array (.inl rfl) (by decide) ?_, .other (by decide), by simp⟩
      simp only [List.forall_mem_cons]
      refine ⟨.bool, .array (.inr (.inl rfl)) (by decide) ?_, by simp⟩
      simp only [List.forall_mem_cons]
      exact ⟨.integer (by decide), by simp⟩)
    nestedEntitlements rfl (by decide)

end DarwinScope.Codesign
