import DarwinScope.Objc.Lists

namespace DarwinScope.Objc

open Machine

abbrev quote : U8 := 0x22
abbrev comma : U8 := 0x2c

structure ParsedAttribute where
  key : Char
  value : Str
deriving DecidableEq

structure ParsedAttributes where
  typeEncoding : Str
  items : List ParsedAttribute
deriving DecidableEq

def nextComma (j : Nat) (inQuotes : Bool) : Bytes → Nat
  | [] => j
  | c :: rest =>
    if c = quote then nextComma (j + 1) (!inQuotes) rest
    else if c = comma ∧ inQuotes = false then j
    else nextComma (j + 1) inQuotes rest

theorem nextComma_ge (j : Nat) (inQuotes : Bool) (bytes : Bytes) : j ≤ nextComma j inQuotes bytes := by
  induction bytes generalizing j inQuotes with
  | nil => exact Nat.le_refl j
  | cons c bytes ih =>
    rw [nextComma]
    split
    · exact Nat.le_of_succ_le (ih (j + 1) (!inQuotes))
    · split
      · exact Nat.le_refl j
      · exact Nat.le_of_succ_le (ih (j + 1) inQuotes)

/-- One item after the other from the place `i` on. A key is one byte, and a value that cuts a character is empty. -/
def parseAttributesFrom (s : Str) (i : Nat) (parsed : ParsedAttributes) : ParsedAttributes :=
  if inside : i < s.text.length then
    let key := Char.ofNat s.text[i].toNat
    let j := nextComma (i + 1) false (s.text.drop (i + 1))
    let value := (s.get? (i + 1) j).getD (Str.literal "")
    let typeEncoding := if key = 'T' ∧ parsed.typeEncoding.text = [] then value else parsed.typeEncoding
    parseAttributesFrom s (if s.text[j]? = some comma then j + 1 else j) ⟨typeEncoding, parsed.items ++ [⟨key, value⟩]⟩
  else parsed
termination_by s.text.length - i
decreasing_by
  have forward := nextComma_ge (i + 1) false (s.text.drop (i + 1))
  split <;> omega

def parseAttributes (s : Str) : ParsedAttributes := parseAttributesFrom s 0 ⟨Str.literal "", []⟩

def Property.parsed (p : Property) : ParsedAttributes := parseAttributes p.attributes

/-- Quotes come in pairs and every comma stands behind an odd number of them, counted from a quoted place or not. -/
def QuotedFrom (inQuotes : Bool) (value : Bytes) : Prop :=
  (inQuotes.toNat + value.count quote) % 2 = 0 ∧
    ∀ before after, value = before ++ comma :: after → (inQuotes.toNat + before.count quote) % 2 = 1

structure AttributeData where
  key : Char
  value : Bytes
  ascii : key.toNat < 128
  separate : key ≠ ','
  valid : validUtf8 value = true
  quoted : QuotedFrom false value

namespace AttributeData

def encode (item : AttributeData) : Bytes := BitVec.ofNat 8 item.key.toNat :: item.value

def join : List AttributeData → Bytes
  | [] => []
  | [item] => item.encode
  | item :: rest => item.encode ++ comma :: join rest

def typeEncoding (items : List AttributeData) : Bytes :=
  ((items.find? fun item => item.key = 'T' && !item.value.isEmpty).map AttributeData.value).getD []

end AttributeData

section

variable {value rest : Bytes} {inQuotes : Bool} {j : Nat}

theorem quotedFrom_cons {c : U8} :
    QuotedFrom inQuotes (c :: value) ↔
      QuotedFrom (if c = quote then !inQuotes else inQuotes) value ∧ (c = comma → inQuotes = true) := by
  have split (bytes : Bytes) : (c :: bytes).count quote = (if c = quote then 1 else 0) + bytes.count quote := by
    rw [List.count_cons, Nat.add_comm]
    congr 1
    simp
  have turn : (if c = quote then !inQuotes else inQuotes).toNat % 2 = (inQuotes.toNat + if c = quote then 1 else 0) % 2 := by
    split_ifs <;> cases inQuotes <;> rfl
  constructor
  · rintro ⟨even, commas⟩
    refine ⟨⟨?_, ?_⟩, ?_⟩
    · rw [split] at even
      omega
    · intro before after same
      have odd := commas (c :: before) after (by rw [same, List.cons_append])
      rw [split] at odd
      omega
    · rintro rfl
      have odd := commas [] value rfl
      cases inQuotes with
      | false => cases odd
      | true => rfl
  · rintro ⟨⟨even, commas⟩, first⟩
    refine ⟨?_, ?_⟩
    · rw [split]
      omega
    · intro before after same
      cases before with
      | nil =>
        obtain ⟨rfl, rfl⟩ := List.cons.inj same
        rw [first rfl]
        rfl
      | cons b before =>
        obtain ⟨rfl, rfl⟩ := List.cons.inj same
        have odd := commas before after rfl
        rw [split]
        omega

instance QuotedFrom.decidable : (inQuotes : Bool) → (value : Bytes) → Decidable (QuotedFrom inQuotes value)
  | false, [] => isTrue ⟨rfl, by simp⟩
  | true, [] => isFalse fun quoted => absurd quoted.1 (by decide)
  | inQuotes, c :: value =>
    have := QuotedFrom.decidable (if c = quote then !inQuotes else inQuotes) value
    decidable_of_iff _ quotedFrom_cons.symm

theorem nextComma_quoted (quoted : QuotedFrom inQuotes value) (stop : rest = [] ∨ rest.head? = some comma) :
    nextComma j inQuotes (value ++ rest) = j + value.length := by
  induction value generalizing inQuotes j with
  | nil =>
    have outside : inQuotes = false := by
      have even := quoted.1
      cases inQuotes with
      | false => rfl
      | true => cases even
    rcases stop with rfl | head
    · rfl
    · rcases List.head?_eq_some_iff.mp head with ⟨tail, rfl⟩
      rw [outside, List.nil_append, nextComma, if_neg (by decide), if_pos ⟨rfl, rfl⟩]
      rfl
  | cons c value ih =>
    rcases quotedFrom_cons.mp quoted with ⟨tail, inside⟩
    rw [List.cons_append, nextComma, List.length_cons]
    by_cases turn : c = quote
    · rw [if_pos turn] at tail ⊢
      rw [ih tail]
      omega
    · have passed : ¬ (c = comma ∧ inQuotes = false) := by
        rintro ⟨rfl, rfl⟩
        cases inside rfl
      rw [if_neg turn] at tail ⊢
      rw [if_neg passed, ih tail]
      omega

end

theorem AttributeData.key_byte (item : AttributeData) : Char.ofNat (BitVec.ofNat 8 item.key.toNat).toNat = item.key := by
  have small := item.ascii
  rw [toNat_ofNat_of_lt (by omega), Char.ofNat_toNat]

namespace AttributeData

def step (parsed : ParsedAttributes) (item : AttributeData) (value : Str) : ParsedAttributes :=
  ⟨if item.key = 'T' ∧ parsed.typeEncoding.text = [] then value else parsed.typeEncoding,
    parsed.items ++ [⟨item.key, value⟩]⟩

section

variable {s : Str} {before rest : Bytes}

theorem get_value (item : AttributeData) (text : s.text = before ++ item.encode ++ rest)
    (stop : rest = [] ∨ rest.head? = some comma) :
    s.get? (before.length + 1) (before ++ item.encode).length =
      some ⟨s.origin.map (· + (before.length + 1)), item.value⟩ := by
  have whole : s.text = before ++ [BitVec.ofNat 8 item.key.toNat] ++ item.value ++ rest := by
    rw [text, encode]
    simp only [List.append_assoc, List.cons_append, List.nil_append]
  have start : (before ++ [BitVec.ofNat 8 item.key.toNat]).length = before.length + 1 := List.length_append
  have size : (before ++ item.encode).length = (before ++ [BitVec.ofNat 8 item.key.toNat] ++ item.value).length := by
    rw [encode, List.append_assoc, List.singleton_append]
  have upper : isCharBoundary s.text (before ++ item.encode).length = true := by
    rcases stop with rfl | head
    · rw [text, List.append_nil]
      exact isCharBoundary_length _
    · rcases List.head?_eq_some_iff.mp head with ⟨tail, rfl⟩
      have here : s.text[(before ++ item.encode).length]? = some comma := by
        rw [text, List.getElem?_append_right (Nat.le_refl _), Nat.sub_self]
        rfl
      rw [isCharBoundary, here]
      simp [comma]
  have lower : isCharBoundary s.text (before.length + 1) = true := by
    rw [whole, size] at upper
    rw [whole, ← start]
    exact isCharBoundary_of_valid item.valid upper
  have cut : (s.text.drop (before.length + 1)).take ((before ++ item.encode).length - (before.length + 1)) = item.value := by
    rw [whole, List.append_assoc, ← start, List.drop_left, size, List.length_append, Nat.add_sub_cancel_left, List.take_left]
  have ordered : before.length + 1 ≤ (before ++ item.encode).length := by
    rw [size, List.length_append, start]
    exact Nat.le_add_right _ _
  rw [Str.get?, if_pos ⟨ordered, lower, upper⟩, cut]

theorem parse_item (item : AttributeData) (text : s.text = before ++ item.encode ++ rest)
    (stop : rest = [] ∨ rest.head? = some comma) (parsed : ParsedAttributes) :
    ∃ value : Str, value.text = item.value ∧ parseAttributesFrom s before.length parsed =
      parseAttributesFrom s ((before ++ item.encode).length + (rest.take 1).length) (step parsed item value) := by
  have cut : s.text = before ++ BitVec.ofNat 8 item.key.toNat :: (item.value ++ rest) := by
    rw [text, encode, List.append_assoc, List.cons_append]
  have inside : before.length < s.text.length := by
    rw [cut, List.length_append, List.length_cons]
    omega
  have first : s.text[before.length] = BitVec.ofNat 8 item.key.toNat := by
    have at? : s.text[before.length]? = some (BitVec.ofNat 8 item.key.toNat) := by
      rw [cut, List.getElem?_append_right (Nat.le_refl _), Nat.sub_self]
      rfl
    exact (List.getElem?_eq_some_iff.mp at?).2
  have tail : s.text.drop (before.length + 1) = item.value ++ rest := by
    rw [cut, ← List.drop_drop, List.drop_left]
    rfl
  have place : before.length + 1 + item.value.length = (before ++ item.encode).length := by
    rw [List.length_append, encode, List.length_cons]
    omega
  have behind : s.text[(before ++ item.encode).length]? = rest.head? := by
    rw [text, List.getElem?_append_right (Nat.le_refl _), Nat.sub_self, List.head?_eq_getElem?]
  have next : (if rest.head? = some comma then (before ++ item.encode).length + 1 else (before ++ item.encode).length) =
      (before ++ item.encode).length + (rest.take 1).length := by
    rcases stop with rfl | head
    · rfl
    · rcases List.head?_eq_some_iff.mp head with ⟨after, rfl⟩
      rfl
  refine ⟨⟨s.origin.map (· + (before.length + 1)), item.value⟩, rfl, ?_⟩
  rw [parseAttributesFrom, dif_pos inside]
  simp only [first, item.key_byte, tail, nextComma_quoted item.quoted stop, place, get_value item text stop,
    Option.getD_some, behind, next]
  rfl

def content (item : AttributeData) : Char × Bytes := (item.key, item.value)

theorem join_cons (item : AttributeData) (items : List AttributeData) :
    ∃ rest, join (item :: items) = item.encode ++ rest ∧
      (rest = [] ∧ items = [] ∨ rest = comma :: join items ∧ items ≠ []) := by
  cases items with
  | nil => exact ⟨[], by rw [join, List.append_nil], .inl ⟨rfl, rfl⟩⟩
  | cons next items => exact ⟨comma :: join (next :: items), rfl, .inr ⟨rfl, List.cons_ne_nil _ _⟩⟩

end

end AttributeData

def ParsedAttribute.content (item : ParsedAttribute) : Char × Bytes := (item.key, item.value.text)

theorem AttributeData.typeEncoding_step (parsed : ParsedAttributes) (item : AttributeData) (items : List AttributeData)
    {value : Str} (same : value.text = item.value) :
    (if (step parsed item value).typeEncoding.text = [] then typeEncoding items
      else (step parsed item value).typeEncoding.text) =
      if parsed.typeEncoding.text = [] then typeEncoding (item :: items) else parsed.typeEncoding.text := by
  by_cases taken : parsed.typeEncoding.text = []
  · by_cases type : item.key = 'T'
    · have new : (step parsed item value).typeEncoding = value := if_pos ⟨type, taken⟩
      rw [if_pos taken, new, same, typeEncoding, typeEncoding, List.find?_cons]
      cases none : item.value with
      | nil => simp
      | cons byte bytes => simp [type, none]
    · have old : (step parsed item value).typeEncoding = parsed.typeEncoding := if_neg fun both => type both.1
      rw [old, if_pos taken, if_pos taken, typeEncoding, typeEncoding, List.find?_cons]
      simp [type]
  · have old : (step parsed item value).typeEncoding = parsed.typeEncoding := if_neg fun both => taken both.2
    rw [old, if_neg taken, if_neg taken]

/-- From a place where the items `items` start, the parser appends them and takes their type encoding when it has none. -/
theorem parseAttributesFrom_join {s : Str} (items : List AttributeData) {before : Bytes} (parsed : ParsedAttributes)
    (text : s.text = before ++ AttributeData.join items) :
    (parseAttributesFrom s before.length parsed).items.map ParsedAttribute.content =
        parsed.items.map ParsedAttribute.content ++ items.map AttributeData.content ∧
      (parseAttributesFrom s before.length parsed).typeEncoding.text =
        if parsed.typeEncoding.text = [] then AttributeData.typeEncoding items else parsed.typeEncoding.text := by
  induction items generalizing before parsed with
  | nil =>
    have length := congrArg List.length text
    rw [AttributeData.join, List.append_nil] at length
    rw [parseAttributesFrom, dif_neg (by omega)]
    refine ⟨(List.append_nil _).symm, ?_⟩
    split
    · assumption
    · rfl
  | cons item items ih =>
    rcases AttributeData.join_cons item items with ⟨rest, joined, tail⟩
    rw [joined, ← List.append_assoc] at text
    have stop : rest = [] ∨ rest.head? = some comma := by
      rcases tail with ⟨none, -⟩ | ⟨more, -⟩
      · exact .inl none
      · exact .inr (by rw [more, List.head?_cons])
    rcases AttributeData.parse_item item text stop parsed with ⟨value, same, turn⟩
    have later : s.text = before ++ item.encode ++ rest.take 1 ++ AttributeData.join items := by
      rcases tail with ⟨rfl, rfl⟩ | ⟨rfl, -⟩
      · rw [text, List.take_nil, AttributeData.join, List.append_nil, List.append_nil]
      · rw [text, List.append_assoc _ _ (AttributeData.join items)]
        rfl
    have found := ih (AttributeData.step parsed item value) later
    rw [List.length_append] at found
    rw [turn]
    refine ⟨?_, ?_⟩
    · rw [found.1, AttributeData.step, List.map_append, List.append_assoc]
      simp only [List.map_cons, List.map_nil, List.singleton_append, ParsedAttribute.content, AttributeData.content, same]
    · exact found.2.trans (AttributeData.typeEncoding_step parsed item items same)

/-- The property attribute round trip: a string of items joined with commas is split into these items, and its type
    encoding is the first value that a `T` has. -/
theorem attributes_round_trip (origin : Option Nat) (items : List AttributeData) :
    (parseAttributes ⟨origin, AttributeData.join items⟩).items.map ParsedAttribute.content =
      items.map AttributeData.content ∧
      (parseAttributes ⟨origin, AttributeData.join items⟩).typeEncoding.text = AttributeData.typeEncoding items := by
  have parsed := @parseAttributesFrom_join ⟨origin, AttributeData.join items⟩ items [] ⟨Str.literal "", []⟩ rfl
  exact parsed

/-- A generic dictionary with a comma in its quoted type, a flag, and a name in a value that is not ASCII. -/
def quotedItems : List AttributeData :=
  [⟨'T', lit "@\"NSDictionary<NSString *, NSNumber *>\"", by decide, by decide, by decide, by decide⟩,
    ⟨'C', [], by decide, by decide, by decide, by decide⟩,
    ⟨'V', lit "_größe", by decide, by decide, by decide, by decide⟩]

theorem quotedItems_round_trip :
    ((parseAttributes ⟨some 16, AttributeData.join quotedItems⟩).items.map ParsedAttribute.content =
        [('T', lit "@\"NSDictionary<NSString *, NSNumber *>\""), ('C', []), ('V', lit "_größe")]) ∧
      (parseAttributes ⟨some 16, AttributeData.join quotedItems⟩).typeEncoding.text =
        lit "@\"NSDictionary<NSString *, NSNumber *>\"" :=
  attributes_round_trip (some 16) quotedItems

end DarwinScope.Objc
