import DarwinScope.CFString

namespace DarwinScope

open Machine

inductive CFText where
  | utf8 (text : Bytes)
  | utf16 (text : List Char)
deriving DecidableEq

namespace CFText

def bytes : CFText → Bytes
  | utf8 text => text
  | utf16 text => unitBytes (toUtf16 text)

def length : CFText → Nat
  | utf8 text => text.length
  | utf16 text => (toUtf16 text).length

def encoding : CFText → CFStringEncoding
  | utf8 _ => .ascii
  | utf16 _ => .utf16Le

def flagBits : CFText → U32
  | utf8 _ => cfstringFlagAscii
  | utf16 _ => cfstringFlagUtf16

def Valid : CFText → Prop
  | utf8 text => validUtf8 text = true
  | utf16 _ => True

end CFText

structure CFStringData where
  isa : U64
  flags : U32
  pad : U32
  word : U64
  text : CFText
  bodyVa : U64

namespace CFStringData

def encode (d : CFStringData) : Bytes :=
  leBytes 8 d.isa.toNat ++ (leBytes 4 d.flags.toNat ++ (leBytes 4 d.pad.toNat ++
    (leBytes 8 d.word.toNat ++ leBytes 8 (BitVec.ofNat 64 d.text.length).toNat)))

structure Fits (rt : CFStringRuntime) (slotVa : U64) (d : CFStringData) : Prop where
  flags : d.flags &&& cfstringFlagEncodingMask = d.text.flagBits
  valid : d.text.Valid
  points : rt.rebasesByVa slotVa = some d.bodyVa ∨ rt.rebasesByVa slotVa = none ∧ stripSignature d.word = d.bodyVa
  nonzero : d.bodyVa ≠ 0
  stands : ∃ off, rt.vmToFileOffset d.bodyVa = some off ∧ off.toNat + d.text.bytes.length ≤ rt.data.length ∧
    rt.data.Holds off.toNat d.text.bytes

end CFStringData

structure CFStringContent where
  address : U64
  flags : U32
  encoding : CFStringEncoding
  bodyAddress : U64
  length : Nat
  text : Option CFText
deriving DecidableEq

def CFStringBody.text : CFStringBody → Option CFText
  | ascii s => some (.utf8 s.text)
  | utf16 text => some (.utf16 text)
  | unresolved => none

def CFString.content (s : CFString) : CFStringContent :=
  ⟨s.address, s.flags, s.encoding, s.bodyAddress, s.length.toNat, s.body.text⟩

def CFStringData.content (va : U64) (d : CFStringData) : CFStringContent :=
  ⟨va, d.flags, d.text.encoding, d.bodyVa, d.text.length, some d.text⟩

def cfStringPlace (rt : CFStringRuntime) (i : Nat) : U64 := rt.sectionVmaddr + BitVec.ofNat 64 (32 * i)

variable {rt : CFStringRuntime} {d : CFStringData} {i : Nat}

theorem CFStringData.encode_length (d : CFStringData) : d.encode.length = 32 := by
  simp only [CFStringData.encode, List.length_append, leBytes_length]

theorem CFText.length_le (text : CFText) : text.length ≤ text.bytes.length := by
  cases text with
  | utf8 text => exact Nat.le_refl _
  | utf16 text =>
    rw [CFText.bytes, unitBytes_length, CFText.length]
    omega

theorem encoding_of_bits (fits : d.flags &&& cfstringFlagEncodingMask = d.text.flagBits) :
    CFStringEncoding.fromFlags d.flags = d.text.encoding := by
  rw [CFStringEncoding.fromFlags, fits]
  cases d.text with
  | utf8 text => exact if_pos rfl
  | utf16 text => rfl

theorem decodeUtf16Le_bytes (text : List Char) : decodeUtf16Le (unitBytes (toUtf16 text)) = some text := by
  rw [decodeUtf16Le, unitBytes_length, if_neg (by omega), unitsLe_unitBytes, fromUtf16_toUtf16]

theorem decodeBody_text (text : CFText) (valid : text.Valid) {va : U64} (nonzero : va ≠ 0) {off : U64}
    (place : rt.vmToFileOffset va = some off) (inside : off.toNat + text.bytes.length ≤ rt.data.length)
    (holds : rt.data.Holds off.toNat text.bytes) {length : U64} (count : length.toNat = text.length) :
    (decodeBody rt text.encoding va length).text = some text := by
  have bound := rt.data.length_lt
  rcases Slice.get_of_le (Nat.le_add_right off.toNat text.bytes.length) inside with ⟨part, taken, -, bytes⟩
  rw [Nat.add_sub_cancel_left, holds.window] at bytes
  have stop : checkedAddUsize off.toNat text.bytes.length = some (off.toNat + text.bytes.length) :=
    checkedAddUsize_of_lt (by omega)
  rw [decodeBody, if_neg nonzero, place]
  cases text with
  | utf8 text =>
    change (decodeAscii rt off.toNat length).text = _
    simp only [CFText.bytes, CFText.length, CFText.Valid] at *
    simp only [decodeAscii, count, stop, taken, bytes, valid, if_true, CFStringBody.text]
  | utf16 text =>
    change (decodeUtf16 rt off.toNat length).text = _
    have size : (CFText.utf16 text).bytes.length = (toUtf16 text).length * 2 := by
      rw [CFText.bytes, unitBytes_length, Nat.mul_comm]
    have byteLen : checkedMulUsize (toUtf16 text).length 2 = some ((toUtf16 text).length * 2) := if_pos (by omega)
    rw [size] at stop taken
    simp only [decodeUtf16, count, CFText.length, byteLen, stop, taken, bytes, CFText.bytes, decodeUtf16Le_bytes,
      Option.bind_eq_bind, Option.bind_some, Option.map_some, Option.getD_some, CFStringBody.text]

theorem quadruple_words {s : Slice} {off : Nat} (holds : s.Holds off d.encode) :
    readU32LeAt s (off + 8) = some d.flags ∧ readU64LeAt s (off + 16) = some d.word ∧
      readU64LeAt s (off + 24) = some (BitVec.ofNat 64 d.text.length) := by
  have flags := holds.right.left
  have word := holds.right.right.right.left
  have length := holds.right.right.right.right
  simp only [leBytes_length, Nat.add_assoc, Nat.reduceAdd] at flags word length
  exact ⟨readAt_leBytes_of_holds (by decide) (by decide) flags, readAt_leBytes_of_holds (by decide) (by decide) word,
    readAt_leBytes_of_holds (by decide) (by decide) length⟩

theorem resolvePointer_of_fits {slotVa : U64} (fits : d.Fits rt slotVa) : rt.resolvePointer slotVa d.word = d.bodyVa := by
  rcases fits.points with rebased | ⟨plain, same⟩
  · rw [CFStringRuntime.resolvePointer, rebased, Option.getD_some]
  · rw [CFStringRuntime.resolvePointer, plain, Option.getD_none, same]

theorem cfStringIterNext_of_holds (holds : rt.sectionBody.Holds (32 * i) d.encode)
    (fits : d.Fits rt (cfStringPlace rt i + 16)) :
    ∃ row, cfStringIterNext rt (32 * i) = some (row, 32 * (i + 1)) ∧ row.content = d.content (cfStringPlace rt i) := by
  have bound := rt.sectionBody.length_lt
  have inside := holds.inside (by rw [CFStringData.encode_length]; decide)
  rw [CFStringData.encode_length] at inside
  rcases fits.stands with ⟨off, place, stands, standing⟩
  have count : (BitVec.ofNat 64 d.text.length).toNat = d.text.length := by
    have short := d.text.length_le
    have file := rt.data.length_lt
    rw [toNat_ofNat_of_lt (by omega)]
  have body := decodeBody_text d.text fits.valid fits.nonzero place stands standing count
  rcases quadruple_words holds with ⟨flags, word, length⟩
  have offsets : ∀ step ≤ 32, checkedAddUsize (32 * i) step = some (32 * i + step) := by
    intro step near
    exact checkedAddUsize_of_lt (by omega)
  have slot : rt.sectionVmaddr + BitVec.ofNat 64 (32 * i + 16) = cfStringPlace rt i + 16 := (add_ofNat_add ..).symm
  refine ⟨⟨cfStringPlace rt i, d.flags, d.text.encoding, d.bodyVa, BitVec.ofNat 64 d.text.length,
    decodeBody rt d.text.encoding d.bodyVa (BitVec.ofNat 64 d.text.length)⟩, ?_, ?_⟩
  · simp only [cfStringIterNext, offsets 32 (Nat.le_refl 32), offsets 8 (by decide), offsets 16 (by decide),
      offsets 24 (by decide), if_neg (show ¬ rt.sectionBody.length < 32 * i + 32 by omega), flags, word, length,
      Option.getD_some, slot, resolvePointer_of_fits fits, encoding_of_bits fits.flags, Option.bind_eq_bind,
      Option.bind_some]
    rfl
  · simp only [CFString.content, CFStringData.content, body, count]

/-- A table of constant strings is read back row by row, and what is too short for a row is left. -/
theorem cfStrings_roundTrip (rt : CFStringRuntime) (strings : List CFStringData) (trailing : Bytes)
    (laid : rt.sectionBody.bytes = strings.flatMap CFStringData.encode ++ trailing) (short : trailing.length < 32)
    (fits : ∀ i (d : CFStringData), strings[i]? = some d → d.Fits rt (cfStringPlace rt i + 16)) :
    ∀ fuel, strings.length < fuel → (cfStrings rt fuel).map (List.map CFString.content) =
      some (strings.zipIdx.map fun place => place.1.content (cfStringPlace rt place.2)) := by
  intro fuel enough
  have table : rt.sectionBody.Holds 0 (strings.flatMap CFStringData.encode) := ⟨trailing, by rw [List.drop_zero, laid]⟩
  refine @collect_yields _ _ (cfStringIterNext rt) _ CFString.content _ (fun i => 32 * i) ?_ ?_ fuel ?_
  · intro i item at?
    rw [List.getElem?_map, Option.map_eq_some_iff] at at?
    rcases at? with ⟨place, here, rfl⟩
    rcases getElem?_zipIdx_some here with ⟨given, same⟩
    have part := table.entry (fun d _ => d.encode_length) given
    rw [Nat.zero_add] at part
    rw [same]
    exact cfStringIterNext_of_holds part (fits i place.1 given)
  · have bound := rt.sectionBody.length_lt
    have size : rt.sectionBody.length = 32 * strings.length + trailing.length := by
      rw [Slice.length, laid, List.length_append, flatMap_length fun d _ => CFStringData.encode_length d]
    have next : checkedAddUsize (32 * strings.length) cfstringStride = some (32 * strings.length + 32) :=
      checkedAddUsize_of_lt (by change 32 * strings.length + 32 < 2^64; omega)
    rw [List.length_map, List.length_zipIdx]
    simp only [cfStringIterNext, next, if_pos (show rt.sectionBody.length < 32 * strings.length + 32 by omega),
      Option.bind_eq_bind, Option.bind_some]
  · rwa [List.length_map, List.length_zipIdx]

/-- The empty string, one with a NUL in it, and a surrogate pair behind a NUL; the second through a rebase. -/
def sampleStrings : List CFStringData :=
  [⟨0, 0xffff07c8, 0, 0x8000000000001000, .utf8 [], 0x1000⟩, ⟨1, 0x07cf, 9, 0, .utf8 [0x61, 0, 0x62], 0x1000⟩,
    ⟨0, 0x07d0, 0, 0x1004, .utf16 [Char.ofNat 0, Char.ofNat 0x1f600], 0x1004⟩]

def sampleStringRuntime : CFStringRuntime where
  data := ⟨0, [0x61, 0, 0x62, 0] ++ unitBytes (toUtf16 [Char.ofNat 0, Char.ofNat 0x1f600]), by decide⟩
  segments := [⟨0x1000, 0x1000, 0, 0x0a⟩]
  sectionBody := ⟨0, sampleStrings.flatMap CFStringData.encode ++ [0xff], by decide +kernel⟩
  sectionVmaddr := 0x2000
  rebasesByVa := fun slot => if slot = 0x2030 then some 0x1000 else none

theorem cfStrings_roundTrip_sample :
    (cfStrings sampleStringRuntime 4).map (List.map CFString.content) =
      some (sampleStrings.zipIdx.map fun place => place.1.content (cfStringPlace sampleStringRuntime place.2)) := by
  refine cfStrings_roundTrip sampleStringRuntime sampleStrings [0xff] rfl (by decide) ?_ 4 (by decide)
  intro i d at?
  match i with
  | 0 =>
    cases at?
    exact ⟨by decide, rfl, .inr ⟨rfl, by decide⟩, by decide, 0, by decide, by decide, by decide⟩
  | 1 =>
    cases at?
    exact ⟨by decide, rfl, .inl rfl, by decide, 0, by decide, by decide, by decide⟩
  | 2 =>
    cases at?
    exact ⟨by decide, trivial, .inr ⟨rfl, by decide⟩, by decide, 4, by decide, by decide, by decide⟩
  | i + 3 => cases at?

end DarwinScope
