import DarwinScope.Codesign.BlobRange
import DarwinScope.Codesign.Vectors

namespace DarwinScope.Codesign

open Machine

structure SuperBlobEntry where
  slot : U32
  magic : U32
  payload : Bytes

def SuperBlobEntry.blob (entry : SuperBlobEntry) : Bytes :=
  encodeWord entry.magic ++ (encodeWord (BitVec.ofNat 32 (8 + entry.payload.length)) ++ entry.payload)

def blobStart (entries : List SuperBlobEntry) (i : Nat) : Nat :=
  12 + 8 * entries.length + ((entries.take i).flatMap SuperBlobEntry.blob).length

def indexRow (entries : List SuperBlobEntry) (place : SuperBlobEntry × Nat) : BlobIndex :=
  ⟨Slot.fromRaw place.1.slot, place.1.slot, BitVec.ofNat 32 (blobStart entries place.2)⟩

def encodeIndexRow (row : BlobIndex) : Bytes := encodeWord row.rawSlot ++ encodeWord row.offset

def indexRows (entries : List SuperBlobEntry) : List BlobIndex := entries.zipIdx.map (indexRow entries)

def encodeSuperBlob (magic : U32) (entries : List SuperBlobEntry) : Bytes :=
  let body := (indexRows entries).flatMap encodeIndexRow ++ entries.flatMap SuperBlobEntry.blob
  encodeWord magic ++
    (encodeWord (BitVec.ofNat 32 (12 + body.length)) ++ (encodeWord (BitVec.ofNat 32 entries.length) ++ body))

def firstEntry (entries : List SuperBlobEntry) (slot : U32) : Option (SuperBlobEntry × Nat) :=
  entries.zipIdx.find? fun place => place.1.slot = slot

/-- What the first entry of a slot carries, when it has the magic of the slot. -/
def firstPayload (entries : List SuperBlobEntry) (slot expected : U32) : Option Bytes :=
  (firstEntry entries slot).bind fun place => if place.1.magic = expected then some place.1.payload else none

def alternateSlots : List U32 := [0x1000, 0x1001, 0x1002, 0x1003, 0x1004]

def entrySlice (data : Slice) (base : Nat) (entries : List SuperBlobEntry) (place : SuperBlobEntry × Nat) :
    Option Slice :=
  data.get (base + blobStart entries place.2) (base + blobStart entries place.2 + place.1.blob.length)

def Slot.raw : Slot → U32
  | .codeDirectory => 0
  | .infoSlot => 1
  | .requirements => 2
  | .resourceDir => 3
  | .application => 4
  | .entitlements => 5
  | .derEntitlements => 7
  | .launchConstraintSelf => 8
  | .launchConstraintParent => 9
  | .launchConstraintResponsible => 10
  | .libraryConstraint => 11
  | .alternateCodeDirectory index => index + 0x1000
  | .signatureSlot => 0x10000
  | .identificationSlot => 0x10001
  | .ticketSlot => 0x10002
  | .other raw => raw

theorem Slot.raw_ite {p : Prop} [Decidable p] {slot rest : Slot} {value : U32} (same : p → slot.raw = value)
    (other : rest.raw = value) : (if p then slot else rest).raw = value := by
  split
  · rename_i given
    exact same given
  · exact other

theorem Slot.raw_fromRaw (raw : U32) : (Slot.fromRaw raw).raw = raw := by
  unfold Slot.fromRaw
  iterate 11 refine Slot.raw_ite Eq.symm ?_
  refine Slot.raw_ite (fun _ => BitVec.sub_add_cancel raw 0x1000) ?_
  iterate 3 refine Slot.raw_ite Eq.symm ?_
  rfl

theorem Slot.fromRaw_entitlements : Slot.fromRaw 5 = .entitlements := by decide

theorem Slot.fromRaw_derEntitlements : Slot.fromRaw 7 = .derEntitlements := by decide

theorem Slot.fromRaw_signatureSlot : Slot.fromRaw 0x10000 = .signatureSlot := by decide

theorem Slot.fromRaw_alternate : ∀ i < 5,
    Slot.alternateCodeDirectory (BitVec.ofNat 32 i) = Slot.fromRaw (BitVec.ofNat 32 i + 0x1000) := by decide

theorem alternateSlots_eq : alternateSlots = (List.range 5).map fun i => BitVec.ofNat 32 i + 0x1000 := by decide

theorem Slot.fromRaw_eq {raw other : U32} : Slot.fromRaw raw = Slot.fromRaw other ↔ raw = other :=
  Function.Injective.eq_iff (Function.LeftInverse.injective Slot.raw_fromRaw)

variable {entries : List SuperBlobEntry} {entry : SuperBlobEntry} {i : Nat}

theorem SuperBlobEntry.blob_length (entry : SuperBlobEntry) : entry.blob.length = 8 + entry.payload.length := by
  simp only [blob, List.length_append, encodeWord_length]
  omega

theorem encodeIndexRow_length (row : BlobIndex) : (encodeIndexRow row).length = 8 := by
  rw [encodeIndexRow, List.length_append, encodeWord_length, encodeWord_length]

theorem indexRows_length_eq (entries : List SuperBlobEntry) : (indexRows entries).length = entries.length := by
  rw [indexRows, List.length_map, List.length_zipIdx]

theorem indexRows_length (entries : List SuperBlobEntry) :
    ((indexRows entries).flatMap encodeIndexRow).length = 8 * entries.length := by
  rw [flatMap_length fun row _ => encodeIndexRow_length row, indexRows_length_eq]

theorem encodeSuperBlob_length (magic : U32) (entries : List SuperBlobEntry) :
    (encodeSuperBlob magic entries).length = 12 + 8 * entries.length + (entries.flatMap SuperBlobEntry.blob).length := by
  simp only [encodeSuperBlob, List.length_append, encodeWord_length, indexRows_length]
  omega

def signatureOf (data : Slice) (base : Nat) (magic : U32) (entries : List SuperBlobEntry) : Signature where
  data := data
  base := base
  magic := magic
  length := BitVec.ofNat 32 (encodeSuperBlob magic entries).length
  count := BitVec.ofNat 32 entries.length

/-- A SuperBlob that stands in the data, and is not too long for its length words. -/
structure Placed (data : Slice) (base : Nat) (magic : U32) (entries : List SuperBlobEntry) : Prop where
  holds : data.Holds base (encodeSuperBlob magic entries)
  short : (encodeSuperBlob magic entries).length < 2^32

namespace Placed

variable {data : Slice} {base : Nat} {magic : U32}

theorem inside (placed : Placed data base magic entries) :
    base + (encodeSuperBlob magic entries).length ≤ data.length := by
  apply placed.holds.inside
  rw [encodeSuperBlob_length]
  omega

theorem index (placed : Placed data base magic entries) :
    data.Holds (base + 12) ((indexRows entries).flatMap encodeIndexRow) := by
  have body := placed.holds.right.right.right.left
  simp only [encodeWord_length] at body
  exact body

theorem blobs (placed : Placed data base magic entries) :
    data.Holds (base + (12 + 8 * entries.length)) (entries.flatMap SuperBlobEntry.blob) := by
  have body := placed.holds.right.right.right.right
  simp only [encodeWord_length, indexRows_length] at body
  rwa [show base + 4 + 4 + 4 + 8 * entries.length = base + (12 + 8 * entries.length) by omega] at body

theorem blob (placed : Placed data base magic entries) (at? : entries[i]? = some entry) :
    data.Holds (base + blobStart entries i) entry.blob := by
  have part := placed.blobs.item at?
  rwa [Nat.add_assoc, ← blobStart] at part

theorem blob_inside (at? : entries[i]? = some entry) :
    blobStart entries i + entry.blob.length ≤ (encodeSuperBlob magic entries).length := by
  rcases List.getElem?_eq_some_iff.mp at? with ⟨near, rfl⟩
  have cut : entries.flatMap SuperBlobEntry.blob =
      (entries.take i).flatMap SuperBlobEntry.blob ++ (entries[i] :: entries.drop (i + 1)).flatMap SuperBlobEntry.blob := by
    rw [List.getElem_cons_drop, ← List.flatMap_append, List.take_append_drop]
  rw [encodeSuperBlob_length, cut, List.length_append, List.flatMap_cons, List.length_append, blobStart]
  omega

theorem start_lt (placed : Placed data base magic entries) (at? : entries[i]? = some entry) :
    (BitVec.ofNat 32 (blobStart entries i)).toNat = blobStart entries i := by
  have short := placed.short
  have inside := @blob_inside entries entry i magic at?
  rw [toNat_ofNat_of_lt (by omega)]

theorem parse (placed : Placed data base magic entries)
    (known : magic = csmagicEmbeddedSignature ∨ magic = csmagicEmbeddedSignatureOld) :
    Signature.parse data base = some (signatureOf data base magic entries) := by
  have bound := data.length_lt
  have short := placed.short
  have inside := placed.inside
  have size := encodeSuperBlob_length magic entries
  have length := readU32BeAt_holds placed.holds.right.left
  have count := readU32BeAt_holds placed.holds.right.right.left
  simp only [encodeWord_length, List.length_append, indexRows_length, Nat.add_assoc, Nat.reduceAdd] at length count
  rw [← Nat.add_assoc, ← size] at length
  have total : (BitVec.ofNat 32 (encodeSuperBlob magic entries).length).toNat = (encodeSuperBlob magic entries).length := by
    rw [toNat_ofNat_of_lt short]
  have number : (BitVec.ofNat 32 entries.length).toNat = entries.length := by
    rw [toNat_ofNat_of_lt (by omega)]
  obtain ⟨header, taken, -⟩ := Slice.get_of_le (s := data) (Nat.le_add_right base 12) (by omega)
  have offsets : ∀ step ≤ 12, checkedAddUsize base step = some (base + step) := by
    intro step near
    exact checkedAddUsize_of_lt (by omega)
  have index : checkedMulUsize entries.length blobIndexSize = some (8 * entries.length) := by
    rw [checkedMulUsize, if_pos (show entries.length * 8 < 2^64 by omega), Nat.mul_comm]
  have need : checkedAddUsize superblobHeaderSize (8 * entries.length) = some (12 + 8 * entries.length) :=
    checkedAddUsize_of_lt (by change 12 + 8 * entries.length < 2^64; omega)
  have stop : checkedAddUsize base (encodeSuperBlob magic entries).length =
      some (base + (encodeSuperBlob magic entries).length) := checkedAddUsize_of_lt (by omega)
  have named : ¬ (magic ≠ csmagicEmbeddedSignature ∧ magic ≠ csmagicEmbeddedSignatureOld) :=
    fun unknown => known.elim unknown.1 unknown.2
  simp only [Signature.parse, signatureOf, offsets 12 (Nat.le_refl 12), offsets 4 (by decide), offsets 8 (by decide), taken,
    readU32BeAt_holds placed.holds.left, if_neg named, length, count, number, index, need, total, stop,
    if_neg (show ¬ (encodeSuperBlob magic entries).length < 12 + 8 * entries.length by omega),
    if_neg (show ¬ data.length < base + (encodeSuperBlob magic entries).length by omega),
    Option.bind_eq_bind, Option.bind_some]

theorem count (placed : Placed data base magic entries) :
    (signatureOf data base magic entries).count.toNat = entries.length := by
  have short := placed.short
  rw [encodeSuperBlob_length] at short
  rw [signatureOf, toNat_ofNat_of_lt (by omega)]

theorem indexRow_holds (placed : Placed data base magic entries) {row : BlobIndex}
    (found : (indexRows entries)[i]? = some row) :
    data.Holds (base + 12 + 8 * i) (encodeIndexRow row) :=
  placed.index.entry (fun row _ => encodeIndexRow_length row) found

theorem blobs_eq (placed : Placed data base magic entries) :
    (signatureOf data base magic entries).blobs = indexRows entries := by
  have bound := data.length_lt
  have inside := placed.inside
  have long := indexRows_length_eq entries
  rw [encodeSuperBlob_length] at inside
  rw [Signature.blobs, placed.count, ← indexRows_length_eq]
  refine rows_yield fun i row found => ?_
  have near := (List.getElem?_eq_some_iff.mp found).1
  have part := placed.indexRow_holds found
  have offset := readU32BeAt_holds part.right
  rw [encodeWord_length] at offset
  have first : checkedAddUsize base superblobHeaderSize = some (base + 12) :=
    checkedAddUsize_of_lt (by change base + 12 < _; omega)
  have step : checkedMulUsize i blobIndexSize = some (8 * i) := by
    rw [checkedMulUsize, if_pos (show i * 8 < 2^64 by omega), Nat.mul_comm]
  have entryOff : checkedAddUsize (base + 12) (8 * i) = some (base + 12 + 8 * i) := checkedAddUsize_of_lt (by omega)
  have offOff : checkedAddUsize (base + 12 + 8 * i) 4 = some (base + 12 + 8 * i + 4) := checkedAddUsize_of_lt (by omega)
  rw [indexRows, List.getElem?_map, Option.map_eq_some_iff] at found
  rcases found with ⟨place, -, rfl⟩
  simp only [Signature.blobRow, signatureOf, first, step, entryOff, offOff, readU32BeAt_holds part.left, offset,
    Option.bind_eq_bind, Option.bind_some, indexRow]

theorem blobBytesAt_eq (placed : Placed data base magic entries) {place : SuperBlobEntry × Nat}
    (member : place ∈ entries.zipIdx) :
    (signatureOf data base magic entries).blobBytesAt (indexRow entries place).offset =
    entrySlice data base entries place := by
  have at? := List.mem_zipIdx_iff_getElem?.mp member
  have blob := placed.blob at?
  have inside := placed.inside
  have header := readU32BeAt_holds blob.right.left
  have start := placed.start_lt at?
  have short := placed.short
  have within := @blob_inside entries place.1 place.2 magic at?
  have size := place.1.blob_length
  rw [encodeWord_length] at header
  have total : (BitVec.ofNat 32 (8 + place.1.payload.length)).toNat = place.1.blob.length := by
    rw [BitVec.toNat_ofNat, Nat.mod_eq_of_lt, size]
    omega
  have near : base ≤ data.length := by omega
  ext part
  rw [Signature.blobBytesAt_iff near, indexRow, signatureOf, start, header]
  simp only [Option.some.injEq, exists_eq_left', total, entrySlice]
  exact and_iff_right (by change 8 ≤ _; omega)

theorem entrySlice_bytes (placed : Placed data base magic entries) (at? : entries[i]? = some entry) :
    ∃ part, entrySlice data base entries (entry, i) = some part ∧ part.bytes = entry.blob := by
  have size := entry.blob_length
  rcases Slice.get_of_holds (placed.blob at?) (by omega) with ⟨part, taken, -, bytes⟩
  exact ⟨part, taken, bytes⟩

/-- A lookup finds the first entry of its slot, and nothing where no entry has it. -/
theorem findBlobBytes_eq (placed : Placed data base magic entries) (target : Slot) :
    (signatureOf data base magic entries).findBlobBytes target =
      (entries.zipIdx.find? fun place => Slot.fromRaw place.1.slot = target).bind (entrySlice data base entries) := by
  rw [Signature.findBlobBytes, placed.blobs_eq, indexRows, List.find?_map, Option.bind_map]
  refine Option.bind_congr fun place found => ?_
  exact placed.blobBytesAt_eq (List.mem_of_find?_eq_some found)

theorem findBlobBytes_slot (placed : Placed data base magic entries) (slot : U32) :
    (signatureOf data base magic entries).findBlobBytes (Slot.fromRaw slot) =
      (firstEntry entries slot).bind (entrySlice data base entries) := by
  simp only [placed.findBlobBytes_eq, Slot.fromRaw_eq, firstEntry]

end Placed

theorem blobPayload_blob {part : Slice} (bytes : part.bytes = entry.blob) (short : entry.blob.length < 2^32)
    (expected : U32) :
    (blobPayload expected part).map Slice.bytes = if entry.magic = expected then some entry.payload else none := by
  have size := entry.blob_length
  have long : part.length = entry.blob.length := congrArg List.length bytes
  have holds : part.Holds 0 entry.blob := ⟨[], by rw [List.append_nil, List.drop_zero, bytes]⟩
  have header := readU32BeAt_holds holds.right.left
  have body := holds.right.right
  simp only [encodeWord_length, Nat.zero_add] at header body
  have total : (BitVec.ofNat 32 (8 + entry.payload.length)).toNat = 8 + entry.payload.length := by
    rw [toNat_ofNat_of_lt (by omega)]
  rcases Slice.get_of_le (s := part) (Nat.le_add_right 8 entry.payload.length) (by omega) with ⟨payload, taken, -, rest⟩
  rw [Nat.add_sub_cancel_left, body.window] at rest
  simp only [blobPayload, blobHeaderSize, if_neg (show ¬ part.length < 8 by omega), readU32BeAt_holds holds.left, header,
    total, if_neg (show ¬ (8 + entry.payload.length < 8 ∨ part.length < 8 + entry.payload.length) by omega), taken,
    Option.bind_eq_bind, Option.bind_some, ite_not]
  split
  · rw [Option.map_some, rest]
  · rfl

theorem Placed.payload_eq {data : Slice} {base : Nat} {magic : U32} (placed : Placed data base magic entries)
    (slot expected : U32) :
    (((signatureOf data base magic entries).findBlobBytes (Slot.fromRaw slot)).bind (blobPayload expected)).map Slice.bytes =
      firstPayload entries slot expected := by
  rw [placed.findBlobBytes_slot, Option.bind_assoc, Option.map_bind]
  refine Option.bind_congr fun place found => ?_
  have at? := List.mem_zipIdx_iff_getElem?.mp (List.mem_of_find?_eq_some found)
  have short := placed.short
  have inside := @blob_inside entries place.1 place.2 magic at?
  rcases placed.entrySlice_bytes at? with ⟨part, taken, bytes⟩
  rw [Function.comp_apply, taken, Option.bind_some]
  exact blobPayload_blob bytes (by omega) expected

/-- An encoded SuperBlob is read back wherever it stands: its index row by row, the first blob of each
    slot, and what the accessors of the signature keep of it. -/
theorem superBlob_roundTrip (magic : U32) (entries : List SuperBlobEntry) (before after : Bytes) (data : Slice)
    (known : magic = csmagicEmbeddedSignature ∨ magic = csmagicEmbeddedSignatureOld)
    (short : (encodeSuperBlob magic entries).length < 2^32)
    (stored : data.bytes = before ++ (encodeSuperBlob magic entries ++ after)) :
    ∃ sig, Signature.parse data before.length = some sig ∧
      sig.blobs = indexRows entries ∧
      (∀ i entry, entries[i]? = some entry → (BitVec.ofNat 32 (blobStart entries i)).toNat = blobStart entries i ∧
        ∃ part, entrySlice data before.length entries (entry, i) = some part ∧ part.bytes = entry.blob) ∧
      (∀ slot, sig.findBlobBytes (Slot.fromRaw slot) =
        (firstEntry entries slot).bind (entrySlice data before.length entries)) ∧
      (∀ target, (∀ entry ∈ entries, Slot.fromRaw entry.slot ≠ target) → sig.findBlobBytes target = none) ∧
      sig.entitlements.map (·.payload.bytes) = firstPayload entries 5 csmagicEmbeddedEntitlements ∧
      sig.derEntitlements.map (·.payload.bytes) = firstPayload entries 7 csmagicEmbeddedDerEntitlements ∧
      sig.cms.map (·.payload.bytes) = firstPayload entries 0x10000 csmagicBlobwrapper ∧
      sig.alternateCodeDirectories = alternateSlots.filterMap fun slot =>
        ((firstEntry entries slot).bind (entrySlice data before.length entries)).bind CodeDirectory.parse := by
  have placed : Placed data before.length magic entries := ⟨⟨after, by rw [stored, List.drop_left]⟩, short⟩
  refine ⟨signatureOf data before.length magic entries, placed.parse known, placed.blobs_eq, ?_,
    placed.findBlobBytes_slot, ?_, ?_, ?_, ?_, ?_⟩
  · intro i entry at?
    exact ⟨placed.start_lt at?, placed.entrySlice_bytes at?⟩
  · intro target unknown
    rw [placed.findBlobBytes_eq, List.find?_eq_none.mpr, Option.bind_none]
    intro place member
    simpa using unknown place.1 (List.mem_of_getElem? (List.mem_zipIdx_iff_getElem?.mp member))
  · rw [← placed.payload_eq, Slot.fromRaw_entitlements, Signature.entitlements, Option.map_bind, Option.map_bind]
    exact Option.bind_congr fun blob _ => Option.map_map ..
  · rw [← placed.payload_eq, Slot.fromRaw_derEntitlements, Signature.derEntitlements, Option.map_bind, Option.map_bind]
    exact Option.bind_congr fun blob _ => Option.map_map ..
  · rw [← placed.payload_eq, Slot.fromRaw_signatureSlot, Signature.cms, Option.map_bind, Option.map_bind]
    exact Option.bind_congr fun blob _ => Option.map_map ..
  · rw [Signature.alternateCodeDirectories, alternateSlots_eq, List.filterMap_map]
    refine List.filterMap_congr fun i listed => ?_
    rw [Signature.alternateCodeDirectory, Slot.fromRaw_alternate i (List.mem_range.mp listed), placed.findBlobBytes_slot]
    rfl

/-- A slot without a blob of its kind, a slot given twice and a slot of no known kind. -/
def sampleSuperBlob : List SuperBlobEntry :=
  [⟨0x1000, 1, []⟩, ⟨5, csmagicEmbeddedEntitlements, [0x61]⟩, ⟨5, csmagicEmbeddedEntitlements, [0x62]⟩, ⟨0x999, 2, []⟩]

def sampleSuperBlobBytes : Bytes := [0, 0] ++ (encodeSuperBlob csmagicEmbeddedSignature sampleSuperBlob ++ [0])

theorem superBlob_roundTrip_twice :
    ∃ sig, Signature.parse ⟨0, sampleSuperBlobBytes, by decide⟩ 2 = some sig ∧
      sig.entitlements.map (·.payload.bytes) = some [0x61] ∧ sig.alternateCodeDirectories = [] := by
  rcases superBlob_roundTrip csmagicEmbeddedSignature sampleSuperBlob [0, 0] [0] ⟨0, sampleSuperBlobBytes, by decide⟩
    (Or.inl rfl) (by decide) rfl with ⟨sig, parsed, -, -, -, -, entitlements, -, -, alternates⟩
  refine ⟨sig, parsed, entitlements.trans (by decide +kernel), alternates.trans (by decide +kernel)⟩

end DarwinScope.Codesign
