import DarwinScope.Codesign.HashSlots
import DarwinScope.Codesign.SuperBlob

namespace DarwinScope.Codesign

open Machine

abbrev cdVersionSupportsScatter : U32 := 0x00020100
abbrev cdVersionSupportsCodeLimit64 : U32 := 0x00020300
abbrev cdVersionSupportsExecSeg : U32 := 0x00020400

abbrev cdFieldCodeLimit64 : Nat := 56
abbrev cdFieldExecSegBase : Nat := 64
abbrev cdFieldExecSegLimit : Nat := 72
abbrev cdFieldExecSegFlags : Nat := 80

inductive HashType where
  | sha1
  | sha256
  | sha256Truncated
  | sha384
  | sha512
  | other (raw : U8)
deriving DecidableEq

def HashType.fromRaw (raw : U8) : HashType :=
  if raw = 1 then .sha1
  else if raw = 2 then .sha256
  else if raw = 3 then .sha256Truncated
  else if raw = 4 then .sha384
  else if raw = 5 then .sha512
  else .other raw

structure Digests where
  sha256 : Bytes → Bytes
  sha384 : Bytes → Bytes
  sha512 : Bytes → Bytes

def copyPrefix (dst src : Bytes) : Bytes :=
  let n := min dst.length src.length
  src.take n ++ dst.drop n

namespace CodeDirectory

def hashType (cd : CodeDirectory) : HashType := HashType.fromRaw cd.hashTypeRaw

/-- Zero stands for one page of any size; the shift amount wraps. -/
def pageSize (cd : CodeDirectory) : U32 :=
  if cd.pageSizeLog2 = 0 then 0 else 1#32 <<< (cd.pageSizeLog2.toNat % 32)

def identifier (cd : CodeDirectory) : Option Str :=
  if cd.identOffset = 0 then none else readCstrAt cd.blob cd.identOffset.toNat

def teamId (cd : CodeDirectory) : Option Str :=
  if cd.version < cdVersionSupportsTeamId ∨ cd.teamOffset = 0 then none else readCstrAt cd.blob cd.teamOffset.toNat

def codeLimit64 (cd : CodeDirectory) : Option U64 :=
  if cd.version < cdVersionSupportsCodeLimit64 then none else readU64BeAt cd.blob cdFieldCodeLimit64

def execSegBase (cd : CodeDirectory) : Option U64 :=
  if cd.version < cdVersionSupportsExecSeg then none else readU64BeAt cd.blob cdFieldExecSegBase

def execSegLimit (cd : CodeDirectory) : Option U64 :=
  if cd.version < cdVersionSupportsExecSeg then none else readU64BeAt cd.blob cdFieldExecSegLimit

def execSegFlags (cd : CodeDirectory) : Option U64 :=
  if cd.version < cdVersionSupportsExecSeg then none else readU64BeAt cd.blob cdFieldExecSegFlags

def cdHash (digests : Digests) (cd : CodeDirectory) : Bytes :=
  match cd.hashType with
  | .sha256 => digests.sha256 cd.blob.bytes
  | .sha384 => digests.sha384 cd.blob.bytes
  | .sha512 => digests.sha512 cd.blob.bytes
  | .sha1 | .sha256Truncated | .other _ => []

/-- The digest is not built as a whole first. -/
def cdHashTruncated (digests : Digests) (cd : CodeDirectory) : Bytes :=
  let out := List.replicate 20 0#8
  match cd.hashType with
  | .sha256 => copyPrefix out (digests.sha256 cd.blob.bytes)
  | .sha384 => copyPrefix out (digests.sha384 cd.blob.bytes)
  | .sha512 => copyPrefix out (digests.sha512 cd.blob.bytes)
  | .sha1 | .sha256Truncated | .other _ => out

/-- Both ways to the short hash agree, also where a digest has fewer than 20 bytes. -/
theorem cdHashTruncated_eq (digests : Digests) (cd : CodeDirectory) :
    cd.cdHashTruncated digests = (cd.cdHash digests ++ List.replicate 20 0).take 20 := by
  have cut : ∀ src : Bytes, copyPrefix (List.replicate 20 0) src = (src ++ List.replicate 20 0).take 20 := by
    intro src
    simp only [copyPrefix, List.length_replicate, List.drop_replicate, List.take_append, List.take_replicate]
    by_cases long : 20 ≤ src.length
    · simp [Nat.min_eq_left long, Nat.sub_eq_zero_of_le long]
    · have short : src.length ≤ 20 := by omega
      simp [Nat.min_eq_right short, List.take_of_length_le short]
  unfold cdHashTruncated cdHash
  cases cd.hashType <;> first | exact cut _ | rfl

end CodeDirectory

structure DirectoryReport where
  version : U32
  flags : U32
  codeLimit : U32
  hashType : HashType
  hashSize : U8
  platform : U8
  pageSize : U32
  identifier : Option Bytes
  teamId : Option Bytes
  codeLimit64 : Option U64
  execSeg : Option U64 × Option U64 × Option U64
  specialHashes : List (Int × Bytes)
  codeHashes : List Bytes
  blob : Bytes
  cdHash : Bytes
  cdHashTruncated : Bytes
deriving DecidableEq

def CodeDirectory.report (digests : Digests) (cd : CodeDirectory) : DirectoryReport where
  version := cd.version
  flags := cd.flags
  codeLimit := cd.codeLimit
  hashType := cd.hashType
  hashSize := cd.hashSize
  platform := cd.platform
  pageSize := cd.pageSize
  identifier := cd.identifier.map Str.text
  teamId := cd.teamId.map Str.text
  codeLimit64 := cd.codeLimit64
  execSeg := (cd.execSegBase, cd.execSegLimit, cd.execSegFlags)
  specialHashes := cd.specialHashes.map fun hash => (hash.1, hash.2.bytes)
  codeHashes := cd.codeHashes.map Slice.bytes
  blob := cd.blob.bytes
  cdHash := cd.cdHash digests
  cdHashTruncated := cd.cdHashTruncated digests

def encodeLong (value : U64) : Bytes := beBytes 8 value.toNat

theorem readU64BeAt_holds {data : Slice} {off : Nat} {value : U64} (holds : data.Holds off (encodeLong value)) :
    readU64BeAt data off = some value := readAt_beBytes_of_holds (by rfl) (by decide) holds

/-- A code directory. Behind the fields of its version stand its strings and then its hashes, the special ones downwards. -/
structure DirectoryData where
  version : U32
  flags : U32
  codeLimit : U32
  hashSize : U8
  hashType : U8
  platform : U8
  pageSizeLog2 : U8
  spare2 : U32
  scatterOffset : U32
  spare3 : U32
  codeLimit64 : U64
  execSegBase : U64
  execSegLimit : U64
  execSegFlags : U64
  newer : Bytes
  identifier : Option Bytes
  teamId : Option Bytes
  special : List Bytes
  code : List Bytes

def textBytes : Option Bytes → Bytes
  | some text => text ++ [0]
  | none => []

/-- Zero stands for no string. -/
def textOffset (text : Option Bytes) (start : Nat) : Nat := if text.isSome then start else 0

namespace DirectoryData

variable (d : DirectoryData)

def versioned (teamOffset : U32) : Bytes :=
  (if cdVersionSupportsScatter ≤ d.version then encodeWord d.scatterOffset else []) ++
    ((if cdVersionSupportsTeamId ≤ d.version then encodeWord teamOffset else []) ++
      ((if cdVersionSupportsCodeLimit64 ≤ d.version then encodeWord d.spare3 ++ encodeLong d.codeLimit64 else []) ++
        ((if cdVersionSupportsExecSeg ≤ d.version then
            encodeLong d.execSegBase ++ (encodeLong d.execSegLimit ++ encodeLong d.execSegFlags)
          else []) ++ d.newer)))

def identStart : Nat := 44 + (d.versioned 0).length

def teamStart : Nat := d.identStart + (textBytes d.identifier).length

def hashStart : Nat := d.teamStart + (textBytes d.teamId).length

def hashOffset : Nat := d.hashStart + d.special.length * d.hashSize.toNat

def hashes : List Bytes := d.special.reverse ++ d.code

def payload : Bytes :=
  [d.version, d.flags, BitVec.ofNat 32 d.hashOffset, BitVec.ofNat 32 (textOffset d.identifier d.identStart),
      BitVec.ofNat 32 d.special.length, BitVec.ofNat 32 d.code.length, d.codeLimit].flatMap encodeWord ++
    ([d.hashSize, d.hashType, d.platform, d.pageSizeLog2] ++ (encodeWord d.spare2 ++
      (d.versioned (BitVec.ofNat 32 (textOffset d.teamId d.teamStart)) ++
        (textBytes d.identifier ++ (textBytes d.teamId ++ d.hashes.flatMap id)))))

def encode : Bytes := SuperBlobEntry.blob ⟨0, csmagicCodedirectory, d.payload⟩

structure Fits : Prop where
  short : d.encode.length < 2^32
  numbered : d.special.length < 2^31
  counted : d.code.length < 2^32
  sized : ∀ hash ∈ d.hashes, hash.length = d.hashSize.toNat
  identifier : ∀ text ∈ d.identifier, validUtf8 text = true ∧ 0#8 ∉ text
  teamId : ∀ text ∈ d.teamId, validUtf8 text = true ∧ 0#8 ∉ text

/-- Nothing for a hash type that has no digest here. -/
def hash (digests : Digests) : Bytes :=
  match HashType.fromRaw d.hashType with
  | .sha256 => digests.sha256 d.encode
  | .sha384 => digests.sha384 d.encode
  | .sha512 => digests.sha512 d.encode
  | .sha1 | .sha256Truncated | .other _ => []

def report (digests : Digests) : DirectoryReport where
  version := d.version
  flags := d.flags
  codeLimit := d.codeLimit
  hashType := HashType.fromRaw d.hashType
  hashSize := d.hashSize
  platform := d.platform
  pageSize := if d.pageSizeLog2 = 0 then 0 else BitVec.ofNat 32 (2 ^ (d.pageSizeLog2.toNat % 32))
  identifier := d.identifier
  teamId := if cdVersionSupportsTeamId ≤ d.version then d.teamId else none
  codeLimit64 := if cdVersionSupportsCodeLimit64 ≤ d.version then some d.codeLimit64 else none
  execSeg :=
    if cdVersionSupportsExecSeg ≤ d.version then (some d.execSegBase, some d.execSegLimit, some d.execSegFlags)
    else (none, none, none)
  specialHashes := d.special.zipIdx.map fun hash => (-((hash.2 + 1 : Nat) : Int), hash.1)
  codeHashes := d.code
  blob := d.encode
  cdHash := d.hash digests
  cdHashTruncated := (d.hash digests ++ List.replicate 20 0).take 20

theorem versioned_length (teamOffset : U32) : (d.versioned teamOffset).length = (d.versioned 0).length := by
  simp only [versioned, List.length_append]
  congr 2
  split <;> rfl

theorem encode_length : d.encode.length = d.hashStart + (d.hashes.flatMap id).length := by
  simp only [encode, SuperBlobEntry.blob, payload, List.length_append, encodeWord_length, List.flatMap_cons,
    List.flatMap_nil, List.length_cons, List.length_nil, versioned_length, hashStart, teamStart, identStart]
  omega

end DirectoryData

theorem optionalText {part : Slice} {text : Option Bytes} {start : Nat} (some : 0 < start) (low : start < 2^32)
    (valid : ∀ body ∈ text, validUtf8 body = true ∧ 0#8 ∉ body) (holds : part.Holds start (textBytes text)) :
    (if BitVec.ofNat 32 (textOffset text start) = 0 then none
      else readCstrAt part (BitVec.ofNat 32 (textOffset text start)).toNat).map Str.text = text := by
  cases text with
  | none => rfl
  | some body =>
    have number : (BitVec.ofNat 32 start).toNat = start := toNat_ofNat_of_lt low
    have nonzero : BitVec.ofNat 32 start ≠ 0 := by
      intro null
      rw [null] at number
      exact absurd number (Nat.ne_of_lt some)
    rcases valid body rfl with ⟨utf8, clean⟩
    simp only [textOffset, Option.isSome_some, if_true]
    rw [if_neg nonzero, number, readCstrAt_of_holds utf8 clean holds]
    rfl

section

variable {d : DirectoryData} {part : Slice}

theorem hashes_length (fits : d.Fits) :
    (d.hashes.flatMap id).length = d.hashSize.toNat * (d.special.length + d.code.length) := by
  rw [@flatMap_length _ id d.hashes _ fits.sized, DirectoryData.hashes, List.length_append, List.length_reverse]

theorem chunkAt_of_holds {cd : CodeDirectory} {k : Nat} {hash : Bytes} (fits : d.Fits) (slots : cd.SlotsFit)
    (special : cd.nSpecialSlots.toNat = d.special.length) (code : cd.nCodeSlots.toNat = d.code.length)
    (size : cd.hashSize = d.hashSize) (area : cd.hashArea = d.hashStart)
    (holds : cd.blob.Holds d.hashStart (d.hashes.flatMap id)) (at? : d.hashes[k]? = some hash) :
    (cd.chunkAt k).bytes = hash := by
  have below : k < d.hashes.length := (List.getElem?_eq_some_iff.mp at?).1
  rw [DirectoryData.hashes, List.length_append, List.length_reverse] at below
  rcases @CodeDirectory.SlotsFit.chunk_some cd k slots (by omega) with ⟨found, chunk, bytes⟩
  have stands := holds.entry fits.sized at?
  have width : hash.length = d.hashSize.toNat := fits.sized hash (List.mem_of_getElem? at?)
  rw [CodeDirectory.chunkAt, chunk, Option.getD_some, bytes, area, size, Nat.mul_comm k, ← width]
  rw [← width] at stands
  exact stands.window

structure DirectoryData.Stands (d : DirectoryData) (part : Slice) : Prop where
  magic : part.Holds 0 (encodeWord csmagicCodedirectory)
  words : part.Holds 8 ([d.version, d.flags, BitVec.ofNat 32 d.hashOffset,
    BitVec.ofNat 32 (textOffset d.identifier d.identStart), BitVec.ofNat 32 d.special.length, BitVec.ofNat 32 d.code.length,
    d.codeLimit].flatMap encodeWord)
  bytes : part.Holds 36 [d.hashSize, d.hashType, d.platform, d.pageSizeLog2]
  versioned : part.Holds 44 (d.versioned (BitVec.ofNat 32 (textOffset d.teamId d.teamStart)))
  identifier : part.Holds d.identStart (textBytes d.identifier)
  teamId : part.Holds d.teamStart (textBytes d.teamId)
  hashes : part.Holds d.hashStart (d.hashes.flatMap id)

theorem stands_of_bytes (same : part.bytes = d.encode) : d.Stands part := by
  have whole : part.Holds 0 d.encode := Slice.holds_of_bytes same
  have payload : part.Holds 8 d.payload := whole.right.right
  have bytes := payload.right
  have spare := bytes.right
  have versioned := spare.right
  have strings := versioned.right
  have team := strings.right
  have hashes := team.right
  simp only [List.flatMap_cons, List.flatMap_nil, List.length_append, encodeWord_length, List.length_cons, List.length_nil,
    DirectoryData.versioned_length] at bytes versioned strings team hashes
  exact ⟨whole.left, payload.left, bytes.left, versioned.left, strings.left, team.left, hashes⟩

theorem DirectoryData.Stands.word (stands : d.Stands part) {i : Nat} {word : U32}
    (at? : [d.version, d.flags, BitVec.ofNat 32 d.hashOffset, BitVec.ofNat 32 (textOffset d.identifier d.identStart),
      BitVec.ofNat 32 d.special.length, BitVec.ofNat 32 d.code.length, d.codeLimit][i]? = some word) :
    readU32BeAt part (8 + 4 * i) = some word :=
  readU32BeAt_holds (stands.words.entry (fun word _ => encodeWord_length word) at?)

theorem DirectoryData.Stands.later (stands : d.Stands part) :
    (cdVersionSupportsTeamId ≤ d.version → readU32BeAt part 48 = some (BitVec.ofNat 32 (textOffset d.teamId d.teamStart))) ∧
      (cdVersionSupportsCodeLimit64 ≤ d.version → readU64BeAt part 56 = some d.codeLimit64) ∧
      (cdVersionSupportsExecSeg ≤ d.version → readU64BeAt part 64 = some d.execSegBase ∧
        readU64BeAt part 72 = some d.execSegLimit ∧ readU64BeAt part 80 = some d.execSegFlags) := by
  have holds := stands.versioned
  unfold DirectoryData.versioned at holds
  have order : cdVersionSupportsScatter ≤ cdVersionSupportsTeamId ∧ cdVersionSupportsTeamId ≤ cdVersionSupportsCodeLimit64 ∧
      cdVersionSupportsCodeLimit64 ≤ cdVersionSupportsExecSeg := by decide
  refine ⟨fun team => ?_, fun limit => ?_, fun exec => ?_⟩
  · have scatter := BitVec.le_trans order.1 team
    rw [if_pos scatter, if_pos team] at holds
    exact readU32BeAt_holds holds.right.left
  · have team := BitVec.le_trans order.2.1 limit
    have scatter := BitVec.le_trans order.1 team
    rw [if_pos scatter, if_pos team, if_pos limit] at holds
    exact readU64BeAt_holds holds.right.right.left.right
  · have limit := BitVec.le_trans order.2.2 exec
    have team := BitVec.le_trans order.2.1 limit
    have scatter := BitVec.le_trans order.1 team
    rw [if_pos scatter, if_pos team, if_pos limit, if_pos exec] at holds
    have segment := holds.right.right.right.left
    exact ⟨readU64BeAt_holds segment.left, readU64BeAt_holds segment.right.left, readU64BeAt_holds segment.right.right⟩

def directoryOf (d : DirectoryData) (part : Slice) : CodeDirectory where
  blob := part
  version := d.version
  flags := d.flags
  hashOffset := BitVec.ofNat 32 d.hashOffset
  identOffset := BitVec.ofNat 32 (textOffset d.identifier d.identStart)
  nSpecialSlots := BitVec.ofNat 32 d.special.length
  nCodeSlots := BitVec.ofNat 32 d.code.length
  codeLimit := d.codeLimit
  hashSize := d.hashSize
  hashTypeRaw := d.hashType
  platform := d.platform
  pageSizeLog2 := d.pageSizeLog2
  teamOffset :=
    if cdVersionSupportsTeamId ≤ d.version then BitVec.ofNat 32 (textOffset d.teamId d.teamStart) else 0

theorem parse_of_stands (stands : d.Stands part) (long : 44 ≤ part.length) :
    CodeDirectory.parse part = some (directoryOf d part) := by
  have version : readU32BeAt part cdFieldVersion = some d.version := stands.word (i := 0) rfl
  have flags : readU32BeAt part cdFieldFlags = some d.flags := stands.word (i := 1) rfl
  have hashOffset : readU32BeAt part cdFieldHashOffset = some (BitVec.ofNat 32 d.hashOffset) := stands.word (i := 2) rfl
  have identOffset : readU32BeAt part cdFieldIdentOffset = some (BitVec.ofNat 32 (textOffset d.identifier d.identStart)) :=
    stands.word (i := 3) rfl
  have nSpecial : readU32BeAt part cdFieldNSpecialSlots = some (BitVec.ofNat 32 d.special.length) := stands.word (i := 4) rfl
  have nCode : readU32BeAt part cdFieldNCodeSlots = some (BitVec.ofNat 32 d.code.length) := stands.word (i := 5) rfl
  have codeLimit : readU32BeAt part cdFieldCodeLimit = some d.codeLimit := stands.word (i := 6) rfl
  have hashSize : part.bytes[cdFieldHashSize]? = some d.hashSize := stands.bytes.byte (i := 0) rfl
  have hashType : part.bytes[cdFieldHashType]? = some d.hashType := stands.bytes.byte (i := 1) rfl
  have platform : part.bytes[cdFieldPlatform]? = some d.platform := stands.bytes.byte (i := 2) rfl
  have pageSize : part.bytes[cdFieldPageSize]? = some d.pageSizeLog2 := stands.bytes.byte (i := 3) rfl
  have team : (if cdVersionSupportsTeamId ≤ d.version then (readU32BeAt part cdFieldTeamOffset).getD 0 else 0) =
      (directoryOf d part).teamOffset := by
    unfold directoryOf
    dsimp only
    split
    · rename_i given
      rw [stands.later.1 given, Option.getD_some]
    · rfl
  have enough : ¬ part.length < cdFieldPageSize + 1 := by
    change ¬ part.length < 40
    omega
  unfold CodeDirectory.parse
  rw [if_neg enough, readU32BeAt_holds stands.magic, Option.bind_eq_bind, Option.bind_some, if_neg (not_not_intro rfl)]
  simp only [version, flags, hashOffset, identOffset, nSpecial, nCode, codeLimit, hashSize, hashType, platform,
    pageSize, team, Option.bind_eq_bind, Option.bind_some]
  rfl

theorem pageSize_directoryOf (digests : Digests) :
    (directoryOf d part).pageSize = (d.report digests).pageSize := by
  simp only [CodeDirectory.pageSize, directoryOf, DirectoryData.report]
  congr 1
  apply BitVec.eq_of_toNat_eq
  simp [Nat.shiftLeft_eq]

theorem codeLimit64_of_stands (digests : Digests) (stands : d.Stands part) :
    (directoryOf d part).codeLimit64 = (d.report digests).codeLimit64 := by
  by_cases given : cdVersionSupportsCodeLimit64 ≤ d.version
  · simp only [CodeDirectory.codeLimit64, directoryOf, DirectoryData.report, BitVec.not_lt.mpr given, given, if_true,
      if_false, stands.later.2.1 given]
  · simp only [CodeDirectory.codeLimit64, directoryOf, DirectoryData.report, BitVec.not_le.mp given, given, if_true,
      if_false]

theorem execSeg_of_stands (digests : Digests) (stands : d.Stands part) :
    ((directoryOf d part).execSegBase, (directoryOf d part).execSegLimit, (directoryOf d part).execSegFlags) =
      (d.report digests).execSeg := by
  by_cases given : cdVersionSupportsExecSeg ≤ d.version
  · rcases stands.later.2.2 given with ⟨base, limit, flags⟩
    simp only [CodeDirectory.execSegBase, CodeDirectory.execSegLimit, CodeDirectory.execSegFlags, directoryOf,
      DirectoryData.report, BitVec.not_lt.mpr given, given, if_true, if_false, base, limit, flags]
  · simp only [CodeDirectory.execSegBase, CodeDirectory.execSegLimit, CodeDirectory.execSegFlags, directoryOf,
      DirectoryData.report, BitVec.not_le.mp given, given, if_true, if_false]

namespace DirectoryData.Fits

theorem hashStart_low (fits : d.Fits) : d.hashStart + d.hashSize.toNat * (d.special.length + d.code.length) < 2^32 := by
  have short := fits.short
  rwa [d.encode_length, hashes_length fits] at short

theorem special_count (fits : d.Fits) : (directoryOf d part).nSpecialSlots.toNat = d.special.length :=
  toNat_ofNat_of_lt (Nat.lt_of_lt_of_le fits.numbered (by decide))

theorem code_count (fits : d.Fits) : (directoryOf d part).nCodeSlots.toNat = d.code.length :=
  toNat_ofNat_of_lt fits.counted

theorem hash_offset (fits : d.Fits) :
    (directoryOf d part).hashOffset.toNat = d.hashStart + d.hashSize.toNat * d.special.length := by
  have low := fits.hashStart_low
  rw [Nat.mul_add] at low
  change (BitVec.ofNat 32 d.hashOffset).toNat = _
  rw [DirectoryData.hashOffset, Nat.mul_comm, toNat_ofNat_of_lt (by omega)]

theorem hashArea_eq (fits : d.Fits) : (directoryOf d part).hashArea = d.hashStart := by
  change (directoryOf d part).hashOffset.toNat - (directoryOf d part).nSpecialSlots.toNat * d.hashSize.toNat = _
  rw [fits.hash_offset, fits.special_count, Nat.mul_comm]
  exact Nat.add_sub_cancel _ _

theorem slotsFit (fits : d.Fits) (same : part.bytes = d.encode) : (directoryOf d part).SlotsFit := by
  have length : part.length = d.hashStart + d.hashSize.toNat * (d.special.length + d.code.length) := by
    rw [← hashes_length fits, ← d.encode_length]
    exact congrArg List.length same
  constructor
  · change (directoryOf d part).nSpecialSlots.toNat * d.hashSize.toNat ≤ (directoryOf d part).hashOffset.toNat
    rw [fits.special_count, fits.hash_offset, Nat.mul_comm]
    exact Nat.le_add_left _ _
  · change (directoryOf d part).hashOffset.toNat + (directoryOf d part).nCodeSlots.toNat * d.hashSize.toNat ≤ part.length
    rw [fits.hash_offset, fits.code_count, length, Nat.mul_comm d.code.length, Nat.mul_add, Nat.add_assoc]
  · rw [fits.special_count]
    exact fits.numbered

theorem chunk (fits : d.Fits) (same : part.bytes = d.encode) {k : Nat} {hash : Bytes} (at? : d.hashes[k]? = some hash) :
    ((directoryOf d part).chunkAt k).bytes = hash :=
  chunkAt_of_holds fits (fits.slotsFit same) fits.special_count fits.code_count rfl fits.hashArea_eq
    (stands_of_bytes same).hashes at?

theorem specialHashes (fits : d.Fits) (same : part.bytes = d.encode) (digests : Digests) :
    (directoryOf d part).specialHashes.map (fun hash => (hash.1, hash.2.bytes)) = (d.report digests).specialHashes := by
  rw [(fits.slotsFit same).specialHashes_eq, fits.special_count, List.map_map, DirectoryData.report]
  apply List.ext_getElem
  · simp
  · intro i below _
    simp only [List.length_map, List.length_range] at below
    have at? : d.hashes[d.special.length - 1 - i]? = some d.special[i] := by
      rw [DirectoryData.hashes, List.getElem?_append_left (by rw [List.length_reverse]; omega),
        List.getElem?_reverse (by omega),
        show d.special.length - 1 - (d.special.length - 1 - i) = i by omega, List.getElem?_eq_getElem below]
    simp [fits.chunk same at?]

theorem codeHashes (fits : d.Fits) (same : part.bytes = d.encode) :
    (directoryOf d part).codeHashes.map Slice.bytes = d.code := by
  rw [(fits.slotsFit same).codeHashes_eq, fits.special_count, fits.code_count, List.map_map]
  apply List.ext_getElem
  · simp
  · intro i below _
    simp only [List.length_map, List.length_range] at below
    have at? : d.hashes[d.special.length + i]? = some d.code[i] := by
      rw [DirectoryData.hashes, List.getElem?_append_right (by rw [List.length_reverse]; omega), List.length_reverse,
        Nat.add_sub_cancel_left, List.getElem?_eq_getElem below]
    simp [fits.chunk same at?]

theorem starts (fits : d.Fits) : 0 < d.identStart ∧ d.identStart ≤ d.teamStart ∧ d.teamStart < 2^32 := by
  have low := fits.hashStart_low
  have last : d.teamStart ≤ d.hashStart := Nat.le_add_right _ _
  have front : 44 ≤ d.identStart := Nat.le_add_right _ _
  exact ⟨by omega, Nat.le_add_right _ _, by omega⟩

theorem identifier_eq (fits : d.Fits) (stands : d.Stands part) :
    (directoryOf d part).identifier.map Str.text = d.identifier := by
  rcases fits.starts with ⟨some, order, low⟩
  exact optionalText some (Nat.lt_of_le_of_lt order low) fits.identifier stands.identifier

theorem teamId_eq (fits : d.Fits) (stands : d.Stands part) (digests : Digests) :
    (directoryOf d part).teamId.map Str.text = (d.report digests).teamId := by
  rcases fits.starts with ⟨some, order, low⟩
  by_cases given : cdVersionSupportsTeamId ≤ d.version
  · have text := optionalText (Nat.lt_of_lt_of_le some order) low fits.teamId stands.teamId
    have newer : ¬ d.version < cdVersionSupportsTeamId := BitVec.not_lt.mpr given
    simp only [CodeDirectory.teamId, directoryOf, DirectoryData.report, newer, given, if_true, false_or]
    exact text
  · have older : d.version < cdVersionSupportsTeamId := BitVec.not_le.mp given
    simp only [CodeDirectory.teamId, directoryOf, DirectoryData.report, older, given, if_false, true_or, if_true]
    rfl

end DirectoryData.Fits

theorem cdHash_directoryOf (digests : Digests) (same : part.bytes = d.encode) :
    (directoryOf d part).cdHash digests = d.hash digests := by
  rw [CodeDirectory.cdHash, DirectoryData.hash, ← same]
  rfl

theorem directory_of_bytes (digests : Digests) (fits : d.Fits) (same : part.bytes = d.encode) :
    (CodeDirectory.parse part).map (CodeDirectory.report digests) = some (d.report digests) := by
  have stands := stands_of_bytes same
  have long : 44 ≤ part.length := by
    have length : part.length = d.encode.length := congrArg List.length same
    rw [length, d.encode_length, DirectoryData.hashStart, DirectoryData.teamStart, DirectoryData.identStart]
    omega
  rw [parse_of_stands stands long, Option.map_some]
  congr 1
  rw [CodeDirectory.report, fits.identifier_eq stands, fits.teamId_eq stands digests, fits.specialHashes same digests,
    fits.codeHashes same, codeLimit64_of_stands digests stands, execSeg_of_stands digests stands,
    pageSize_directoryOf digests, CodeDirectory.cdHashTruncated_eq, cdHash_directoryOf digests same]
  simp only [directoryOf, same]
  rfl

end

theorem parse_of_other_magic {magic : U32} (first : readU32BeAt part 0 = some magic)
    (different : magic ≠ csmagicCodedirectory) :
    CodeDirectory.parse part = none := by
  unfold CodeDirectory.parse
  split
  · rfl
  · rw [first, Option.bind_eq_bind, Option.bind_some, if_pos different]

section

variable {γ α β : Type} {entry : γ → SuperBlobEntry} {items : List γ} {data : Slice} {base : Nat} {magic : U32}

theorem firstEntry_map (entry : γ → SuperBlobEntry) (items : List γ) (slot : U32) :
    (firstEntry (items.map entry) slot).map Prod.fst = (items.find? fun item => (entry item).slot = slot).map entry := by
  have first := List.find?_map (f := Prod.fst) (p := fun entry : SuperBlobEntry => decide (entry.slot = slot))
    (l := (items.map entry).zipIdx)
  rw [List.zipIdx_map_fst, List.find?_map] at first
  exact first.symm

theorem Placed.first_eq {parse : Slice → Option α} {seen : α → β} {view : γ → Option β}
    (placed : Placed data base magic (items.map entry))
    (each : ∀ item ∈ items, ∀ part : Slice, part.bytes = (entry item).blob → (entry item).blob.length < 2^32 →
      (parse part).map seen = view item) (slot : U32) :
    (((signatureOf data base magic (items.map entry)).findBlobBytes (Slot.fromRaw slot)).bind parse).map seen =
      (items.find? fun item => (entry item).slot = slot).bind view := by
  rw [placed.findBlobBytes_slot]
  have known := firstEntry_map entry items slot
  cases found : firstEntry (items.map entry) slot with
  | none =>
    rw [found] at known
    rw [Option.map_eq_none_iff.mp known.symm]
    rfl
  | some place =>
    rw [found] at known
    rcases Option.map_eq_some_iff.mp known.symm with ⟨item, first, same⟩
    have at? := List.mem_zipIdx_iff_getElem?.mp (List.mem_of_find?_eq_some found)
    have short := placed.short
    have inside := @blob_inside (items.map entry) place.1 place.2 magic at?
    rcases placed.entrySlice_bytes at? with ⟨part, taken, bytes⟩
    rw [first, Option.bind_some, Option.bind_some, taken, Option.bind_some]
    have same : entry item = place.1 := same
    exact each item (List.mem_of_find?_eq_some first) part (by rw [bytes, same]) (by rw [same]; omega)

end

def sampleDirectory : DirectoryData where
  version := 0x20400
  flags := 2
  codeLimit := 0x1000
  hashSize := 2
  hashType := 1
  platform := 0
  pageSizeLog2 := 12
  spare2 := 0
  scatterOffset := 0
  spare3 := 0
  codeLimit64 := 0
  execSegBase := 0
  execSegLimit := 0x1000
  execSegFlags := 1
  newer := []
  identifier := some [0x61]
  teamId := some [0x54]
  special := [[1, 2], [3, 4]]
  code := [[5, 6]]

def olderDirectory : DirectoryData :=
  { sampleDirectory with version := 0x20100, identifier := none, teamId := none, special := [] }

end DarwinScope.Codesign
