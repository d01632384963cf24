import DarwinScope.Codesign.Expressions

namespace DarwinScope.Codesign

open Machine

def encodeBlob (e : ReqExpr) : Bytes :=
  encodeWord csmagicRequirement ++
    (encodeWord (BitVec.ofNat 32 (12 + e.encode.length)) ++ (encodeWord 1 ++ e.encode))

def encodeIndex : Nat → List (U32 × ReqExpr) → Bytes
  | _, [] => []
  | off, (kind, e) :: entries =>
    encodeWord kind ++ (encodeWord (BitVec.ofNat 32 off) ++ encodeIndex (off + (encodeBlob e).length) entries)

def encodeBlobs (entries : List (U32 × ReqExpr)) : Bytes := entries.flatMap fun entry => encodeBlob entry.2

def encodeVector (entries : List (U32 × ReqExpr)) : Bytes :=
  let body := encodeIndex (12 + 8 * entries.length) entries ++ encodeBlobs entries
  encodeWord csmagicRequirements ++
    (encodeWord (BitVec.ofNat 32 (12 + body.length)) ++
      (encodeWord (BitVec.ofNat 32 entries.length) ++ body))

def decodedOf (entry : U32 × ReqExpr) : DecodedRequirement :=
  ⟨RequirementKind.fromRaw entry.1, entry.2.render slTop⟩

theorem encodeIndex_length (off : Nat) (entries : List (U32 × ReqExpr)) :
    (encodeIndex off entries).length = 8 * entries.length := by
  induction entries generalizing off with
  | nil => rfl
  | cons entry entries ih =>
    simp only [encodeIndex, List.length_append, encodeWord_length, ih, List.length_cons]
    omega

theorem encodeVector_length (entries : List (U32 × ReqExpr)) :
    (encodeVector entries).length = 12 + (encodeIndex (12 + 8 * entries.length) entries ++ encodeBlobs entries).length := by
  simp only [encodeVector, List.length_append, encodeWord_length]
  omega

theorem readU32BeAt_holds {data : Slice} {off : Nat} {value : U32} (holds : data.Holds off (encodeWord value)) :
    readU32BeAt data off = some value := readAt_beBytes_of_holds (by rfl) (by decide) holds

theorem index_holds {data : Slice} {pos off i : Nat} {entries : List (U32 × ReqExpr)} {entry : U32 × ReqExpr}
    (index : data.Holds pos (encodeIndex off entries)) (blobs : data.Holds off (encodeBlobs entries))
    (found : entries[i]? = some entry) :
    ∃ blobOff, data.Holds (pos + 8 * i) (encodeWord entry.1) ∧
      data.Holds (pos + 8 * i + 4) (encodeWord (BitVec.ofNat 32 blobOff)) ∧ data.Holds blobOff (encodeBlob entry.2) := by
  induction entries generalizing pos off i with
  | nil => cases found
  | cons head entries ih =>
    rw [encodeBlobs, List.flatMap_cons] at blobs
    cases i with
    | zero =>
      cases found
      exact ⟨off, index.left, index.right.left, blobs.left⟩
    | succ i =>
      rcases ih index.right.right blobs.right found with ⟨blobOff, kind, offset, blob⟩
      rw [encodeWord_length, encodeWord_length, show pos + 4 + 4 + 8 * i = pos + 8 * (i + 1) by omega] at kind offset
      exact ⟨blobOff, kind, offset, blob⟩

theorem decodeRequirementBlob_holds {data : Slice} {off : Nat} {e : ReqExpr} (known : e.Known)
    (formed : e.WellFormed) (shallow : e.height ≤ maxRequirementDepth) (short : data.length < 2^32)
    (blob : data.Holds off (encodeBlob e)) : decodeRequirementBlob data off = some (e.render slTop) := by
  have inside := blob.inside (by simp [encodeBlob, encodeWord, beBytes, leBytes])
  simp only [encodeBlob, List.length_append, encodeWord_length] at inside
  have magic := readU32BeAt_holds blob.left
  have length := readU32BeAt_holds blob.right.left
  have body := blob.right.right.right
  simp only [encodeWord_length] at length body
  have total : (BitVec.ofNat 32 (12 + e.encode.length)).toNat = 12 + e.encode.length := by
    rw [toNat_ofNat_of_lt (by omega)]
  obtain ⟨expr, taken, -, bytes⟩ := @Slice.get_of_le data (off + 12) (off + (12 + e.encode.length))
    (by omega) (by omega)
  have whole : expr.bytes = e.encode := by
    rw [bytes, show off + (12 + e.encode.length) - (off + 12) = e.encode.length by omega]
    exact body.window
  have evaluated := reads_expression slTop 0 known formed (by omega) (ReqCursor.new expr) []
    (by simpa [ReqCursor.new, Cursor.rest] using whole)
  simp [decodeRequirementBlob, magic, length, total, taken, evaluated,
    checkedAddUsize_of_lt (show off + 4 < 2^64 by omega), checkedAddUsize_of_lt (show off + 12 < 2^64 by omega),
    checkedAddUsize_of_lt (show off + (12 + e.encode.length) < 2^64 by omega)]

theorem parse_encodeVector {entries : List (U32 × ReqExpr)} {blob : Slice} {trailing : Bytes}
    (short : (encodeVector entries).length < 2^32) (stored : blob.bytes = encodeVector entries ++ trailing) :
    ∃ reqs, Requirements.parse blob = some reqs ∧ reqs.blob.bytes = encodeVector entries ∧
      reqs.count = BitVec.ofNat 32 entries.length := by
  have holds : blob.Holds 0 (encodeVector entries) := ⟨trailing, by rw [List.drop_zero, stored]⟩
  have inside := holds.inside (by simp [encodeVector, encodeWord, beBytes, leBytes])
  have size := encodeVector_length entries
  have window := holds.window
  have magic := readU32BeAt_holds holds.left
  have length := readU32BeAt_holds holds.right.left
  have count := readU32BeAt_holds holds.right.right.left
  simp only [encodeWord_length] at length count
  rw [← size] at length
  have total : (BitVec.ofNat 32 (encodeVector entries).length).toNat = (encodeVector entries).length := by
    rw [toNat_ofNat_of_lt short]
  obtain ⟨whole, taken, -, bytes⟩ := Slice.get_of_le (s := blob) (Nat.zero_le (encodeVector entries).length) (by omega)
  rw [Nat.sub_zero, window] at bytes
  refine ⟨⟨whole, BitVec.ofNat 32 entries.length⟩, ?_, bytes, rfl⟩
  simp only [Nat.zero_add] at length count inside
  have header : ¬ blob.length < 8 := by omega
  have fits : ¬ ((encodeVector entries).length < 8 ∨ blob.length < (encodeVector entries).length) := by omega
  simp only [Requirements.parse, blobHeaderSize, if_neg header, magic, length, total, if_neg fits, count, taken,
    show 12 ≤ (encodeVector entries).length by omega, Option.bind_eq_bind, Option.bind_some, ne_eq,
    not_true_eq_false, if_false, if_true, Option.getD_some]

/-- A well-formed vector is read back entry by entry, and an expression takes its own bytes and no
    more. -/
theorem requirements_roundTrip :
    (∀ (entries : List (U32 × ReqExpr)) (blob : Slice) (trailing : Bytes),
      entries.length ≤ maxRequirementEntries →
      (∀ entry ∈ entries, entry.2.Known ∧ entry.2.WellFormed ∧ entry.2.height ≤ maxRequirementDepth) →
      (encodeVector entries).length < 2^32 → blob.bytes = encodeVector entries ++ trailing →
      (Requirements.parse blob).map Requirements.decoded = some (entries.map decodedOf)) ∧
    (∀ (e : ReqExpr) (level depth : Nat) (cursor : ReqCursor) (tail : Bytes),
      e.Known → e.WellFormed → depth + e.height ≤ maxRequirementDepth → cursor.rest = e.encode ++ tail →
      evalExpression level depth cursor = some (e.render level, cursor.advance e.encode.length)) := by
  refine ⟨?_, fun e level depth cursor tail known formed shallow =>
    reads_expression level depth known formed shallow cursor tail⟩
  intro entries blob trailing few each short stored
  change entries.length ≤ 32 at few
  rcases parse_encodeVector short stored with ⟨⟨data, count⟩, parsed, bytes, rfl⟩
  have holds : data.Holds 0 (encodeVector entries) := by
    simp only at bytes
    exact ⟨[], by rw [List.append_nil, List.drop_zero, bytes]⟩
  have body := holds.right.right.right
  simp only [encodeWord_length, Nat.zero_add] at body
  have blobs := body.right
  rw [encodeIndex_length] at blobs
  have size : data.length = (encodeVector entries).length := congrArg List.length bytes
  have turns : min (BitVec.ofNat 32 entries.length).toNat maxRequirementEntries = (entries.map decodedOf).length := by
    change min _ 32 = _
    rw [BitVec.toNat_ofNat, List.length_map]
    omega
  rw [parsed, Option.map_some, Requirements.decoded, turns]
  refine congrArg some (rows_yield fun i row at? => ?_)
  rw [List.getElem?_map, Option.map_eq_some_iff] at at?
  rcases at? with ⟨entry, found, rfl⟩
  rcases each entry (List.mem_of_getElem? found) with ⟨known, formed, shallow⟩
  rcases index_holds body.left blobs found with ⟨blobOff, kind, offset, placed⟩
  have bound : i < entries.length := (List.getElem?_eq_some_iff.mp found).1
  have near := placed.inside (by simp [encodeBlob, encodeWord, beBytes, leBytes])
  have decoded := decodeRequirementBlob_holds known formed shallow (by omega) placed
  have target : (BitVec.ofNat 32 blobOff).toNat = blobOff := by
    rw [toNat_ofNat_of_lt (by omega)]
  have entryOff : checkedAddUsize requirementsIndexOffset (saturatingMulUsize i blobIndexSize) = some (12 + 8 * i) := by
    have product : saturatingMulUsize i 8 = 8 * i := by
      rw [saturatingMulUsize, Nat.min_eq_left (by omega), Nat.mul_comm]
    rw [product, checkedAddUsize_of_lt (show 12 + 8 * i < 2^64 by omega)]
  have offsetOff : saturatingAddUsize (12 + 8 * i) 4 = 12 + 8 * i + 4 := Nat.min_eq_left (by omega)
  simp only [Requirements.decodedEntry, entryOff, offsetOff, readU32BeAt_holds kind, readU32BeAt_holds offset, target,
    decoded, decodedOf]

def designatedVector : List (U32 × ReqExpr) := [(3, .and (.ident [0x61]) .appleGenericAnchor)]

theorem requirements_roundTrip_designated :
    (Requirements.parse ⟨0, encodeVector designatedVector, by decide⟩).map Requirements.decoded =
      some [⟨.designated, lit "identifier \"a\" and anchor apple generic"⟩] ∧
    evalExpression slTop 0 ⟨⟨0, ReqExpr.trustedCerts.encode ++ [0xff], by decide⟩, 0⟩ =
      some (lit "anchor trusted", ⟨⟨0, ReqExpr.trustedCerts.encode ++ [0xff], by decide⟩, 4⟩) := by
  constructor
  · refine (requirements_roundTrip.1 designatedVector _ [] (by decide) ?_ (by decide) ?_).trans (by decide +kernel)
    · simp [designatedVector, ReqExpr.Known, ReqExpr.WellFormed, ReqExpr.height, Fits, maxRequirementDepth]
    · rw [List.append_nil]
  · exact requirements_roundTrip.2 .trustedCerts slTop 0 _ [0xff] trivial trivial (by decide) rfl

end DarwinScope.Codesign
