import DarwinScope.Codesign.Signature

namespace DarwinScope.Codesign.Signature

open Machine

def Within (part whole : Slice) : Prop := ∃ lo hi, whole.get lo hi = some part

/-- The slice is a blob that the signature finds for the slot, or what an accessor keeps of it. -/
inductive Behind (sig : Signature) : Slot → Slice → Prop where
  | found {slot : Slot} {bytes : Slice} : sig.findBlobBytes slot = some bytes → Behind sig slot bytes
  | primary {cd : CodeDirectory} : sig.primaryCodeDirectory = some cd → Behind sig .codeDirectory cd.blob
  | alternate {i : Nat} {cd : CodeDirectory} : sig.alternateCodeDirectory i = some cd →
      Behind sig (.alternateCodeDirectory (BitVec.ofNat 32 i)) cd.blob
  | entitlements {e : Entitlements} : sig.entitlements = some e → Behind sig .entitlements e.payload
  | derEntitlements {e : DerEntitlements} : sig.derEntitlements = some e → Behind sig .derEntitlements e.payload
  | cms {c : CmsSignature} : sig.cms = some c → Behind sig .signatureSlot c.payload
  | requirements {r : Requirements} : sig.requirements = some r → Behind sig .requirements r.blob

/-- The first index entry of the slot points at a blob that ends in the signature, or that is not
    returned since its length word is too small or it runs past the file. -/
def BlobConfined (sig : Signature) (slot : Slot) : Prop :=
  ∀ idx blobLen, sig.blobs.find? (fun idx => idx.slot = slot) = some idx →
    readU32BeAt sig.data (sig.base + idx.offset.toNat + 4) = some blobLen → blobHeaderSize ≤ blobLen.toNat →
      idx.offset.toNat + blobLen.toNat ≤ sig.length.toNat ∨
        sig.data.length < sig.base + idx.offset.toNat + blobLen.toNat

theorem Within.trans {part mid whole : Slice} (first : Within part mid) (second : Within mid whole) : Within part whole := by
  rcases first with ⟨lo, hi, inner⟩
  rcases second with ⟨base, stop, outer⟩
  have length := Slice.get_length outer
  rcases Slice.get_some outer with ⟨ordered, -⟩
  rcases Slice.get_some inner with ⟨-, inside, -⟩
  rw [show stop = base + mid.length by omega] at outer
  rw [Slice.get_get outer inside] at inner
  exact ⟨base + lo, base + hi, inner⟩

theorem within_of_blobPayload {expected : U32} {blob payload : Slice} (read : blobPayload expected blob = some payload) :
    Within payload blob := by
  unfold blobPayload at read
  split at read
  · cases read
  simp only [Option.bind_eq_bind, Option.bind_eq_some_iff] at read
  rcases read with ⟨magic, -, read⟩
  split at read
  · cases read
  rcases Option.bind_eq_some_iff.mp read with ⟨len, -, read⟩
  split at read
  · cases read
  · exact ⟨_, _, read⟩

theorem CodeDirectory.parse_blob {blob : Slice} {cd : CodeDirectory} (parsed : CodeDirectory.parse blob = some cd) :
    cd.blob = blob := by
  unfold CodeDirectory.parse at parsed
  split at parsed
  · cases parsed
  rcases Option.bind_eq_some_iff.mp parsed with ⟨magic, -, parsed⟩
  split at parsed
  · cases parsed
  simp only [Option.bind_eq_bind, Option.bind_eq_some_iff] at parsed
  rcases parsed with ⟨_, -, _, -, _, -, _, -, _, -, _, -, _, -, _, -, _, -, _, -, _, -, same⟩
  cases same
  rfl

theorem Requirements.parse_within {blob : Slice} {reqs : Requirements} (parsed : Requirements.parse blob = some reqs) :
    Within reqs.blob blob := by
  unfold Requirements.parse at parsed
  split at parsed
  · cases parsed
  rcases Option.bind_eq_some_iff.mp parsed with ⟨magic, -, parsed⟩
  split at parsed
  · cases parsed
  rcases Option.bind_eq_some_iff.mp parsed with ⟨len, -, parsed⟩
  split at parsed
  · cases parsed
  simp only [Option.bind_eq_bind, Option.bind_eq_some_iff] at parsed
  rcases parsed with ⟨whole, cut, same⟩
  cases same
  exact ⟨0, len.toNat, cut⟩

theorem Within.refl (s : Slice) : Within s s := by
  refine ⟨0, s.length, ?_⟩
  rw [Slice.get, if_pos ⟨Nat.zero_le _, Nat.le_refl _⟩]
  congr 1
  apply Slice.ext
  · rfl
  · exact List.take_of_length_le (Nat.le_refl s.bytes.length)

variable {sig : Signature} {slot : Slot} {bytes : Slice}

theorem Behind.inside (behind : sig.Behind slot bytes) : ∃ b, sig.findBlobBytes slot = some b ∧ Within bytes b := by
  cases behind with
  | found given => exact ⟨bytes, given, Within.refl bytes⟩
  | primary given =>
    rcases Option.bind_eq_some_iff.mp given with ⟨b, found, parsed⟩
    rw [CodeDirectory.parse_blob parsed]
    exact ⟨b, found, Within.refl b⟩
  | alternate given =>
    rcases Option.bind_eq_some_iff.mp given with ⟨b, found, parsed⟩
    rw [CodeDirectory.parse_blob parsed]
    exact ⟨b, found, Within.refl b⟩
  | requirements given =>
    rcases Option.bind_eq_some_iff.mp given with ⟨b, found, parsed⟩
    exact ⟨b, found, Requirements.parse_within parsed⟩
  | entitlements given =>
    rcases Option.bind_eq_some_iff.mp given with ⟨b, found, parsed⟩
    rcases Option.map_eq_some_iff.mp parsed with ⟨payload, read, rfl⟩
    exact ⟨b, found, within_of_blobPayload read⟩
  | derEntitlements given =>
    rcases Option.bind_eq_some_iff.mp given with ⟨b, found, parsed⟩
    rcases Option.map_eq_some_iff.mp parsed with ⟨payload, read, rfl⟩
    exact ⟨b, found, within_of_blobPayload read⟩
  | cms given =>
    rcases Option.bind_eq_some_iff.mp given with ⟨b, found, parsed⟩
    rcases Option.map_eq_some_iff.mp parsed with ⟨payload, read, rfl⟩
    exact ⟨b, found, within_of_blobPayload read⟩

theorem parse_extent {data : Slice} {base : Nat} (parsed : parse data base = some sig) :
    sig.data = data ∧ sig.base = base ∧ sig.base + sig.length.toNat ≤ sig.data.length := by
  simp only [parse, Option.bind_eq_bind, Option.bind_eq_some_iff] at parsed
  rcases parsed with ⟨_, -, _, -, magic, -, parsed⟩
  split at parsed
  · cases parsed
  simp only [Option.bind_eq_some_iff] at parsed
  rcases parsed with ⟨_, -, _, -, length, -, count, -, _, -, _, -, parsed⟩
  split at parsed
  · cases parsed
  rcases Option.bind_eq_some_iff.mp parsed with ⟨stop, sum, parsed⟩
  have value := checkedAddUsize_some sum
  split at parsed
  · cases parsed
  · cases parsed
    exact ⟨rfl, rfl, by dsimp only; omega⟩

theorem blobBytesAt_iff (near : sig.base ≤ sig.data.length) (offset : U32) :
    sig.blobBytesAt offset = some bytes ↔
      ∃ blobLen, readU32BeAt sig.data (sig.base + offset.toNat + 4) = some blobLen ∧ blobHeaderSize ≤ blobLen.toNat ∧
        sig.data.get (sig.base + offset.toNat) (sig.base + offset.toNat + blobLen.toNat) = some bytes := by
  have bound := sig.data.length_lt
  have small := offset.isLt
  have place : checkedAddUsize sig.base offset.toNat = some (sig.base + offset.toNat) := checkedAddUsize_of_lt (by omega)
  have header : checkedAddUsize (sig.base + offset.toNat) blobHeaderSize = some (sig.base + offset.toNat + 8) :=
    checkedAddUsize_of_lt (show sig.base + offset.toNat + 8 < 2^64 by omega)
  have stop : ∀ len : U32, checkedAddUsize (sig.base + offset.toNat) len.toNat =
      some (sig.base + offset.toNat + len.toNat) := by
    intro len
    have short := len.isLt
    exact checkedAddUsize_of_lt (by omega)
  simp only [blobBytesAt, place, header, stop, Option.bind_eq_bind, Option.bind_some, Option.bind_eq_some_iff]
  constructor
  · intro given
    rcases given with ⟨part, found, blobLen, read, rest⟩
    split at rest
    · cases rest
    · rename_i long
      have same : readU32BeAt part 4 = readU32BeAt sig.data (sig.base + offset.toNat + 4) :=
        readAt_part found (Nat.le_refl 8)
      rw [same] at read
      exact ⟨blobLen, read, Nat.not_lt.mp long, rest⟩
  · intro given
    rcases given with ⟨blobLen, read, long, found⟩
    have inside := (readAt_some read).1
    rcases Slice.get_of_le (Nat.le_add_right _ 8) (by omega) with ⟨part, header, -⟩
    have same : readU32BeAt part 4 = readU32BeAt sig.data (sig.base + offset.toNat + 4) :=
      readAt_part header (Nat.le_refl 8)
    refine ⟨part, header, blobLen, same.trans read, ?_⟩
    rw [if_neg (Nat.not_lt.mpr long)]
    exact found

/-- Every slice behind a slot lies in the range that the header of the signature declares exactly when
    the blob of the first index entry of the slot does, or is not returned. -/
theorem blobs_inside_iff (data : Slice) (base : Nat) (sig : Signature) (slot : Slot) (parsed : parse data base = some sig) :
    (∀ bytes, sig.Behind slot bytes →
      ∃ blob, data.get base (base + sig.length.toNat) = some blob ∧ Within bytes blob) ↔ sig.BlobConfined slot := by
  rcases parse_extent parsed with ⟨rfl, rfl, extent⟩
  constructor
  · intro inside idx blobLen first read long
    by_contra escapes
    rw [not_or, Nat.not_le, Nat.not_lt] at escapes
    rcases Slice.get_of_le (Nat.le_add_right _ blobLen.toNat) escapes.2 with ⟨bytes, found, start, -⟩
    have listed : sig.findBlobBytes slot = some bytes := by
      rw [findBlobBytes, first, Option.bind_some]
      exact (blobBytesAt_iff (by omega) idx.offset).mpr ⟨blobLen, read, long, found⟩
    rcases inside bytes (.found listed) with ⟨blob, whole, lo, hi, cut⟩
    have length := Slice.get_length found
    have total := Slice.get_length whole
    have part := Slice.get_length cut
    rcases Slice.get_some whole with ⟨-, -, origin, -⟩
    rcases Slice.get_some cut with ⟨ordered, before, place, -⟩
    omega
  · intro confined bytes behind
    rcases behind.inside with ⟨b, listed, part⟩
    rcases Option.bind_eq_some_iff.mp listed with ⟨idx, first, found⟩
    rcases (blobBytesAt_iff (by omega) idx.offset).mp found with ⟨blobLen, read, long, cut⟩
    rcases Slice.get_of_le (Nat.le_add_right _ sig.length.toNat) extent with ⟨blob, whole, -⟩
    have inside := (Slice.get_some cut).2.1
    have fits : idx.offset.toNat + blobLen.toNat ≤ sig.length.toNat := by
      rcases confined idx blobLen first read long with fits | past
      · exact fits
      · omega
    refine ⟨blob, whole, part.trans ⟨idx.offset.toNat, idx.offset.toNat + blobLen.toNat, ?_⟩⟩
    rw [Slice.get_get whole fits, ← cut, Nat.add_assoc]

/-- A signature of 20 bytes whose one index entry points at the entitlements behind it. -/
def strayData : Slice :=
  ⟨0, beBytes 4 0xfade0cc0 ++ beBytes 4 20 ++ beBytes 4 1 ++ beBytes 4 5 ++ beBytes 4 20 ++
    (beBytes 4 0xfade7171 ++ beBytes 4 10 ++ [0x61, 0x62]), by decide⟩

def straySignature : Signature := ⟨strayData, 0, csmagicEmbeddedSignature, 20, 1⟩

theorem stray_inside_iff :
    (∀ bytes, straySignature.Behind .entitlements bytes →
      ∃ blob, strayData.get 0 (0 + straySignature.length.toNat) = some blob ∧ Within bytes blob) ↔
      straySignature.BlobConfined .entitlements :=
  blobs_inside_iff strayData 0 straySignature .entitlements (by decide +kernel)

theorem blob_past_signature :
    ¬ ∀ (data : Slice) (base : Nat) (sig : Signature) (slot : Slot) (bytes : Slice), parse data base = some sig →
      sig.findBlobBytes slot = some bytes →
        ∃ blob, data.get base (base + sig.length.toNat) = some blob ∧ Within bytes blob := by
  intro inside
  have found : ∃ bytes, straySignature.findBlobBytes .entitlements = some bytes ∧ bytes.start = 20 ∧ bytes.length = 10 :=
    ⟨⟨20, strayData.bytes.drop 20, by decide⟩, by decide +kernel, rfl, by decide⟩
  rcases found with ⟨bytes, found, start, length⟩
  rcases inside strayData 0 straySignature .entitlements bytes (by decide +kernel) found with ⟨blob, whole, lo, hi, cut⟩
  have total : blob.length = 20 - 0 := Slice.get_length whole
  have part := Slice.get_length cut
  rcases Slice.get_some whole with ⟨-, -, origin, -⟩
  rcases Slice.get_some cut with ⟨-, before, place, -⟩
  have zero : strayData.start = 0 := rfl
  omega

end DarwinScope.Codesign.Signature
