import DarwinScope.Codesign.DerRoundTrip
import DarwinScope.Codesign.DirectoryLayout
import DarwinScope.Header

namespace DarwinScope.Codesign

open Machine

/-- An entry of a requirements vector: an expression for code of a kind, or a blob that is no requirement. -/
inductive RequirementItem where
  | expression (kind : U32) (e : ReqExpr)
  | unknown (kind magic : U32) (payload : Bytes)

namespace RequirementItem

def entry : RequirementItem → SuperBlobEntry
  | expression kind e => ⟨kind, csmagicRequirement, encodeWord 1 ++ e.encode⟩
  | unknown kind magic payload => ⟨kind, magic, payload⟩

def Fits : RequirementItem → Prop
  | expression _ e => e.Known ∧ e.WellFormed ∧ e.height ≤ maxRequirementDepth
  | unknown _ magic _ => magic ≠ csmagicRequirement

def decoded? : RequirementItem → Option DecodedRequirement
  | expression kind e => some ⟨RequirementKind.fromRaw kind, e.render slTop⟩
  | unknown .. => none

def text? : RequirementItem → Option Bytes
  | expression _ e => some (e.render slTop)
  | unknown .. => none

theorem decoded?_eq (item : RequirementItem) :
    item.decoded? = item.text?.map fun text => ⟨RequirementKind.fromRaw item.entry.slot, text⟩ := by
  cases item <;> rfl

theorem expression_blob (kind : U32) (e : ReqExpr) : (expression kind e).entry.blob = encodeBlob e := by
  have size : 8 + (encodeWord 1 ++ e.encode).length = 12 + e.encode.length := by
    rw [List.length_append, encodeWord_length]
    omega
  rw [entry, SuperBlobEntry.blob, encodeBlob, size]

theorem decode_of_holds {item : RequirementItem} {data : Slice} {off : Nat} (fits : item.Fits) (short : data.length < 2^32)
    (holds : data.Holds off item.entry.blob) : decodeRequirementBlob data off = item.text? := by
  cases item with
  | expression kind e =>
    rw [expression_blob] at holds
    exact decodeRequirementBlob_holds fits.1 fits.2.1 fits.2.2 short holds
  | unknown kind magic payload =>
    have first : readU32BeAt data off = some magic := readU32BeAt_holds holds.left
    have other : magic ≠ csmagicRequirement := fits
    rw [decodeRequirementBlob, first, Option.bind_eq_bind, Option.bind_some, if_pos other]
    rfl

end RequirementItem

/-- A requirements vector is a SuperBlob of its own kind. -/
def encodeRequirements (items : List RequirementItem) : Bytes :=
  encodeSuperBlob csmagicRequirements (items.map RequirementItem.entry)

section

variable {items : List RequirementItem} {part : Slice}

theorem placed_requirements (same : part.bytes = encodeRequirements items)
    (short : (encodeRequirements items).length < 2^32) :
    Placed part 0 csmagicRequirements (items.map RequirementItem.entry) :=
  ⟨Slice.holds_of_bytes same, short⟩

theorem parse_requirements (same : part.bytes = encodeRequirements items)
    (short : (encodeRequirements items).length < 2^32) :
    Requirements.parse part = some ⟨part, BitVec.ofNat 32 items.length⟩ := by
  have placed := placed_requirements same short
  have long : part.length = (encodeRequirements items).length := congrArg List.length same
  have size := encodeSuperBlob_length csmagicRequirements (items.map RequirementItem.entry)
  rw [← encodeRequirements] at size
  have magic := readU32BeAt_holds placed.holds.left
  have length := readU32BeAt_holds placed.holds.right.left
  have count := readU32BeAt_holds placed.holds.right.right.left
  simp only [encodeWord_length, List.length_append, indexRows_length, Nat.reduceAdd, Nat.zero_add, List.length_map]
    at length count
  rw [List.length_map] at size
  rw [← Nat.add_assoc, ← size] at length
  have total : (BitVec.ofNat 32 (encodeRequirements items).length).toNat = (encodeRequirements items).length :=
    toNat_ofNat_of_lt short
  have whole : part.get 0 (encodeRequirements items).length = some part := by
    rcases Slice.get_of_le (Nat.zero_le _) (Nat.le_of_eq long.symm) with ⟨copy, taken, start, bytes⟩
    rw [taken]
    congr 1
    apply Slice.ext
    · rw [start, Nat.add_zero]
    · rw [bytes, Nat.sub_zero, Slice.window, List.drop_zero, ← long, Slice.length, List.take_length]
  simp only [Requirements.parse, blobHeaderSize, magic, length, total, count, whole,
    if_neg (show ¬ part.length < 8 by omega),
    if_neg (show ¬ ((encodeRequirements items).length < 8 ∨ part.length < (encodeRequirements items).length) by omega),
    if_pos (show 12 ≤ (encodeRequirements items).length by omega), Option.bind_eq_bind, Option.bind_some, Option.getD_some,
    ne_eq, not_true_eq_false, if_false]

theorem decodedEntry_item (same : part.bytes = encodeRequirements items) (short : (encodeRequirements items).length < 2^32)
    (fits : ∀ item ∈ items, item.Fits) (count : U32) {i : Nat} {item : RequirementItem} (few : i < 32)
    (at? : items[i]? = some item) :
    Requirements.decodedEntry ⟨part, count⟩ i =
      match item.decoded? with
      | some row => .yield row
      | none => .skip := by
  have placed := placed_requirements same short
  have long : part.length = (encodeRequirements items).length := congrArg List.length same
  have listed : (items.map RequirementItem.entry)[i]? = some item.entry := by rw [List.getElem?_map, at?, Option.map_some]
  have row : (indexRows (items.map RequirementItem.entry))[i]? =
      some (indexRow (items.map RequirementItem.entry) (item.entry, i)) := by
    rw [indexRows, List.getElem?_map, List.getElem?_zipIdx, listed]
    simp
  have index := placed.indexRow_holds row
  have kind := readU32BeAt_holds index.left
  have offset := readU32BeAt_holds index.right
  rw [encodeWord_length] at offset
  have blob := placed.blob listed
  have start := placed.start_lt listed
  rw [Nat.zero_add] at kind offset blob
  have product : saturatingMulUsize i blobIndexSize = 8 * i := by
    change min (i * 8) _ = _
    omega
  have entryOff : checkedAddUsize requirementsIndexOffset (8 * i) = some (12 + 8 * i) :=
    checkedAddUsize_of_lt (by change 12 + 8 * i < 2^64; omega)
  have offsetOff : saturatingAddUsize (12 + 8 * i) 4 = 12 + 8 * i + 4 := Nat.min_eq_left (by omega)
  have decoded := RequirementItem.decode_of_holds (fits item (List.mem_of_getElem? at?)) (by omega) blob
  rw [RequirementItem.decoded?_eq]
  simp only [Requirements.decodedEntry, product, entryOff, offsetOff, kind, offset, indexRow, start, decoded]
  cases item.text? <;> rfl

/-- The entries of a vector come back in order, those of another kind left out; of a long one the first 32 are looked at. -/
theorem decoded_requirements (same : part.bytes = encodeRequirements items)
    (short : (encodeRequirements items).length < 2^32)
    (fits : ∀ item ∈ items, item.Fits) :
    Requirements.decoded ⟨part, BitVec.ofNat 32 items.length⟩ =
      (items.take maxRequirementEntries).filterMap RequirementItem.decoded? := by
  have size := encodeSuperBlob_length csmagicRequirements (items.map RequirementItem.entry)
  rw [← encodeRequirements, List.length_map] at size
  have turns : min (BitVec.ofNat 32 items.length).toNat maxRequirementEntries =
      (items.take maxRequirementEntries).length := by
    rw [toNat_ofNat_of_lt (by omega), List.length_take, Nat.min_comm]
  have turn : ∀ i item, (items.take maxRequirementEntries)[i]? = some item →
      Requirements.decodedEntry ⟨part, BitVec.ofNat 32 items.length⟩ (0 + i) =
        match item.decoded? with
        | some row => .yield row
        | none => .skip := by
    intro i item at?
    have few : i < 32 := by
      have below := (List.getElem?_eq_some_iff.mp at?).1
      rw [List.length_take] at below
      exact Nat.lt_of_lt_of_le below (Nat.min_le_left _ _)
    rw [List.getElem?_take_of_lt few] at at?
    rw [Nat.zero_add]
    exact decodedEntry_item same short fits _ few at?
  rw [Requirements.decoded, turns, rows,
    @rowsFrom_filterMap _ _ _ (items.take maxRequirementEntries) (fun _ item => item.decoded?)]
  · have plain := List.filterMap_map (f := Prod.fst) (g := RequirementItem.decoded?)
      (l := (items.take maxRequirementEntries).zipIdx)
    rw [List.zipIdx_map_fst] at plain
    exact plain.symm
  · intro i item row at? decoded
    rw [turn i item at?, decoded]
  · intro i item at? decoded
    rw [turn i item at?, decoded]

end

def signature (data : Slice) (header : Absorbed) : Option Signature := do
  let cmd ← header.codeSignatureCmd
  Signature.parse data cmd.dataoff.toNat

inductive SignedContent where
  | directory (d : DirectoryData)
  | requirements (items : List RequirementItem)
  | entitlements (xml : Bytes)
  | derEntitlements (version : Bytes) (container : U8) (entries : List DerEntry)
  | cms (payload : Bytes)
  | other (magic : U32) (payload : Bytes)

def superBlobPayload (entries : List SuperBlobEntry) : Bytes :=
  encodeWord (BitVec.ofNat 32 entries.length) ++
    ((indexRows entries).flatMap encodeIndexRow ++ entries.flatMap SuperBlobEntry.blob)

theorem blob_superBlobPayload (slot magic : U32) (entries : List SuperBlobEntry) :
    SuperBlobEntry.blob ⟨slot, magic, superBlobPayload entries⟩ = encodeSuperBlob magic entries := by
  have split (rest : Bytes) : (encodeWord (BitVec.ofNat 32 entries.length) ++ rest).length = 4 + rest.length := by
    rw [List.length_append, encodeWord_length]
  simp only [SuperBlobEntry.blob, superBlobPayload, encodeSuperBlob, split, ← Nat.add_assoc, Nat.reduceAdd]

namespace SignedContent

def magic : SignedContent → U32
  | directory _ => csmagicCodedirectory
  | requirements _ => csmagicRequirements
  | entitlements _ => csmagicEmbeddedEntitlements
  | derEntitlements .. => csmagicEmbeddedDerEntitlements
  | cms _ => csmagicBlobwrapper
  | other magic _ => magic

def payload : SignedContent → Bytes
  | directory d => d.payload
  | requirements items => superBlobPayload (items.map RequirementItem.entry)
  | entitlements xml => xml
  | derEntitlements version container entries => encodeEntitlements version container entries
  | cms payload => payload
  | other _ payload => payload

def knownMagics : List U32 :=
  [csmagicCodedirectory, csmagicRequirements, csmagicEmbeddedEntitlements, csmagicEmbeddedDerEntitlements,
    csmagicBlobwrapper]

def Fits : SignedContent → Prop
  | directory d => d.Fits
  | requirements items => ∀ item ∈ items, item.Fits
  | derEntitlements _ container entries => (container = 0xb0 ∨ container = 0xa0) ∧
    (∀ e ∈ entries, validUtf8 e.1 = true) ∧ ∀ e ∈ entries, e.2.Fits maxDerValueDepth
  | other magic _ => magic ∉ knownMagics
  | _ => True

theorem other_magic {magic known : U32} {payload : Bytes} (fits : (other magic payload).Fits)
    (listed : known ∈ knownMagics) :
    magic ≠ known := fun same => fits (same ▸ listed)

def report (digests : Digests) : SignedContent → Option DirectoryReport
  | directory d => some (d.report digests)
  | _ => none

def decoded? : SignedContent → Option (List DecodedRequirement)
  | requirements items => some ((items.take maxRequirementEntries).filterMap RequirementItem.decoded?)
  | _ => none

def xml? : SignedContent → Option Bytes
  | entitlements xml => some xml
  | _ => none

def pairs? : SignedContent → Option (List (Bytes × DerEntitlementValue))
  | derEntitlements _ _ entries => some (entries.map fun e => (e.1, e.2.value))
  | _ => none

def cms? : SignedContent → Option Bytes
  | cms payload => some payload
  | _ => none

end SignedContent

structure SignedSlot where
  slot : U32
  content : SignedContent

def SignedSlot.entry (s : SignedSlot) : SuperBlobEntry := ⟨s.slot, s.content.magic, s.content.payload⟩

section

variable {s : SignedSlot} {part : Slice}

theorem directory_of_slot (digests : Digests) (fits : s.content.Fits) (same : part.bytes = s.entry.blob) :
    (CodeDirectory.parse part).map (CodeDirectory.report digests) = s.content.report digests := by
  rcases s with ⟨slot, content⟩
  have others : content.magic ≠ csmagicCodedirectory → content.report digests = none →
      (CodeDirectory.parse part).map (CodeDirectory.report digests) = content.report digests := by
    intro different missing
    rw [parse_of_other_magic (readU32BeAt_holds (Slice.holds_of_bytes same).left) different, missing]
    rfl
  cases content with
  | directory d => exact directory_of_bytes digests fits same
  | other magic payload => exact others (SignedContent.other_magic fits (by decide)) rfl
  | _ => exact others (by rw [SignedContent.magic]; decide) rfl

theorem requirements_of_slot (fits : s.content.Fits) (same : part.bytes = s.entry.blob)
    (short : s.entry.blob.length < 2^32) :
    (Requirements.parse part).map Requirements.decoded = s.content.decoded? := by
  rcases s with ⟨slot, content⟩
  have others : content.magic ≠ csmagicRequirements → content.decoded? = none →
      (Requirements.parse part).map Requirements.decoded = content.decoded? := by
    intro different missing
    have first : readU32BeAt part 0 = some content.magic := readU32BeAt_holds (Slice.holds_of_bytes same).left
    unfold Requirements.parse
    split
    · rw [missing]
      rfl
    · rw [first, Option.bind_eq_bind, Option.bind_some, if_pos different, missing]
      rfl
  cases content with
  | requirements items =>
    have blob : part.bytes = encodeRequirements items := same.trans (blob_superBlobPayload slot csmagicRequirements _)
    have small : (encodeRequirements items).length < 2^32 := by
      rw [← blob, same]
      exact short
    rw [parse_requirements blob small, Option.map_some, decoded_requirements blob small fits]
    rfl
  | other magic payload => exact others (SignedContent.other_magic fits (by decide)) rfl
  | _ => exact others (by rw [SignedContent.magic]; decide) rfl

theorem payload_of_slot (same : part.bytes = s.entry.blob) (short : s.entry.blob.length < 2^32) (expected : U32) :
    (blobPayload expected part).map Slice.bytes = if s.content.magic = expected then some s.content.payload else none :=
  blobPayload_blob same short expected

theorem xml_of_slot (fits : s.content.Fits) (same : part.bytes = s.entry.blob) (short : s.entry.blob.length < 2^32) :
    (Entitlements.parse part).map (·.payload.bytes) = s.content.xml? := by
  have taken := payload_of_slot same short csmagicEmbeddedEntitlements
  rcases s with ⟨slot, content⟩
  rw [Entitlements.parse, Option.map_map]
  refine taken.trans ?_
  cases content with
  | entitlements xml => rfl
  | other magic payload => exact if_neg (SignedContent.other_magic fits (by decide))
  | _ => rfl

theorem cms_of_slot (fits : s.content.Fits) (same : part.bytes = s.entry.blob) (short : s.entry.blob.length < 2^32) :
    (CmsSignature.parse part).map (·.payload.bytes) = s.content.cms? := by
  have taken := payload_of_slot same short csmagicBlobwrapper
  rcases s with ⟨slot, content⟩
  rw [CmsSignature.parse, Option.map_map]
  refine taken.trans ?_
  cases content with
  | cms payload => rfl
  | other magic payload => exact if_neg (SignedContent.other_magic fits (by decide))
  | _ => rfl

theorem pairs_of_slot (fits : s.content.Fits) (same : part.bytes = s.entry.blob) (short : s.entry.blob.length < 2^32) :
    (DerEntitlements.parse part).map DerEntitlements.pairs = s.content.pairs? := by
  have taken := congrArg (Option.map derCollectPairs) (payload_of_slot same short csmagicEmbeddedDerEntitlements)
  rw [Option.map_map] at taken
  have size := s.entry.blob_length
  rcases s with ⟨slot, content⟩
  rw [DerEntitlements.parse, Option.map_map]
  refine taken.trans ?_
  cases content with
  | derEntitlements version container entries =>
    rcases fits with ⟨listed, keys, fits⟩
    have small : (encodeEntitlements version container entries).length < 2^32 := by
      change _ = 8 + (encodeEntitlements version container entries).length at size
      omega
    have collected : derCollectPairs (encodeEntitlements version container entries) =
        entries.map fun e => (e.1, e.2.value) :=
      derCollect_encode listed small fun e member tiny => derEntryPair_encode (keys e member) (fits e member) tiny
    exact congrArg some collected
  | other magic payload =>
    exact congrArg (Option.map derCollectPairs) (if_neg (SignedContent.other_magic fits (by decide)))
  | _ => rfl

end

def firstIn (slots : List SignedSlot) (slot : U32) : Option SignedContent :=
  (slots.find? fun s => s.slot = slot).map SignedSlot.content

theorem Placed.content_eq {α β : Type} {data : Slice} {base : Nat} {magic : U32} {slots : List SignedSlot}
    (placed : Placed data base magic (slots.map SignedSlot.entry)) {parse : Slice → Option α} {seen : α → β}
    {view : SignedContent → Option β}
    (each : ∀ s ∈ slots, ∀ part : Slice, part.bytes = s.entry.blob → s.entry.blob.length < 2^32 →
      (parse part).map seen = view s.content) (slot : U32) :
    (((signatureOf data base magic (slots.map SignedSlot.entry)).findBlobBytes (Slot.fromRaw slot)).bind parse).map seen =
      (firstIn slots slot).bind view := by
  rw [firstIn, Option.bind_map]
  exact placed.first_eq each slot

/-- A signed image, from its load commands on: the last code signature command leads to the signature, and each accessor
    gives
    what was put into the first blob of its slot, if that is of the accessor's kind. -/
theorem signed_image_roundTrip (digests : Digests) (data : Slice) (commands : List PlacedCommand) (cmd : LinkeditDataCommand)
    (magic : U32) (slots : List SignedSlot) (last : (commands.filterMap codeSignatureOf).getLast? = some cmd)
    (known : magic = csmagicEmbeddedSignature ∨ magic = csmagicEmbeddedSignatureOld)
    (stored : data.Holds cmd.dataoff.toNat (encodeSuperBlob magic (slots.map SignedSlot.entry)))
    (short : (encodeSuperBlob magic (slots.map SignedSlot.entry)).length < 2^32) (fits : ∀ s ∈ slots, s.content.Fits) :
    ∃ sig, signature data (absorbed data commands) = some sig ∧
      sig.primaryCodeDirectory.map (CodeDirectory.report digests) = (firstIn slots 0).bind (SignedContent.report digests) ∧
      sig.alternateCodeDirectories.map (CodeDirectory.report digests) =
        alternateSlots.filterMap (fun slot => (firstIn slots slot).bind (SignedContent.report digests)) ∧
      sig.requirements.map Requirements.decoded = (firstIn slots 2).bind SignedContent.decoded? ∧
      sig.entitlements.map (·.payload.bytes) = (firstIn slots 5).bind SignedContent.xml? ∧
      sig.derEntitlements.map DerEntitlements.pairs = (firstIn slots 7).bind SignedContent.pairs? ∧
      sig.cms.map (·.payload.bytes) = (firstIn slots 0x10000).bind SignedContent.cms? := by
  have placed : Placed data cmd.dataoff.toNat magic (slots.map SignedSlot.entry) := ⟨stored, short⟩
  have found : (absorbed data commands).codeSignatureCmd = some cmd := by
    rw [absorbed_eq]
    exact last
  have directory := placed.content_eq fun s member part same _ => directory_of_slot digests (fits s member) same
  have requirements := placed.content_eq fun s member part same short => requirements_of_slot (fits s member) same short
  have xml := placed.content_eq fun s member part same short => xml_of_slot (fits s member) same short
  have pairs := placed.content_eq fun s member part same short => pairs_of_slot (fits s member) same short
  have cms := placed.content_eq fun s member part same short => cms_of_slot (fits s member) same short
  refine ⟨signatureOf data cmd.dataoff.toNat magic (slots.map SignedSlot.entry), ?_, directory 0, ?_, requirements 2, xml 5,
    pairs 7, cms 0x10000⟩
  · rw [signature, found, Option.bind_eq_bind, Option.bind_some, placed.parse known]
  · rw [Signature.alternateCodeDirectories, alternateSlots_eq, List.filterMap_map, List.map_filterMap]
    apply List.filterMap_congr
    intro i listed
    rw [Signature.alternateCodeDirectory, Slot.fromRaw_alternate i (List.mem_range.mp listed)]
    exact directory _

def sampleSlots : List SignedSlot :=
  [⟨0x1000, .directory olderDirectory⟩, ⟨2, .requirements [.unknown 1 0 [], .expression 3 (.ident [0x61])]⟩,
    ⟨0x10000, .other 1 []⟩, ⟨7, .derEntitlements [1] 0xb0 [([0x6b], .bool true)]⟩, ⟨0, .directory sampleDirectory⟩]

def sampleSigned : Bytes := encodeSuperBlob csmagicEmbeddedSignature (sampleSlots.map SignedSlot.entry)

def signedCommands : List PlacedCommand :=
  [⟨0, 16, .codeSignature ⟨9, 9⟩⟩, ⟨16, 24, .other⟩, ⟨40, 16, .codeSignature ⟨1, 0⟩⟩]

theorem sampleSlots_fit : ∀ s ∈ sampleSlots, s.content.Fits := by
  have texts : ∀ text : Bytes, text = [0x61] ∨ text = [0x54] → validUtf8 text = true ∧ 0#8 ∉ text := by
    rintro text (rfl | rfl) <;> decide
  have newer : sampleDirectory.Fits :=
    ⟨by decide +kernel, by decide, by decide, by decide, fun text member => texts text (.inl (Option.some.inj member).symm),
      fun text member => texts text (.inr (Option.some.inj member).symm)⟩
  have older : olderDirectory.Fits := ⟨by decide +kernel, by decide, by decide, by decide, nofun, nofun⟩
  intro s member
  simp only [sampleSlots, List.mem_cons, List.not_mem_nil, or_false] at member
  rcases member with rfl | rfl | rfl | rfl | rfl
  · exact older
  · intro item member
    simp only [List.mem_cons, List.not_mem_nil, or_false] at member
    rcases member with rfl | rfl
    · exact (by decide : (0 : U32) ≠ csmagicRequirement)
    · exact ⟨trivial, by simp [ReqExpr.WellFormed, Fits], by decide⟩
  · exact (by decide : (1 : U32) ∉ SignedContent.knownMagics)
  · refine ⟨Or.inl rfl, ?_, ?_⟩
    · simp
      decide
    · simp only [List.mem_cons, List.not_mem_nil, or_false, forall_eq]
      exact .bool
  · exact newer

def sampleImage : Slice := ⟨0, [9] ++ (sampleSigned ++ [0]), by decide +kernel⟩

theorem signed_image_of_five : ∃ sig, signature sampleImage (absorbed sampleImage signedCommands) = some sig ∧
    sig.primaryCodeDirectory.map (CodeDirectory.report ⟨id, id, id⟩) = some (sampleDirectory.report ⟨id, id, id⟩) ∧
    sig.requirements.map Requirements.decoded = some [⟨.designated, lit "identifier \"a\""⟩] ∧
    sig.derEntitlements.map DerEntitlements.pairs = some [([0x6b], .bool true)] ∧
    sig.cms.map (·.payload.bytes) = none := by
  rcases signed_image_roundTrip ⟨id, id, id⟩ sampleImage signedCommands ⟨1, 0⟩ csmagicEmbeddedSignature sampleSlots
    (by decide)
    (.inl rfl) ⟨[0], rfl⟩ (by decide +kernel) sampleSlots_fit with ⟨sig, found, primary, -, requirements, -, pairs, cms⟩
  exact ⟨sig, found, primary, requirements.trans (by decide +kernel), pairs, cms⟩

end DarwinScope.Codesign
