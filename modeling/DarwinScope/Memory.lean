import DarwinScope.Coherence
import DarwinScope.Util

namespace DarwinScope

open Machine

def SegmentRange.Apart (a b : SegmentRange) : Prop :=
  a.vmaddr.toNat + a.vmsize.toNat ≤ b.vmaddr.toNat ∨ b.vmaddr.toNat + b.vmsize.toNat ≤ a.vmaddr.toNat

theorem SegmentRange.Apart.disjoint {a b : SegmentRange} (apart : a.Apart b) : Disjoint a.span b.span := by
  rcases apart with before | behind
  · exact disjoint_span before
  · exact (disjoint_span behind).symm

/-- The table takes the addresses of the segment where the segment says: it does not overflow, and nor do those before it,
    which map none of its addresses. -/
def SegmentRange.Decides (seg : SegmentRange) (table : List SegmentRange) : Prop :=
  ∃ before after, table = before ++ seg :: after ∧ seg.Whole ∧ ∀ s ∈ before, s.Whole ∧ Disjoint s.span seg.span

structure SegmentRange.Backs (seg : SegmentRange) (data : Slice) (va : U64) (bytes : Bytes) : Prop where
  low : seg.vmaddr.toNat ≤ va.toNat
  mapped : va.toNat + bytes.length ≤ seg.vmaddr.toNat + seg.vmsize.toNat
  backed : va.toNat + bytes.length ≤ seg.vmaddr.toNat + seg.filesize.toNat
  holds : data.Holds (seg.fileoff.toNat + (va.toNat - seg.vmaddr.toNat)) bytes

namespace Image

/-- Readable memory: no address of the range overflows, and the segments take each of them to a place
    where the rest of the bytes stand. -/
structure Stored (image : Image) (va : U64) (bytes : Bytes) : Prop where
  room : va.toNat + bytes.length < 2^64
  held : ∀ k < bytes.length, ∃ off, image.vmToFileOffset (va + BitVec.ofNat 64 k) = some off ∧
    image.data.Holds off.toNat (bytes.drop k)

variable {image : Image} {va : U64} {bytes first second : Bytes}

namespace Stored

theorem left (stored : image.Stored va (first ++ second)) : image.Stored va first := by
  rcases stored with ⟨room, held⟩
  rw [List.length_append] at room held
  refine ⟨by omega, ?_⟩
  intro k below
  rcases held k (by omega) with ⟨off, place, holds⟩
  rw [List.drop_append_of_le_length (by omega)] at holds
  exact ⟨off, place, holds.left⟩

theorem right (stored : image.Stored va (first ++ second)) :
    image.Stored (va + BitVec.ofNat 64 first.length) second := by
  rcases stored with ⟨room, held⟩
  rw [List.length_append] at room held
  refine ⟨?_, ?_⟩
  · rw [toNat_add_ofNat (by omega)]
    omega
  · intro k below
    rcases held (first.length + k) (by omega) with ⟨off, place, holds⟩
    rw [add_ofNat_add]
    rw [← List.drop_drop, List.drop_left] at holds
    exact ⟨off, place, holds⟩

theorem start (stored : image.Stored va bytes) (some : 0 < bytes.length) :
    ∃ off, image.vmToFileOffset va = .some off ∧ image.data.Holds off.toNat bytes := by
  rcases stored.held 0 some with ⟨off, place, holds⟩
  rw [BitVec.add_zero] at place
  exact ⟨off, place, holds⟩

theorem readBytes (stored : image.Stored va bytes) (some : 0 < bytes.length) :
    ∃ part, image.readBytes va bytes.length = .some part ∧ part.bytes = bytes := by
  rcases stored.start some with ⟨off, place, holds⟩
  rcases readBytes_eq place (holds.inside some) with ⟨part, found, -, window⟩
  rw [holds.window] at window
  exact ⟨part, found, window⟩

theorem readInside (stored : image.Stored va bytes) {k len : Nat} (inside : k + len ≤ bytes.length) (some : 0 < len) :
    ∃ part, image.readBytes (va + BitVec.ofNat 64 k) len = .some part := by
  rcases stored.held k (by omega) with ⟨off, place, holds⟩
  have fits := holds.inside (by rw [List.length_drop]; omega)
  rw [List.length_drop] at fits
  rcases readBytes_eq place (by omega : off.toNat + len ≤ image.data.length) with ⟨part, found, -⟩
  exact ⟨part, found⟩

theorem readWords {words : List U32} (stored : image.Stored va (encodeWords words)) (some : 0 < words.length) :
    ∃ part, image.readBytes va (4 * words.length) = .some part ∧
      ∀ i word, words[i]? = .some word → readU32LeAt part (4 * i) = .some word := by
  rcases stored.readBytes (by rw [encodeWords_length]; omega) with ⟨part, found, same⟩
  rw [encodeWords_length] at found
  refine ⟨part, found, ?_⟩
  intro i word at?
  have read := readAt_words [] [] (by rw [List.nil_append, List.append_nil]; exact same) at?
  rwa [List.length_nil, Nat.zero_add] at read

theorem readU64 {word : U64} (stored : image.Stored va (leBytes 8 word.toNat)) : image.readU64 va = some word := by
  rcases stored.start (by rw [leBytes_length]; decide) with ⟨off, place, holds⟩
  rw [Image.readU64, place, Option.bind_eq_bind, Option.bind_some]
  exact readAt_leBytes_of_holds (by decide) (by decide) holds

theorem readU32 {word : U32} (stored : image.Stored va (leBytes 4 word.toNat)) : image.readU32 va = some word := by
  rcases stored.start (by rw [leBytes_length]; decide) with ⟨off, place, holds⟩
  rw [Image.readU32, place, Option.bind_eq_bind, Option.bind_some]
  exact readAt_leBytes_of_holds (by decide) (by decide) holds

theorem readCstr {text : Bytes} (stored : image.Stored va (text ++ [0#8])) (valid : validUtf8 text = true)
    (clean : 0#8 ∉ text) (nonzero : va ≠ 0) : (image.readCstr va).map Str.text = some text := by
  rcases stored.start (by simp) with ⟨off, place, holds⟩
  rw [Image.readCstr, if_neg nonzero, place, Option.bind_eq_bind, Option.bind_some,
    readCstrAt_of_holds valid clean holds]
  rfl

theorem item {α : Type} {encode : α → Bytes} {items : List α} {i : Nat} {item : α}
    (stored : image.Stored va (items.flatMap encode)) (at? : items[i]? = some item) :
    image.Stored (va + BitVec.ofNat 64 ((items.take i).flatMap encode).length) (encode item) := by
  rcases List.getElem?_eq_some_iff.mp at? with ⟨below, found⟩
  have cut : items = items.take i ++ item :: items.drop (i + 1) := by
    rw [← found, List.cons_getElem_drop_succ, List.take_append_drop]
  have whole := congrArg (List.flatMap encode) cut
  rw [List.flatMap_append, List.flatMap_cons] at whole
  rw [whole] at stored
  exact stored.right.left

theorem entry {α : Type} {encode : α → Bytes} {items : List α} {stride i : Nat} {item : α}
    (sized : ∀ item ∈ items, (encode item).length = stride) (stored : image.Stored va (items.flatMap encode))
    (at? : items[i]? = some item) : image.Stored (va + BitVec.ofNat 64 (stride * i)) (encode item) := by
  have below : i < items.length := (List.getElem?_eq_some_iff.mp at?).1
  have part := stored.item at?
  rwa [flatMap_length fun item member => sized item (List.mem_of_mem_take member), List.length_take,
    Nat.min_eq_left (Nat.le_of_lt below)] at part

theorem pointer {words : List U64} {i : Nat} {word : U64} (stored : image.Stored va (encodePointers words))
    (at? : words[i]? = some word) : image.Stored (va + BitVec.ofNat 64 (8 * i)) (leBytes 8 word.toNat) := by
  have entry := stored.entry (fun word _ => leBytes_length 8 word.toNat) at?
  exact entry

theorem word {words : List U32} {i : Nat} {word : U32} (stored : image.Stored va (encodeWords words))
    (at? : words[i]? = some word) : image.Stored (va + BitVec.ofNat 64 (4 * i)) (leBytes 4 word.toNat) := by
  have entry := stored.entry (fun word _ => leBytes_length 4 word.toNat) at?
  exact entry

/-- Bytes that stand in the file part of a segment which decides about its addresses are readable memory. -/
theorem of_backs {seg : SegmentRange} (decides : seg.Decides image.segments) (backs : seg.Backs image.data va bytes) :
    image.Stored va bytes := by
  rcases decides with ⟨before, after, table, whole, others⟩
  rcases backs with ⟨low, mapped, backed, holds⟩
  have below : seg.vmaddr.toNat + seg.vmsize.toNat < 2^64 := whole
  refine ⟨by omega, ?_⟩
  intro k early
  have address := toNat_add_ofNat (by omega : va.toNat + k < 2^64)
  have fits := holds.inside (by omega)
  have bound := image.data.length_lt
  let off : U64 := BitVec.ofNat 64 (seg.fileoff.toNat + (va.toNat - seg.vmaddr.toNat) + k)
  have value : off.toNat = seg.fileoff.toNat + (va.toNat - seg.vmaddr.toNat) + k := by
    rw [toNat_ofNat_of_lt (by omega)]
  have places : seg.Places (va + BitVec.ofNat 64 k) off := by
    rw [SegmentRange.Places, address, value]
    exact ⟨⟨by omega, by omega⟩, by omega, by omega⟩
  have outside : ∀ s ∈ before, (va + BitVec.ofNat 64 k).toNat ∉ s.span := fun s member inside =>
    Set.disjoint_left.mp (others s member).2 inside places.1
  refine ⟨off, ?_, ?_⟩
  · rw [Image.vmToFileOffset, table, vmToFileOffsetIn_append outside]
    exact ⟨fun s member => (others s member).1, vmToFileOffsetIn_places whole places⟩
  · rw [value]
    exact holds.drop k

theorem of_segment {seg : SegmentRange} (whole : ∀ s ∈ image.segments, s.vmaddr.toNat + s.vmsize.toNat < 2^64)
    (apart : image.segments.Pairwise SegmentRange.Apart) (member : seg ∈ image.segments)
    (low : seg.vmaddr.toNat ≤ va.toNat) (mapped : va.toNat + bytes.length ≤ seg.vmaddr.toNat + seg.vmsize.toNat)
    (backed : va.toNat + bytes.length ≤ seg.vmaddr.toNat + seg.filesize.toNat)
    (holds : image.data.Holds (seg.fileoff.toNat + (va.toNat - seg.vmaddr.toNat)) bytes) : image.Stored va bytes := by
  rcases List.append_of_mem member with ⟨before, after, table⟩
  rw [table] at apart whole
  refine of_backs ⟨before, after, table, whole seg (List.mem_append_right _ List.mem_cons_self), ?_⟩
    ⟨low, mapped, backed, holds⟩
  intro s earlier
  have separate := (List.pairwise_append.mp apart).2.2 s earlier seg List.mem_cons_self
  exact ⟨whole s (List.mem_append_left _ earlier), separate.disjoint⟩

end Stored

end Image

structure Label where
  va : U64
  text : Bytes
deriving DecidableEq

def Label.str (label : Label) : Str := ⟨none, label.text⟩

def offsetTo (slot target : U64) : U32 := (target - slot).setWidth 32

/-- The target is near enough for a relative pointer, and is not the slot itself. -/
def Reached (slot target : U64) : Prop := ∃ offset : U32, offset ≠ 0 ∧ relativePointer slot offset = target

theorem offsetTo_relativePointer (slot : U64) (offset : U32) : offsetTo slot (relativePointer slot offset) = offset := by
  have cancel : slot + offset.signExtend 64 - slot = offset.signExtend 64 := by
    rw [BitVec.add_comm, BitVec.add_sub_cancel]
  rw [offsetTo, relativePointer, cancel]
  apply BitVec.eq_of_getLsbD_eq
  intro i below
  rw [BitVec.getLsbD_setWidth, BitVec.getLsbD_signExtend]
  simp only [below, decide_true, Bool.true_and, if_true, decide_eq_true (by omega : i < 64)]

section

variable {image : Image} {slot target : U64}

theorem Reached.offset (reached : Reached slot target) :
    offsetTo slot target ≠ 0 ∧ relativePointer slot (offsetTo slot target) = target := by
  rcases reached with ⟨offset, nonzero, rfl⟩
  rw [offsetTo_relativePointer]
  exact ⟨nonzero, rfl⟩

structure Label.Readable (image : Image) (label : Label) : Prop where
  stands : ∃ off, image.vmToFileOffset label.va = some off ∧ image.data.Holds off.toNat (label.text ++ [0#8])
  valid : validUtf8 label.text = true
  clean : 0#8 ∉ label.text
  nonzero : label.va ≠ 0

theorem Label.Readable.read {label : Label} (readable : label.Readable image) :
    ∃ s, image.readCstr label.va = some s ∧ s.text = label.text := by
  rcases readable.stands with ⟨off, place, holds⟩
  have text := readCstrAt_of_holds readable.valid readable.clean holds
  rw [Image.readCstr, if_neg readable.nonzero, place, Option.bind_eq_bind, Option.bind_some, text]
  exact ⟨_, rfl, rfl⟩

end

end DarwinScope
