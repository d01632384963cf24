import DarwinScope.Machine.Layout
import DarwinScope.Fixup.RoundTrip
import DarwinScope.Fixup.Sites
import DarwinScope.Fixup.SlotLayout
import DarwinScope.Fixup.SharedCache

namespace DarwinScope.Fixup

open Machine

/-- What a linker puts into a slot of a format. -/
inductive LinkedSlot (format : PointerFormat) where
  | ptr64 (wide : format ∈ [PointerFormat.ptr64, .ptr64Offset]) (slot : Ptr64Slot)
  | arm64e (signed : format ∈ [PointerFormat.arm64e, .arm64eKernel, .arm64eUserland, .arm64eUserland24])
      (slot : Arm64eSlot (ordinalWidth format))

def formatStride (format : PointerFormat) : Nat := ((strideBytes format).getD 0).toNat

/-- A link counts strides in a field of 12 bits, or of 11. -/
def linkLimit : PointerFormat → Nat
  | .ptr64 | .ptr64Offset => 2^12
  | _ => 2^11

theorem linkLimit_pos (format : PointerFormat) : 0 < linkLimit format := by
  unfold linkLimit
  split <;> decide

namespace LinkedSlot

variable {format : PointerFormat}

def word (slot : LinkedSlot format) (link : Nat) : U64 :=
  match slot with
  | ptr64 _ slot => slot.word (BitVec.ofNat 12 link)
  | arm64e _ slot => slot.word (BitVec.ofNat 11 link)

def row (ctx : SlotCtx) (word : U64) : LinkedSlot format → Entry
  | ptr64 _ slot => slot.row ctx format word
  | arm64e _ slot => slot.row ctx format word

def Fits (ctx : SlotCtx) : LinkedSlot format → Prop
  | ptr64 _ slot => slot.Fits ctx format
  | arm64e _ slot => slot.Fits ctx format

instance (ctx : SlotCtx) (slot : LinkedSlot format) : Decidable (slot.Fits ctx) :=
  match slot with
  | ptr64 _ (.rebase _ _) => inferInstanceAs (Decidable (_ < _))
  | ptr64 _ (.bind _ _) => inferInstanceAs (Decidable (_ ∧ _))
  | arm64e _ (.rebase _ _) | arm64e _ (.authRebase _ _) => inferInstanceAs (Decidable (_ < _))
  | arm64e _ (.bind _ _) | arm64e _ (.authBind _ _) => inferInstanceAs (Decidable (_ ∧ _))

theorem supported (slot : LinkedSlot format) : format.isSupported = true := by
  cases slot with
  | ptr64 wide _ => rcases List.mem_pair.mp wide with rfl | rfl <;> rfl
  | arm64e signed _ =>
    simp only [List.mem_cons, List.not_mem_nil, or_false] at signed
    rcases signed with rfl | rfl | rfl | rfl <;> rfl

theorem nextField_ptr64 (slot : Ptr64Slot) {link : Nat} (small : link < 2^12) :
    (slot.word (BitVec.ofNat 12 link)).toNat / 2^51 % 2^12 = link := by
  have next := congrArg BitVec.toNat (slot.word_next (BitVec.ofNat 12 link))
  rwa [field_toNat _ 0x0fff 51 12 rfl, BitVec.toNat_setWidth_of_le (by decide), toNat_ofNat_of_lt small] at next

theorem nextField_arm64e (slot : Arm64eSlot (ordinalWidth format)) {link : Nat} (small : link < 2^11) :
    (slot.word (BitVec.ofNat 11 link)).toNat / 2^51 % 2^11 = link := by
  have next := congrArg BitVec.toNat (slot.word_next (ordinalWidth_le format) (BitVec.ofNat 11 link))
  rwa [field_toNat _ 0x07ff 51 11 rfl, BitVec.toNat_setWidth_of_le (by decide), toNat_ofNat_of_lt small] at next

theorem nextField_word (slot : LinkedSlot format) {link : Nat} (small : link < linkLimit format) :
    nextField format (slot.word link) = link := by
  cases slot with
  | ptr64 wide slot =>
    rcases List.mem_pair.mp wide with rfl | rfl
    · exact nextField_ptr64 slot small
    · exact nextField_ptr64 slot small
  | arm64e signed slot =>
    have next {bound : Nat} (same : bound = 2^11) (small : link < bound) := nextField_arm64e slot (same ▸ small)
    simp only [List.mem_cons, List.not_mem_nil, or_false] at signed
    rcases signed with rfl | rfl | rfl | rfl <;> exact next rfl small

theorem decodeChainEntry_row (slot : LinkedSlot format) {ctx : SlotCtx} (fits : slot.Fits ctx) (link : Nat) :
    ∃ next, decodeChainEntry (slot.word link) format ctx = some (slot.row ctx (slot.word link), next) := by
  cases slot with
  | ptr64 wide slot =>
    have either := List.mem_pair.mp wide
    have decoded := decodePtr64Slot_word either slot (BitVec.ofNat 12 link) fits
    rcases either with rfl | rfl
    · exact ⟨_, decoded⟩
    · exact ⟨_, decoded⟩
  | arm64e signed slot =>
    have narrow : format ≠ .ptr64 := by
      rintro rfl
      exact absurd signed (by decide)
    have decoded := decodeArm64eSlot_word narrow slot (BitVec.ofNat 11 link) fits
    simp only [List.mem_cons, List.not_mem_nil, or_false] at signed
    rcases signed with rfl | rfl | rfl | rfl <;> exact ⟨_, decoded⟩

end LinkedSlot

/-- Offsets that links can lead through: whole strides apart, without overlap and near enough. -/
def Chainable (format : PointerFormat) : List Nat → Prop
  | off :: next :: rest =>
    off + 8 ≤ next ∧ formatStride format ∣ next - off ∧ (next - off) / formatStride format < linkLimit format ∧
      Chainable format (next :: rest)
  | _ => True

structure LinkedPage (format : PointerFormat) where
  slots : List (Nat × LinkedSlot format)
  chainable : Chainable format (slots.map Prod.fst)

structure PlacedSlot (format : PointerFormat) where
  offset : Nat
  slot : LinkedSlot format
  link : Nat

def PlacedSlot.word {format : PointerFormat} (placed : PlacedSlot format) : U64 := placed.slot.word placed.link

def linkTo (format : PointerFormat) (off : Nat) : Option Nat → Nat
  | none => 0
  | some next => (next - off) / formatStride format

def chained {format : PointerFormat} : List (Nat × LinkedSlot format) → List (PlacedSlot format)
  | [] => []
  | (off, slot) :: rest => ⟨off, slot, linkTo format off (rest.head?.map Prod.fst)⟩ :: chained rest

theorem chained_offsets {format : PointerFormat} (slots : List (Nat × LinkedSlot format)) :
    (chained slots).map PlacedSlot.offset = slots.map Prod.fst := by
  induction slots with
  | nil => rfl
  | cons slot rest ih => rw [chained, List.map_cons, List.map_cons, ih]

/-- A segment with fixups: the fields of its header and the chain of each page. -/
structure LinkedSegment where
  size : U32
  pageSize : U16
  rawFormat : U16
  segmentOffset : U64
  maxValidPointer : U32
  pages : List (LinkedPage (PointerFormat.fromRaw rawFormat))
  pageLimit : pageSize.toNat ≤ 0x4000
  few : pages.length < 2^16
  inPage : ∀ page ∈ pages, ∀ slot ∈ page.slots, slot.1 < pageSize.toNat

namespace LinkedSegment

variable (seg : LinkedSegment)

abbrev format : PointerFormat := PointerFormat.fromRaw seg.rawFormat

def pageSlots (page : LinkedPage seg.format × Nat) : List (PlacedSlot seg.format) :=
  (chained page.1.slots).map fun placed => { placed with offset := page.2 * seg.pageSize.toNat + placed.offset }

def slots : List (PlacedSlot seg.format) := seg.pages.zipIdx.flatMap seg.pageSlots

def offsets : List (List Nat) := seg.pages.map fun page => page.slots.map Prod.fst

def pageStarts : List U16 := seg.offsets.map pageStart

def header : Bytes :=
  leBytes 4 seg.size.toNat ++ (leBytes 2 seg.pageSize.toNat ++ (leBytes 2 seg.rawFormat.toNat ++
    (leBytes 8 seg.segmentOffset.toNat ++ (leBytes 4 seg.maxValidPointer.toNat ++
      leBytes 2 (BitVec.ofNat 16 seg.pages.length).toNat))))

def encode : Bytes := seg.header ++ seg.pageStarts.flatMap fun start => leBytes 2 start.toNat

theorem page_of_offsets {page : Nat} {offsets : List Nat} (listed : seg.offsets[page]? = some offsets) :
    ∃ linked, seg.pages[page]? = some linked ∧ linked.slots.map Prod.fst = offsets := by
  rw [LinkedSegment.offsets, List.getElem?_map] at listed
  exact Option.map_eq_some_iff.mp listed

theorem header_length : seg.header.length = sizeofStartsInSegmentHeader := by
  simp [header]

def chainedSegment (index startsOffset : Nat) : ChainedSegment where
  segIndex := BitVec.ofNat 32 index
  size := seg.size
  pageSize := seg.pageSize
  pointerFormat := seg.format
  rawPointerFormat := seg.rawFormat
  segmentOffset := seg.segmentOffset
  maxValidPointer := seg.maxValidPointer
  pageCount := BitVec.ofNat 16 seg.pages.length
  startsOffset := startsOffset

end LinkedSegment

structure SegmentStored (data : Slice) (loc : SegmentLoc) (seg : LinkedSegment) : Prop where
  described : ∃ index startsOffset, loc.chained = seg.chainedSegment index startsOffset
  starts : data.Holds loc.chained.startsOffset seg.encode
  addresses : loc.vmaddr.toNat + loc.filesize.toNat < 2^64
  slots : ∀ placed ∈ seg.slots, placed.offset + 8 ≤ loc.filesize.toNat ∧
    data.Holds (loc.fileoff.toNat + placed.offset) (leBytes 8 placed.word.toNat)

section

variable {data : Slice} {loc : SegmentLoc} {seg : LinkedSegment}

theorem linked_of_words {format : PointerFormat} (same : loc.chained.pointerFormat = format) {page : Nat}
    {slots : List (Nat × LinkedSlot format)} (chainable : Chainable format (slots.map Prod.fst))
    (stored : ∀ placed ∈ chained slots, storedWord data loc (segOffset loc page placed.offset) = placed.word) :
    Linked data loc page (slots.map Prod.fst) := by
  induction slots with
  | nil => trivial
  | cons slot rest ih =>
    rcases slot with ⟨off, slot⟩
    have head := stored _ List.mem_cons_self
    have tail := fun placed member => stored placed (List.mem_cons_of_mem _ member)
    cases rest with
    | nil =>
      show nextField loc.chained.pointerFormat (storedWord data loc (segOffset loc page off)) = 0
      rw [head, same]
      exact slot.nextField_word (linkLimit_pos format)
    | cons next rest =>
      rcases next with ⟨next, later⟩
      rcases chainable with ⟨apart, multiple, near, chainable⟩
      have stride : strideOf loc = formatStride format := by rw [strideOf, same, formatStride]
      refine ⟨apart, stride ▸ multiple, ?_, ih chainable tail⟩
      rw [head, same, stride]
      exact slot.nextField_word near

namespace SegmentStored

variable (stored : SegmentStored data loc seg)
include stored

theorem format : loc.chained.pointerFormat = seg.format := by
  rcases stored.described with ⟨index, startsOffset, same⟩
  rw [same]
  rfl

theorem pageSize : loc.chained.pageSize = seg.pageSize := by
  rcases stored.described with ⟨index, startsOffset, same⟩
  rw [same]
  rfl

theorem pageCount : seg.pages.length = loc.chained.pageCount.toNat := by
  rcases stored.described with ⟨index, startsOffset, same⟩
  have few := seg.few
  rw [same, LinkedSegment.chainedSegment, toNat_ofNat_of_lt few]

theorem pageStart_read {page : Nat} {offsets : List Nat} (listed : seg.offsets[page]? = some offsets) :
    readU16LeAt data (loc.chained.startsOffset + sizeofStartsInSegmentHeader + 2 * page) = some (pageStart offsets) := by
  have behind := stored.starts.right
  rw [seg.header_length] at behind
  have entry : seg.pageStarts[page]? = some (pageStart offsets) := by
    rw [LinkedSegment.pageStarts, List.getElem?_map, listed, Option.map_some]
  have holds := behind.entry (fun start _ => leBytes_length 2 start.toNat) entry
  exact readAt_leBytes_of_holds (by decide) (by decide) holds

theorem slot_of_page {page : Nat} {linked : LinkedPage seg.format} (listed : seg.pages[page]? = some linked)
    {placed : PlacedSlot seg.format} (member : placed ∈ chained linked.slots) :
    segOffset loc page placed.offset + 8 ≤ loc.filesize.toNat ∧
      data.Holds (loc.fileoff.toNat + segOffset loc page placed.offset) (leBytes 8 placed.word.toNat) := by
  have inside : { placed with offset := page * seg.pageSize.toNat + placed.offset } ∈ seg.slots := by
    apply List.mem_flatMap.mpr
    exact ⟨(linked, page), List.mem_zipIdx_iff_getElem?.mpr listed, List.mem_map_of_mem member⟩
  have found := stored.slots _ inside
  rw [segOffset, stored.pageSize]
  exact found

theorem layout (supported : seg.format.isSupported = true) : ChainLayout data loc seg.offsets where
  supported := stored.format ▸ supported
  pageSize := stored.pageSize ▸ seg.pageLimit
  count := by
    rw [LinkedSegment.offsets, List.length_map]
    exact stored.pageCount
  addresses := stored.addresses
  starts page offsets listed := stored.pageStart_read listed
  inPage offsets listed off member := by
    rcases List.mem_map.mp listed with ⟨page, inside, rfl⟩
    rcases List.mem_map.mp member with ⟨slot, placed, rfl⟩
    rw [stored.pageSize]
    exact seg.inPage page inside slot placed
  inside page offsets listed off member := by
    rcases seg.page_of_offsets listed with ⟨linked, found, rfl⟩
    rw [← chained_offsets] at member
    rcases List.mem_map.mp member with ⟨placed, chained, rfl⟩
    rcases stored.slot_of_page found chained with ⟨before, holds⟩
    have inside := holds.inside (by simp)
    rw [leBytes_length] at inside
    exact ⟨before, inside⟩
  linked page offsets listed := by
    rcases seg.page_of_offsets listed with ⟨linked, found, rfl⟩
    apply linked_of_words stored.format linked.chainable
    intro placed chained
    exact storedWord_of_holds (stored.slot_of_page found chained).2

theorem layoutSites_eq : layoutSites data loc seg.offsets =
    seg.slots.map fun placed => {
      segIndex := loc.chained.segIndex
      segmentOffset := BitVec.ofNat 64 placed.offset
      vmAddress := BitVec.ofNat 64 (loc.vmaddr.toNat + placed.offset)
      rawSlot := storedWord data loc placed.offset
    } := by
  rw [layoutSites, LinkedSegment.offsets, List.zipIdx_map, List.flatMap_map, LinkedSegment.slots, List.map_flatMap]
  apply List.flatMap_congr
  rintro ⟨page, index⟩ -
  rw [LinkedSegment.pageSlots, List.map_map]
  show (page.slots.map Prod.fst).map (siteAt data loc index) = _
  rw [← chained_offsets, List.map_map]
  apply List.map_congr_left
  rintro placed -
  simp only [Function.comp_apply, siteAt, segOffset, stored.pageSize]

theorem slotAt_placed {placed : PlacedSlot seg.format} (member : placed ∈ seg.slots) :
    slotAt data loc placed.offset = some placed.word := by
  rcases stored.slots placed member with ⟨before, holds⟩
  rw [slotAt, if_pos (by omega)]
  exact readAt_leBytes_of_holds (by decide) (by decide) holds

end SegmentStored

/-- The walk over a linked segment gives one row for each slot, in order, each the row of what was linked. -/
theorem segmentEntries_linked {ctx : WalkCtx} (stored : SegmentStored ctx.data loc seg)
    (fits : ∀ placed ∈ seg.slots, placed.slot.Fits (slotCtxAt ctx loc placed.offset)) :
    segmentEntries ctx loc =
      seg.slots.map fun placed => placed.slot.row (slotCtxAt ctx loc placed.offset) placed.word := by
  by_cases supported : seg.format.isSupported = true
  · have marks := segmentEntries_layout (stored.layout supported)
    have each : (segmentEntries ctx loc).map some =
        (segmentEntries ctx loc).map fun entry => entryAt ctx loc entry.offset.toNat :=
      List.map_congr_left fun entry member => (segmentEntries_entryAt member).symm
    have placed : (segmentEntries ctx loc).map (fun entry => entryAt ctx loc entry.offset.toNat) =
        seg.slots.map fun placed => entryAt ctx loc placed.offset := by
      have offsets := congrArg (List.map fun mark : Site × Bool => entryAt ctx loc mark.1.segmentOffset.toNat) marks
      rw [stored.layoutSites_eq, List.map_map, List.map_map, List.map_map] at offsets
      refine offsets.trans (List.map_congr_left fun placed member => ?_)
      have bound := (stored.slots placed member).1
      have filesize := loc.filesize.isLt
      simp only [Function.comp_apply, toNat_ofNat_of_lt (show placed.offset < 2^64 by omega)]
    have rows : (seg.slots.map fun placed => entryAt ctx loc placed.offset) =
        (seg.slots.map fun placed => placed.slot.row (slotCtxAt ctx loc placed.offset) placed.word).map some := by
      rw [List.map_map]
      apply List.map_congr_left
      intro placed member
      rcases placed.slot.decodeChainEntry_row (fits placed member) placed.link with ⟨next, decoded⟩
      rw [entryAt, stored.slotAt_placed member, Option.bind_eq_bind, Option.bind_some, stored.format, PlacedSlot.word,
        decoded]
      rfl
    exact List.map_injective_iff.mpr (Option.some_injective _) (each.trans (placed.trans rows))
  · have none : seg.slots = [] := by
      apply List.eq_nil_iff_forall_not_mem.mpr
      intro placed _
      exact supported placed.slot.supported
    rw [none, segmentEntries, stored.format, if_neg supported]
    rfl

end

end DarwinScope.Fixup
