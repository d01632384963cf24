import DarwinScope.Fixup.ImportTable
import DarwinScope.Fixup.LinkedSlots
import DarwinScope.Fixup.Partition
import DarwinScope.Fixup.StartsTable
import DarwinScope.Objc.Runtime

namespace DarwinScope.Fixup

open Machine

namespace ChainedFixups

def placedImport (cf : ChainedFixups) (imp : LogicalImport) (nameOff : Nat) : ChainedImport where
  libOrdinal := imp.libOrdinal
  weakImport := imp.weakImport
  name := ⟨some (cf.data.start + cf.namePlace nameOff), imp.name⟩
  addend := imp.addend

theorem readPoolString_placed {cf : ChainedFixups} {imp : LogicalImport} {off : Nat} (fits : off < 2^32)
    (text : validUtf8 imp.name = true ∧ 0#8 ∉ imp.name) (holds : cf.data.Holds (cf.namePlace off) (imp.name ++ [0#8])) :
    readPoolString cf.data (cf.base + cf.symbolsOffset.toNat) (BitVec.ofNat 32 off) =
      some (cf.placedImport imp off).name := by
  have inside := holds.inside (by simp)
  have bound := cf.data.length_lt
  have place : cf.base + cf.symbolsOffset.toNat + off < 2^64 := by
    unfold namePlace at inside
    omega
  rw [readPoolString, toNat_ofNat_of_lt fits, checkedAddUsize_of_lt place]
  exact readCstrAt_of_holds text.1 text.2 holds

theorem ImportLayout.importEntry_placed {cf : ChainedFixups} {stride i : Nat} {imports : List LogicalImport}
    {nameOff : Nat → Nat} {imp : LogicalImport} (layout : cf.ImportLayout stride imports nameOff)
    (listed : imports[i]? = some imp) :
    cf.importEntry (cf.base + cf.importsOffset.toNat) (cf.base + cf.symbolsOffset.toNat) stride i =
      some (cf.placedImport imp (nameOff i)) := by
  have member := List.mem_of_getElem? listed
  rcases layout.importEntry listed with ⟨row, found, same⟩
  rcases layout.rows i imp listed with ⟨fits, holds⟩
  have limit := nameLimit_le cf.importsFormat
  have length := @encodeImport_length _ imp _ (nameOff i) layout.size
  have named := readPoolString_placed (by omega) (layout.names imp member) (layout.pool i imp listed)
  have ordinals := layout.ordinals imp member
  simp only [List.mem_cons, List.not_mem_nil, or_false] at ordinals
  have addend := layout.addends imp member
  have read := found
  simp only [ChainedFixups.importEntry, Option.bind_eq_bind, Option.bind_eq_some_iff] at found
  rcases found with ⟨step, product, place, sum, stop, last, entry, cut, decoded⟩
  rw [checkedMulUsize_some product] at sum
  rw [checkedAddUsize_some last, checkedAddUsize_some sum] at cut
  have bytes : entry.bytes = encodeImport cf.importsFormat imp (nameOff i) := by
    rcases Slice.get_of_holds holds (by rw [length]; exact entrySize_pos layout.size) with ⟨part, whole, -, bytes⟩
    rw [length, rowPlace] at whole
    cases cut.symm.trans whole
    exact bytes
  rw [read, ← same]
  cases format : cf.importsFormat with
  | plain =>
    rw [format] at fits bytes addend
    simp only [format, decodeImportPlain_encode (by omega) (by omega) addend fits bytes, Option.bind_some, named,
      Option.getD_some, Option.some.injEq] at decoded
    rw [← decoded]
    rfl
  | addend =>
    rw [format] at fits bytes addend
    simp only [format, decodeImportAddend_encode (by omega) (by omega) addend fits bytes, Option.bind_some, named,
      Option.getD_some, Option.some.injEq] at decoded
    rw [← decoded]
    rfl
  | addend64 =>
    rw [format] at bytes addend
    simp only [format, decodeImportAddend64_encode (by omega) (by omega) addend bytes, Option.bind_some, named,
      Option.getD_some, Option.some.injEq] at decoded
    rw [← decoded]
    rfl
  | other raw =>
    rw [format] at addend
    cases addend

end ChainedFixups

/-- An entry of the table of segments: where its starts stand, and what they describe. -/
structure SegmentStarts where
  infoOffset : U32
  seg : LinkedSegment
  nonzero : infoOffset ≠ 0

/-- What the fixups command of an image holds. An entry without fixups is `none`. -/
structure FixupTable where
  version : U32
  startsOffset : U32
  importsOffset : U32
  symbolsOffset : U32
  rawImportsFormat : U32
  symbolsFormat : U32
  imports : List LogicalImport
  nameOff : Nat → Nat
  segments : List (Option SegmentStarts)
  fewImports : imports.length < 2^32
  fewSegments : segments.length < 2^32

def infoWord (starts : Option SegmentStarts) : U32 := (starts.map SegmentStarts.infoOffset).getD 0

namespace FixupTable

variable (table : FixupTable)

def header : List U32 :=
  [table.version, table.startsOffset, table.importsOffset, table.symbolsOffset, BitVec.ofNat 32 table.imports.length,
    table.rawImportsFormat, table.symbolsFormat]

def starts : List U32 := BitVec.ofNat 32 table.segments.length :: table.segments.map infoWord

def parsed (data : Slice) (base : Nat) : ChainedFixups where
  data := data
  base := base
  fixupsVersion := table.version
  startsOffset := table.startsOffset
  importsOffset := table.importsOffset
  symbolsOffset := table.symbolsOffset
  importsCount := BitVec.ofNat 32 table.imports.length
  importsFormat := ImportsFormat.fromRaw table.rawImportsFormat
  rawImportsFormat := table.rawImportsFormat
  symbolsFormat := table.symbolsFormat

def startsPlace (base : Nat) : Nat := base + table.startsOffset.toNat

def importRows (data : Slice) (base : Nat) : List ChainedImport :=
  table.imports.zipIdx.map fun imp => (table.parsed data base).placedImport imp.1 (table.nameOff imp.2)

def slotCtx (bin : MachoBinary) (base index : Nat) (seg : Segment) (off : Nat) : SlotCtx where
  imageBase := bin.imageBase
  segIndex := BitVec.ofNat 32 index
  segmentOffset := BitVec.ofNat 64 off
  vmAddress := seg.vmaddr + BitVec.ofNat 64 off
  imports := table.importRows bin.data base
  dylibNames := bin.dylibNames

def segmentRows (bin : MachoBinary) (base index : Nat) (starts : SegmentStarts) : List Entry :=
  match bin.segments[index]? with
  | none => []
  | some seg =>
    starts.seg.slots.map fun placed => placed.slot.row (table.slotCtx bin base index seg placed.offset) placed.word

def rows (bin : MachoBinary) (base : Nat) : List Entry :=
  table.segments.zipIdx.flatMap fun part => (part.1.map (table.segmentRows bin base part.2)).getD []

def loc (base index : Nat) (starts : SegmentStarts) (seg : Segment) : SegmentLoc where
  chained := starts.seg.chainedSegment index (table.startsPlace base + starts.infoOffset.toNat)
  vmaddr := seg.vmaddr
  fileoff := seg.fileoff
  filesize := seg.filesize

def walkCtx (bin : MachoBinary) (base : Nat) : WalkCtx :=
  ⟨bin.data, bin.imageBase, (table.parsed bin.data base).imports, bin.dylibNames⟩

def chainedSegments (base : Nat) : List ChainedSegment :=
  table.segments.zipIdx.filterMap fun part => part.1.map fun starts =>
    starts.seg.chainedSegment part.2 (table.startsPlace base + starts.infoOffset.toNat)

end FixupTable

/-- The slots of a linked segment stand in the segment of the image, each with a sum that fits. -/
structure SlotsStored (bin : MachoBinary) (table : FixupTable) (base index : Nat) (linked : LinkedSegment) (seg : Segment) :
    Prop where
  addresses : seg.vmaddr.toNat + seg.filesize.toNat < 2^64
  slots : ∀ placed ∈ linked.slots, placed.offset + 8 ≤ seg.filesize.toNat ∧
    bin.data.Holds (seg.fileoff.toNat + placed.offset) (leBytes 8 placed.word.toNat)
  fits : ∀ placed ∈ linked.slots, placed.slot.Fits (table.slotCtx bin base index seg placed.offset)

/-- The image holds the command: its header, both of its tables, the starts of each segment and the slots. -/
structure CommandStored (bin : MachoBinary) (table : FixupTable) (base size : U32) : Prop where
  command : bin.chainedFixupsCmd = some (base, size)
  payload : base.toNat + size.toNat ≤ bin.data.length
  whole : sizeofChainedFixupsHeader ≤ size.toNat
  inPayload : table.startsOffset.toNat < size.toNat ∧ table.importsOffset.toNat ≤ size.toNat ∧
    table.symbolsOffset.toNat ≤ size.toNat
  header : bin.data.Holds base.toNat (encodeWords table.header)
  starts : bin.data.Holds (table.startsPlace base.toNat) (encodeWords table.starts)
  imports : ∃ stride, (table.parsed bin.data base.toNat).ImportLayout stride table.imports table.nameOff
  segments : ∀ (index : Nat) (starts : SegmentStarts), table.segments[index]? = some (some starts) →
    bin.data.Holds (table.startsPlace base.toNat + starts.infoOffset.toNat) starts.seg.encode
  slots : ∀ (index : Nat) (starts : SegmentStarts) (seg : Segment), table.segments[index]? = some (some starts) →
    bin.segments[index]? = some seg → SlotsStored bin table base.toNat index starts.seg seg

section

variable {bin : MachoBinary} {table : FixupTable} {base size : U32}

theorem readWord_of_holds {data : Slice} {off i : Nat} {words : List U32} {word : U32}
    (holds : data.Holds off (encodeWords words)) (at? : words[i]? = some word) :
    readU32LeAt data (off + 4 * i) = some word := by
  have run : data.Holds off (words.flatMap fun word => leBytes 4 word.toNat) := holds
  have stands := run.entry (fun word _ => leBytes_length 4 word.toNat) at?
  exact readAt_leBytes_of_holds (by decide) (by decide) stands

theorem startsInImageOff_parsed (table : FixupTable) (data : Slice) (base : U32) :
    (table.parsed data base.toNat).startsInImageOff = table.startsPlace base.toNat := by
  have small := base.isLt
  have near := table.startsOffset.isLt
  exact Nat.min_eq_left (by simp only [FixupTable.parsed]; omega)

theorem headerAt_encode {data : Slice} {seg : LinkedSegment} {index off : Nat} (holds : data.Holds off seg.encode) :
    ChainedFixups.headerAt data (BitVec.ofNat 32 index) off = some (seg.chainedSegment index off) := by
  have header := holds.left
  have size : readU32LeAt data off = some _ := readAt_leBytes_of_holds (by decide) (by decide) header.left
  have second := header.right
  rw [leBytes_length] at second
  have pageSize : readU16LeAt data (off + 4) = some _ := readAt_leBytes_of_holds (by decide) (by decide) second.left
  have third := second.right
  rw [leBytes_length] at third
  have format : readU16LeAt data (off + 6) = some _ := readAt_leBytes_of_holds (by decide) (by decide) third.left
  have fourth := third.right
  rw [leBytes_length] at fourth
  have segmentOffset : readU64LeAt data (off + 8) = some _ := readAt_leBytes_of_holds (by decide) (by decide) fourth.left
  have fifth := fourth.right
  rw [leBytes_length] at fifth
  have pointer : readU32LeAt data (off + 16) = some _ := readAt_leBytes_of_holds (by decide) (by decide) fifth.left
  have sixth := fifth.right
  rw [leBytes_length] at sixth
  have pageCount : readU16LeAt data (off + 20) = some _ := readAt_leBytes_of_holds (by decide) (by decide) sixth
  simp only [ChainedFixups.headerAt, size, pageSize, format, segmentOffset, pointer, pageCount, Option.bind_eq_bind,
    Option.bind_some]
  rfl

namespace CommandStored

variable (stored : CommandStored bin table base size)
include stored

theorem parse : ChainedFixups.parse bin.data base.toNat size.toNat = some (table.parsed bin.data base.toNat) := by
  have payload := stored.payload
  have whole : 28 ≤ size.toNat := stored.whole
  have small := size.isLt
  have bound := bin.data.length_lt
  rcases stored.inPayload with ⟨starts, imports, symbols⟩
  have stop : checkedAddUsize base.toNat size.toNat = some (base.toNat + size.toNat) := checkedAddUsize_of_lt (by omega)
  rcases Slice.get_of_le (Nat.le_add_right base.toNat size.toNat) payload with ⟨part, found, -⟩
  have length : part.length = size.toNat := by
    rw [Slice.get_length found, Nat.add_sub_cancel_left]
  have word {i : Nat} {value : U32} (at? : table.header[i]? = some value) (inside : 4 * i + 4 ≤ size.toNat) :
      readU32LeAt part (4 * i) = some value := by
    rw [readU32LeAt, readAt_part found inside]
    exact readWord_of_holds stored.header at?
  have version : readU32LeAt part 0 = some _ := word (i := 0) rfl (by omega)
  have startsOffset : readU32LeAt part 4 = some _ := word (i := 1) rfl (by omega)
  have importsOffset : readU32LeAt part 8 = some _ := word (i := 2) rfl (by omega)
  have symbolsOffset : readU32LeAt part 12 = some _ := word (i := 3) rfl (by omega)
  have importsCount : readU32LeAt part 16 = some _ := word (i := 4) rfl (by omega)
  have importsFormat : readU32LeAt part 20 = some _ := word (i := 5) rfl (by omega)
  have symbolsFormat : readU32LeAt part 24 = some _ := word (i := 6) rfl (by omega)
  simp only [ChainedFixups.parse, stop, found, Option.bind_eq_bind, Option.bind_some, length, version, startsOffset,
    importsOffset, symbolsOffset, importsCount, importsFormat, symbolsFormat]
  rw [if_neg (Nat.not_lt.mpr stored.whole), if_neg (by omega), if_neg (by omega)]
  rfl

theorem chainedFixups : bin.chainedFixups = some (table.parsed bin.data base.toNat) := by
  rw [MachoBinary.chainedFixups, stored.command]
  exact stored.parse

theorem segCount : (table.parsed bin.data base.toNat).segCount = table.segments.length := by
  have count : readU32LeAt bin.data (table.startsPlace base.toNat) = some (BitVec.ofNat 32 table.segments.length) :=
    readWord_of_holds (i := 0) stored.starts rfl
  rw [ChainedFixups.segCount, startsInImageOff_parsed]
  show ((readU32LeAt bin.data (table.startsPlace base.toNat)).getD 0).toNat = _
  rw [count, Option.getD_some, toNat_ofNat_of_lt table.fewSegments]

theorem infoOffset {i : Nat} {entry : Option SegmentStarts} (listed : table.segments[i]? = some entry) :
    (table.parsed bin.data base.toNat).infoOffset i = some (infoWord entry) := by
  have at? : table.starts[i + 1]? = some (infoWord entry) := by
    rw [FixupTable.starts, List.getElem?_cons_succ, List.getElem?_map, listed, Option.map_some]
  have read := readWord_of_holds stored.starts at?
  rw [ChainedFixups.infoOffset, startsInImageOff_parsed]
  rwa [Nat.mul_add_one, Nat.add_comm (4 * i) 4, ← Nat.add_assoc] at read

theorem storedSegment {i : Nat} {entry : Option SegmentStarts} (listed : table.segments[i]? = some entry) :
    (table.parsed bin.data base.toNat).storedSegment i = entry.map fun starts =>
      starts.seg.chainedSegment i (table.startsPlace base.toNat + starts.infoOffset.toNat) := by
  rw [ChainedFixups.storedSegment, stored.infoOffset listed, startsInImageOff_parsed, Option.bind_eq_bind, Option.bind_some]
  cases entry with
  | none => rfl
  | some starts =>
    have nonzero : infoWord (some starts) ≠ 0 := starts.nonzero
    rw [if_neg nonzero]
    exact headerAt_encode (stored.segments i starts listed)

theorem segments_eq : (table.parsed bin.data base.toNat).segments = table.chainedSegments base.toNat := by
  have count := stored.segCount
  unfold ChainedFixups.segCount at count
  rw [ChainedFixups.segments, count, rows]
  have flat := @rowsFrom_filterMap _ (table.parsed bin.data base.toNat).segmentRow _ table.segments
    (fun i entry => entry.map fun starts =>
      starts.seg.chainedSegment i (table.startsPlace base.toNat + starts.infoOffset.toNat)) 0
  simp only [Nat.zero_add] at flat
  apply flat
  · intro i entry segment listed value
    have before : i < (table.parsed bin.data base.toNat).segCount := by
      rw [stored.segCount]
      exact (List.getElem?_eq_some_iff.mp listed).1
    rw [ChainedFixups.segmentRow_yield_iff before, stored.storedSegment listed]
    exact value
  · intro i entry listed absent
    have before : i < (table.parsed bin.data base.toNat).segCount := by
      rw [stored.segCount]
      exact (List.getElem?_eq_some_iff.mp listed).1
    have empty := stored.storedSegment listed
    rw [absent] at empty
    have zero := stored.infoOffset listed
    rw [Option.map_eq_none_iff.mp absent] at zero
    rcases ChainedFixups.segmentRow_spec before with ⟨ends, -⟩ | ⟨-, ⟨skips, -⟩ | ⟨segment, -, found⟩⟩
    · rcases ends with unread | ⟨info, read, nonzero, -⟩
      · rw [zero] at unread
        cases unread
      · rw [zero] at read
        cases read
        exact absurd rfl nonzero
    · exact skips
    · rw [empty] at found
      cases found

theorem imports_eq : (table.parsed bin.data base.toNat).imports = table.importRows bin.data base.toNat := by
  rcases stored.imports with ⟨stride, layout⟩
  have count : (table.parsed bin.data base.toNat).importsCount.toNat = table.imports.length :=
    toNat_ofNat_of_lt table.fewImports
  have small := base.isLt
  have near := table.importsOffset.isLt
  have far := table.symbolsOffset.isLt
  have importsBase : checkedAddUsize (table.parsed bin.data base.toNat).base
      (table.parsed bin.data base.toNat).importsOffset.toNat = some _ :=
    checkedAddUsize_of_lt (by simp only [FixupTable.parsed]; omega)
  have symbolsBase : checkedAddUsize (table.parsed bin.data base.toNat).base
      (table.parsed bin.data base.toNat).symbolsOffset.toNat = some _ :=
    checkedAddUsize_of_lt (by simp only [FixupTable.parsed]; omega)
  have length : table.imports.length = (table.importRows bin.data base.toNat).length := by
    rw [FixupTable.importRows, List.length_map, List.length_zipIdx]
  simp only [ChainedFixups.imports, layout.size, importsBase, symbolsBase, count]
  rw [length]
  apply rows_yield
  intro i row listed
  rw [FixupTable.importRows, List.getElem?_map, Option.map_eq_some_iff] at listed
  rcases listed with ⟨place, at?, rfl⟩
  rcases getElem?_zipIdx_some at? with ⟨listed, rfl⟩
  rw [ChainedFixups.importRow, layout.importEntry_placed listed]

theorem segmentStored {index : Nat} {starts : SegmentStarts} {seg : Segment}
    (listed : table.segments[index]? = some (some starts)) (found : bin.segments[index]? = some seg) :
    SegmentStored bin.data (table.loc base.toNat index starts seg) starts.seg where
  described := ⟨index, _, rfl⟩
  starts := stored.segments index starts listed
  addresses := (stored.slots index starts seg listed found).addresses
  slots := (stored.slots index starts seg listed found).slots

theorem slotCtx_eq {index : Nat} {starts : SegmentStarts} {seg : Segment}
    (listed : table.segments[index]? = some (some starts)) (found : bin.segments[index]? = some seg)
    {placed : PlacedSlot starts.seg.format} (member : placed ∈ starts.seg.slots) :
    slotCtxAt (table.walkCtx bin base.toNat) (table.loc base.toNat index starts seg) placed.offset =
      table.slotCtx bin base.toNat index seg placed.offset := by
  have addresses := (stored.slots index starts seg listed found).addresses
  have inside := ((stored.slots index starts seg listed found).slots placed member).1
  have offset : (BitVec.ofNat 64 placed.offset).toNat = placed.offset := toNat_ofNat_of_lt (by omega)
  have address : saturatingAdd seg.vmaddr (BitVec.ofNat 64 placed.offset) = seg.vmaddr + BitVec.ofNat 64 placed.offset :=
    saturatingAdd_of_lt (by omega)
  rw [FixupTable.slotCtx, ← stored.imports_eq, ← address]
  rfl

theorem segmentRows_eq {index : Nat} {starts : SegmentStarts} {seg : Segment}
    (listed : table.segments[index]? = some (some starts)) (found : bin.segments[index]? = some seg) :
    segmentEntries (table.walkCtx bin base.toNat) (table.loc base.toNat index starts seg) =
      table.segmentRows bin base.toNat index starts := by
  have linked := @segmentEntries_linked (table.loc base.toNat index starts seg) starts.seg (table.walkCtx bin base.toNat)
    (stored.segmentStored listed found) fun placed member => by
      rw [stored.slotCtx_eq listed found member]
      exact (stored.slots index starts seg listed found).fits placed member
  rw [linked, FixupTable.segmentRows, found]
  apply List.map_congr_left
  intro placed member
  rw [stored.slotCtx_eq listed found member]

theorem chainedLocs : bin.chainedLocs =
    table.segments.zipIdx.filterMap fun part => part.1.bind fun starts =>
      (bin.segments[part.2]?).map (table.loc base.toNat part.2 starts) := by
  have few := table.fewSegments
  rw [MachoBinary.chainedLocs, stored.chainedFixups]
  show List.filterMap _ (table.parsed bin.data base.toNat).segments = _
  rw [stored.segments_eq, FixupTable.chainedSegments, List.filterMap_filterMap]
  apply List.filterMap_congr
  rintro ⟨entry, index⟩ member
  have below := (List.getElem?_eq_some_iff.mp (List.mem_zipIdx_iff_getElem?.mp member)).1
  have place : (BitVec.ofNat 32 index).toNat = index := toNat_ofNat_of_lt (by omega)
  cases entry with
  | none => rfl
  | some starts =>
    simp only [Option.map_some, Option.bind_some, LinkedSegment.chainedSegment, place]
    rfl

/-- One walk over the image gives the rows that were linked. -/
theorem rows_eq : bin.chainedLocs.flatMap (segmentEntries (table.walkCtx bin base.toNat)) = table.rows bin base.toNat := by
  rw [stored.chainedLocs, List.filterMap_eq_flatMap_toList, List.flatMap_assoc, FixupTable.rows]
  apply List.flatMap_congr
  rintro ⟨entry, index⟩ member
  have listed := List.mem_zipIdx_iff_getElem?.mp member
  cases entry with
  | none => rfl
  | some starts =>
    dsimp only at listed ⊢
    rw [Option.bind_some, Option.map_some, Option.getD_some]
    cases found : bin.segments[index]? with
    | none =>
      rw [FixupTable.segmentRows, found]
      rfl
    | some seg =>
      rw [← stored.segmentRows_eq listed found]
      exact List.append_nil _

theorem chainedRebases_eq : bin.chainedRebases = (table.rows bin base.toNat).filterMap Entry.rebase? := by
  rw [MachoBinary.chainedRebases_eq, ← stored.rows_eq]
  exact @rebases_agree ⟨bin.data, bin.imageBase, [], []⟩ (table.walkCtx bin base.toNat) rfl rfl bin.chainedLocs

theorem chainedBinds_eq : bin.chainedBinds = (table.rows bin base.toNat).filterMap Entry.bind? := by
  have locs : (bin.collectChainedSegments (table.parsed bin.data base.toNat)).1 = bin.chainedLocs := by
    rw [MachoBinary.chainedLocs, stored.chainedFixups]
  rw [← stored.rows_eq, ← locs, MachoBinary.chainedBinds, stored.chainedFixups]
  dsimp only
  split
  · rename_i empty
    rw [List.isEmpty_iff.mp empty]
    rfl
  · exact MachoBinary.buildBindIter_eq _ _ _ _ _

end CommandStored

end

/-- A whole fixups command is read back: its segments and imports as they were written, and one rebase or bind, with the
    target that was linked, for each slot of each segment. -/
theorem chainedFixups_roundTrip (bin : MachoBinary) (table : FixupTable) (base size : U32)
    (stored : CommandStored bin table base size) :
    (∃ cf, bin.chainedFixups = some cf ∧ cf.segments = table.chainedSegments base.toNat ∧
      cf.imports = table.importRows bin.data base.toNat) ∧
    bin.chainedRebases = (table.rows bin base.toNat).filterMap Entry.rebase? ∧
    bin.chainedBinds = (table.rows bin base.toNat).filterMap Entry.bind? := by
  refine ⟨?_, stored.chainedRebases_eq, stored.chainedBinds_eq⟩
  exact ⟨_, stored.chainedFixups, stored.segments_eq, stored.imports_eq⟩

def samplePage : LinkedPage (PointerFormat.fromRaw 6) where
  slots := [(0, .ptr64 (by decide) (.rebase 0x20 0)), (8, .ptr64 (by decide) (.bind 0 5))]
  chainable := ⟨by decide, by decide, by decide, trivial⟩

def sampleSegment : LinkedSegment where
  size := 24
  pageSize := 0x1000
  rawFormat := 6
  segmentOffset := 0
  maxValidPointer := 0
  pages := [samplePage]
  pageLimit := by decide
  few := by decide
  inPage page member := by
    cases List.mem_singleton.mp member
    decide

def sampleTable : FixupTable where
  version := 0
  startsOffset := 28
  importsOffset := 60
  symbolsOffset := 64
  rawImportsFormat := 1
  symbolsFormat := 0
  imports := [⟨1, false, lit "_a", 0⟩]
  nameOff _ := 0
  segments := [some ⟨8, sampleSegment, by decide⟩]
  fewImports := by decide
  fewSegments := by decide

/-- The command of the table at the start of the image, its segment behind it and the name of a dylib last. -/
def sampleBin : MachoBinary where
  data := ⟨0, encodeWords sampleTable.header ++ encodeWords sampleTable.starts ++ sampleSegment.encode ++
    encodeImport .plain ⟨1, false, lit "_a", 0⟩ 0 ++ lit "_a" ++ List.replicate 6 0 ++
    (sampleSegment.slots.flatMap fun placed => leBytes 8 placed.word.toNat) ++ lit "/B" ++ [0], by decide +kernel⟩
  is64 := true
  loadCommands := [.dylib .load 88 3 0 0 0 0, .dyldChainedFixups 0 72]
  segments := [⟨0x1000, 0x1000, 72, 16, [some (Objc.bareImageInfo 0x1000)]⟩]
  legacyImports := some []
  borrowed := by simp

theorem sample_imports : (sampleTable.parsed sampleBin.data 0).ImportLayout 4 sampleTable.imports sampleTable.nameOff where
  size := by decide
  count := by decide
  ordinals := by decide
  names := by decide
  addends imp member := by
    cases List.mem_singleton.mp member
    rfl
  rows i imp listed := by
    match i, listed with
    | 0, listed => cases listed; exact ⟨by decide, by decide +kernel⟩
    | i + 1, listed => cases listed
  pool i imp listed := by
    match i, listed with
    | 0, listed => cases listed; decide +kernel
    | i + 1, listed => cases listed

theorem sample_slots :
    SlotsStored sampleBin sampleTable 0 0 sampleSegment ⟨0x1000, 0x1000, 72, 16, [some (Objc.bareImageInfo 0x1000)]⟩ where
  addresses := by decide
  slots := by decide +kernel
  fits := by decide +kernel

theorem sample_stored : CommandStored sampleBin sampleTable 0 72 where
  command := rfl
  payload := by decide +kernel
  whole := by decide
  inPayload := by decide
  header := by decide +kernel
  starts := by decide +kernel
  imports := ⟨4, sample_imports⟩
  segments index starts listed := by
    match index, listed with
    | 0, listed => cases listed; decide +kernel
    | index + 1, listed => cases listed
  slots index starts seg listed found := by
    match index, listed with
    | 0, listed =>
      cases listed
      cases found
      exact sample_slots
    | index + 1, listed => cases listed

theorem chainedFixups_roundTrip_sample :
    sampleBin.chainedRebases.map (fun r => (r.vmAddress, r.targetVmaddr)) = [(0x1000, 0x1020)] ∧
      sampleBin.chainedBinds.map (fun b => (b.vmAddress, b.name.text, b.dylib.text, b.addend)) =
        [(0x1008, lit "_a", lit "/B", 5)] := by
  rcases chainedFixups_roundTrip sampleBin sampleTable 0 72 sample_stored with ⟨-, rebases, binds⟩
  rw [rebases, binds]
  decide +kernel

end DarwinScope.Fixup
