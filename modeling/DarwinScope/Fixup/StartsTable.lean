import DarwinScope.Fixup.Header

namespace DarwinScope.Fixup.ChainedFixups

open Machine

def segCount (cf : ChainedFixups) : Nat := ((readU32LeAt cf.data cf.startsInImageOff).getD 0).toNat

def infoOffset (cf : ChainedFixups) (i : Nat) : Option U32 := readU32LeAt cf.data (cf.startsInImageOff + 4 + 4 * i)

def headerAt (data : Slice) (segIndex : U32) (off : Nat) : Option ChainedSegment := do
  let size ← readU32LeAt data off
  let pageSize ← readU16LeAt data (off + 4)
  let rawFormat ← readU16LeAt data (off + 6)
  let segmentOffset ← readU64LeAt data (off + 8)
  let maxValidPointer ← readU32LeAt data (off + 16)
  let pageCount ← readU16LeAt data (off + 20)
  some {
    segIndex := segIndex
    size := size
    pageSize := pageSize
    pointerFormat := PointerFormat.fromRaw rawFormat
    rawPointerFormat := rawFormat
    segmentOffset := segmentOffset
    maxValidPointer := maxValidPointer
    pageCount := pageCount
    startsOffset := off
  }

/-- What entry `i` of the table stores, when its offset is not zero and all of its header is there. -/
def storedSegment (cf : ChainedFixups) (i : Nat) : Option ChainedSegment := do
  let info ← cf.infoOffset i
  if info = 0 then none else headerAt cf.data (BitVec.ofNat 32 i) (cf.startsInImageOff + info.toNat)

def Dangling (cf : ChainedFixups) (i : Nat) : Prop :=
  ∃ info, cf.infoOffset i = some info ∧ info ≠ 0 ∧ cf.data.length < cf.startsInImageOff + info.toNat

/-- Each entry that stores a segment has its row, the rows stand in the order of the entries, and there
    are no others. -/
structure FailSoft (cf : ChainedFixups) : Prop where
  each : ∀ i < cf.segCount, ∀ segment, cf.storedSegment i = some segment → segment ∈ cf.segments
  increasing : cf.segments.Pairwise fun segment later => segment.segIndex.toNat < later.segIndex.toNat
  only : ∀ segment ∈ cf.segments, ∃ i < cf.segCount, cf.storedSegment i = some segment

section

variable {cf : ChainedFixups} {i j : Nat} {segment : ChainedSegment}

theorem headerAt_isSome {data : Slice} {segIndex : U32} {off : Nat} :
    (headerAt data segIndex off).isSome ↔ off + 22 ≤ data.length := by
  constructor
  · intro found
    rcases Option.isSome_iff_exists.mp found with ⟨segment, found⟩
    simp only [headerAt, Option.bind_eq_bind, Option.bind_eq_some_iff] at found
    rcases found with ⟨_, -, _, -, _, -, _, -, _, -, pageCount, last, -⟩
    exact (readAt_some last).1
  · intro inside
    have word : readU32LeAt data off = some _ := readAt_of_le (by omega)
    have pageSize : readU16LeAt data (off + 4) = some _ := readAt_of_le (by omega)
    have format : readU16LeAt data (off + 6) = some _ := readAt_of_le (by omega)
    have segmentOffset : readU64LeAt data (off + 8) = some _ := readAt_of_le (by omega)
    have pointer : readU32LeAt data (off + 16) = some _ := readAt_of_le (by omega)
    have pageCount : readU16LeAt data (off + 20) = some _ := readAt_of_le (by omega)
    simp [headerAt, word, pageSize, format, segmentOffset, pointer, pageCount]

theorem headerAt_segIndex {data : Slice} {segIndex : U32} {off : Nat} (found : headerAt data segIndex off = some segment) :
    segment.segIndex = segIndex := by
  simp only [headerAt, Option.bind_eq_bind, Option.bind_eq_some_iff] at found
  rcases found with ⟨_, -, _, -, _, -, _, -, _, -, _, -, same⟩
  cases same
  rfl

theorem startsHeader_from {data header : Slice} {segIndex : U32} {off : Nat} (cut : data.from? off = some header)
    (whole : 22 ≤ header.length) : startsHeader header segIndex off = headerAt data segIndex off := by
  rcases Slice.get_some cut with ⟨inside, -⟩
  have length := Slice.get_length cut
  have cut : data.get off (off + header.length) = some header := by
    rwa [show off + header.length = data.length by omega]
  have size : readU32LeAt header 0 = readU32LeAt data off := readAt_part cut (by omega)
  have pageSize : readU16LeAt header 4 = readU16LeAt data (off + 4) := readAt_part cut (by omega)
  have format : readU16LeAt header 6 = readU16LeAt data (off + 6) := readAt_part cut (by omega)
  have segmentOffset : readU64LeAt header 8 = readU64LeAt data (off + 8) := readAt_part cut (by omega)
  have pointer : readU32LeAt header 16 = readU32LeAt data (off + 16) := readAt_part cut (by omega)
  have pageCount : readU16LeAt header 20 = readU16LeAt data (off + 20) := readAt_part cut (by omega)
  rw [startsHeader, headerAt, size, pageSize, format, segmentOffset, pointer, pageCount]

theorem start_lt (before : i < cf.segCount) : cf.startsInImageOff + 4 ≤ cf.data.length := by
  unfold segCount at before
  cases count : readU32LeAt cf.data cf.startsInImageOff with
  | none =>
    rw [count] at before
    exact absurd before (Nat.not_lt_zero i)
  | some word => exact (readAt_some count).1

theorem segInfoOffset_eq (before : i < cf.segCount) : cf.segInfoOffset i = cf.infoOffset i := by
  have start := start_lt before
  have bound := cf.data.length_lt
  have few : cf.segCount < 2^32 := BitVec.isLt _
  have first : checkedAddUsize cf.startsInImageOff 4 = some (cf.startsInImageOff + 4) := checkedAddUsize_of_lt (by omega)
  have step : checkedMulUsize i 4 = some (4 * i) := by
    rw [Nat.mul_comm]
    exact if_pos (by omega)
  have place : checkedAddUsize (cf.startsInImageOff + 4) (4 * i) = some (cf.startsInImageOff + 4 + 4 * i) :=
    checkedAddUsize_of_lt (by omega)
  simp only [segInfoOffset, infoOffset, first, step, place, Option.bind_eq_bind, Option.bind_some]

/-- An unreadable entry and one that leads past the data end the loop; else the turn yields what the entry
    stores. -/
theorem segmentRow_spec (before : i < cf.segCount) :
    (cf.infoOffset i = none ∨ cf.Dangling i) ∧ cf.segmentRow i = .stop ∧ cf.storedSegment i = none ∨
      ¬ (cf.infoOffset i = none ∨ cf.Dangling i) ∧
        (cf.segmentRow i = .skip ∧ cf.storedSegment i = none ∨
          ∃ segment, cf.segmentRow i = .yield segment ∧ cf.storedSegment i = some segment) := by
  have start := start_lt before
  have bound := cf.data.length_lt
  unfold segmentRow storedSegment Dangling
  rw [segInfoOffset_eq before]
  cases read : cf.infoOffset i with
  | none => exact .inl ⟨.inl rfl, rfl, rfl⟩
  | some info =>
    have small := info.isLt
    have unread (past : cf.data.length < cf.startsInImageOff + info.toNat + 22) :
        headerAt cf.data (BitVec.ofNat 32 i) (cf.startsInImageOff + info.toNat) = none := by
      rw [← Option.not_isSome_iff_eq_none, headerAt_isSome]
      omega
    simp only [Option.bind_eq_bind, Option.bind_some]
    by_cases zero : info = 0
    · simp [zero]
    rw [if_neg zero, if_neg zero, checkedAddUsize_of_lt (show cf.startsInImageOff + info.toNat < 2^64 by omega),
      Option.bind_some]
    cases cut : cf.data.from? (cf.startsInImageOff + info.toNat) with
    | none =>
      have past : cf.data.length < cf.startsInImageOff + info.toNat := by
        by_contra inside
        rcases Slice.get_of_le (Nat.le_of_not_lt inside) (Nat.le_refl cf.data.length) with ⟨header, found, -⟩
        rw [Slice.from?, found] at cut
        cases cut
      exact .inl ⟨.inr ⟨info, rfl, zero, past⟩, rfl, unread (by omega)⟩
    | some header =>
      have length := Slice.get_length cut
      rcases Slice.get_some cut with ⟨inside, -⟩
      have sound : ¬ (some info = none ∨ ∃ word, some info = some word ∧ word ≠ 0 ∧
          cf.data.length < cf.startsInImageOff + word.toNat) := by
        rintro (absent | ⟨word, same, -, past⟩)
        · cases absent
        · cases same
          omega
      refine .inr ⟨sound, ?_⟩
      rw [Option.map_some]
      dsimp only
      by_cases short : header.length < 22
      · exact .inl ⟨if_pos short, unread (by omega)⟩
      · have whole := Nat.le_of_not_lt short
        have found : (headerAt cf.data (BitVec.ofNat 32 i) (cf.startsInImageOff + info.toNat)).isSome := by
          rw [headerAt_isSome]
          omega
        rcases Option.isSome_iff_exists.mp found with ⟨segment, found⟩
        rw [if_neg short, startsHeader_from cut whole, found]
        exact .inr ⟨segment, rfl, rfl⟩

theorem segmentRow_stop_iff (before : i < cf.segCount) :
    cf.segmentRow i = .stop ↔ cf.infoOffset i = none ∨ cf.Dangling i := by
  rcases segmentRow_spec before with ⟨ends, stops, -⟩ | ⟨goes, ⟨skips, -⟩ | ⟨segment, yields, -⟩⟩
  · exact iff_of_true stops ends
  · exact iff_of_false (by simp [skips]) goes
  · exact iff_of_false (by simp [yields]) goes

theorem segmentRow_yield_iff (before : i < cf.segCount) :
    cf.segmentRow i = .yield segment ↔ cf.storedSegment i = some segment := by
  rcases segmentRow_spec before with ⟨-, stops, none⟩ | ⟨-, ⟨skips, none⟩ | ⟨found, yields, stored⟩⟩
  · simp [stops, none]
  · simp [skips, none]
  · simp [yields, stored]

theorem infoOffset_mono (unread : cf.infoOffset j = none) (below : j ≤ i) : cf.infoOffset i = none := by
  have past : cf.data.length < cf.startsInImageOff + 4 + 4 * j + 4 := by
    by_contra inside
    rw [infoOffset, readU32LeAt, readAt_of_le (Nat.le_of_not_lt inside)] at unread
    cases unread
  exact readAt_of_lt (by omega)

theorem storedSegment_segIndex (found : cf.storedSegment i = some segment) : segment.segIndex = BitVec.ofNat 32 i := by
  simp only [storedSegment, Option.bind_eq_bind, Option.bind_eq_some_iff] at found
  rcases found with ⟨info, -, found⟩
  split at found
  · cases found
  · exact headerAt_segIndex found

theorem segIndex_toNat (before : i < cf.segCount) (found : cf.storedSegment i = some segment) :
    segment.segIndex.toNat = i := by
  have few : cf.segCount < 2^32 := BitVec.isLt _
  rw [storedSegment_segIndex found, toNat_ofNat_of_lt (by omega)]

theorem mem_segments_iff :
    segment ∈ cf.segments ↔
      ∃ i < cf.segCount, cf.storedSegment i = some segment ∧ ∀ j < i, cf.segmentRow j ≠ .stop := by
  rw [segments, mem_rows_iff]
  apply exists_congr
  intro i
  apply and_congr_right
  intro before
  rw [segmentRow_yield_iff before]

end

/-- The rows are the entries that store a segment, one each and in order, exactly when none of these stands
    behind an entry whose offset leads past the data. -/
theorem segments_failSoft_iff (cf : ChainedFixups) :
    cf.FailSoft ↔ ∀ i < cf.segCount, ∀ j < i, cf.Dangling j → cf.storedSegment i = none := by
  constructor
  · intro soft i before j earlier dangling
    by_contra stores
    rcases Option.ne_none_iff_exists'.mp stores with ⟨segment, stored⟩
    rcases mem_segments_iff.mp (soft.each i before segment stored) with ⟨place, small, found, clear⟩
    have same : place = i := (segIndex_toNat small found).symm.trans (segIndex_toNat before stored)
    rw [same] at clear
    exact clear j earlier ((segmentRow_stop_iff (Nat.lt_trans earlier before)).mpr (.inr dangling))
  · intro clear
    refine ⟨?_, ?_, ?_⟩
    · intro i before segment stored
      refine mem_segments_iff.mpr ⟨i, before, stored, ?_⟩
      intro j earlier stops
      rcases (segmentRow_stop_iff (Nat.lt_trans earlier before)).mp stops with unread | dangling
      · rw [storedSegment, infoOffset_mono unread (Nat.le_of_lt earlier)] at stored
        cases stored
      · rw [clear i before j earlier dangling] at stored
        cases stored
    · apply rows_pairwise
      intro i j segment later before bound row row'
      have first := segIndex_toNat (Nat.lt_trans before bound) ((segmentRow_yield_iff (Nat.lt_trans before bound)).mp row)
      have second := segIndex_toNat bound ((segmentRow_yield_iff bound).mp row')
      omega
    · intro segment member
      rcases mem_segments_iff.mp member with ⟨i, before, stored, -⟩
      exact ⟨i, before, stored⟩

/-- A parsed header over two entries: the first leads past the data, the second to 22 zeros. -/
def danglingTable : ChainedFixups where
  data := ⟨0, leBytes 4 0 ++ leBytes 4 28 ++ leBytes 4 62 ++ leBytes 4 62 ++ leBytes 4 0 ++ leBytes 4 1 ++
    leBytes 4 0 ++ leBytes 4 2 ++ leBytes 4 0xffff ++ leBytes 4 12 ++ leBytes 22 0, by simp⟩
  base := 0
  fixupsVersion := 0
  startsOffset := 28
  importsOffset := 62
  symbolsOffset := 62
  importsCount := 0
  importsFormat := .plain
  rawImportsFormat := 1
  symbolsFormat := 0

theorem dangling_hides_segment :
    ¬ ∀ (data : Slice) (base size : Nat) (cf : ChainedFixups), parse data base size = some cf → cf.FailSoft := by
  intro soft
  have header : parse danglingTable.data 0 62 = some danglingTable := by decide +kernel
  have entry : danglingTable.storedSegment 1 = some ⟨1, 0, 0, .other 0, 0, 0, 0, 0, 40⟩ := by decide +kernel
  have listed := (soft _ _ _ _ header).each 1 (by decide +kernel) _ entry
  have none : danglingTable.segments = [] := by decide +kernel
  rw [none] at listed
  cases listed

end DarwinScope.Fixup.ChainedFixups
