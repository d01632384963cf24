import DarwinScope.Fixup.RoundTrip
import DarwinScope.Fixup.Sites

namespace DarwinScope.Fixup

open Machine

def pageStartAt (data : Slice) (loc : SegmentLoc) (page : Nat) : Option U16 :=
  readU16LeAt data (loc.chained.startsOffset + sizeofStartsInSegmentHeader + 2 * page)

/-- The offsets that the walk of a page comes to: where its chain starts, and from each slot that is read
    and is not the last one, as far on as its next field says. -/
inductive Reaches (data : Slice) (loc : SegmentLoc) (page : Nat) : Nat → Prop where
  | start {word : U16} : pageStartAt data loc page = some word → word ≠ ptrStartNone → word &&& ptrStartMulti = 0 →
      Reaches data loc page word.toNat
  | next {off : Nat} {slot : U64} : Reaches data loc page off → slotAt data loc (segOffset loc page off) = some slot →
      nextField loc.chained.pointerFormat slot ≠ 0 → Reaches data loc page (off + gapOf loc slot)

/-- A slot that a chain walk stops at: its segment, its offset in it and the word stored there. -/
structure Visit where
  loc : SegmentLoc
  segmentOffset : U64
  slot : U64

namespace Visit

def segIndex (visit : Visit) : U32 := visit.loc.chained.segIndex

def isBind (visit : Visit) : Bool := bindBit visit.loc.chained.pointerFormat visit.slot

def site (visit : Visit) : Site where
  segIndex := visit.segIndex
  segmentOffset := visit.segmentOffset
  vmAddress := saturatingAdd visit.loc.vmaddr visit.segmentOffset
  rawSlot := visit.slot

def mark (visit : Visit) : Site × Bool := (visit.site, visit.isBind)

end Visit

def Entry.visit (loc : SegmentLoc) (entry : Entry) : Visit := ⟨loc, entry.site.segmentOffset, entry.site.rawSlot⟩

def visits (data : Slice) (locs : List SegmentLoc) : List Visit :=
  locs.flatMap fun loc => (segmentEntries (bareCtx data) loc).map (Entry.visit loc)

theorem segmentEntries_slot {ctx : WalkCtx} {loc : SegmentLoc} {entry : Entry} (member : entry ∈ segmentEntries ctx loc) :
    slotAt ctx.data loc entry.site.segmentOffset.toNat = some entry.site.rawSlot ∧
      (entry.visit loc).mark = entry.mark := by
  rcases mem_segmentEntries member with ⟨page, off, turn, taken, rfl⟩
  have place := (turn_offset taken).1
  rcases chainTurn_found taken with ⟨slot, found, -, mark, -⟩
  have raw : turn.1.site.rawSlot = slot := congrArg (fun mark => mark.1.rawSlot) mark
  have offset : turn.1.site.segmentOffset = BitVec.ofNat 64 (turnOffset loc page off) :=
    congrArg (fun mark => mark.1.segmentOffset) mark
  rw [Entry.offset] at place
  rw [← place] at found
  constructor
  · rw [raw, found]
  · rw [mark, Visit.mark, Visit.site, Visit.isBind, Entry.visit, raw, offset]
    rfl

section

variable {ctx : WalkCtx} {loc : SegmentLoc} {page off : Nat} {entry : Entry} {slot : U64}

theorem turn_at (supported : loc.chained.pointerFormat.isSupported = true) (small : page < 2^16)
    (found : slotAt ctx.data loc (segOffset loc page off) = some slot) :
    ∃ entry, chainTurn ctx loc page (BitVec.ofNat 64 off) =
        some (entry, chainNext loc (BitVec.ofNat 64 off) slot) ∧ entry.offset.toNat = segOffset loc page off := by
  have filesize := loc.filesize.isLt
  have before := (slotAt_inside found).1
  have place : turnOffset loc page (BitVec.ofNat 64 off) = segOffset loc page off := turnOffset_page (by omega) small
  rw [← place] at found
  rcases chainTurn_some supported found with ⟨entry, turn, -⟩
  have position := (turn_offset turn).1
  rw [place] at position
  exact ⟨entry, turn, position⟩

theorem pageRow_eq (small : page < 2^16) :
    pageRow ctx loc page =
      match pageStartAt ctx.data loc page with
      | none => .stop
      | some word =>
        if word = ptrStartNone then .skip
        else if word &&& ptrStartMulti ≠ 0 then .skip
        else .yield (walkChain ctx loc page (word.setWidth 64)) := by
  have length := ctx.data.length_lt
  have step : checkedMulUsize page 2 = some (2 * page) := by
    rw [Nat.mul_comm]
    exact if_pos (by omega)
  rw [pageRow, step, Option.bind_some]
  by_cases near : loc.chained.startsOffset + sizeofStartsInSegmentHeader + 2 * page < 2^64
  · have base : saturatingAddUsize loc.chained.startsOffset sizeofStartsInSegmentHeader =
        loc.chained.startsOffset + sizeofStartsInSegmentHeader := Nat.min_eq_left (by omega)
    rw [base, checkedAddUsize_of_lt near]
    rfl
  · have unread : pageStartAt ctx.data loc page = none := readAt_of_lt (by omega)
    rw [unread]
    dsimp only
    split
    · rfl
    · rename_i entryOff sum
      have value := checkedAddUsize_some sum
      have high : ctx.data.length < entryOff + 2 := by
        rw [value, saturatingAddUsize]
        omega
      have past : readU16LeAt ctx.data entryOff = none := readAt_of_lt high
      rw [past]

theorem pageStartAt_mono {data : Slice} {word : U16} {earlier : Nat} (read : pageStartAt data loc page = some word)
    (before : earlier ≤ page) : ∃ first, pageStartAt data loc earlier = some first := by
  rcases readAt_some read with ⟨near, -⟩
  exact ⟨_, readAt_of_le (by omega)⟩

theorem mem_segmentEntries_of_walk (supported : loc.chained.pointerFormat.isSupported = true)
    (listed : page < loc.chained.pageCount.toNat) {word : U16} (start : pageStartAt ctx.data loc page = some word)
    (nonempty : word ≠ ptrStartNone) (single : word &&& ptrStartMulti = 0)
    (member : entry ∈ walkChain ctx loc page (word.setWidth 64)) : entry ∈ segmentEntries ctx loc := by
  have few : loc.chained.pageCount.toNat < 2^16 := BitVec.isLt _
  have row : pageRow ctx loc page = .yield (walkChain ctx loc page (word.setWidth 64)) := by
    rw [pageRow_eq (by omega), start]
    dsimp only
    rw [if_neg nonempty, if_neg (not_not.mpr single)]
  have clear : ∀ earlier < page, pageRow ctx loc earlier ≠ .stop := by
    intro earlier before stops
    rcases pageStartAt_mono start (Nat.le_of_lt before) with ⟨first, read⟩
    rw [pageRow_eq (by omega), read] at stops
    dsimp only at stops
    split at stops
    · cases stops
    · split at stops <;> cases stops
  rw [segmentEntries, if_pos supported]
  exact List.mem_flatten.mpr ⟨_, mem_rows_iff.mpr ⟨page, listed, row, clear⟩, member⟩

theorem walkChain_past {next : U64} (past : 2^64 - 1 ≤ next.toNat) : walkChain ctx loc page next = [] := by
  apply walkChain_none
  apply chainTurn_none
  have filesize := loc.filesize.isLt
  rw [slotAt, if_neg]
  unfold turnOffset
  omega

theorem Reaches.walked (supported : loc.chained.pointerFormat.isSupported = true) (small : page < 2^16)
    (reached : Reaches ctx.data loc page off) (found : slotAt ctx.data loc (segOffset loc page off) = some slot) :
    ∃ word, pageStartAt ctx.data loc page = some word ∧ word ≠ ptrStartNone ∧ word &&& ptrStartMulti = 0 ∧
      walkChain ctx loc page (BitVec.ofNat 64 off) <:+ walkChain ctx loc page (word.setWidth 64) := by
  have filesize := loc.filesize.isLt
  induction reached generalizing slot with
  | @start word read nonempty single =>
    refine ⟨word, read, nonempty, single, ?_⟩
    have same : BitVec.ofNat 64 word.toNat = word.setWidth 64 := by
      apply BitVec.eq_of_toNat_eq
      rw [BitVec.toNat_ofNat, BitVec.toNat_setWidth]
    rw [same]
  | @next off earlier reached stored more ih =>
    have before := (slotAt_inside found).1
    rcases ih stored with ⟨word, read, nonempty, single, walked⟩
    refine ⟨word, read, nonempty, single, List.IsSuffix.trans ?_ walked⟩
    rcases turn_at supported small stored with ⟨entry, turn, -⟩
    rcases @chainNext_some loc (BitVec.ofNat 64 off) _ supported more with ⟨target, advance⟩
    unfold segOffset at before
    have value := (chainNext_toNat advance).1
    rw [toNat_ofNat_of_lt (by omega)] at value
    have same : target = BitVec.ofNat 64 (off + gapOf loc earlier) := by
      apply BitVec.eq_of_toNat_eq
      rw [value, toNat_ofNat_of_lt (by omega)]
      omega
    rw [advance] at turn
    rw [walkChain_next turn, same]
    exact List.suffix_cons _ _

/-- Every row of a chain stands at an offset that the walk comes to and has the word stored there. -/
theorem mem_walkChain_reaches (small : page < 2^16) {chainOff : U64} (reached : Reaches ctx.data loc page chainOff.toNat)
    (member : entry ∈ walkChain ctx loc page chainOff) :
    ∃ off, Reaches ctx.data loc page off ∧ entry.offset.toNat = segOffset loc page off ∧
      slotAt ctx.data loc (segOffset loc page off) = some entry.site.rawSlot := by
  have here {turn : Entry × Option U64} {chainOff : U64} (taken : chainTurn ctx loc page chainOff = some turn) :
      turn.1.offset.toNat = segOffset loc page chainOff.toNat ∧
        slotAt ctx.data loc (segOffset loc page chainOff.toNat) = some turn.1.site.rawSlot ∧
          turn.2 = chainNext loc chainOff turn.1.site.rawSlot := by
    have place : turnOffset loc page chainOff = segOffset loc page chainOff.toNat := by
      rw [turnOffset, toNat_ofNat_of_lt (by omega), segOffset]
    rcases chainTurn_found taken with ⟨slot, found, next, mark, -⟩
    have raw : turn.1.site.rawSlot = slot := congrArg (fun mark => mark.1.rawSlot) mark
    rw [place] at found
    exact ⟨(turn_offset taken).1.trans place, by rw [raw, found], by rw [raw, next]⟩
  induction chainOff using walkChain.induct ctx loc page with
  | case1 chainOff turn =>
    rw [walkChain_none turn] at member
    cases member
  | case2 chainOff last turn =>
    rw [walkChain_last turn] at member
    rw [List.mem_singleton.mp member]
    exact ⟨chainOff.toNat, reached, (here turn).1, (here turn).2.1⟩
  | case3 chainOff first next turn ih =>
    rw [walkChain_next turn] at member
    rcases here turn with ⟨place, found, advance⟩
    dsimp only at place found advance
    rcases List.mem_cons.mp member with rfl | member
    · exact ⟨chainOff.toNat, reached, place, found⟩
    · have more : nextField loc.chained.pointerFormat first.site.rawSlot ≠ 0 := by
        intro zero
        rw [chainNext, if_pos zero] at advance
        cases advance
      have value := (chainNext_toNat advance.symm).1
      by_cases near : chainOff.toNat + gapOf loc first.site.rawSlot < 2^64
      · apply ih _ member
        rw [value, Nat.min_eq_left (by omega)]
        exact Reaches.next reached found more
      · rw [walkChain_past (by omega)] at member
        cases member

theorem segmentEntries_reaches (member : entry ∈ segmentEntries ctx loc) :
    loc.chained.pointerFormat.isSupported = true ∧ ∃ page < loc.chained.pageCount.toNat, ∃ off,
      Reaches ctx.data loc page off ∧ entry.offset.toNat = segOffset loc page off ∧
        slotAt ctx.data loc (segOffset loc page off) = some entry.site.rawSlot := by
  have few : loc.chained.pageCount.toNat < 2^16 := BitVec.isLt _
  unfold segmentEntries at member
  split at member
  case isFalse => cases member
  rename_i supported
  rcases List.mem_flatten.mp member with ⟨entries, found, walked⟩
  rcases mem_rows found with ⟨page, listed, row⟩
  rw [pageRow_eq (by omega)] at row
  refine ⟨supported, page, listed, ?_⟩
  cases read : pageStartAt ctx.data loc page with
  | none =>
    rw [read] at row
    cases row
  | some word =>
    rw [read] at row
    dsimp only at row
    split at row
    · cases row
    rename_i nonempty
    split at row
    · cases row
    rename_i single
    cases row
    have reached : Reaches ctx.data loc page (word.setWidth 64).toNat := by
      rw [BitVec.toNat_setWidth_of_le (by decide)]
      exact Reaches.start read nonempty (not_not.mp single)
    exact mem_walkChain_reaches (by omega) reached walked

theorem mem_segmentEntries_of_reaches (supported : loc.chained.pointerFormat.isSupported = true)
    (listed : page < loc.chained.pageCount.toNat) (reached : Reaches ctx.data loc page off)
    (found : slotAt ctx.data loc (segOffset loc page off) = some slot) :
    ∃ entry ∈ segmentEntries ctx loc, entry.offset.toNat = segOffset loc page off := by
  have few : loc.chained.pageCount.toNat < 2^16 := BitVec.isLt _
  rcases reached.walked supported (by omega) found with ⟨word, read, nonempty, single, walked⟩
  rcases turn_at supported (by omega) found with ⟨entry, turn, place⟩
  have first : entry ∈ walkChain ctx loc page (BitVec.ofNat 64 off) := by
    cases advance : chainNext loc (BitVec.ofNat 64 off) slot with
    | none =>
      rw [advance] at turn
      rw [walkChain_last turn]
      exact List.mem_cons_self
    | some next =>
      rw [advance] at turn
      rw [walkChain_next turn]
      exact List.mem_cons_self
  exact ⟨entry, mem_segmentEntries_of_walk supported listed read nonempty single (walked.subset first), place⟩

end

/-- The visits are the slots that the walk of some page of some segment comes to, with the words stored there. -/
theorem mem_visits_iff {data : Slice} {locs : List SegmentLoc} {visit : Visit} :
    visit ∈ visits data locs ↔ visit.loc ∈ locs ∧ visit.loc.chained.pointerFormat.isSupported = true ∧
      ∃ page < visit.loc.chained.pageCount.toNat, ∃ off, Reaches data visit.loc page off ∧
        visit.segmentOffset.toNat = segOffset visit.loc page off ∧
          slotAt data visit.loc visit.segmentOffset.toNat = some visit.slot := by
  constructor
  · intro member
    rcases List.mem_flatMap.mp member with ⟨loc, listed, found⟩
    rcases List.mem_map.mp found with ⟨entry, walked, rfl⟩
    rcases segmentEntries_reaches walked with ⟨supported, page, inside, off, reached, place, stored⟩
    rw [← place] at stored
    exact ⟨listed, supported, page, inside, off, reached, place, stored⟩
  · rintro ⟨listed, supported, page, inside, off, reached, place, stored⟩
    have found := stored
    rw [place] at found
    rcases @mem_segmentEntries_of_reaches (bareCtx data) _ _ _ _ supported inside reached found with
      ⟨entry, walked, position⟩
    have same : entry.site.segmentOffset = visit.segmentOffset := BitVec.eq_of_toNat_eq (position.trans place.symm)
    have raw := (segmentEntries_slot walked).1
    rw [same] at raw
    refine List.mem_flatMap.mpr ⟨visit.loc, listed, List.mem_map.mpr ⟨entry, walked, ?_⟩⟩
    rw [Entry.visit, same, Option.some.inj (raw.symm.trans stored)]

theorem visits_marks (ctx : WalkCtx) (locs : List SegmentLoc) :
    (visits ctx.data locs).map Visit.mark = (locs.flatMap (segmentEntries ctx)).map Entry.mark := by
  rw [visits, List.map_flatMap, List.map_flatMap]
  apply List.flatMap_congr
  intro loc _
  have same : ctx.data = (bareCtx ctx.data).data := rfl
  rw [segmentEntries_marks same, List.map_map]
  apply List.map_congr_left
  intro entry member
  exact (segmentEntries_slot member).2

theorem decodeChainEntry_rebase {slot : U64} {format : PointerFormat} {ctx ctx' : SlotCtx}
    (same : { ctx with imports := [], dylibNames := [] } = { ctx' with imports := [], dylibNames := [] }) :
    (decodeChainEntry slot format ctx).map (Prod.map Entry.rebase? id) =
      (decodeChainEntry slot format ctx').map (Prod.map Entry.rebase? id) := by
  rcases ctx with ⟨imageBase, segIndex, segmentOffset, vmAddress, imports, dylibNames⟩
  rcases ctx' with ⟨imageBase', segIndex', segmentOffset', vmAddress', imports', dylibNames'⟩
  simp only [SlotCtx.mk.injEq, and_true] at same
  rcases same with ⟨rfl, rfl, rfl, rfl⟩
  have ptr64 : (decodePtr64Slot slot format ⟨imageBase, segIndex, segmentOffset, vmAddress, imports, dylibNames⟩).map
      (Prod.map Entry.rebase? id) =
      (decodePtr64Slot slot format ⟨imageBase, segIndex, segmentOffset, vmAddress, imports', dylibNames'⟩).map
      (Prod.map Entry.rebase? id) := by
    unfold decodePtr64Slot
    dsimp only
    split <;> rfl
  have arm64e : (decodeArm64eSlot slot format ⟨imageBase, segIndex, segmentOffset, vmAddress, imports, dylibNames⟩).map
      (Prod.map Entry.rebase? id) =
      (decodeArm64eSlot slot format ⟨imageBase, segIndex, segmentOffset, vmAddress, imports', dylibNames'⟩).map
      (Prod.map Entry.rebase? id) := by
    unfold decodeArm64eSlot
    dsimp only
    split <;> rfl
  cases format with
  | ptr64 | ptr64Offset => exact ptr64
  | other raw => rfl
  | _ => exact arm64e

theorem chainTurn_rebase {ctx ctx' : WalkCtx} {loc : SegmentLoc} (same : ctx.data = ctx'.data)
    (base : ctx.imageBase = ctx'.imageBase) (page : Nat) (chainOff : U64) :
    (chainTurn ctx loc page chainOff).map (Prod.map Entry.rebase? id) =
      (chainTurn ctx' loc page chainOff).map (Prod.map Entry.rebase? id) := by
  simp only [chainTurn, Option.bind_eq_bind, same, base]
  cases checkedMul (BitVec.ofNat 64 page) (loc.chained.pageSize.setWidth 64) with
  | none => rfl
  | some pageOff =>
  simp only [Option.bind_some]
  cases checkedAdd pageOff chainOff with
  | none => rfl
  | some pageByteOff =>
  simp only [Option.bind_some]
  by_cases past : loc.filesize ≤ pageByteOff
  · simp only [if_pos past]
  simp only [if_neg past]
  cases checkedAdd loc.fileoff pageByteOff with
  | none => rfl
  | some absOff =>
  simp only [Option.bind_some]
  cases readU64LeAt ctx'.data absOff.toNat with
  | none => rfl
  | some slot =>
  simp only [Option.bind_some, Option.map_bind]
  have decoded := @decodeChainEntry_rebase slot loc.chained.pointerFormat
    ⟨ctx'.imageBase, loc.chained.segIndex, pageByteOff, saturatingAdd loc.vmaddr pageByteOff, ctx.imports, ctx.dylibNames⟩
    ⟨ctx'.imageBase, loc.chained.segIndex, pageByteOff, saturatingAdd loc.vmaddr pageByteOff, ctx'.imports,
      ctx'.dylibNames⟩ rfl
  revert decoded
  cases decodeChainEntry slot loc.chained.pointerFormat ⟨ctx'.imageBase, loc.chained.segIndex, pageByteOff,
      saturatingAdd loc.vmaddr pageByteOff, ctx.imports, ctx.dylibNames⟩ with
  | none =>
    intro decoded
    rw [Option.map_none, eq_comm, Option.map_eq_none_iff] at decoded
    rw [decoded]
  | some turn =>
    rcases turn with ⟨entry, next⟩
    intro decoded
    rw [Option.map_some, eq_comm] at decoded
    rcases Option.map_eq_some_iff.mp decoded with ⟨⟨entry', next'⟩, decoded', agree⟩
    simp only [Prod.map_apply, id_eq, Prod.mk.injEq] at agree
    rcases agree with ⟨agree, rfl⟩
    simp only [decoded', Option.bind_some, Function.comp_apply]
    by_cases last : next' = 0
    · simp only [if_pos last, Option.map_some, Prod.map_apply, agree]
    cases strideBytes loc.chained.pointerFormat <;>
      simp only [if_neg last, Option.map_some, Prod.map_apply, agree]

theorem rebases_agree {ctx ctx' : WalkCtx} (same : ctx.data = ctx'.data) (base : ctx.imageBase = ctx'.imageBase)
    (locs : List SegmentLoc) :
    (locs.flatMap (segmentEntries ctx)).filterMap Entry.rebase? =
      (locs.flatMap (segmentEntries ctx')).filterMap Entry.rebase? := by
  have rows : (locs.flatMap (segmentEntries ctx)).map Entry.rebase? =
      (locs.flatMap (segmentEntries ctx')).map Entry.rebase? := by
    rw [List.map_flatMap, List.map_flatMap]
    apply List.flatMap_congr
    intro loc _
    exact segmentEntries_agree same (chainTurn_rebase same base)
  have kept := congrArg (List.filterMap id) rows
  rwa [List.filterMap_map, List.filterMap_map] at kept

theorem binds_visits (data : Slice) (locs : List SegmentLoc) (imageBase : U64) (imports : List ChainedImport)
    (dylibNames : List Str) :
    (buildBindIter data locs imageBase imports dylibNames).map Bind.site =
      ((visits data locs).filter Visit.isBind).map Visit.site := by
  have marks := visits_marks ⟨data, imageBase, imports, dylibNames⟩ locs
  rw [MachoBinary.buildBindIter_eq, binds_sites, ← marks, List.filter_map, List.map_map]
  rfl

/-- The rebase rows and the bind rows come from one walk. Its visits are fixed by the image and the
    segments alone: the slots that the page starts and the next fields lead to. Each visit gives one row, a
    rebase or a bind as its bind bit says. -/
theorem chains_partitioned (data : Slice) (locs : List SegmentLoc) :
    (∀ visit, visit ∈ visits data locs ↔ visit.loc ∈ locs ∧ visit.loc.chained.pointerFormat.isSupported = true ∧
      ∃ page < visit.loc.chained.pageCount.toNat, ∃ off, Reaches data visit.loc page off ∧
        visit.segmentOffset.toNat = segOffset visit.loc page off ∧
          slotAt data visit.loc visit.segmentOffset.toNat = some visit.slot) ∧
      ∀ (imageBase : U64) (imports : List ChainedImport) (dylibNames : List Str), ∃ entries : List Entry,
        entries.map Entry.mark = (visits data locs).map Visit.mark ∧
        buildRebaseIter data locs imageBase = entries.filterMap Entry.rebase? ∧
        buildBindIter data locs imageBase imports dylibNames = entries.filterMap Entry.bind? ∧
        (buildRebaseIter data locs imageBase).map Rebase.site =
          ((visits data locs).filter fun visit => !visit.isBind).map Visit.site ∧
        (buildBindIter data locs imageBase imports dylibNames).map Bind.site =
          ((visits data locs).filter Visit.isBind).map Visit.site := by
  refine ⟨fun visit => mem_visits_iff, ?_⟩
  intro imageBase imports dylibNames
  have marks := visits_marks ⟨data, imageBase, imports, dylibNames⟩ locs
  have rebases : buildRebaseIter data locs imageBase =
      (locs.flatMap (segmentEntries ⟨data, imageBase, imports, dylibNames⟩)).filterMap Entry.rebase? := by
    rw [MachoBinary.buildRebaseIter_eq]
    exact @rebases_agree ⟨data, imageBase, [], []⟩ ⟨data, imageBase, imports, dylibNames⟩ rfl rfl locs
  refine ⟨_, marks.symm, rebases, MachoBinary.buildBindIter_eq data locs imageBase imports dylibNames, ?_,
    binds_visits data locs imageBase imports dylibNames⟩
  rw [rebases, rebases_sites, ← marks, List.filter_map, List.map_map]
  rfl

end DarwinScope.Fixup
