import DarwinScope.Machine.Counting
import DarwinScope.Binary

namespace DarwinScope.Fixup

open Machine

def Entry.offset (entry : Entry) : U64 := entry.site.segmentOffset

def offsetsOf (entries : List Entry) : List Nat := entries.map fun entry => entry.offset.toNat

def bareCtx (data : Slice) : WalkCtx := ⟨data, 0, [], []⟩

def chainOffsets (data : Slice) (loc : SegmentLoc) : List (List Nat) :=
  if loc.chained.pointerFormat.isSupported then
    (rows (pageRow (bareCtx data) loc) loc.chained.pageCount.toNat).map offsetsOf
  else []

/-- Every chain of the segment ends in the page it starts in, and pages are whole strides. -/
structure PagedChains (data : Slice) (loc : SegmentLoc) : Prop where
  strides : strideOf loc ∣ loc.chained.pageSize.toNat
  inPage : ∀ (page : Nat) (entries : List Entry), pageRow (bareCtx data) loc page = .yield entries →
    ∀ off ∈ offsetsOf entries, off < (page + 1) * loc.chained.pageSize.toNat

section

variable {ctx ctx' : WalkCtx} {loc : SegmentLoc}

theorem walkChain_agree {β : Type} {f : Entry → β} {page : Nat}
    (turns : ∀ off, (chainTurn ctx loc page off).map (Prod.map f id) = (chainTurn ctx' loc page off).map (Prod.map f id))
    (chainOff : U64) : (walkChain ctx loc page chainOff).map f = (walkChain ctx' loc page chainOff).map f := by
  induction chainOff using walkChain.induct ctx loc page with
  | case1 chainOff turn =>
    have stops := turns chainOff
    rw [turn, Option.map_none, eq_comm, Option.map_eq_none_iff] at stops
    rw [walkChain_none turn, walkChain_none stops]
  | case2 chainOff entry turn =>
    have taken := turns chainOff
    rw [turn, Option.map_some, eq_comm] at taken
    rcases Option.map_eq_some_iff.mp taken with ⟨⟨entry', last⟩, turn', same⟩
    simp only [Prod.map_apply, id_eq, Prod.mk.injEq] at same
    rw [same.2] at turn'
    rw [walkChain_last turn, walkChain_last turn', List.map_singleton, List.map_singleton, same.1]
  | case3 chainOff entry next turn ih =>
    have taken := turns chainOff
    rw [turn, Option.map_some, eq_comm] at taken
    rcases Option.map_eq_some_iff.mp taken with ⟨⟨entry', more⟩, turn', same⟩
    simp only [Prod.map_apply, id_eq, Prod.mk.injEq] at same
    rw [same.2] at turn'
    rw [walkChain_next turn, walkChain_next turn', List.map_cons, List.map_cons, same.1, ih]

theorem chainTurn_marks (same : ctx.data = ctx'.data) (page : Nat) (chainOff : U64) :
    (chainTurn ctx loc page chainOff).map (Prod.map Entry.mark id) =
      (chainTurn ctx' loc page chainOff).map (Prod.map Entry.mark id) := by
  cases found : slotAt ctx.data loc (turnOffset loc page chainOff) with
  | none =>
    have found' := found
    rw [same] at found'
    rw [chainTurn_none found, chainTurn_none found']
  | some slot =>
    have found' := found
    rw [same] at found'
    by_cases supported : loc.chained.pointerFormat.isSupported = true
    · rcases chainTurn_some supported found with ⟨entry, turn, mark, -⟩
      rcases chainTurn_some supported found' with ⟨entry', turn', mark', -⟩
      rw [turn, turn', Option.map_some, Option.map_some, Prod.map_apply, Prod.map_apply, mark, mark']
    · have stops : ∀ ctx : WalkCtx, chainTurn ctx loc page chainOff = none := by
        intro ctx
        cases turn : chainTurn ctx loc page chainOff with
        | none => rfl
        | some taken => exact absurd (supported_of_turn turn) supported
      rw [stops ctx, stops ctx']

theorem turn_offset {pageIdx : Nat} {chainOff : U64} {turn : Entry × Option U64}
    (taken : chainTurn ctx loc pageIdx chainOff = some turn) :
    turn.1.offset.toNat = turnOffset loc pageIdx chainOff ∧ turnOffset loc pageIdx chainOff < loc.filesize.toNat := by
  rcases chainTurn_found taken with ⟨slot, found, -, mark, -⟩
  rcases slotAt_inside found with ⟨inside, -⟩
  have bound := loc.filesize.isLt
  have place : turn.1.offset = BitVec.ofNat 64 (turnOffset loc pageIdx chainOff) :=
    congrArg (fun mark => mark.1.segmentOffset) mark
  rw [place, toNat_ofNat_of_lt (by omega)]
  exact ⟨rfl, inside⟩

theorem segmentEntries_entryAt {entry : Entry} (member : entry ∈ segmentEntries ctx loc) :
    entryAt ctx loc entry.offset.toNat = some entry := by
  rcases mem_segmentEntries member with ⟨page, off, turn, taken, rfl⟩
  rcases chainTurn_found taken with ⟨slot, -, -, -, row⟩
  rwa [(turn_offset taken).1]

theorem gapOf_ge {chainOff slot next : U64} (advance : chainNext loc chainOff slot = some next) :
    strideOf loc ≤ gapOf loc slot := by
  have more : nextField loc.chained.pointerFormat slot ≠ 0 := by
    intro zero
    rw [chainNext, if_pos zero] at advance
    cases advance
  exact Nat.le_mul_of_pos_left _ (Nat.pos_of_ne_zero more)

/-- A chain moves up by at least a stride from row to row and stays below the file size. -/
theorem walkChain_spaced (ctx : WalkCtx) (loc : SegmentLoc) (page : Nat) (chainOff : U64) :
    Spaced (strideOf loc) (offsetsOf (walkChain ctx loc page chainOff)) ∧
      ∀ off ∈ offsetsOf (walkChain ctx loc page chainOff),
        turnOffset loc page chainOff ≤ off ∧ off < loc.filesize.toNat := by
  induction chainOff using walkChain.induct ctx loc page with
  | case1 chainOff turn =>
    rw [walkChain_none turn]
    exact ⟨List.Pairwise.nil, fun off member => by cases member⟩
  | case2 chainOff entry turn =>
    rcases turn_offset turn with ⟨place, inside⟩
    rw [walkChain_last turn]
    refine ⟨List.pairwise_singleton _ _, ?_⟩
    intro off member
    have same : off = turnOffset loc page chainOff := (List.mem_singleton.mp member).trans place
    exact ⟨same.ge, same.trans_lt inside⟩
  | case3 chainOff entry next turn ih =>
    rcases turn_offset turn with ⟨place, inside⟩
    rcases chainTurn_found turn with ⟨slot, -, advance, -⟩
    rcases chainNext_toNat advance.symm with ⟨target, -⟩
    have gap := gapOf_ge advance.symm
    rcases ih with ⟨spaced, later⟩
    -- a saturated offset is past every segment, so the rows that follow start at the exact sum
    have apart : ∀ off ∈ offsetsOf (walkChain ctx loc page next), entry.offset.toNat + strideOf loc ≤ off := by
      intro off member
      rcases later off member with ⟨low, high⟩
      have bound := loc.filesize.isLt
      dsimp only at place
      unfold turnOffset at low place
      omega
    rw [walkChain_next turn]
    refine ⟨List.Pairwise.cons apart spaced, ?_⟩
    intro off member
    rcases List.mem_cons.mp member with first | member
    · have same : off = turnOffset loc page chainOff := first.trans place
      exact ⟨same.ge, same.trans_lt inside⟩
    · have after := apart off member
      dsimp only at place
      exact ⟨by omega, (later off member).2⟩

theorem offsets_of_marks {entries entries' : List Entry} (same : entries.map Entry.mark = entries'.map Entry.mark) :
    offsetsOf entries = offsetsOf entries' := by
  have places := congrArg (List.map fun mark => mark.1.segmentOffset.toNat) same
  rwa [List.map_map, List.map_map] at places

theorem pageRow_agree {β : Type} {f : Entry → β} (same : ctx.data = ctx'.data) (page : Nat)
    (turns : ∀ off, (chainTurn ctx loc page off).map (Prod.map f id) = (chainTurn ctx' loc page off).map (Prod.map f id)) :
    (pageRow ctx loc page).map (List.map f) = (pageRow ctx' loc page).map (List.map f) := by
  unfold pageRow
  rw [same]
  dsimp only
  split
  · rfl
  split
  · rfl
  split
  · rfl
  split
  · rfl
  exact congrArg Row.yield (walkChain_agree turns _)

theorem segmentEntries_agree {β : Type} {f : Entry → β} (same : ctx.data = ctx'.data)
    (turns : ∀ page off, (chainTurn ctx loc page off).map (Prod.map f id) =
      (chainTurn ctx' loc page off).map (Prod.map f id)) :
    (segmentEntries ctx loc).map f = (segmentEntries ctx' loc).map f := by
  unfold segmentEntries
  split
  · rw [List.map_flatten, List.map_flatten, ← rows_map, ← rows_map]
    simp only [pageRow_agree same _ (turns _)]
  · rfl

theorem segmentEntries_marks (same : ctx.data = ctx'.data) :
    (segmentEntries ctx loc).map Entry.mark = (segmentEntries ctx' loc).map Entry.mark :=
  segmentEntries_agree same (chainTurn_marks same)

end

section

variable {data : Slice} {loc : SegmentLoc}

theorem chainOffsets_flatten (ctx : WalkCtx) (loc : SegmentLoc) :
    offsetsOf (segmentEntries ctx loc) = (chainOffsets ctx.data loc).flatten := by
  have bare : ctx.data = (bareCtx ctx.data).data := rfl
  rw [offsets_of_marks (segmentEntries_marks bare)]
  unfold segmentEntries chainOffsets
  split
  · rw [offsetsOf, List.map_flatten]
    rfl
  · rfl

theorem mem_chainOffsets {chain : List Nat} (member : chain ∈ chainOffsets data loc) :
    loc.chained.pointerFormat.isSupported = true ∧
      ∃ page start, chain = offsetsOf (walkChain (bareCtx data) loc page start) := by
  unfold chainOffsets at member
  split at member
  case isFalse => cases member
  rename_i supported
  rcases List.mem_map.mp member with ⟨entries, found, rfl⟩
  rcases mem_rows found with ⟨page, -, row⟩
  rcases pageRow_walk row with ⟨start, rfl⟩
  exact ⟨supported, page, start, rfl⟩

theorem chain_spaced {chain : List Nat} (member : chain ∈ chainOffsets data loc) :
    0 < strideOf loc ∧ Spaced (strideOf loc) chain ∧ ∀ off ∈ chain, off < loc.filesize.toNat := by
  rcases mem_chainOffsets member with ⟨supported, page, start, rfl⟩
  rcases walkChain_spaced (bareCtx data) loc page start with ⟨spaced, range⟩
  exact ⟨strideOf_pos supported, spaced, fun off found => (range off found).2⟩

theorem chain_length {chain : List Nat} (member : chain ∈ chainOffsets data loc) :
    chain.length ≤ cells loc.filesize.toNat (strideOf loc) := by
  rcases chain_spaced member with ⟨positive, spaced, below⟩
  exact length_le_cells positive below (spaced.cells_ascending positive)

theorem PagedChains.ascending (paged : PagedChains data loc) :
    (chainOffsets data loc).flatten.Pairwise fun a b => a / strideOf loc < b / strideOf loc := by
  rw [List.pairwise_flatten]
  constructor
  · intro chain member
    rcases chain_spaced member with ⟨positive, spaced, -⟩
    exact spaced.cells_ascending positive
  unfold chainOffsets
  split
  case isFalse => exact List.Pairwise.nil
  rename_i supported
  rw [List.pairwise_map]
  apply rows_pairwise
  intro page later entries entries' before bound row row' a first b second
  rcases pageRow_walk row' with ⟨start, rfl⟩
  have limit : a < (page + 1) * loc.chained.pageSize.toNat := paged.inPage page entries row a first
  have from? := ((walkChain_spaced (bareCtx data) loc later start).2 b second).1
  have count := loc.chained.pageCount.isLt
  have place : (BitVec.ofNat 64 later).toNat = later := by
    rw [toNat_ofNat_of_lt (by omega)]
  have whole : strideOf loc ∣ (page + 1) * loc.chained.pageSize.toNat := Dvd.dvd.mul_left paged.strides _
  have pages : (page + 1) * loc.chained.pageSize.toNat ≤ later * loc.chained.pageSize.toNat :=
    Nat.mul_le_mul_right _ before
  unfold turnOffset at from?
  rw [place] at from?
  exact cell_lt_of_block (strideOf_pos supported) whole limit (by omega)

theorem segmentEntries_segIndex {ctx : WalkCtx} {entry : Entry} (member : entry ∈ segmentEntries ctx loc) :
    entry.site.segIndex = loc.chained.segIndex := by
  rcases mem_segmentEntries member with ⟨page, off, turn, taken, rfl⟩
  rcases chainTurn_found taken with ⟨slot, -, -, mark, -⟩
  exact congrArg (fun mark => mark.1.segIndex) mark

theorem startsHeader_segIndex {header : Slice} {segIndex : U32} {startsOff : Nat} {segment : ChainedSegment}
    (read : ChainedFixups.startsHeader header segIndex startsOff = some segment) : segment.segIndex = segIndex := by
  simp only [ChainedFixups.startsHeader, Option.bind_eq_bind, Option.bind_eq_some_iff] at read
  rcases read with ⟨_, -, _, -, _, -, _, -, _, -, _, -, same⟩
  cases same
  rfl

theorem segmentRow_segIndex {cf : ChainedFixups} {i : Nat} {segment : ChainedSegment}
    (row : cf.segmentRow i = .yield segment) : segment.segIndex = BitVec.ofNat 32 i := by
  unfold ChainedFixups.segmentRow at row
  split at row
  · cases row
  split at row
  · cases row
  split at row
  · cases row
  split at row
  · cases row
  split at row
  · cases row
  · rename_i read
    cases row
    exact startsHeader_segIndex read

theorem segments_distinct (cf : ChainedFixups) :
    cf.segments.Pairwise fun segment later => segment.segIndex ≠ later.segIndex := by
  apply rows_pairwise
  intro i j segment later before bound row row' same
  have count := ((readU32LeAt cf.data cf.startsInImageOff).getD 0).isLt
  rw [segmentRow_segIndex row, segmentRow_segIndex row'] at same
  have numbers := congrArg BitVec.toNat same
  rw [BitVec.toNat_ofNat, toNat_ofNat_of_lt (by omega), Nat.mod_eq_of_lt (by omega)] at numbers
  omega

end

end DarwinScope.Fixup

namespace DarwinScope.MachoBinary

open Machine

open Fixup

def chainedLocs (bin : MachoBinary) : List SegmentLoc :=
  match bin.chainedFixups with
  | none => []
  | some cf => (bin.collectChainedSegments cf).1

def sitePairs (bin : MachoBinary) : List (U32 × U64) :=
  bin.chainedRebases.map (fun r => (r.segIndex, r.segmentOffset)) ++
    bin.chainedBinds.map (fun b => (b.segIndex, b.segmentOffset))

def segmentRows (bin : MachoBinary) (loc : SegmentLoc) : Nat :=
  bin.sitePairs.countP fun pair => pair.1 = loc.chained.segIndex

def sitePair (site : Site) : U32 × U64 := (site.segIndex, site.segmentOffset)

theorem buildRebaseIter_eq (data : Slice) (locs : List SegmentLoc) (imageBase : U64) :
    buildRebaseIter data locs imageBase =
      (locs.flatMap (segmentEntries ⟨data, imageBase, [], []⟩)).filterMap Entry.rebase? := by
  have step : ∀ out, locs.foldl (fun out loc => (decodeSegmentChains data loc imageBase out [] [] []).1) out =
      out ++ (locs.flatMap (segmentEntries ⟨data, imageBase, [], []⟩)).filterMap Entry.rebase? := by
    induction locs with
    | nil => simp
    | cons loc locs ih =>
      intro out
      rw [List.foldl_cons, ih, List.flatMap_cons, List.filterMap_append, ← List.append_assoc]
      rfl
  exact (step []).trans (List.nil_append _)

theorem buildBindIter_eq (data : Slice) (locs : List SegmentLoc) (imageBase : U64) (imports : List ChainedImport)
    (dylibNames : List Str) :
    buildBindIter data locs imageBase imports dylibNames =
      (locs.flatMap (segmentEntries ⟨data, imageBase, imports, dylibNames⟩)).filterMap Entry.bind? := by
  have step : ∀ out, (locs.foldl (fun out loc =>
      decodeSegmentChains data loc imageBase out.1 out.2 imports dylibNames) out).2 =
      out.2 ++ (locs.flatMap (segmentEntries ⟨data, imageBase, imports, dylibNames⟩)).filterMap Entry.bind? := by
    induction locs with
    | nil => simp
    | cons loc locs ih =>
      intro out
      rw [List.foldl_cons, ih, List.flatMap_cons, List.filterMap_append, ← List.append_assoc]
      rfl
  exact (step ([], [])).trans (List.nil_append _)

def siteMarks (bin : MachoBinary) : List (Site × Bool) :=
  bin.chainedLocs.flatMap fun loc => (segmentEntries (bareCtx bin.data) loc).map Entry.mark

theorem siteMarks_eq (bin : MachoBinary) (ctx : WalkCtx) (same : ctx.data = bin.data) :
    (bin.chainedLocs.flatMap (segmentEntries ctx)).map Entry.mark = bin.siteMarks := by
  rw [List.map_flatMap, siteMarks]
  apply List.flatMap_congr
  intro loc _
  exact segmentEntries_marks same

theorem chainedRebases_eq (bin : MachoBinary) :
    bin.chainedRebases =
      (bin.chainedLocs.flatMap (segmentEntries ⟨bin.data, bin.imageBase, [], []⟩)).filterMap Entry.rebase? := by
  unfold chainedRebases chainedLocs
  cases bin.chainedFixups with
  | none => rfl
  | some cf =>
    dsimp only
    split
    · rename_i empty
      rw [List.isEmpty_iff.mp empty]
      rfl
    · exact buildRebaseIter_eq _ _ _

theorem chainedBinds_eq (bin : MachoBinary) :
    ∃ imports, bin.chainedBinds =
      (bin.chainedLocs.flatMap (segmentEntries ⟨bin.data, bin.imageBase, imports, bin.dylibNames⟩)).filterMap
        Entry.bind? := by
  unfold chainedBinds chainedLocs
  cases bin.chainedFixups with
  | none => exact ⟨[], rfl⟩
  | some cf =>
    refine ⟨cf.imports, ?_⟩
    dsimp only
    split
    · rename_i empty
      rw [List.isEmpty_iff.mp empty]
      rfl
    · exact buildBindIter_eq _ _ _ _ _

theorem sitePairs_perm (bin : MachoBinary) :
    bin.sitePairs.Perm (bin.siteMarks.map fun mark => sitePair mark.1) := by
  rcases chainedBinds_eq bin with ⟨imports, binds⟩
  have rebaseSites : bin.chainedRebases.map Rebase.site = (bin.siteMarks.filter fun mark => !mark.2).map Prod.fst := by
    rw [chainedRebases_eq, rebases_sites, siteMarks_eq]
    rfl
  have bindSites : bin.chainedBinds.map Bind.site = (bin.siteMarks.filter Prod.snd).map Prod.fst := by
    rw [binds, binds_sites, siteMarks_eq]
    rfl
  have listed : bin.sitePairs =
      ((bin.siteMarks.filter fun mark => !mark.2) ++ bin.siteMarks.filter Prod.snd).map fun mark => sitePair mark.1 := by
    have first := congrArg (List.map sitePair) rebaseSites
    have second := congrArg (List.map sitePair) bindSites
    rw [List.map_map, List.map_map] at first second
    rw [List.map_append]
    exact congrArg₂ (· ++ ·) first second
  rw [listed]
  apply List.Perm.map
  exact List.perm_append_comm.trans (List.filter_append_perm Prod.snd bin.siteMarks)

def locPairs (data : Slice) (loc : SegmentLoc) : List (U32 × U64) :=
  ((segmentEntries (bareCtx data) loc).map Entry.mark).map fun mark => sitePair mark.1

theorem siteMarks_pairs (bin : MachoBinary) :
    (bin.siteMarks.map fun mark => sitePair mark.1) = bin.chainedLocs.flatMap (locPairs bin.data) := by
  rw [siteMarks, List.map_flatMap]
  rfl

theorem locPairs_eq (data : Slice) (loc : SegmentLoc) :
    locPairs data loc =
      (chainOffsets data loc).flatten.map fun off => (loc.chained.segIndex, BitVec.ofNat 64 off) := by
  have offsets := chainOffsets_flatten (bareCtx data) loc
  rw [show (bareCtx data).data = data from rfl] at offsets
  rw [← offsets, locPairs, offsetsOf, List.map_map, List.map_map]
  apply List.map_congr_left
  intro entry member
  have index := segmentEntries_segIndex member
  have word : BitVec.ofNat 64 entry.offset.toNat = entry.offset := by
    rw [BitVec.ofNat_toNat, BitVec.setWidth_eq]
  exact Prod.ext index word.symm

theorem mem_locPairs {data : Slice} {loc : SegmentLoc} {pair : U32 × U64} (member : pair ∈ locPairs data loc) :
    pair.1 = loc.chained.segIndex := by
  rw [locPairs_eq] at member
  rcases List.mem_map.mp member with ⟨off, -, rfl⟩
  rfl

theorem chainedLocs_distinct (bin : MachoBinary) :
    bin.chainedLocs.Pairwise fun loc later => loc.chained.segIndex ≠ later.chained.segIndex := by
  unfold chainedLocs
  cases bin.chainedFixups with
  | none => exact List.Pairwise.nil
  | some cf =>
    simp only [collectChainedSegments]
    rw [List.pairwise_filterMap]
    refine List.Pairwise.imp ?_ (segments_distinct cf)
    intro segment later apart loc found loc' found'
    rcases Option.map_eq_some_iff.mp found with ⟨_, -, rfl⟩
    rcases Option.map_eq_some_iff.mp found' with ⟨_, -, rfl⟩
    exact apart

theorem locPairs_nodup (data : Slice) (loc : SegmentLoc) :
    (locPairs data loc).Nodup ↔ (chainOffsets data loc).Pairwise List.Disjoint := by
  have chains : ∀ chain ∈ chainOffsets data loc, chain.Nodup := by
    intro chain member
    rcases chain_spaced member with ⟨positive, spaced, -⟩
    exact List.Pairwise.imp (fun less => Nat.ne_of_lt less) (spaced.ascending positive)
  have injective : ∀ a ∈ (chainOffsets data loc).flatten, ∀ b ∈ (chainOffsets data loc).flatten,
      ((loc.chained.segIndex, BitVec.ofNat 64 a) : U32 × U64) = (loc.chained.segIndex, BitVec.ofNat 64 b) →
        a = b := by
    intro a first b second same
    have small : ∀ off ∈ (chainOffsets data loc).flatten, off < 2^64 := by
      intro off member
      rcases List.mem_flatten.mp member with ⟨chain, found, inside⟩
      have below := (chain_spaced found).2.2 off inside
      have bound := loc.filesize.isLt
      omega
    have numbers := congrArg (fun pair => pair.2.toNat) same
    simp only [BitVec.toNat_ofNat] at numbers
    rwa [Nat.mod_eq_of_lt (small a first), Nat.mod_eq_of_lt (small b second)] at numbers
  rw [locPairs_eq]
  constructor
  · intro distinct
    exact (List.nodup_flatten.mp (List.Nodup.of_map _ distinct)).2
  · intro apart
    exact List.Nodup.map_on injective (List.nodup_flatten.mpr ⟨chains, apart⟩)

theorem sitePairs_nodup (bin : MachoBinary) :
    bin.sitePairs.Nodup ↔ ∀ loc ∈ bin.chainedLocs, (chainOffsets bin.data loc).Pairwise List.Disjoint := by
  have segments : bin.chainedLocs.Pairwise (Function.onFun List.Disjoint (locPairs bin.data)) := by
    refine List.Pairwise.imp ?_ (chainedLocs_distinct bin)
    intro loc later apart pair first second
    exact apart ((mem_locPairs first).symm.trans (mem_locPairs second))
  rw [bin.sitePairs_perm.nodup_iff, siteMarks_pairs, List.nodup_flatMap]
  constructor
  · rintro ⟨each, -⟩ loc member
    exact (locPairs_nodup bin.data loc).mp (each loc member)
  · intro each
    exact ⟨fun loc member => (locPairs_nodup bin.data loc).mpr (each loc member), segments⟩

theorem chainOffsets_disjoint {data : Slice} {loc : SegmentLoc} (paged : PagedChains data loc) :
    (chainOffsets data loc).Pairwise List.Disjoint := by
  have distinct : (chainOffsets data loc).flatten.Nodup := by
    refine List.Pairwise.imp ?_ paged.ascending
    intro a b less same
    rw [same] at less
    exact Nat.lt_irrefl _ less
  exact (List.nodup_flatten.mp distinct).2

theorem segmentRows_eq {bin : MachoBinary} {loc : SegmentLoc} (member : loc ∈ bin.chainedLocs) :
    bin.segmentRows loc = (chainOffsets bin.data loc).flatten.length := by
  have count := countP_flatMap_key (fun loc _ found => @mem_locPairs bin.data loc _ found)
    bin.chainedLocs_distinct member
  rw [segmentRows, bin.sitePairs_perm.countP_eq, siteMarks_pairs, count, locPairs_eq, List.length_map]

/-- The sites of the chained fixups. A chain visits ascending offsets below the file size, no more
    of them than strides fit in; no site is listed twice exactly when the chains of different pages
    of a segment never meet; and where every chain ends in its own page they never do, and the
    whole segment has no more rows than strides fit in. -/
theorem sites_reported (bin : MachoBinary) :
    (∀ loc ∈ bin.chainedLocs, ∀ chain ∈ chainOffsets bin.data loc,
      chain.Pairwise (· < ·) ∧ (∀ off ∈ chain, off < loc.filesize.toNat) ∧
        chain.length ≤ cells loc.filesize.toNat (strideOf loc)) ∧
    (bin.sitePairs.Nodup ↔ ∀ loc ∈ bin.chainedLocs, (chainOffsets bin.data loc).Pairwise List.Disjoint) ∧
    ((∀ loc ∈ bin.chainedLocs, PagedChains bin.data loc) →
      bin.sitePairs.Nodup ∧
        ∀ loc ∈ bin.chainedLocs, bin.segmentRows loc ≤ cells loc.filesize.toNat (strideOf loc)) := by
  refine ⟨?_, bin.sitePairs_nodup, ?_⟩
  · intro loc _ chain member
    rcases chain_spaced member with ⟨positive, spaced, below⟩
    exact ⟨spaced.ascending positive, below, chain_length member⟩
  · intro paged
    refine ⟨bin.sitePairs_nodup.mpr fun loc member => chainOffsets_disjoint (paged loc member), ?_⟩
    intro loc member
    rw [segmentRows_eq member]
    by_cases supported : loc.chained.pointerFormat.isSupported = true
    · refine length_le_cells (strideOf_pos supported) ?_ (paged loc member).ascending
      intro off found
      rcases List.mem_flatten.mp found with ⟨chain, listed, inside⟩
      exact (chain_spaced listed).2.2 off inside
    · rw [chainOffsets, if_neg supported]
      exact Nat.zero_le _

def zeroPagesBin : MachoBinary where
  data := ⟨0, leBytes 4 0 ++ leBytes 4 28 ++ leBytes 4 0 ++ leBytes 4 0 ++ leBytes 4 0 ++ leBytes 4 1 ++ leBytes 4 0 ++
    leBytes 4 1 ++ leBytes 4 8 ++
    leBytes 4 26 ++ leBytes 2 0 ++ leBytes 2 6 ++ leBytes 8 0 ++ leBytes 4 0 ++ leBytes 2 2 ++ leBytes 2 0 ++
    leBytes 2 0 ++ leBytes 8 0, by decide⟩
  is64 := true
  loadCommands := [.dyldChainedFixups 0 62]
  segments := [⟨0x1000, 0x1000, 62, 8, []⟩]
  legacyImports := some []
  borrowed := by simp

theorem zeroPages_reported_twice :
    ¬ ∀ bin : MachoBinary, bin.sitePairs.Nodup ∧
      ∀ loc ∈ bin.chainedLocs, bin.segmentRows loc * strideOf loc ≤ loc.filesize.toNat := by
  intro unique
  have pairs : zeroPagesBin.sitePairs = [(0, 0), (0, 0)] := by decide +kernel
  have distinct := (unique zeroPagesBin).1
  rw [pairs] at distinct
  exact absurd distinct (by decide)

end DarwinScope.MachoBinary
