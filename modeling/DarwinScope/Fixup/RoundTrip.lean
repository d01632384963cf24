import DarwinScope.Fixup.Chains

namespace DarwinScope.Fixup

open Machine

def segOffset (loc : SegmentLoc) (page off : Nat) : Nat := page * loc.chained.pageSize.toNat + off

def storedWord (data : Slice) (loc : SegmentLoc) (segOff : Nat) : U64 :=
  BitVec.ofNat 64 (leNumber (data.window (loc.fileoff.toNat + segOff) 8))

/-- Each next field holds the distance to the next slot in strides, and the last one is zero. -/
def Linked (data : Slice) (loc : SegmentLoc) (page : Nat) : List Nat → Prop
  | [] => True
  | [last] => nextField loc.chained.pointerFormat (storedWord data loc (segOffset loc page last)) = 0
  | off :: next :: rest =>
    off + 8 ≤ next ∧ strideOf loc ∣ next - off ∧
      nextField loc.chained.pointerFormat (storedWord data loc (segOffset loc page off)) = (next - off) / strideOf loc ∧
      Linked data loc page (next :: rest)

def pageStart : List Nat → U16
  | [] => ptrStartNone
  | first :: _ => BitVec.ofNat 16 first

structure ChainLayout (data : Slice) (loc : SegmentLoc) (pages : List (List Nat)) : Prop where
  supported : loc.chained.pointerFormat.isSupported = true
  pageSize : loc.chained.pageSize.toNat ≤ 0x4000
  count : pages.length = loc.chained.pageCount.toNat
  addresses : loc.vmaddr.toNat + loc.filesize.toNat < 2^64
  starts : ∀ (page : Nat) (offsets : List Nat), pages[page]? = some offsets →
    readU16LeAt data (loc.chained.startsOffset + sizeofStartsInSegmentHeader + 2 * page) = some (pageStart offsets)
  inPage : ∀ offsets ∈ pages, ∀ off ∈ offsets, off < loc.chained.pageSize.toNat
  inside : ∀ (page : Nat) (offsets : List Nat), pages[page]? = some offsets → ∀ off ∈ offsets,
    segOffset loc page off + 8 ≤ loc.filesize.toNat ∧
      loc.fileoff.toNat + segOffset loc page off + 8 ≤ data.length
  linked : ∀ (page : Nat) (offsets : List Nat), pages[page]? = some offsets → Linked data loc page offsets

def siteAt (data : Slice) (loc : SegmentLoc) (page off : Nat) : Site where
  segIndex := loc.chained.segIndex
  segmentOffset := BitVec.ofNat 64 (segOffset loc page off)
  vmAddress := BitVec.ofNat 64 (loc.vmaddr.toNat + segOffset loc page off)
  rawSlot := storedWord data loc (segOffset loc page off)

def layoutSites (data : Slice) (loc : SegmentLoc) (pages : List (List Nat)) : List Site :=
  pages.zipIdx.flatMap fun page => page.1.map (siteAt data loc page.2)

def bindSite (loc : SegmentLoc) (site : Site) : Bool := bindBit loc.chained.pointerFormat site.rawSlot

section

variable {ctx : WalkCtx} {loc : SegmentLoc} {page : Nat}

theorem slotAt_stored {off : Nat} (before : segOffset loc page off + 8 ≤ loc.filesize.toNat)
    (stored : loc.fileoff.toNat + segOffset loc page off + 8 ≤ ctx.data.length) :
    slotAt ctx.data loc (segOffset loc page off) = some (storedWord ctx.data loc (segOffset loc page off)) := by
  rw [slotAt, if_pos (by omega)]
  exact readAt_of_le (by omega)

theorem turnOffset_page {off : Nat} (fits : segOffset loc page off < 2^64) (small : page < 2^16) :
    turnOffset loc page (BitVec.ofNat 64 off) = segOffset loc page off := by
  unfold segOffset at fits ⊢
  rw [turnOffset, BitVec.toNat_ofNat, toNat_ofNat_of_lt (by omega),
    Nat.mod_eq_of_lt (by omega)]

theorem slotMark_siteAt {off : Nat} (addresses : loc.vmaddr.toNat + loc.filesize.toNat < 2^64)
    (before : segOffset loc page off + 8 ≤ loc.filesize.toNat) :
    slotMark loc (segOffset loc page off) (storedWord ctx.data loc (segOffset loc page off)) =
      (siteAt ctx.data loc page off, bindSite loc (siteAt ctx.data loc page off)) := by
  have small : (BitVec.ofNat 64 (segOffset loc page off)).toNat = segOffset loc page off := by
    rw [toNat_ofNat_of_lt (by omega)]
  have address : saturatingAdd loc.vmaddr (BitVec.ofNat 64 (segOffset loc page off)) =
      BitVec.ofNat 64 (loc.vmaddr.toNat + segOffset loc page off) := by
    apply BitVec.eq_of_toNat_eq
    rw [saturatingAdd_toNat, small, toNat_ofNat_of_lt (by omega)]
    omega
  rw [slotMark, address]
  rfl

theorem chainTurn_stored {off : Nat} (supported : loc.chained.pointerFormat.isSupported = true)
    (addresses : loc.vmaddr.toNat + loc.filesize.toNat < 2^64) (small : page < 2^16)
    (before : segOffset loc page off + 8 ≤ loc.filesize.toNat)
    (stored : loc.fileoff.toNat + segOffset loc page off + 8 ≤ ctx.data.length) :
    ∃ entry, chainTurn ctx loc page (BitVec.ofNat 64 off) =
        some (entry, chainNext loc (BitVec.ofNat 64 off) (storedWord ctx.data loc (segOffset loc page off))) ∧
      entry.mark = (siteAt ctx.data loc page off, bindSite loc (siteAt ctx.data loc page off)) := by
  have filesize := loc.filesize.isLt
  have place : turnOffset loc page (BitVec.ofNat 64 off) = segOffset loc page off :=
    turnOffset_page (by omega) small
  have found := slotAt_stored before stored
  rw [← place] at found
  rcases chainTurn_some supported found with ⟨entry, turn, mark, -⟩
  rw [place] at turn mark
  rw [slotMark_siteAt addresses before] at mark
  exact ⟨entry, turn, mark⟩

theorem walkChain_linked {off : Nat} {rest : List Nat} (supported : loc.chained.pointerFormat.isSupported = true)
    (addresses : loc.vmaddr.toNat + loc.filesize.toNat < 2^64) (small : page < 2^16)
    (inside : ∀ o ∈ off :: rest, segOffset loc page o + 8 ≤ loc.filesize.toNat ∧
      loc.fileoff.toNat + segOffset loc page o + 8 ≤ ctx.data.length)
    (linked : Linked ctx.data loc page (off :: rest)) :
    (walkChain ctx loc page (BitVec.ofNat 64 off)).map Entry.mark =
      (off :: rest).map fun o => (siteAt ctx.data loc page o, bindSite loc (siteAt ctx.data loc page o)) := by
  induction rest generalizing off with
  | nil =>
    rcases inside off (List.mem_cons_self ..) with ⟨before, stored⟩
    rcases chainTurn_stored supported addresses small before stored with ⟨entry, turn, mark⟩
    have last : nextField loc.chained.pointerFormat (storedWord ctx.data loc (segOffset loc page off)) = 0 := linked
    rw [chainNext, if_pos last] at turn
    rw [walkChain_last turn, List.map_singleton, mark, List.map_singleton]
  | cons next rest ih =>
    rcases inside off (List.mem_cons_self ..) with ⟨before, stored⟩
    rcases linked with ⟨apart, multiple, field, tail⟩
    rcases chainTurn_stored supported addresses small before stored with ⟨entry, turn, mark⟩
    have gap : gapOf loc (storedWord ctx.data loc (segOffset loc page off)) = next - off := by
      rw [gapOf, field, Nat.div_mul_cancel multiple]
    have more : nextField loc.chained.pointerFormat (storedWord ctx.data loc (segOffset loc page off)) ≠ 0 := by
      intro zero
      rw [gapOf, zero, Nat.zero_mul] at gap
      omega
    rcases @chainNext_some loc (BitVec.ofNat 64 off) _ supported more with ⟨target, advance⟩
    have later := ih (fun o member => inside o (List.mem_cons_of_mem _ member)) tail
    have nextBefore := (inside next (by simp)).1
    have same : target = BitVec.ofNat 64 next := by
      apply BitVec.eq_of_toNat_eq
      have filesize := loc.filesize.isLt
      unfold segOffset at before nextBefore
      rw [(chainNext_toNat advance).1, gap, BitVec.toNat_ofNat, toNat_ofNat_of_lt (by omega),
        Nat.mod_eq_of_lt (by omega)]
      omega
    rw [advance, same] at turn
    rw [walkChain_next turn, List.map_cons, mark, later, List.map_cons, List.map_cons, List.map_cons]

end

def pageEntries (ctx : WalkCtx) (loc : SegmentLoc) (page : Nat) : List Nat → List Entry
  | [] => []
  | first :: _ => walkChain ctx loc page (BitVec.ofNat 64 first)

theorem pageRow_start {ctx : WalkCtx} {loc : SegmentLoc} {page : Nat} {offsets : List Nat}
    (read : readU16LeAt ctx.data (loc.chained.startsOffset + sizeofStartsInSegmentHeader + 2 * page) =
      some (pageStart offsets)) (small : ∀ first ∈ offsets.head?, first < 2^15) :
    pageRow ctx loc page = .yield (pageEntries ctx loc page offsets) ∨
      pageRow ctx loc page = .skip ∧ pageEntries ctx loc page offsets = [] := by
  rcases readAt_some read with ⟨near, -⟩
  have length := ctx.data.length_lt
  have entryOff : (checkedMulUsize page 2).bind
      (checkedAddUsize (saturatingAddUsize loc.chained.startsOffset sizeofStartsInSegmentHeader)) =
        some (loc.chained.startsOffset + sizeofStartsInSegmentHeader + 2 * page) := by
    rw [checkedMulUsize, if_pos (by omega), Option.bind_some, saturatingAddUsize, Nat.min_eq_left (by omega),
      checkedAddUsize_of_lt (by omega), Nat.mul_comm]
  simp only [pageRow, entryOff, read]
  cases offsets with
  | nil => exact Or.inr ⟨rfl, rfl⟩
  | cons first rest =>
    have small : first < 2^15 := small first rfl
    have value : (BitVec.ofNat 16 first).toNat = first := by
      rw [toNat_ofNat_of_lt (by omega)]
    have some? : pageStart (first :: rest) ≠ ptrStartNone := by
      intro same
      have number := congrArg BitVec.toNat same
      rw [pageStart, value] at number
      have none? : ptrStartNone.toNat = 65535 := rfl
      omega
    have single : pageStart (first :: rest) &&& ptrStartMulti = 0 := by
      apply BitVec.eq_of_toNat_eq
      rw [BitVec.toNat_and, pageStart, value]
      have bit : ptrStartMulti.toNat = 2^15 := rfl
      rw [bit, and_twoPow_of_lt (by omega)]
      rfl
    have start : (pageStart (first :: rest)).setWidth 64 = BitVec.ofNat 64 first := by
      apply BitVec.eq_of_toNat_eq
      rw [BitVec.toNat_setWidth, pageStart, value, BitVec.toNat_ofNat]
    left
    rw [if_neg some?, if_neg (not_not.mpr single), start, pageEntries]

theorem segmentEntries_pages {ctx : WalkCtx} {loc : SegmentLoc} {pages : List (List Nat)}
    (supported : loc.chained.pointerFormat.isSupported = true) (count : pages.length = loc.chained.pageCount.toNat)
    (starts : ∀ (page : Nat) (offsets : List Nat), pages[page]? = some offsets →
      readU16LeAt ctx.data (loc.chained.startsOffset + sizeofStartsInSegmentHeader + 2 * page) = some (pageStart offsets))
    (small : ∀ offsets ∈ pages, ∀ first ∈ offsets.head?, first < 2^15) :
    segmentEntries ctx loc = pages.zipIdx.flatMap fun page => pageEntries ctx loc page.2 page.1 := by
  have flat := @rowsFrom_flatten _ _ (pageRow ctx loc) pages (pageEntries ctx loc) 0 fun page offsets found => by
    rw [Nat.zero_add]
    exact pageRow_start (starts page offsets found) (small offsets (List.mem_of_getElem? found))
  rw [segmentEntries, if_pos supported, rows, ← count, flat]

theorem ChainLayout.small {data : Slice} {loc : SegmentLoc} {pages : List (List Nat)}
    (layout : ChainLayout data loc pages) : ∀ offsets ∈ pages, ∀ first ∈ offsets.head?, first < 2^15 := by
  intro offsets member first head
  have limit := layout.pageSize
  have small := layout.inPage offsets member first (List.mem_of_mem_head? head)
  omega

theorem segmentEntries_layout {ctx : WalkCtx} {loc : SegmentLoc} {pages : List (List Nat)}
    (layout : ChainLayout ctx.data loc pages) :
    (segmentEntries ctx loc).map Entry.mark =
      (layoutSites ctx.data loc pages).map fun site => (site, bindSite loc site) := by
  rw [segmentEntries_pages layout.supported layout.count layout.starts layout.small, layoutSites, List.map_flatMap,
    List.map_flatMap]
  apply List.flatMap_congr
  rintro ⟨offsets, page⟩ member
  have found : pages[page]? = some offsets := by
    rcases List.mem_zipIdx member with ⟨-, bound, same⟩
    simp only [Nat.zero_add, Nat.sub_zero] at bound same
    rw [List.getElem?_eq_some_iff]
    exact ⟨bound, same.symm⟩
  have small : page < 2^16 := by
    have bound := (List.getElem?_eq_some_iff.mp found).1
    have count := loc.chained.pageCount.isLt
    have same := layout.count
    omega
  cases offsets with
  | nil => rfl
  | cons first rest =>
    have walked := walkChain_linked layout.supported layout.addresses small (layout.inside page _ found)
      (layout.linked page _ found)
    simp only [pageEntries, walked, List.map_map]
    rfl

/-- A segment that holds a layout gives exactly one row for each of its slots, page by page and in
    ascending order, each in the vector of its kind. -/
theorem decodeSegmentChains_layout {data : Slice} {loc : SegmentLoc} {pages : List (List Nat)}
    (layout : ChainLayout data loc pages) (imageBase : U64) (rebasesOut : List Rebase) (bindsOut : List Bind)
    (imports : List ChainedImport) (dylibNames : List Str) :
    ∃ rebases binds,
      decodeSegmentChains data loc imageBase rebasesOut bindsOut imports dylibNames =
        (rebasesOut ++ rebases, bindsOut ++ binds) ∧
      rebases.map Rebase.site = (layoutSites data loc pages).filter (fun site => !bindSite loc site) ∧
      binds.map Bind.site = (layoutSites data loc pages).filter (bindSite loc) := by
  have marks := @segmentEntries_layout ⟨data, imageBase, imports, dylibNames⟩ loc pages layout
  refine ⟨_, _, rfl, ?_, ?_⟩
  · rw [rebases_sites, marks, List.filter_map, List.map_map]
    exact List.map_id _
  · rw [binds_sites, marks, List.filter_map, List.map_map]
    exact List.map_id _

def twoPageData : Slice :=
  ⟨0, List.replicate 22 0 ++ leBytes 2 0 ++ leBytes 2 0xffff ++ List.replicate 6 0 ++ leBytes 8 (3 * 2^51) ++
    List.replicate 4 0 ++ leBytes 8 (2^63 + 7), by decide⟩

def twoPageLoc : SegmentLoc where
  chained := ⟨1, 26, 32, .ptr64, 2, 0, 0, 2, 0⟩
  vmaddr := 0x1000
  fileoff := 32
  filesize := 64

theorem twoPageLayout : ChainLayout twoPageData twoPageLoc [[0, 12], []] where
  supported := rfl
  pageSize := by decide
  count := rfl
  addresses := by decide
  starts page offsets found := by
    match page, found with
    | 0, found => cases found; decide
    | 1, found => cases found; decide
    | page + 2, found => cases found
  inPage := by decide
  inside page offsets found := by
    match page, found with
    | 0, found => cases found; decide
    | 1, found => cases found; decide
    | page + 2, found => cases found
  linked page offsets found := by
    match page, found with
    | 0, found => cases found; exact ⟨by decide, by decide, by decide,
        show nextField .ptr64 (storedWord twoPageData twoPageLoc 12) = 0 by decide⟩
    | 1, found => cases found; trivial
    | page + 2, found => cases found

theorem decodeSegmentChains_layout_twoPages :
    ∃ rebases binds,
      decodeSegmentChains twoPageData twoPageLoc 0 [] [] [] [] = (rebases, binds) ∧
      rebases.map Rebase.site = [⟨1, 0, 0x1000, 3 * 2^51⟩] ∧
      binds.map Bind.site = [⟨1, 12, 0x100c, 2^63 + 7⟩] := by
  obtain ⟨rebases, binds, decoded, rebaseSites, bindSites⟩ :=
    decodeSegmentChains_layout twoPageLayout 0 [] [] [] []
  exact ⟨rebases, binds, decoded, rebaseSites.trans (by decide), bindSites.trans (by decide)⟩

end DarwinScope.Fixup
