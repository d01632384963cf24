import DarwinScope.Fixup.Slots

namespace DarwinScope.Fixup

open Machine

abbrev ptrStartNone : U16 := 0xffff
abbrev ptrStartMulti : U16 := 0x8000

structure SegmentLoc where
  chained : ChainedSegment
  vmaddr : U64
  fileoff : U64
  filesize : U64
deriving DecidableEq

structure WalkCtx where
  data : Slice
  imageBase : U64
  imports : List ChainedImport
  dylibNames : List Str

def strideBytes : PointerFormat → Option U64
  | .arm64e | .arm64eUserland | .arm64eUserland24 | .arm64eSharedCache => some 8
  | .ptr64 | .ptr64Offset | .arm64eKernel => some 4
  | .other _ => none

def strideOf (loc : SegmentLoc) : Nat := ((strideBytes loc.chained.pointerFormat).getD 0).toNat

/-- One turn of the loop over a chain: `none` when it breaks before a row is pushed, else the row and
    the offset of the next turn, if there is one. -/
def chainTurn (ctx : WalkCtx) (loc : SegmentLoc) (pageIdx : Nat) (chainOff : U64) :
    Option (Entry × Option U64) := do
  let pageOff ← checkedMul (BitVec.ofNat 64 pageIdx) (loc.chained.pageSize.setWidth 64)
  let pageByteOff ← checkedAdd pageOff chainOff
  if loc.filesize ≤ pageByteOff then none else do
    let absOff ← checkedAdd loc.fileoff pageByteOff
    let slot ← readU64LeAt ctx.data absOff.toNat
    let slotCtx : SlotCtx := {
      imageBase := ctx.imageBase
      segIndex := loc.chained.segIndex
      segmentOffset := pageByteOff
      vmAddress := saturatingAdd loc.vmaddr pageByteOff
      imports := ctx.imports
      dylibNames := ctx.dylibNames
    }
    let (entry, nextStride) ← decodeChainEntry slot loc.chained.pointerFormat slotCtx
    if nextStride = 0 then some (entry, none)
    else
      match strideBytes loc.chained.pointerFormat with
      | none => some (entry, none)
      | some stride => some (entry, some (saturatingAdd chainOff (saturatingMul nextStride stride)))

def slotAt (data : Slice) (loc : SegmentLoc) (segOff : Nat) : Option U64 :=
  if segOff < loc.filesize.toNat then readU64LeAt data (loc.fileoff.toNat + segOff) else none

def chainNext (loc : SegmentLoc) (chainOff slot : U64) : Option U64 :=
  if nextField loc.chained.pointerFormat slot = 0 then none
  else
    (strideBytes loc.chained.pointerFormat).map fun stride =>
      saturatingAdd chainOff (saturatingMul (BitVec.ofNat 64 (nextField loc.chained.pointerFormat slot)) stride)

def slotMark (loc : SegmentLoc) (segOff : Nat) (slot : U64) : Site × Bool :=
  (⟨loc.chained.segIndex, BitVec.ofNat 64 segOff, saturatingAdd loc.vmaddr (BitVec.ofNat 64 segOff), slot⟩,
    bindBit loc.chained.pointerFormat slot)

def turnOffset (loc : SegmentLoc) (pageIdx : Nat) (chainOff : U64) : Nat :=
  (BitVec.ofNat 64 pageIdx).toNat * loc.chained.pageSize.toNat + chainOff.toNat

def slotCtxAt (ctx : WalkCtx) (loc : SegmentLoc) (segOff : Nat) : SlotCtx where
  imageBase := ctx.imageBase
  segIndex := loc.chained.segIndex
  segmentOffset := BitVec.ofNat 64 segOff
  vmAddress := saturatingAdd loc.vmaddr (BitVec.ofNat 64 segOff)
  imports := ctx.imports
  dylibNames := ctx.dylibNames

def entryAt (ctx : WalkCtx) (loc : SegmentLoc) (segOff : Nat) : Option Entry := do
  let slot ← slotAt ctx.data loc segOff
  let (entry, _) ← decodeChainEntry slot loc.chained.pointerFormat (slotCtxAt ctx loc segOff)
  some entry

section

variable {ctx : WalkCtx} {loc : SegmentLoc} {pageIdx : Nat} {chainOff slot : U64}

theorem pageSize_toNat (loc : SegmentLoc) :
    (loc.chained.pageSize.setWidth 64).toNat = loc.chained.pageSize.toNat := by
  have bound := loc.chained.pageSize.isLt
  rw [BitVec.toNat_setWidth, Nat.mod_eq_of_lt (by omega)]

theorem chainTurn_none (nothing : slotAt ctx.data loc (turnOffset loc pageIdx chainOff) = none) :
    chainTurn ctx loc pageIdx chainOff = none := by
  unfold chainTurn
  cases product : checkedMul (BitVec.ofNat 64 pageIdx) (loc.chained.pageSize.setWidth 64) with
  | none => rfl
  | some pageOff =>
    cases sum : checkedAdd pageOff chainOff with
    | none => simp [sum]
    | some pageByteOff =>
      have offset : pageByteOff.toNat = turnOffset loc pageIdx chainOff := by
        rw [(checkedAdd_some sum).2, (checkedMul_some product).2, pageSize_toNat, turnOffset]
      by_cases past : loc.filesize ≤ pageByteOff
      · simp [sum, past]
      · cases absOff : checkedAdd loc.fileoff pageByteOff with
        | none => simp [sum, past, absOff]
        | some place =>
          have inside : turnOffset loc pageIdx chainOff < loc.filesize.toNat := by
            rw [BitVec.le_def] at past
            omega
          have unread : readU64LeAt ctx.data place.toNat = none := by
            rwa [slotAt, if_pos inside, ← offset, ← (checkedAdd_some absOff).2] at nothing
          simp [sum, past, absOff, unread]

theorem chainTurn_some (supported : loc.chained.pointerFormat.isSupported = true)
    (found : slotAt ctx.data loc (turnOffset loc pageIdx chainOff) = some slot) :
    ∃ entry, chainTurn ctx loc pageIdx chainOff = some (entry, chainNext loc chainOff slot) ∧
      entry.mark = slotMark loc (turnOffset loc pageIdx chainOff) slot ∧
      entryAt ctx loc (turnOffset loc pageIdx chainOff) = some entry := by
  have size := pageSize_toNat loc
  have slot? := found
  unfold slotAt at found
  split at found
  case isFalse => cases found
  rename_i inside
  have filesize := loc.filesize.isLt
  rcases readAt_some found with ⟨near, -⟩
  have length := ctx.data.length_lt
  unfold turnOffset at slot? found inside near ⊢
  obtain ⟨pageOff, product, page?⟩ : ∃ pageOff, checkedMul (BitVec.ofNat 64 pageIdx) (loc.chained.pageSize.setWidth 64) =
    some pageOff ∧
      pageOff.toNat = (BitVec.ofNat 64 pageIdx).toNat * loc.chained.pageSize.toNat := by
    have fits : (BitVec.ofNat 64 pageIdx).toNat * (loc.chained.pageSize.setWidth 64).toNat < 2^64 := by
      rw [size]
      omega
    exact ⟨_, checkedMul_of_lt fits, by rw [toNat_mul_of_lt fits, size]⟩
  rw [← page?] at slot? found inside near ⊢
  have sum : checkedAdd pageOff chainOff = some (pageOff + chainOff) := checkedAdd_of_lt (by omega)
  have total : (pageOff + chainOff).toNat = pageOff.toNat + chainOff.toNat := toNat_add_of_lt (by omega)
  have position : BitVec.ofNat 64 (pageOff.toNat + chainOff.toNat) = pageOff + chainOff := by
    rw [← total, BitVec.ofNat_toNat, BitVec.setWidth_eq]
  have before : ¬ loc.filesize ≤ pageOff + chainOff := by
    rw [BitVec.le_def, total]
    omega
  have absOff : checkedAdd loc.fileoff (pageOff + chainOff) = some (loc.fileoff + (pageOff + chainOff)) :=
    checkedAdd_of_lt (by omega)
  have place : (loc.fileoff + (pageOff + chainOff)).toNat = loc.fileoff.toNat + (pageOff.toNat + chainOff.toNat) := by
    rw [toNat_add_of_lt (by omega), total]
  obtain ⟨entry, next, decoded, field, mark⟩ := decodeChainEntry_some supported slot {
    imageBase := ctx.imageBase
    segIndex := loc.chained.segIndex
    segmentOffset := pageOff + chainOff
    vmAddress := saturatingAdd loc.vmaddr (pageOff + chainOff)
    imports := ctx.imports
    dylibNames := ctx.dylibNames
  }
  have word : BitVec.ofNat 64 (nextField loc.chained.pointerFormat slot) = next := by
    rw [← field, BitVec.ofNat_toNat, BitVec.setWidth_eq]
  refine ⟨entry, ?_, ?_, ?_⟩
  · simp only [chainTurn, product, sum, if_neg before, absOff, place, found, decoded, Option.bind_eq_bind, Option.bind_some]
    rw [chainNext, word, ← field]
    by_cases last : next = 0
    · simp [last]
    · have nonzero : next.toNat ≠ 0 := fun zero => last (BitVec.eq_of_toNat_eq zero)
      simp only [if_neg last, if_neg nonzero]
      cases strideBytes loc.chained.pointerFormat <;> rfl
  · rw [mark, slotMark, position]
  · rw [entryAt, slot?, Option.bind_eq_bind, Option.bind_some, slotCtxAt, position, decoded]
    rfl

theorem supported_of_turn {turn : Entry × Option U64} (taken : chainTurn ctx loc pageIdx chainOff = some turn) :
    loc.chained.pointerFormat.isSupported = true := by
  cases format : loc.chained.pointerFormat with
  | other raw =>
    simp [chainTurn, format, decodeChainEntry] at taken
  | _ => rfl

theorem chainTurn_found {turn : Entry × Option U64} (taken : chainTurn ctx loc pageIdx chainOff = some turn) :
    ∃ slot, slotAt ctx.data loc (turnOffset loc pageIdx chainOff) = some slot ∧
      turn.2 = chainNext loc chainOff slot ∧ turn.1.mark = slotMark loc (turnOffset loc pageIdx chainOff) slot ∧
      entryAt ctx loc (turnOffset loc pageIdx chainOff) = some turn.1 := by
  cases found : slotAt ctx.data loc (turnOffset loc pageIdx chainOff) with
  | none =>
    rw [chainTurn_none found] at taken
    cases taken
  | some slot =>
    rcases chainTurn_some (supported_of_turn taken) found with ⟨entry, same, mark, row⟩
    rw [same] at taken
    cases taken
    exact ⟨slot, rfl, rfl, mark, row⟩

theorem chainTurn_decoded {turn : Entry × Option U64} (taken : chainTurn ctx loc pageIdx chainOff = some turn) :
    ∃ slot slotCtx next, decodeChainEntry slot loc.chained.pointerFormat slotCtx = some (turn.1, next) ∧
      slotCtx.imports = ctx.imports ∧ slotCtx.dylibNames = ctx.dylibNames := by
  rcases chainTurn_found taken with ⟨slot, -, -, -, row⟩
  rcases Option.bind_eq_some_iff.mp row with ⟨slot, -, row⟩
  rcases Option.bind_eq_some_iff.mp row with ⟨⟨entry, next⟩, decoded, same⟩
  cases same
  exact ⟨slot, _, next, decoded, rfl, rfl⟩

theorem slotAt_inside {data : Slice} {segOff : Nat} (found : slotAt data loc segOff = some slot) :
    segOff < loc.filesize.toNat ∧ readU64LeAt data (loc.fileoff.toNat + segOff) = some slot := by
  unfold slotAt at found
  split at found
  · exact ⟨‹_›, found⟩
  · cases found

def gapOf (loc : SegmentLoc) (slot : U64) : Nat := nextField loc.chained.pointerFormat slot * strideOf loc

theorem nextField_lt (format : PointerFormat) (slot : U64) : nextField format slot < 2^12 := by
  unfold nextField
  split <;> omega

theorem chainNext_toNat {next : U64} (advance : chainNext loc chainOff slot = some next) :
    next.toNat = min (chainOff.toNat + gapOf loc slot) (2^64 - 1) ∧ 4 ≤ gapOf loc slot := by
  have small := nextField_lt loc.chained.pointerFormat slot
  unfold chainNext at advance
  split at advance
  · cases advance
  rename_i nonzero
  have word : (BitVec.ofNat 64 (nextField loc.chained.pointerFormat slot)).toNat =
      nextField loc.chained.pointerFormat slot := by
    rw [toNat_ofNat_of_lt (by omega)]
  unfold gapOf strideOf
  rcases Option.map_eq_some_iff.mp advance with ⟨stride, known, same⟩
  have low : stride = 8 ∨ stride = 4 := by
    revert known
    cases loc.chained.pointerFormat <;> simp [strideBytes] <;> intro same <;> simp [← same]
  rw [← same, saturatingAdd_toNat, saturatingMul_toNat, word, known, Option.getD_some]
  rcases low with rfl | rfl
  · have eight : (8 : U64).toNat = 8 := rfl
    rw [eight]
    omega
  · have four : (4 : U64).toNat = 4 := rfl
    rw [four]
    omega

theorem strideOf_pos (supported : loc.chained.pointerFormat.isSupported = true) : 0 < strideOf loc := by
  unfold strideOf
  revert supported
  cases loc.chained.pointerFormat <;> simp [strideBytes, PointerFormat.isSupported]

theorem chainNext_some (supported : loc.chained.pointerFormat.isSupported = true)
    (more : nextField loc.chained.pointerFormat slot ≠ 0) : ∃ next, chainNext loc chainOff slot = some next := by
  rw [chainNext, if_neg more]
  revert supported
  cases loc.chained.pointerFormat <;> simp [strideBytes, PointerFormat.isSupported]

/-- A chain moves up: every turn that pushed a row and goes on goes on at a larger offset. -/
theorem chainTurn_advances {entry : Entry} {next : U64}
    (taken : chainTurn ctx loc pageIdx chainOff = some (entry, some next)) : chainOff.toNat < next.toNat := by
  rcases chainTurn_found taken with ⟨slot, found, advance, -⟩
  rcases slotAt_inside found with ⟨inside, -⟩
  rcases chainNext_toNat advance.symm with ⟨value, gap⟩
  have filesize := loc.filesize.isLt
  unfold turnOffset at inside
  omega

end

def walkChain (ctx : WalkCtx) (loc : SegmentLoc) (pageIdx : Nat) (chainOff : U64) : List Entry :=
  match _turn : chainTurn ctx loc pageIdx chainOff with
  | none => []
  | some (entry, none) => [entry]
  | some (entry, some next) => entry :: walkChain ctx loc pageIdx next
termination_by 2^64 - chainOff.toNat
decreasing_by
  have advances := chainTurn_advances _turn
  omega

theorem walkChain_none {ctx : WalkCtx} {loc : SegmentLoc} {pageIdx : Nat} {chainOff : U64}
    (turn : chainTurn ctx loc pageIdx chainOff = none) : walkChain ctx loc pageIdx chainOff = [] := by
  rw [walkChain]
  split <;> simp_all

theorem walkChain_last {ctx : WalkCtx} {loc : SegmentLoc} {pageIdx : Nat} {chainOff : U64} {entry : Entry}
    (turn : chainTurn ctx loc pageIdx chainOff = some (entry, none)) :
    walkChain ctx loc pageIdx chainOff = [entry] := by
  rw [walkChain]
  split <;> simp_all

theorem walkChain_next {ctx : WalkCtx} {loc : SegmentLoc} {pageIdx : Nat} {chainOff next : U64} {entry : Entry}
    (turn : chainTurn ctx loc pageIdx chainOff = some (entry, some next)) :
    walkChain ctx loc pageIdx chainOff = entry :: walkChain ctx loc pageIdx next := by
  rw [walkChain]
  split <;> simp_all

theorem mem_walkChain {ctx : WalkCtx} {loc : SegmentLoc} {pageIdx : Nat} {chainOff : U64} {entry : Entry}
    (member : entry ∈ walkChain ctx loc pageIdx chainOff) :
    ∃ off turn, chainTurn ctx loc pageIdx off = some turn ∧ turn.1 = entry := by
  induction chainOff using walkChain.induct ctx loc pageIdx with
  | case1 chainOff turn =>
    rw [walkChain_none turn] at member
    cases member
  | case2 chainOff last turn =>
    rw [walkChain_last turn] at member
    exact ⟨chainOff, _, turn, (List.mem_singleton.mp member).symm⟩
  | case3 chainOff first next turn ih =>
    rw [walkChain_next turn] at member
    rcases List.mem_cons.mp member with same | member
    · exact ⟨chainOff, _, turn, same.symm⟩
    · exact ih member

/-- One turn over `page_start[]`: an unreadable entry leaves the segment, an empty page and a
    multi-start page are passed by. -/
def pageRow (ctx : WalkCtx) (loc : SegmentLoc) (pageIdx : Nat) : Row (List Entry) :=
  let pageStartsOff := saturatingAddUsize loc.chained.startsOffset sizeofStartsInSegmentHeader
  match (checkedMulUsize pageIdx 2).bind (checkedAddUsize pageStartsOff) with
  | none => .stop
  | some entryOff =>
    match readU16LeAt ctx.data entryOff with
    | none => .stop
    | some rawStart =>
      if rawStart = ptrStartNone then .skip
      else if rawStart &&& ptrStartMulti ≠ 0 then .skip
      else .yield (walkChain ctx loc pageIdx (rawStart.setWidth 64))

def segmentEntries (ctx : WalkCtx) (loc : SegmentLoc) : List Entry :=
  if loc.chained.pointerFormat.isSupported then (rows (pageRow ctx loc) loc.chained.pageCount.toNat).flatten
  else []

theorem pageRow_walk {ctx : WalkCtx} {loc : SegmentLoc} {page : Nat} {entries : List Entry}
    (row : pageRow ctx loc page = .yield entries) : ∃ start, entries = walkChain ctx loc page start := by
  unfold pageRow at row
  dsimp only at row
  split at row
  · cases row
  split at row
  · cases row
  split at row
  · cases row
  split at row
  · cases row
  cases row
  exact ⟨_, rfl⟩

theorem mem_segmentEntries {ctx : WalkCtx} {loc : SegmentLoc} {entry : Entry}
    (member : entry ∈ segmentEntries ctx loc) :
    ∃ page off turn, chainTurn ctx loc page off = some turn ∧ turn.1 = entry := by
  unfold segmentEntries at member
  split at member
  case isFalse => cases member
  rcases List.mem_flatten.mp member with ⟨entries, found, inside⟩
  rcases mem_rows found with ⟨page, -, row⟩
  rcases pageRow_walk row with ⟨start, rfl⟩
  rcases mem_walkChain inside with ⟨off, turn, taken, same⟩
  exact ⟨page, off, turn, taken, same⟩

def decodeSegmentChains (data : Slice) (loc : SegmentLoc) (imageBase : U64) (rebasesOut : List Rebase)
    (bindsOut : List Bind) (imports : List ChainedImport) (dylibNames : List Str) : List Rebase × List Bind :=
  let entries := segmentEntries ⟨data, imageBase, imports, dylibNames⟩ loc
  (rebasesOut ++ entries.filterMap Entry.rebase?, bindsOut ++ entries.filterMap Entry.bind?)

def buildRebaseIter (data : Slice) (locs : List SegmentLoc) (imageBase : U64) : List Rebase :=
  locs.foldl (fun out loc => (decodeSegmentChains data loc imageBase out [] [] []).1) []

def buildBindIter (data : Slice) (locs : List SegmentLoc) (imageBase : U64) (imports : List ChainedImport)
    (dylibNames : List Str) : List Bind :=
  (locs.foldl (fun out loc => decodeSegmentChains data loc imageBase out.1 out.2 imports dylibNames) ([], [])).2

end DarwinScope.Fixup
