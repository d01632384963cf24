import DarwinScope.Fixup.Partition

namespace DarwinScope.Fixup

open Machine

/-- The offsets that the chain of a page leads to: where it starts, and from each slot that lies in the
    segment and is not the last one, as far on as its next field says. -/
inductive ChainTo (data : Slice) (loc : SegmentLoc) (page : Nat) : Nat → Prop where
  | start {word : U16} : pageStartAt data loc page = some word → word ≠ ptrStartNone → word &&& ptrStartMulti = 0 →
      ChainTo data loc page word.toNat
  | next {off : Nat} : ChainTo data loc page off → segOffset loc page off + 8 ≤ loc.filesize.toNat →
      loc.fileoff.toNat + segOffset loc page off + 8 ≤ data.length →
      nextField loc.chained.pointerFormat (storedWord data loc (segOffset loc page off)) ≠ 0 →
      ChainTo data loc page (off + gapOf loc (storedWord data loc (segOffset loc page off)))

/-- A slot that starts in the segment and ends behind it, in a file that goes on there. -/
def Overhangs (data : Slice) (loc : SegmentLoc) (segOff : Nat) : Prop :=
  segOff < loc.filesize.toNat ∧ loc.filesize.toNat < segOff + 8 ∧ loc.fileoff.toNat + segOff + 8 ≤ data.length

def Overhang (data : Slice) (loc : SegmentLoc) : Prop :=
  loc.chained.pointerFormat.isSupported = true ∧
    ∃ page < loc.chained.pageCount.toNat, ∃ off, ChainTo data loc page off ∧ Overhangs data loc (segOffset loc page off)

structure Site.InSegment (data : Slice) (loc : SegmentLoc) (site : Site) : Prop where
  inside : site.segmentOffset.toNat + 8 ≤ loc.filesize.toNat
  stored : loc.fileoff.toNat + site.segmentOffset.toNat + 8 ≤ data.length
  word : site.rawSlot = storedWord data loc site.segmentOffset.toNat

section

variable {ctx : WalkCtx} {loc : SegmentLoc} {page off : Nat} {entry : Entry}

theorem site_stored (member : entry ∈ segmentEntries ctx loc) :
    loc.fileoff.toNat + entry.offset.toNat + 8 ≤ ctx.data.length ∧
      entry.site.rawSlot = storedWord ctx.data loc entry.offset.toNat := by
  rcases slotAt_inside (segmentEntries_slot member).1 with ⟨-, read⟩
  exact readAt_some read

theorem ChainTo.reaches (chain : ChainTo ctx.data loc page off) : Reaches ctx.data loc page off := by
  induction chain with
  | start read nonempty single => exact Reaches.start read nonempty single
  | next _ inside stored more ih => exact Reaches.next ih (slotAt_stored inside stored) more

/-- Without an overhanging slot in the chain of a page, the walk stays on the chain. -/
theorem Reaches.chainTo (clear : ∀ off, ChainTo ctx.data loc page off → ¬ Overhangs ctx.data loc (segOffset loc page off))
    (reached : Reaches ctx.data loc page off) : ChainTo ctx.data loc page off := by
  induction reached with
  | start read nonempty single => exact ChainTo.start read nonempty single
  | @next off slot _ found more chain =>
    have whole := clear off chain
    rcases slotAt_inside found with ⟨before, read⟩
    rcases readAt_some read with ⟨stored, word⟩
    unfold Overhangs at whole
    have same : slot = storedWord ctx.data loc (segOffset loc page off) := word
    rw [same] at more ⊢
    exact ChainTo.next chain (by omega) stored more

theorem segmentEntries_inside_iff (ctx : WalkCtx) (loc : SegmentLoc) :
    (∀ entry ∈ segmentEntries ctx loc, entry.offset.toNat + 8 ≤ loc.filesize.toNat) ↔ ¬ Overhang ctx.data loc := by
  constructor
  · intro inside
    rintro ⟨supported, page, listed, off, chain, before, past, stored⟩
    have found : slotAt ctx.data loc (segOffset loc page off) =
        some (storedWord ctx.data loc (segOffset loc page off)) := by
      rw [slotAt, if_pos before]
      exact readAt_of_le stored
    rcases mem_segmentEntries_of_reaches supported listed chain.reaches found with ⟨entry, member, place⟩
    have row := inside entry member
    omega
  · intro clear entry member
    rcases segmentEntries_reaches member with ⟨supported, page, listed, off, reached, place, found⟩
    have whole (off : Nat) (chain : ChainTo ctx.data loc page off) : ¬ Overhangs ctx.data loc (segOffset loc page off) :=
      fun overhangs => clear ⟨supported, page, listed, off, chain, overhangs⟩
    have last := whole off (reached.chainTo whole)
    rcases slotAt_inside found with ⟨before, read⟩
    rcases readAt_some read with ⟨stored, -⟩
    unfold Overhangs at last
    omega

end

theorem mem_rebases {entries : List Entry} {r : Rebase} : r ∈ entries.filterMap Entry.rebase? ↔ .rebase r ∈ entries := by
  rw [List.mem_filterMap]
  constructor
  · rintro ⟨entry, member, same⟩
    cases entry <;> cases same
    exact member
  · intro member
    exact ⟨_, member, rfl⟩

theorem mem_binds {entries : List Entry} {b : Bind} : b ∈ entries.filterMap Entry.bind? ↔ .bind b ∈ entries := by
  rw [List.mem_filterMap]
  constructor
  · rintro ⟨entry, member, same⟩
    cases entry <;> cases same
    exact member
  · intro member
    exact ⟨_, member, rfl⟩

/-- The rows that a segment adds all lie in it exactly when no chain of the segment leads to a slot that
    starts in the segment and ends behind it. -/
theorem segment_bounds_iff (data : Slice) (loc : SegmentLoc) (imageBase : U64) (rebasesOut : List Rebase)
    (bindsOut : List Bind) (imports : List ChainedImport) (dylibNames : List Str) :
    ∃ rebases binds, decodeSegmentChains data loc imageBase rebasesOut bindsOut imports dylibNames =
        (rebasesOut ++ rebases, bindsOut ++ binds) ∧
      (((∀ r ∈ rebases, r.site.InSegment data loc) ∧ ∀ b ∈ binds, b.site.InSegment data loc) ↔ ¬ Overhang data loc) := by
  refine ⟨_, _, rfl, ?_⟩
  rw [← segmentEntries_inside_iff ⟨data, imageBase, imports, dylibNames⟩ loc]
  constructor
  · intro given entry member
    cases entry with
    | rebase r => exact (given.1 r (mem_rebases.mpr member)).inside
    | bind b => exact (given.2 b (mem_binds.mpr member)).inside
  · intro inside
    constructor
    · intro r listed
      have member := mem_rebases.mp listed
      rcases site_stored member with ⟨stored, word⟩
      exact ⟨inside _ member, stored, word⟩
    · intro b listed
      have member := mem_binds.mp listed
      rcases site_stored member with ⟨stored, word⟩
      exact ⟨inside _ member, stored, word⟩

def shortData : Slice := ⟨0, List.replicate 32 0, by decide⟩

/-- A segment of four bytes in a file that goes on behind it. -/
def shortSegment : SegmentLoc where
  chained := ⟨1, 24, 0x1000, .ptr64, 2, 0, 0, 1, 0⟩
  vmaddr := 0x1000
  fileoff := 24
  filesize := 4

theorem slot_leaves_segment :
    ¬ ∀ (data : Slice) (loc : SegmentLoc) (imageBase : U64) (imports : List ChainedImport) (dylibNames : List Str),
      (∀ r ∈ (decodeSegmentChains data loc imageBase [] [] imports dylibNames).1, r.site.InSegment data loc) ∧
        ∀ b ∈ (decodeSegmentChains data loc imageBase [] [] imports dylibNames).2, b.site.InSegment data loc := by
  intro given
  have rows : (decodeSegmentChains shortData shortSegment 0 [] [] [] []).1.map (fun r => r.site.segmentOffset) = [0] := by
    decide +kernel
  have listed : (0 : U64) ∈
      (decodeSegmentChains shortData shortSegment 0 [] [] [] []).1.map fun r => r.site.segmentOffset := by
    rw [rows]
    exact List.mem_cons_self
  rcases List.mem_map.mp listed with ⟨r, member, place⟩
  have inside := ((given shortData shortSegment 0 [] []).1 r member).inside
  rw [place] at inside
  exact absurd inside (by decide)

end DarwinScope.Fixup
