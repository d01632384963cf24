import Mathlib.Data.List.Pairwise
import DarwinScope.Fixup.Partition
import DarwinScope.Objc.Runtime
import DarwinScope.Swift.Runtime
import DarwinScope.Util

namespace DarwinScope

open Machine

open Fixup

namespace MachoBinary

/-- Segments that share no address, whose file bytes are mapped and whose ends are addresses. -/
structure Mapped (bin : MachoBinary) : Prop where
  apart : DisjointSpans bin.segmentRanges
  backed : ∀ seg ∈ bin.segments, seg.filesize.toNat ≤ seg.vmsize.toNat
  whole : ∀ seg ∈ bin.segmentRanges, seg.Whole

section

variable {bin : MachoBinary} {loc loc' : SegmentLoc} {ctx ctx' : WalkCtx} {entry entry' : Entry}

theorem mem_chainedLocs (listed : loc ∈ bin.chainedLocs) :
    ∃ seg, bin.segments[loc.chained.segIndex.toNat]? = some seg ∧ loc.vmaddr = seg.vmaddr ∧
      loc.fileoff = seg.fileoff ∧ loc.filesize = seg.filesize := by
  unfold chainedLocs at listed
  cases parsed : bin.chainedFixups with
  | none =>
    rw [parsed] at listed
    cases listed
  | some cf =>
    rw [parsed] at listed
    rcases List.mem_filterMap.mp listed with ⟨chained, -, joined⟩
    rcases Option.map_eq_some_iff.mp joined with ⟨seg, found, rfl⟩
    exact ⟨seg, found, rfl, rfl, rfl⟩

theorem entry_address (mapped : bin.Mapped) (listed : loc ∈ bin.chainedLocs) (member : entry ∈ segmentEntries ctx loc) :
    entry.site.vmAddress.toNat = loc.vmaddr.toNat + entry.offset.toNat ∧ entry.offset.toNat < loc.filesize.toNat := by
  rcases mem_chainedLocs listed with ⟨seg, found, vmaddr, -, filesize⟩
  have backed := mapped.backed seg (List.mem_of_getElem? found)
  have whole : seg.vmaddr.toNat + seg.vmsize.toNat < 2^64 :=
    mapped.whole seg.range (List.mem_map_of_mem (List.mem_of_getElem? found))
  rcases mem_segmentEntries member with ⟨page, off, turn, taken, rfl⟩
  rcases turn_offset taken with ⟨place, inside⟩
  rcases chainTurn_found taken with ⟨slot, -, -, mark, -⟩
  have address : turn.1.site.vmAddress = saturatingAdd loc.vmaddr turn.1.offset :=
    (congrArg (fun mark => mark.1.vmAddress) mark).trans
      (congrArg (fun mark => saturatingAdd loc.vmaddr mark.1.segmentOffset) mark).symm
  rw [address, saturatingAdd_toNat, place]
  rw [vmaddr, filesize] at *
  exact ⟨by omega, inside⟩

theorem entry_span (mapped : bin.Mapped) (listed : loc ∈ bin.chainedLocs) (member : entry ∈ segmentEntries ctx loc) :
    ∃ seg, bin.segments[loc.chained.segIndex.toNat]? = some seg ∧ entry.site.vmAddress.toNat ∈ seg.range.span := by
  rcases mem_chainedLocs listed with ⟨seg, found, vmaddr, -, filesize⟩
  rcases entry_address mapped listed member with ⟨address, inside⟩
  have backed := mapped.backed seg (List.mem_of_getElem? found)
  rw [vmaddr] at address
  rw [filesize] at inside
  refine ⟨seg, found, ?_, ?_⟩
  · show seg.vmaddr.toNat ≤ entry.site.vmAddress.toNat
    omega
  · show entry.site.vmAddress.toNat < seg.vmaddr.toNat + seg.vmsize.toNat
    omega

/-- Rows at one address are rows of one segment, at one offset of it. -/
theorem entry_unique (mapped : bin.Mapped) (listed : loc ∈ bin.chainedLocs) (listed' : loc' ∈ bin.chainedLocs)
    (member : entry ∈ segmentEntries ctx loc) (member' : entry' ∈ segmentEntries ctx' loc')
    (same : entry.site.vmAddress = entry'.site.vmAddress) : loc = loc' ∧ entry.offset = entry'.offset := by
  rcases entry_span mapped listed member with ⟨seg, found, inside⟩
  rcases entry_span mapped listed' member' with ⟨seg', found', inside'⟩
  rw [← same] at inside'
  have index : loc.chained.segIndex = loc'.chained.segIndex := by
    apply BitVec.eq_of_toNat_eq
    by_contra different
    have spans := List.pairwise_map.mp mapped.apart
    rcases List.getElem?_eq_some_iff.mp found with ⟨below, rfl⟩
    rcases List.getElem?_eq_some_iff.mp found' with ⟨below', rfl⟩
    rcases Nat.lt_or_gt_of_ne different with before | behind
    · exact Set.disjoint_left.mp (List.pairwise_iff_getElem.mp spans _ _ below below' before) inside inside'
    · exact Set.disjoint_left.mp (List.pairwise_iff_getElem.mp spans _ _ below' below behind) inside' inside
  have one : loc = loc' := by
    by_contra different
    have symmetric : Std.Symm fun loc later : SegmentLoc => loc.chained.segIndex ≠ later.chained.segIndex :=
      ⟨fun _ _ => Ne.symm⟩
    exact (chainedLocs_distinct bin).forall listed listed' different index
  subst one
  have address := (entry_address mapped listed member).1
  have address' := (entry_address mapped listed member').1
  rw [same] at address
  exact ⟨rfl, BitVec.eq_of_toNat_eq (by omega)⟩

theorem entry_determined (mapped : bin.Mapped) (first : entry ∈ bin.chainedLocs.flatMap (segmentEntries ctx))
    (second : entry' ∈ bin.chainedLocs.flatMap (segmentEntries ctx))
    (same : entry.site.vmAddress = entry'.site.vmAddress) : entry = entry' := by
  rcases List.mem_flatMap.mp first with ⟨loc, listed, member⟩
  rcases List.mem_flatMap.mp second with ⟨loc', listed', member'⟩
  rcases entry_unique mapped listed listed' member member' same with ⟨rfl, offset⟩
  have row := segmentEntries_entryAt member
  rw [offset, segmentEntries_entryAt member', Option.some.injEq] at row
  exact row.symm

theorem entry_kind (mapped : bin.Mapped) (data : ctx.data = ctx'.data)
    (first : entry ∈ bin.chainedLocs.flatMap (segmentEntries ctx))
    (second : entry' ∈ bin.chainedLocs.flatMap (segmentEntries ctx'))
    (same : entry.site.vmAddress = entry'.site.vmAddress) : entry.isBind = entry'.isBind := by
  rcases List.mem_flatMap.mp first with ⟨loc, listed, member⟩
  rcases List.mem_flatMap.mp second with ⟨loc', listed', member'⟩
  rcases entry_unique mapped listed listed' member member' same with ⟨rfl, offset⟩
  rcases segmentEntries_slot member with ⟨slot, mark⟩
  rcases segmentEntries_slot member' with ⟨slot', mark'⟩
  have offset : entry.site.segmentOffset = entry'.site.segmentOffset := offset
  rw [data, offset, slot', Option.some.injEq] at slot
  have visit : entry.visit loc = entry'.visit loc := by rw [Entry.visit, Entry.visit, offset, slot]
  rw [visit, mark'] at mark
  exact (congrArg Prod.snd mark).symm

theorem mem_chainedRebases {r : Rebase} (member : r ∈ bin.chainedRebases) :
    Entry.rebase r ∈ bin.chainedLocs.flatMap (segmentEntries ⟨bin.data, bin.imageBase, [], []⟩) := by
  rw [chainedRebases_eq] at member
  rcases List.mem_filterMap.mp member with ⟨entry, listed, same⟩
  cases entry with
  | rebase r' =>
    cases same
    exact listed
  | bind b => cases same

theorem mem_chainedBinds (bin : MachoBinary) :
    ∃ ctx : WalkCtx, ctx.data = bin.data ∧
      ∀ b ∈ bin.chainedBinds, Entry.bind b ∈ bin.chainedLocs.flatMap (segmentEntries ctx) := by
  rcases chainedBinds_eq bin with ⟨imports, binds⟩
  refine ⟨⟨bin.data, bin.imageBase, imports, bin.dylibNames⟩, rfl, ?_⟩
  intro b member
  rw [binds] at member
  rcases List.mem_filterMap.mp member with ⟨entry, listed, same⟩
  cases entry with
  | rebase r => cases same
  | bind b' =>
    cases same
    exact listed

theorem chainedRebases_unique (mapped : bin.Mapped) {r r' : Rebase} (first : r ∈ bin.chainedRebases)
    (second : r' ∈ bin.chainedRebases) (same : r.vmAddress = r'.vmAddress) : r = r' :=
  Entry.rebase.inj (entry_determined mapped (mem_chainedRebases first) (mem_chainedRebases second) same)

theorem chainedBinds_unique (mapped : bin.Mapped) {b b' : Bind} (first : b ∈ bin.chainedBinds)
    (second : b' ∈ bin.chainedBinds) (same : b.vmAddress = b'.vmAddress) : b = b' := by
  rcases mem_chainedBinds bin with ⟨ctx, -, walked⟩
  exact Entry.bind.inj (entry_determined mapped (walked b first) (walked b' second) same)

theorem rebase_ne_bind (mapped : bin.Mapped) {r : Rebase} {b : Bind} (rebase : r ∈ bin.chainedRebases)
    (bind : b ∈ bin.chainedBinds) : r.vmAddress ≠ b.vmAddress := by
  rcases mem_chainedBinds bin with ⟨ctx, data, walked⟩
  intro same
  have kind := entry_kind mapped data.symm (mem_chainedRebases rebase) (walked b bind) same
  cases kind

end

structure KeyedByAddress (entry : Import → Option (U64 × Str × Str)) : Prop where
  key : ∀ imp row, entry imp = some row → row.1 = imp.address

theorem objc_keyed (data : Slice) : KeyedByAddress (Objc.bindEntry data) where
  key imp row found := by
    rcases Option.bind_eq_some_iff.mp found with ⟨_, -, found⟩
    rcases Option.bind_eq_some_iff.mp found with ⟨_, -, found⟩
    cases found
    rfl

theorem swift_keyed (data : Slice) : KeyedByAddress (Swift.bindEntry data) where
  key imp row found := by
    rcases Option.bind_eq_some_iff.mp found with ⟨_, -, found⟩
    rcases Option.bind_eq_some_iff.mp found with ⟨_, -, found⟩
    cases found
    rfl

def rebaseRows (rebases : List Rebase) : List (U64 × U64) := rebases.map fun r => (r.vmAddress, r.targetVmaddr)

def bindRows (bin : MachoBinary) (entry : Slice → Import → Option (U64 × Str × Str)) (binds : List Bind) :
    List (U64 × Str × Str) := (binds.map bin.chainedImport).filterMap (entry bin.data)

section

variable {bin : MachoBinary} {entry : Slice → Import → Option (U64 × Str × Str)}

theorem mem_bindRows {binds : List Bind} {row : U64 × Str × Str} (member : row ∈ bin.bindRows entry binds) :
    ∃ b ∈ binds, entry bin.data (bin.chainedImport b) = some row := by
  rcases List.mem_filterMap.mp member with ⟨imp, listed, found⟩
  rcases List.mem_map.mp listed with ⟨b, inside, rfl⟩
  exact ⟨b, inside, found⟩

theorem rebaseRows_agree (mapped : bin.Mapped) : Map.Agrees (rebaseRows bin.chainedRebases) := by
  intro row member other listed same
  rcases List.mem_map.mp member with ⟨r, inside, rfl⟩
  rcases List.mem_map.mp listed with ⟨r', inside', rfl⟩
  exact congrArg Rebase.targetVmaddr (chainedRebases_unique mapped inside inside' same)

theorem bindRows_agree (mapped : bin.Mapped) (keyed : KeyedByAddress (entry bin.data)) :
    Map.Agrees (bin.bindRows entry bin.chainedBinds) := by
  intro row member other listed same
  rcases mem_bindRows member with ⟨b, inside, found⟩
  rcases mem_bindRows listed with ⟨b', inside', found'⟩
  rw [keyed.key _ _ found, keyed.key _ _ found'] at same
  have one := chainedBinds_unique mapped inside inside' same
  subst one
  rw [found, Option.some.injEq] at found'
  rw [found']

theorem bindsByVa_parts (bin : MachoBinary) (entry : Slice → Import → Option (U64 × Str × Str)) (va : U64) :
    Map.ofRows (bin.imports.filterMap (entry bin.data)) va =
      (Map.ofRows (bin.bindRows entry bin.chainedBinds) va).or
        (Map.ofRows ((bin.legacyImports.getD []).filterMap (entry bin.data)) va) := by
  rw [imports, List.filterMap_append, Map.ofRows_append]
  rfl

theorem keys_disjoint (mapped : bin.Mapped) (keyed : KeyedByAddress (entry bin.data)) (va : U64) :
    rebasesByVa bin va = none ∨ Map.ofRows (bin.bindRows entry bin.chainedBinds) va = none := by
  cases target : rebasesByVa bin va with
  | none => exact Or.inl rfl
  | some target? =>
    refine Or.inr (Map.ofRows_eq_none.mpr ?_)
    rcases List.mem_map.mp (Map.mem_of_ofRows target) with ⟨r, rebase, same⟩
    intro row member address
    rcases mem_bindRows member with ⟨b, bind, found⟩
    have key := keyed.key _ _ found
    exact rebase_ne_bind mapped rebase bind ((congrArg Prod.fst same).trans (address.symm.trans key))

end

/-- Whichever chains come to a slot, and in whatever order the rows are inserted, an address has one
    rebase target or one bind, never both. -/
theorem fixups_by_va (bin : MachoBinary) (mapped : bin.Mapped) :
    (∀ r ∈ bin.chainedRebases, ∀ r' ∈ bin.chainedRebases, r.vmAddress = r'.vmAddress →
      r.targetVmaddr = r'.targetVmaddr) ∧
    (∀ b ∈ bin.chainedBinds, ∀ b' ∈ bin.chainedBinds, b.vmAddress = b'.vmAddress →
      b.name = b'.name ∧ b.dylib = b'.dylib ∧ b.addend = b'.addend) ∧
    (∀ r ∈ bin.chainedRebases, ∀ b ∈ bin.chainedBinds, r.vmAddress ≠ b.vmAddress) ∧
    (∀ rows, rows.Perm bin.chainedRebases → Map.ofRows (rebaseRows rows) = rebasesByVa bin) ∧
    ∀ entry ∈ [Objc.bindEntry, Swift.bindEntry],
      (∀ va, Map.ofRows (bin.imports.filterMap (entry bin.data)) va =
        (Map.ofRows (bin.bindRows entry bin.chainedBinds) va).or
          (Map.ofRows ((bin.legacyImports.getD []).filterMap (entry bin.data)) va)) ∧
      (∀ rows, rows.Perm bin.chainedBinds →
        Map.ofRows (bin.bindRows entry rows) = Map.ofRows (bin.bindRows entry bin.chainedBinds)) ∧
      ∀ va, rebasesByVa bin va = none ∨ Map.ofRows (bin.bindRows entry bin.chainedBinds) va = none := by
  refine ⟨?_, ?_, ?_, ?_, ?_⟩
  · intro r first r' second same
    rw [chainedRebases_unique mapped first second same]
  · intro b first b' second same
    rw [chainedBinds_unique mapped first second same]
    exact ⟨rfl, rfl, rfl⟩
  · intro r rebase b bind
    exact rebase_ne_bind mapped rebase bind
  · intro rows perm
    exact Map.ofRows_perm (rebaseRows_agree mapped) (perm.map _)
  · intro entry either
    have keyed : KeyedByAddress (entry bin.data) := by
      rcases List.mem_pair.mp either with rfl | rfl
      · exact objc_keyed bin.data
      · exact swift_keyed bin.data
    refine ⟨bindsByVa_parts bin entry, ?_, keys_disjoint mapped keyed⟩
    intro rows perm
    exact Map.ofRows_perm (bindRows_agree mapped keyed) ((perm.map _).filterMap _)

/-- Two pages of size zero, whose chains of a rebase and a bind are one and the same. -/
def samePagesBin : MachoBinary where
  data := ⟨0, leBytes 4 0 ++ leBytes 4 28 ++ leBytes 4 0 ++ leBytes 4 0 ++ leBytes 4 0 ++ leBytes 4 1 ++ leBytes 4 0 ++
    leBytes 4 1 ++ leBytes 4 8 ++
    leBytes 4 26 ++ leBytes 2 0 ++ leBytes 2 6 ++ leBytes 8 0 ++ leBytes 4 0 ++ leBytes 2 2 ++ leBytes 2 0 ++
    leBytes 2 0 ++ leBytes 8 (2 * 2^51 + 16) ++ leBytes 8 (2^63), by decide⟩
  is64 := true
  loadCommands := [.dyldChainedFixups 0 62]
  segments := [⟨0x1000, 0x1000, 62, 16, []⟩]
  legacyImports := some []
  borrowed := by simp

theorem samePages_mapped : samePagesBin.Mapped where
  apart := List.pairwise_singleton _ _
  backed := by decide
  whole := by decide

theorem fixups_by_va_samePages :
    samePagesBin.chainedRebases.length = 2 ∧ samePagesBin.chainedBinds.length = 2 ∧
      (∀ r ∈ samePagesBin.chainedRebases, ∀ r' ∈ samePagesBin.chainedRebases, r.vmAddress = r'.vmAddress →
        r.targetVmaddr = r'.targetVmaddr) ∧
      ∀ r ∈ samePagesBin.chainedRebases, ∀ b ∈ samePagesBin.chainedBinds, r.vmAddress ≠ b.vmAddress := by
  rcases fixups_by_va samePagesBin samePages_mapped with ⟨targets, -, kinds, -⟩
  exact ⟨by decide +kernel, by decide +kernel, targets, kinds⟩

/-- The place that an import row gives for a chained bind is the place the chain walk read its slot from. -/
theorem chainedImport_offset (bin : MachoBinary) (mapped : bin.Mapped)
    (files : ∀ seg ∈ bin.segments, seg.fileoff.toNat + seg.filesize.toNat < 2^64) (i : Nat) (b : Bind)
    (at? : bin.chainedBinds[i]? = some b) :
    ∃ seg row, bin.segments[b.segIndex.toNat]? = some seg ∧
      bin.imports[(bin.legacyImports.getD []).length + i]? = some row ∧ row = bin.chainedImport b ∧
      row.offset.toNat = seg.fileoff.toNat + b.segmentOffset.toNat ∧
      readU64LeAt bin.data row.offset.toNat = some b.rawSlot := by
  rcases mem_chainedBinds bin with ⟨ctx, data, walked⟩
  rcases List.mem_flatMap.mp (walked b (List.mem_of_getElem? at?)) with ⟨loc, listed, member⟩
  rcases mem_chainedLocs listed with ⟨seg, found, vmaddr, fileoff, filesize⟩
  have held := List.mem_of_getElem? found
  have fits := files seg held
  have index : b.segIndex = loc.chained.segIndex := segmentEntries_segIndex member
  rcases entry_address mapped listed member with ⟨address, inside⟩
  have slot := (segmentEntries_slot member).1
  rcases entry_span mapped listed member with ⟨same, found', span⟩
  rw [found, Option.some.injEq] at found'
  subst found'
  have address : b.vmAddress.toNat = loc.vmaddr.toNat + b.segmentOffset.toNat := address
  have inside : b.segmentOffset.toNat < loc.filesize.toNat := inside
  rw [vmaddr] at address
  rw [filesize] at inside
  have value : (seg.fileoff + b.segmentOffset).toNat = seg.fileoff.toNat + b.segmentOffset.toNat :=
    toNat_add_of_lt (by omega)
  have places : seg.range.Places b.vmAddress (seg.fileoff + b.segmentOffset) := by
    have delta : b.vmAddress.toNat - seg.vmaddr.toNat = b.segmentOffset.toNat := by omega
    refine ⟨span, ?_, ?_⟩
    · show b.vmAddress.toNat - seg.vmaddr.toNat < seg.filesize.toNat
      omega
    · show _ = seg.fileoff.toNat + (b.vmAddress.toNat - seg.vmaddr.toNat)
      rw [delta, value]
  have translated : bin.vmToFileOffset b.vmAddress = some (seg.fileoff + b.segmentOffset) :=
    (exact_of_whole mapped.apart mapped.whole _ _).mpr ⟨seg.range, List.mem_map_of_mem held, places⟩
  have offset : (bin.chainedImport b).offset = seg.fileoff + b.segmentOffset := by
    rw [chainedImport, translated, Option.getD_some]
  refine ⟨seg, bin.chainedImport b, by rw [index, found], ?_, rfl, by rw [offset, value], ?_⟩
  · rw [imports, List.getElem?_append_right (Nat.le_add_right _ _), Nat.add_sub_cancel_left, List.getElem?_map, at?]
    rfl
  · have read := (slotAt_inside slot).2
    rw [offset, value, ← fileoff, ← data]
    exact read

theorem chainedImport_offset_samePages :
    ∃ seg row b, samePagesBin.chainedBinds[1]? = some b ∧ samePagesBin.segments[b.segIndex.toNat]? = some seg ∧
      samePagesBin.imports[1]? = some row ∧ row.offset.toNat = seg.fileoff.toNat + b.segmentOffset.toNat ∧
      readU64LeAt samePagesBin.data row.offset.toNat = some b.rawSlot := by
  have second : samePagesBin.chainedBinds[1]? = some (samePagesBin.chainedBinds.get ⟨1, by decide +kernel⟩) :=
    List.getElem?_eq_getElem _
  have files : ∀ seg ∈ samePagesBin.segments, seg.fileoff.toNat + seg.filesize.toNat < 2^64 := by decide
  rcases chainedImport_offset samePagesBin samePages_mapped files 1 _ second with ⟨seg, row, found, listed, -, offset, read⟩
  exact ⟨seg, row, _, second, found, listed, offset, read⟩

end MachoBinary

end DarwinScope
