import Mathlib.Data.Set.Lattice
import Mathlib.Order.CompletePartialOrder
import Mathlib.Order.Interval.Set.Basic
import DarwinScope.Machine.Layout
import DarwinScope.Machine.Text

namespace DarwinScope

open Machine

def readU16LeAt : Slice → Nat → Option U16 := readAt leNumber 16 2

def readU32LeAt : Slice → Nat → Option U32 := readAt leNumber 32 4

def readU64LeAt : Slice → Nat → Option U64 := readAt leNumber 64 8

/-- The signed reader returns the same word; its sign is taken where it is used. -/
def readI32LeAt : Slice → Nat → Option U32 := readAt leNumber 32 4

def readU32BeAt : Slice → Nat → Option U32 := readAt beNumber 32 4

def readU64BeAt : Slice → Nat → Option U64 := readAt beNumber 64 8

def relativePointer (baseVa : U64) (offset : U32) : U64 := baseVa + offset.signExtend 64

def readCstrAt (data : Slice) (off : Nat) : Option Str := do
  let tail ← data.from? off
  let body := tail.bytes.takeWhile (· ≠ 0#8)
  if validUtf8 body then some ⟨some tail.start, body⟩ else none

theorem readCstrAt_of_holds {data : Slice} {off : Nat} {body : Bytes} (valid : validUtf8 body = true)
    (clean : 0#8 ∉ body) (holds : data.Holds off (body ++ [0#8])) :
    readCstrAt data off = some ⟨some (data.start + off), body⟩ := by
  rcases Slice.from_of_holds holds (by simp) with ⟨tail, found, start, passed⟩
  have text : tail.bytes.takeWhile (· ≠ 0#8) = body := by
    apply takeWhile_of_prefix _ _ passed
    · intro byte member
      exact decide_eq_true fun zero => clean (zero ▸ member)
    · rfl
  simp only [readCstrAt, found, Option.bind_eq_bind, Option.bind_some, text, valid, start, if_true]

structure SegmentRange where
  vmaddr : U64
  vmsize : U64
  fileoff : U64
  filesize : U64
deriving DecidableEq

/-- The first segment that holds the address decides; a segment whose end overflows ends the
    search before any later one is tried. -/
def vmToFileOffsetIn : List SegmentRange → U64 → Option U64
  | [], _ => none
  | seg :: rest, vmaddr => do
    let segEnd ← checkedAdd seg.vmaddr seg.vmsize
    if seg.vmaddr ≤ vmaddr ∧ vmaddr < segEnd ∧ 0#64 < seg.filesize then
      let delta ← checkedSub vmaddr seg.vmaddr
      if seg.filesize ≤ delta then none else checkedAdd seg.fileoff delta
    else vmToFileOffsetIn rest vmaddr

namespace SegmentRange

/-- The addresses that a segment maps, over the integers: its end may lie past the address space. -/
def span (seg : SegmentRange) : Set Nat := Set.Ico seg.vmaddr.toNat (seg.vmaddr.toNat + seg.vmsize.toNat)

instance (seg : SegmentRange) (n : Nat) : Decidable (n ∈ seg.span) := inferInstanceAs (Decidable (_ ∧ _))

def Whole (seg : SegmentRange) : Prop := seg.vmaddr.toNat + seg.vmsize.toNat < 2^64

instance (seg : SegmentRange) : Decidable seg.Whole := inferInstanceAs (Decidable (_ < _))

def Places (seg : SegmentRange) (va off : U64) : Prop :=
  va.toNat ∈ seg.span ∧ va.toNat - seg.vmaddr.toNat < seg.filesize.toNat ∧
    off.toNat = seg.fileoff.toNat + (va.toNat - seg.vmaddr.toNat)

end SegmentRange

def DisjointSpans (table : List SegmentRange) : Prop := table.Pairwise fun a b => Disjoint a.span b.span

/-- The translation that a table stands for: an address goes where a segment that maps it says. -/
def Exact (table : List SegmentRange) (va : U64) : Prop :=
  ∀ off, vmToFileOffsetIn table va = some off ↔ ∃ seg ∈ table, seg.Places va off

/-- No segment up to and including one that places the address ends at or past the top of the
    address space. -/
def WholeUpTo (table : List SegmentRange) (va : U64) : Prop :=
  ∀ before seg after, table = before ++ seg :: after → (∃ off, seg.Places va off) → ∀ s ∈ before ++ [seg], s.Whole

theorem disjoint_span {a b : SegmentRange} (below : a.vmaddr.toNat + a.vmsize.toNat ≤ b.vmaddr.toNat) :
    Disjoint a.span b.span := Set.disjoint_left.mpr fun _ first second => by
  have after := first.2
  have from? := second.1
  omega

variable {seg : SegmentRange} {table rest before after : List SegmentRange} {va off : U64}

theorem vmToFileOffsetIn_cons (whole : seg.Whole) :
    vmToFileOffsetIn (seg :: rest) va =
      if va.toNat ∈ seg.span ∧ 0 < seg.filesize.toNat then
        if va.toNat - seg.vmaddr.toNat < seg.filesize.toNat then checkedAdd seg.fileoff (va - seg.vmaddr) else none
      else vmToFileOffsetIn rest va := by
  have stop := toNat_add_of_lt whole
  have inside : (seg.vmaddr ≤ va ∧ va < seg.vmaddr + seg.vmsize ∧ 0#64 < seg.filesize) ↔
      va.toNat ∈ seg.span ∧ 0 < seg.filesize.toNat := by
    rw [BitVec.le_def, BitVec.lt_def, BitVec.lt_def, stop, BitVec.toNat_zero, ← and_assoc]
    exact Iff.rfl
  rw [vmToFileOffsetIn, checkedAdd_of_lt whole, Option.bind_eq_bind, Option.bind_some]
  simp only [inside]
  by_cases mapped : va.toNat ∈ seg.span ∧ 0 < seg.filesize.toNat
  · have low : seg.vmaddr.toNat ≤ va.toNat := mapped.1.1
    have delta : (va - seg.vmaddr).toNat = va.toNat - seg.vmaddr.toNat := BitVec.toNat_sub_of_le low
    rw [if_pos mapped, if_pos mapped, checkedSub, if_pos low, Option.bind_some]
    by_cases backed : va.toNat - seg.vmaddr.toNat < seg.filesize.toNat
    · rw [if_pos backed, if_neg (by rw [BitVec.le_def]; omega)]
    · rw [if_neg backed, if_pos (by rw [BitVec.le_def]; omega)]
  · rw [if_neg mapped, if_neg mapped]

theorem vmToFileOffsetIn_overflow (past : ¬ seg.Whole) : vmToFileOffsetIn (seg :: rest) va = none := by
  have unsummed : checkedAdd seg.vmaddr seg.vmsize = none := if_neg past
  rw [vmToFileOffsetIn, unsummed]
  rfl

theorem checkedAdd_places (mapped : va.toNat ∈ seg.span) (backed : va.toNat - seg.vmaddr.toNat < seg.filesize.toNat) :
    checkedAdd seg.fileoff (va - seg.vmaddr) = some off ↔ seg.Places va off := by
  have delta : (va - seg.vmaddr).toNat = va.toNat - seg.vmaddr.toNat := BitVec.toNat_sub_of_le mapped.1
  constructor
  · intro sum
    rw [← delta] at backed
    refine ⟨mapped, by omega, ?_⟩
    rw [(checkedAdd_some sum).2, delta]
  · rintro ⟨-, -, value⟩
    have bound := off.isLt
    have fits : seg.fileoff.toNat + (va - seg.vmaddr).toNat < 2^64 := by omega
    rw [checkedAdd_of_lt fits, Option.some.injEq]
    apply BitVec.eq_of_toNat_eq
    rw [toNat_add_of_lt fits, delta, value]

theorem places_of_vmToFileOffsetIn (found : vmToFileOffsetIn table va = some off) : ∃ seg ∈ table, seg.Places va off := by
  induction table with
  | nil => cases found
  | cons seg rest ih =>
    by_cases whole : seg.Whole
    · rw [vmToFileOffsetIn_cons whole] at found
      split at found
      · rename_i mapped
        split at found
        · rename_i backed
          exact ⟨seg, List.mem_cons_self, (checkedAdd_places mapped.1 backed).mp found⟩
        · cases found
      · rcases ih found with ⟨later, member, places⟩
        exact ⟨later, List.mem_cons_of_mem seg member, places⟩
    · rw [vmToFileOffsetIn_overflow whole] at found
      cases found

theorem vmToFileOffsetIn_places (whole : seg.Whole) (places : seg.Places va off) :
    vmToFileOffsetIn (seg :: rest) va = some off := by
  have mapped := places.1
  have backed := places.2.1
  rw [vmToFileOffsetIn_cons whole, if_pos ⟨mapped, by omega⟩, if_pos backed, checkedAdd_places mapped backed]
  exact places

theorem vmToFileOffsetIn_skip (whole : seg.Whole) (outside : va.toNat ∉ seg.span) :
    vmToFileOffsetIn (seg :: rest) va = vmToFileOffsetIn rest va := by
  rw [vmToFileOffsetIn_cons whole, if_neg fun both => outside both.1]

/-- Segments that do not map the address let the search pass exactly when none of them overflows. -/
theorem vmToFileOffsetIn_append (outside : ∀ s ∈ before, va.toNat ∉ s.span) :
    vmToFileOffsetIn (before ++ rest) va = some off ↔
      (∀ s ∈ before, s.Whole) ∧ vmToFileOffsetIn rest va = some off := by
  induction before with
  | nil => simp
  | cons head before ih =>
    have later := ih fun s member => outside s (List.mem_cons_of_mem head member)
    rw [List.cons_append, List.forall_mem_cons]
    by_cases whole : head.Whole
    · rw [vmToFileOffsetIn_skip whole (outside head List.mem_cons_self), later, and_assoc]
      exact (and_iff_right whole).symm
    · rw [vmToFileOffsetIn_overflow whole]
      simp [whole]

theorem vmToFileOffsetIn_found (places : seg.Places va off) :
    vmToFileOffsetIn (seg :: after) va = some off ↔ seg.Whole := by
  by_cases whole : seg.Whole
  · exact iff_of_true (vmToFileOffsetIn_places whole places) whole
  · rw [vmToFileOffsetIn_overflow whole]
    simp [whole]

theorem notMem_before (apart : DisjointSpans (before ++ seg :: after)) (mapped : va.toNat ∈ seg.span) :
    ∀ s ∈ before, va.toNat ∉ s.span := by
  intro s member
  have separate := (List.pairwise_append.mp apart).2.2 s member seg List.mem_cons_self
  exact fun inside => Set.disjoint_left.mp separate inside mapped

theorem vmToFileOffsetIn_split (apart : DisjointSpans (before ++ seg :: after)) (places : seg.Places va off) :
    vmToFileOffsetIn (before ++ seg :: after) va = some off ↔ ∀ s ∈ before ++ [seg], s.Whole := by
  rw [vmToFileOffsetIn_append (notMem_before apart places.1), vmToFileOffsetIn_found places, List.forall_mem_append,
    List.forall_mem_singleton]

/-- Both exits of the search that leave the table at a segment which overflows are taken only there. -/
theorem exact_iff_wholeUpTo (apart : DisjointSpans table) (va : U64) : Exact table va ↔ WholeUpTo table va := by
  constructor
  · rintro exact before seg after rfl ⟨off, places⟩
    exact (vmToFileOffsetIn_split apart places).mp ((exact off).mpr ⟨seg, by simp, places⟩)
  · intro whole off
    refine ⟨places_of_vmToFileOffsetIn, ?_⟩
    rintro ⟨seg, member, places⟩
    rcases List.append_of_mem member with ⟨before, after, rfl⟩
    exact (vmToFileOffsetIn_split apart places).mpr (whole before seg after rfl ⟨off, places⟩)

theorem wholeUpTo_of_whole (whole : ∀ s ∈ table, s.Whole) (va : U64) : WholeUpTo table va := by
  rintro before seg after rfl -
  intro s member
  apply whole s
  rcases List.mem_append.mp member with earlier | last
  · exact List.mem_append_left _ earlier
  · rw [List.mem_singleton.mp last]
    exact List.mem_append_right _ List.mem_cons_self

theorem exact_of_whole (apart : DisjointSpans table) (whole : ∀ s ∈ table, s.Whole) (va : U64) : Exact table va :=
  (exact_iff_wholeUpTo apart va).mpr (wholeUpTo_of_whole whole va)

/-- Two tables that translate exactly agree when they have the same segments about the address. -/
theorem Exact.congr {other : List SegmentRange} (here : Exact table va) (there : Exact other va)
    (same : ∀ seg, va.toNat ∈ seg.span → (seg ∈ table ↔ seg ∈ other)) :
    vmToFileOffsetIn table va = vmToFileOffsetIn other va := by
  ext off
  rw [here off, there off]
  constructor
  · rintro ⟨seg, member, places⟩
    exact ⟨seg, (same seg places.1).mp member, places⟩
  · rintro ⟨seg, member, places⟩
    exact ⟨seg, (same seg places.1).mpr member, places⟩

/-- The search translates exactly unless a segment up to the one that places the address overflows; where
    it does, neither the order of the table nor a segment elsewhere matters. -/
theorem translation_exact (table : List SegmentRange) (apart : DisjointSpans table) (va : U64) :
    (Exact table va ↔ WholeUpTo table va) ∧
      ∀ other, DisjointSpans other → (∀ seg, va.toNat ∈ seg.span → (seg ∈ table ↔ seg ∈ other)) →
        WholeUpTo table va → WholeUpTo other va → vmToFileOffsetIn table va = vmToFileOffsetIn other va := by
  refine ⟨exact_iff_wholeUpTo apart va, ?_⟩
  intro other separate same whole also
  exact Exact.congr ((exact_iff_wholeUpTo apart va).mpr whole) ((exact_iff_wholeUpTo separate va).mpr also) same

def textSegment : SegmentRange := ⟨0x1000, 0x1000, 0, 0x1000⟩

def dataSegment : SegmentRange := ⟨0x2000, 0x1000, 0x1000, 0x800⟩

/-- A segment without file bytes that ends at the top of the address space. -/
def topSegment : SegmentRange := ⟨0xffff_ffff_ffff_f000, 0x1000, 0x1800, 0⟩

theorem translation_exact_text :
    Exact [textSegment, dataSegment] 0x1010 ∧
      vmToFileOffsetIn [textSegment, dataSegment] 0x1010 = vmToFileOffsetIn [dataSegment, textSegment] 0x1010 := by
  have below : Disjoint textSegment.span dataSegment.span := disjoint_span (by decide)
  have whole : ∀ s ∈ [textSegment, dataSegment], s.Whole := by decide
  have turned : ∀ s ∈ [dataSegment, textSegment], s.Whole := by decide
  rcases translation_exact [textSegment, dataSegment] (List.pairwise_pair.mpr below) 0x1010 with ⟨exact, independent⟩
  refine ⟨exact.mpr (wholeUpTo_of_whole whole _), ?_⟩
  apply independent _ (List.pairwise_pair.mpr below.symm)
  · intro seg _
    simp [or_comm]
  · exact wholeUpTo_of_whole whole _
  · exact wholeUpTo_of_whole turned _

theorem topSegment_hides_text : ¬ ∀ table va, DisjointSpans table → Exact table va := by
  intro exact
  have apart : DisjointSpans [topSegment, textSegment] := by
    refine List.pairwise_pair.mpr (Disjoint.symm ?_)
    exact disjoint_span (by decide)
  have found := (exact _ 0x1000 apart 0).mpr ⟨textSegment, by simp, by decide, by decide, by decide⟩
  exact absurd found (by decide)

end DarwinScope
