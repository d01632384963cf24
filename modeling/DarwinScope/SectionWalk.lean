import DarwinScope.Image
import DarwinScope.Machine.Cursors
import Mathlib.Algebra.Order.BigOperators.Group.List
import Mathlib.Algebra.Order.Group.Nat

namespace DarwinScope

open Machine

structure RawSection where
  segname : Bytes
  sectname : Bytes
  addr : U64
  size : U64
  body : Slice
  named : segname.length = 16 ∧ sectname.length = 16

/-- The headers of a segment; one that the Mach-O parser rejects is `none`. -/
structure RawSegment where
  range : SegmentRange
  sections : List (Option RawSection)

def cstrFromFixed (bytes : Bytes) : Bytes :=
  let body := bytes.takeWhile (· ≠ 0#8)
  if validUtf8 body then body else []

def RawSection.view (sect : RawSection) : Section :=
  ⟨cstrFromFixed sect.segname, cstrFromFixed sect.sectname, sect.addr, sect.size, sect.body⟩

def RawSegment.view (seg : RawSegment) : Segment where
  vmaddr := seg.range.vmaddr
  vmsize := seg.range.vmsize
  fileoff := seg.range.fileoff
  filesize := seg.range.filesize
  sections := seg.sections.map (Option.map RawSection.view)

inductive SegmentSource where
  | all (rest : List RawSegment)
  | single (slot : Option RawSegment)

def SegmentSource.next : SegmentSource → Option (RawSegment × SegmentSource)
  | all [] => none
  | all (seg :: rest) => some (seg, all rest)
  | single none => none
  | single (some seg) => some (seg, single none)

abbrev SectionIter := SegmentSource × List (Option RawSection)

def SectionIter.new (segments : List RawSegment) : SectionIter := (.all segments, [])

def RawSegment.sectionsIter (seg : RawSegment) : SectionIter := (.single (some seg), [])

def SectionIter.next (turns : Nat) (it : SectionIter) : Option (RawSection × SectionIter) :=
  nextFlat SegmentSource.next RawSegment.sections turns it

def findSectionWalk (turns fuel : Nat) (segments : List RawSegment) (name : Bytes) : Option (Option MappedSection) :=
  (findFrom (SectionIter.next turns) (fun sect => cstrFromFixed sect.sectname = name) fuel (SectionIter.new segments)).map
    (Option.map fun sect => ⟨sect.body, sect.addr⟩)

/-- The sixteen bytes are the name, ended by a zero unless it fills them. -/
def RawSection.Named (sect : RawSection) (name : Bytes) : Prop := sect.sectname = name ∨ name ++ [0#8] <+: sect.sectname

instance (sect : RawSection) (name : Bytes) : Decidable (sect.Named name) :=
  inferInstanceAs (Decidable (sect.sectname = name ∨ name ++ [0#8] <+: sect.sectname))

theorem segments_drained (segments : List RawSegment) (fuel : Nat) (enough : segments.length < fuel) :
    collect SegmentSource.next fuel (.all segments) = some segments := by
  induction segments generalizing fuel with
  | nil =>
    obtain ⟨fuel, rfl⟩ : ∃ n, fuel = n + 1 := ⟨fuel - 1, by omega⟩
    exact collect_stop rfl fuel
  | cons seg rest ih =>
    rw [List.length_cons] at enough
    obtain ⟨fuel, rfl⟩ : ∃ n, fuel = n + 1 := ⟨fuel - 1, by omega⟩
    have step : SegmentSource.next (.all (seg :: rest)) = some (seg, .all rest) := rfl
    rw [collect_step step, ih fuel (by omega), Option.map_some]

theorem single_drained (seg : RawSegment) (fuel : Nat) :
    collect SegmentSource.next (fuel + 2) (.single (some seg)) = some [seg] := by
  have step : SegmentSource.next (.single (some seg)) = some (seg, .single none) := rfl
  have stop : SegmentSource.next (.single none) = none := rfl
  rw [collect_step step, collect_stop stop, Option.map_some]

theorem cstrFromFixed_eq_iff {sect : RawSection} {name : Bytes} (valid : validUtf8 name = true) (clean : 0#8 ∉ name)
    (nonempty : name ≠ []) : cstrFromFixed sect.sectname = name ↔ sect.Named name := by
  rw [RawSection.Named, ← takeWhile_ne_eq_iff clean, cstrFromFixed]
  constructor
  · intro read
    by_cases text : validUtf8 (sect.sectname.takeWhile (· ≠ 0#8)) = true
    · rwa [if_pos text] at read
    · rw [if_neg text] at read
      exact absurd read.symm nonempty
  · intro taken
    rw [taken, if_pos valid]

theorem sections_view {bin : MachoBinary} {segments : List RawSegment} (same : bin.segments = segments.map RawSegment.view) :
    bin.sections = (segments.flatMap RawSegment.sections).reduceOption.map RawSection.view := by
  rw [MachoBinary.sections, same, ← List.reduceOption_map, List.flatMap_map, List.map_flatMap, List.reduceOption,
    List.filterMap_flatMap]
  rfl

theorem sections_drained {segments : List RawSegment} {turns fuel : Nat}
    (turnsEnough : flatTurns RawSegment.sections segments [] < turns)
    (fuelEnough : (segments.flatMap RawSegment.sections).length < fuel) :
    collect (SectionIter.next turns) fuel (SectionIter.new segments) =
      some (segments.flatMap RawSegment.sections).reduceOption := by
  have short := List.reduceOption_length_le (segments.flatMap RawSegment.sections)
  have rows : (([] ++ segments.flatMap RawSegment.sections).reduceOption).length < fuel := by
    rw [List.nil_append]
    omega
  exact collect_nextFlat (segments_drained segments _ (Nat.lt_succ_self _)) turnsEnough rows

theorem own_sections_drained {seg : RawSegment} {turns fuel : Nat} (turnsEnough : seg.sections.length + 1 < turns)
    (fuelEnough : seg.sections.length < fuel) :
    collect (SectionIter.next turns) fuel seg.sectionsIter = some seg.sections.reduceOption := by
  have short := List.reduceOption_length_le seg.sections
  have listed : [seg].flatMap RawSegment.sections = seg.sections := List.flatMap_singleton _ _
  have few : flatTurns RawSegment.sections [seg] [] < turns := by
    simp only [flatTurns, List.length_nil, List.map_cons, List.map_nil, List.sum_cons, List.sum_nil]
    omega
  have walked := @collect_nextFlat _ _ _ _ _ _ _ [] _ _ (single_drained seg 0) few fuel
  rw [List.nil_append, listed] at walked
  exact walked (by omega)

/-- The walk over the sections of an image ends, on every image, with the sections of all segments in order, and that over
    one
    segment with its own; a header that cannot be read costs its own row only. A lookup by name stops at the first section
    whose sixteen bytes are that name. -/
theorem section_lookup_exact (segments : List RawSegment) : ∃ enough bound, ∀ turns fuel, enough ≤ turns → bound ≤ fuel →
    collect (SectionIter.next turns) fuel (SectionIter.new segments) =
      some (segments.flatMap RawSegment.sections).reduceOption ∧
      (∀ seg ∈ segments, collect (SectionIter.next turns) fuel seg.sectionsIter = some seg.sections.reduceOption) ∧
      (∀ name, validUtf8 name = true → 0#8 ∉ name → name ≠ [] → findSectionWalk turns fuel segments name =
        some (((segments.flatMap RawSegment.sections).reduceOption.find? fun sect => sect.Named name).map fun sect =>
          ⟨sect.body, sect.addr⟩)) ∧
      ∀ (bin : MachoBinary) (name : String), bin.segments = segments.map RawSegment.view →
        findSectionWalk turns fuel segments (lit name) = some (findSection bin name) := by
  refine ⟨flatTurns RawSegment.sections segments [] + 1, (segments.flatMap RawSegment.sections).length + 1, ?_⟩
  intro turns fuel more bound
  have all := @sections_drained segments _ _ more bound
  refine ⟨all, ?_, ?_, ?_⟩
  · intro seg member
    have turn := List.mem_map_of_mem (f := fun seg : RawSegment => seg.sections.length + 1) member
    have inside : seg.sections.length + 1 ≤ (segments.map fun seg => seg.sections.length + 1).sum :=
      List.single_le_sum (fun _ _ => Nat.zero_le _) _ turn
    have rows : seg.sections.length ≤ (segments.flatMap RawSegment.sections).length := by
      rw [List.length_flatMap]
      exact List.single_le_sum (fun _ _ => Nat.zero_le _) _ (List.mem_map_of_mem member)
    simp only [flatTurns, List.length_nil] at more
    apply own_sections_drained <;> omega
  · intro name valid clean nonempty
    rw [findSectionWalk, findFrom_eq all, Option.map_some]
    simp only [cstrFromFixed_eq_iff valid clean nonempty]
  · intro bin name same
    rw [findSectionWalk, findFrom_eq all, Option.map_some, findSection, sections_view same, List.find?_map, Option.map_map]
    rfl

def fixedName (name : Bytes) : Bytes := name ++ List.replicate (16 - name.length) 0

/-- Two segments: a header that cannot be read stands before a section, and the name of another fills its field. -/
def namedSegments : List RawSegment :=
  [⟨⟨0x1000, 0x1000, 0, 0x1000⟩, [none, some ⟨fixedName (lit "__TEXT"), fixedName (lit "__text"), 0x1010, 4,
    ⟨16, [1, 2, 3, 4], by decide⟩,
      by decide +kernel⟩]⟩,
    ⟨⟨0x2000, 0x1000, 0x1000, 8⟩, [some ⟨fixedName (lit "__DATA"), lit "__objc_classrefs", 0x2000, 0,
      Slice.empty, by decide +kernel⟩, some ⟨fixedName (lit "__DATA"), fixedName (lit "__text"), 0x2008, 0,
      Slice.empty, by decide +kernel⟩]⟩]

theorem section_lookup_of_three : ∃ enough bound, ∀ turns fuel, enough ≤ turns → bound ≤ fuel →
    (collect (SectionIter.next turns) fuel (SectionIter.new namedSegments)).map (List.map RawSection.addr) =
        some [0x1010, 0x2000, 0x2008] ∧
      findSectionWalk turns fuel namedSegments (lit "__text") = some (some ⟨⟨16, [1, 2, 3, 4], by decide⟩, 0x1010⟩) ∧
      findSectionWalk turns fuel namedSegments (lit "__objc_classrefs") = some (some ⟨Slice.empty, 0x2000⟩) ∧
      findSectionWalk turns fuel namedSegments (lit "__objc_classref") = some none := by
  rcases section_lookup_exact namedSegments with ⟨enough, bound, done⟩
  refine ⟨enough, bound, fun turns fuel more wide => ?_⟩
  obtain ⟨all, -, lookup, -⟩ := done turns fuel more wide
  refine ⟨by rw [all]; rfl, ?_, ?_, ?_⟩
  · rw [lookup _ (by decide +kernel) (by decide +kernel) (by decide +kernel)]
    rfl
  · rw [lookup _ (by decide +kernel) (by decide +kernel) (by decide +kernel)]
    rfl
  · rw [lookup _ (by decide +kernel) (by decide +kernel) (by decide +kernel)]
    rfl

end DarwinScope
