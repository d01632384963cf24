import DarwinScope.Machine.FirstOccurrence
import DarwinScope.Machine.Slices
import DarwinScope.Machine.Text

namespace DarwinScope

open Machine

inductive Error where
  | notMachO
  | structural (message : Bytes)
  | noMatchingArchSlice
  | other (message : Bytes)

abbrev cpuSubtypeAny : U32 := 0xffff_ffff
abbrev cpuSubtypeMask : U32 := 0xff00_0000

def archMatches (actualCputype actualSubtype wantCputype wantSubtype : U32) : Bool :=
  if actualCputype ≠ wantCputype then false
  else if wantSubtype = cpuSubtypeAny then true
  else decide (actualSubtype &&& ~~~cpuSubtypeMask = wantSubtype &&& ~~~cpuSubtypeMask)

def u32FromUsize (n : Nat) : Except Error U32 :=
  if n < 2^32 then .ok (BitVec.ofNat 32 n) else .error (.structural (lit "count " ++ decimal n ++ lit " exceeds u32"))

/-- A file as the Mach-O parser classifies it. The architectures of a wrapper that it cannot read are `none`. -/
inductive Mach (M A : Type) where
  | binary (macho : M)
  | fat (narches : Nat) (arches : List (Option A))

def Mach.archCount {M A : Type} : Mach M A → Except Error U32
  | .binary _ => .ok 1
  | .fat narches _ => u32FromUsize narches

/-- The Mach-O parser, a library of its own: its images, and its entries of a fat header. -/
structure MachParser (M A : Type) where
  parseMach : Slice → Except Bytes (Mach M A)
  parseMachO : Slice → Option M
  slice : A → Slice → Slice
  cputype : M → U32
  cpusubtype : M → U32

structure SelectedImage (M : Type) where
  data : Slice
  macho : M
  fatArchCount : U32

namespace MachParser

variable {M A : Type} (goblin : MachParser M A)

def firstSlice (data : Slice) (pred : U32 → U32 → Bool) : List (Option A) → Option (Slice × M)
  | [] => none
  | none :: arches => firstSlice data pred arches
  | some arch :: arches =>
    let sliceBytes := goblin.slice arch data
    if sliceBytes.length = 0 then firstSlice data pred arches
    else
      match goblin.parseMachO sliceBytes with
      | none => firstSlice data pred arches
      | some macho =>
        if pred (goblin.cputype macho) (goblin.cpusubtype macho) then some (sliceBytes, macho)
        else firstSlice data pred arches

def parsePredicate (data : Slice) (pred : U32 → U32 → Bool) : Except Error (SelectedImage M) :=
  match goblin.parseMach data with
  | .error message => .error (.structural message)
  | .ok (.binary macho) =>
    if pred (goblin.cputype macho) (goblin.cpusubtype macho) then .ok ⟨data, macho, 1⟩
    else .error .noMatchingArchSlice
  | .ok (.fat narches arches) =>
    match u32FromUsize narches with
    | .error e => .error e
    | .ok fatCount =>
      match goblin.firstSlice data pred arches with
      | some (sliceBytes, macho) => .ok ⟨sliceBytes, macho, fatCount⟩
      | none => .error .noMatchingArchSlice

def parse (data : Slice) : Except Error (SelectedImage M) := goblin.parsePredicate data fun _ _ => true

def parseWithArch (data : Slice) (cputype cpusubtype : U32) : Except Error (SelectedImage M) :=
  goblin.parsePredicate data fun actualCputype actualSubtype => archMatches actualCputype actualSubtype cputype cpusubtype

def imageOf (data : Slice) (arch : Option A) : Option (Slice × M) := do
  let sliceBytes := goblin.slice (← arch) data
  if sliceBytes.length = 0 then none
  let macho ← goblin.parseMachO sliceBytes
  some (sliceBytes, macho)

def images (data : Slice) : Mach M A → List (Slice × M)
  | .binary macho => [(data, macho)]
  | .fat _ arches => arches.filterMap (goblin.imageOf data)

def Passes (pred : U32 → U32 → Bool) (image : Slice × M) : Bool := pred (goblin.cputype image.2) (goblin.cpusubtype image.2)

section

variable {goblin} {data : Slice} {pred : U32 → U32 → Bool} {bin : SelectedImage M}

theorem firstSlice_eq (arches : List (Option A)) :
    goblin.firstSlice data pred arches = (arches.filterMap (goblin.imageOf data)).find? (goblin.Passes pred) := by
  induction arches with
  | nil => rfl
  | cons arch arches ih =>
    cases arch with
    | none => exact ih
    | some arch =>
      rw [List.filterMap_cons, firstSlice]
      by_cases empty : (goblin.slice arch data).length = 0
      · simp [imageOf, empty, ih]
      · cases parsed : goblin.parseMachO (goblin.slice arch data) with
        | none => simp [imageOf, empty, parsed, ih]
        | some macho =>
          by_cases passes : pred (goblin.cputype macho) (goblin.cpusubtype macho) = true
          · simp [imageOf, empty, parsed, Passes, passes]
          · simp [imageOf, empty, parsed, Passes, passes, ih]

theorem parsePredicate_ok : goblin.parsePredicate data pred = .ok bin ↔ ∃ mach, goblin.parseMach data = .ok mach ∧
    mach.archCount = .ok bin.fatArchCount ∧ (goblin.images data mach).find? (goblin.Passes pred) =
      some (bin.data, bin.macho) := by
  rcases bin with ⟨part, image, count⟩
  unfold parsePredicate
  cases goblin.parseMach data with
  | error message => simp
  | ok mach =>
    cases mach with
    | binary macho =>
      by_cases passes : pred (goblin.cputype macho) (goblin.cpusubtype macho) = true
      · simp [Mach.archCount, images, Passes, passes]
        tauto
      · simp [Mach.archCount, images, Passes, passes]
    | fat narches arches =>
      simp only [firstSlice_eq, Mach.archCount, images, Except.ok.injEq, exists_eq_left']
      generalize u32FromUsize narches = counted
      generalize (arches.filterMap (goblin.imageOf data)).find? (goblin.Passes pred) = found
      cases counted with
      | error e => simp
      | ok fatCount =>
        rcases found with _ | ⟨first, macho⟩
        · simp
        · simp only [Except.ok.injEq, SelectedImage.mk.injEq, Option.some.injEq, Prod.mk.injEq]
          tauto

theorem archMatches_self (cputype cpusubtype : U32) : archMatches cputype cpusubtype cputype cpusubtype = true := by
  simp [archMatches]

theorem archMatches_iff {cputype cpusubtype wantCputype wantSubtype : U32} :
    archMatches cputype cpusubtype wantCputype wantSubtype = true ↔ cputype = wantCputype ∧
      (wantSubtype = cpuSubtypeAny ∨ cpusubtype &&& ~~~cpuSubtypeMask = wantSubtype &&& ~~~cpuSubtypeMask) := by
  simp only [archMatches]
  split
  · simp_all
  · split <;> simp_all

theorem parsePredicate_passes (found : goblin.parsePredicate data pred = .ok bin) :
    pred (goblin.cputype bin.macho) (goblin.cpusubtype bin.macho) = true := by
  rcases parsePredicate_ok.mp found with ⟨mach, -, -, first⟩
  have passes : goblin.Passes pred (bin.data, bin.macho) = true := List.find?_some first
  exact passes

theorem parsePredicate_narrower {narrow : U32 → U32 → Bool} (found : goblin.parsePredicate data pred = .ok bin)
    (narrower : ∀ cputype cpusubtype, narrow cputype cpusubtype = true → pred cputype cpusubtype = true)
    (passes : narrow (goblin.cputype bin.macho) (goblin.cpusubtype bin.macho) = true) :
    goblin.parsePredicate data narrow = .ok bin := by
  rcases parsePredicate_ok.mp found with ⟨mach, parsed, count, first⟩
  exact parsePredicate_ok.mpr ⟨mach, parsed, count, find?_narrower first (fun other _ => narrower _ _) passes⟩

theorem parsePredicate_wider {wide : U32 → U32 → Bool} (found : goblin.parsePredicate data pred = .ok bin)
    (wider : ∀ cputype cpusubtype, pred cputype cpusubtype = true → wide cputype cpusubtype = true) :
    ∃ first, goblin.parsePredicate data wide = .ok first := by
  rcases parsePredicate_ok.mp found with ⟨mach, parsed, count, first⟩
  have some : ((goblin.images data mach).find? (goblin.Passes wide)).isSome = true :=
    List.find?_isSome.mpr ⟨_, List.mem_of_find?_eq_some first, wider _ _ (parsePredicate_passes found)⟩
  rcases Option.isSome_iff_exists.mp some with ⟨image, earlier⟩
  exact ⟨⟨image.1, image.2, bin.fatArchCount⟩, parsePredicate_ok.mpr ⟨mach, parsed, count, earlier⟩⟩

end

/-- The choice of an architecture: the first image of the file that was asked for, wherever the others stand and whatever is
    wrong with them; asking for what the chosen image says of itself chooses it again, the capability bits of a subtype are
    never looked at, and what is found for a subtype is found for any subtype. -/
theorem selection_coherent (data : Slice) :
    (∀ cputype cpusubtype bin, goblin.parseWithArch data cputype cpusubtype = .ok bin ↔ ∃ mach before after,
      goblin.parseMach data = .ok mach ∧ mach.archCount = .ok bin.fatArchCount ∧
        goblin.images data mach = before ++ (bin.data, bin.macho) :: after ∧
        archMatches (goblin.cputype bin.macho) (goblin.cpusubtype bin.macho) cputype cpusubtype = true ∧
        ∀ other ∈ before, archMatches (goblin.cputype other.2) (goblin.cpusubtype other.2) cputype cpusubtype = false) ∧
    (∀ bin, goblin.parse data = .ok bin →
      goblin.parseWithArch data (goblin.cputype bin.macho) (goblin.cpusubtype bin.macho) = .ok bin) ∧
    (∀ cputype cpusubtype bin, goblin.parseWithArch data cputype cpusubtype = .ok bin →
      (cpusubtype = cpuSubtypeAny ∨ goblin.cpusubtype bin.macho ≠ cpuSubtypeAny) →
        goblin.parseWithArch data cputype (goblin.cpusubtype bin.macho) = .ok bin) ∧
    (∀ cputype cpusubtype other, cpusubtype ≠ cpuSubtypeAny → other ≠ cpuSubtypeAny →
      cpusubtype &&& ~~~cpuSubtypeMask = other &&& ~~~cpuSubtypeMask →
        goblin.parseWithArch data cputype cpusubtype = goblin.parseWithArch data cputype other) ∧
    ∀ cputype cpusubtype bin, goblin.parseWithArch data cputype cpusubtype = .ok bin →
      (∃ first, goblin.parseWithArch data cputype cpuSubtypeAny = .ok first) ∧ ∃ first, goblin.parse data = .ok first := by
  refine ⟨?_, ?_, ?_, ?_, ?_⟩
  · intro cputype cpusubtype bin
    rw [parseWithArch, parsePredicate_ok]
    simp only [List.find?_eq_some_iff_append, Passes, Bool.not_eq_true', exists_and_left]
    constructor
    · rintro ⟨mach, parsed, count, passes, before, after, cut, missed⟩
      exact ⟨mach, parsed, count, before, after, cut, passes, missed⟩
    · rintro ⟨mach, parsed, count, before, after, cut, passes, missed⟩
      exact ⟨mach, parsed, count, passes, before, after, cut, missed⟩
  · intro bin found
    exact parsePredicate_narrower found (fun _ _ _ => rfl) (archMatches_self _ _)
  · intro cputype cpusubtype bin found named
    have passes := parsePredicate_passes found
    rcases archMatches_iff.mp passes with ⟨same, matched⟩
    apply parsePredicate_narrower found
    · intro actualCputype actualSubtype asked
      rcases archMatches_iff.mp asked with ⟨same', low⟩
      refine archMatches_iff.mpr ⟨same', ?_⟩
      rcases named with any | plain
      · exact Or.inl any
      · rcases matched with any | matched
        · exact Or.inl any
        · rcases low with any | low
          · exact absurd any plain
          · exact Or.inr (low.trans matched)
    · rw [← same]
      exact archMatches_self _ _
  · intro cputype cpusubtype other plain plain' low
    have alike : (fun actualCputype actualSubtype => archMatches actualCputype actualSubtype cputype cpusubtype) =
        fun actualCputype actualSubtype => archMatches actualCputype actualSubtype cputype other := by
      funext actualCputype actualSubtype
      rw [Bool.eq_iff_iff, archMatches_iff, archMatches_iff, or_iff_right plain, or_iff_right plain', low]
    rw [parseWithArch, parseWithArch, alike]
  · intro cputype cpusubtype bin found
    refine ⟨parsePredicate_wider found fun actualCputype actualSubtype asked => ?_,
      parsePredicate_wider found fun _ _ _ => rfl⟩
    exact archMatches_iff.mpr ⟨(archMatches_iff.mp asked).1, Or.inl rfl⟩

def thinHeader (data : Slice) : Option (U32 × U32) :=
  if 32 ≤ data.length ∧ data.window 0 4 = [0xcf, 0xfa, 0xed, 0xfe] then
    some (BitVec.ofNat 32 (leNumber (data.window 4 4)), BitVec.ofNat 32 (leNumber (data.window 8 4)))
  else none

def wrapperEntries (data : Slice) : List (Option (Nat × Nat)) :=
  (List.range (beNumber (data.window 4 4))).map fun i =>
    if 20 * i + 28 ≤ data.length then
      some (beNumber (data.window (20 * i + 16) 4), beNumber (data.window (20 * i + 20) 4))
    else none

def headerParser : MachParser (U32 × U32) (Nat × Nat) where
  parseMach data :=
    if data.window 0 4 = [0xca, 0xfe, 0xba, 0xbe] then
      .ok (.fat (beNumber (data.window 4 4)) (wrapperEntries data))
    else
      match thinHeader data with
      | some macho => .ok (.binary macho)
      | none => .error (lit "bad magic")
  parseMachO := thinHeader
  slice arch data := (data.get arch.1 (arch.1 + arch.2)).getD Slice.empty
  cputype := Prod.fst
  cpusubtype := Prod.snd

def thinImage (cpusubtype : Nat) : Bytes :=
  [0xcf, 0xfa, 0xed, 0xfe] ++ leBytes 4 0x0100000c ++ leBytes 4 cpusubtype ++ leBytes 4 2 ++ leBytes 16 0

/-- A wrapper of four: an image past the end of the file, one that is none, then arm64e and arm64. -/
def wrapperFile : Slice where
  start := 0
  bytes := [0xca, 0xfe, 0xba, 0xbe] ++ beBytes 4 4 ++
    (beBytes 4 0x01000007 ++ beBytes 4 3 ++ beBytes 4 400 ++ beBytes 4 32 ++ beBytes 4 3) ++
    (beBytes 4 0x01000007 ++ beBytes 4 3 ++ beBytes 4 88 ++ beBytes 4 32 ++ beBytes 4 3) ++
    (beBytes 4 0x0100000c ++ beBytes 4 0x80000002 ++ beBytes 4 120 ++ beBytes 4 32 ++ beBytes 4 3) ++
    (beBytes 4 0x0100000c ++ beBytes 4 0 ++ beBytes 4 152 ++ beBytes 4 32 ++ beBytes 4 3) ++
    List.replicate 32 0 ++ thinImage 0x80000002 ++ thinImage 0
  bound := by decide +kernel

def wrapperImage (start cpusubtype : Nat) : Slice × (U32 × U32) :=
  (⟨start, thinImage cpusubtype, by simp [thinImage]⟩, (0x0100000c, BitVec.ofNat 32 cpusubtype))

theorem selection_of_four :
    headerParser.parseWithArch wrapperFile 0x0100000c 2 =
        .ok ⟨(wrapperImage 120 0x80000002).1, (wrapperImage 120 0x80000002).2, 4⟩ ∧
      headerParser.parseWithArch wrapperFile 0x0100000c 0x80000002 =
        .ok ⟨(wrapperImage 120 0x80000002).1, (wrapperImage 120 0x80000002).2, 4⟩ ∧
      headerParser.parseWithArch wrapperFile 0x0100000c 0 = .ok ⟨(wrapperImage 152 0).1, (wrapperImage 152 0).2, 4⟩ ∧
      ∃ first, headerParser.parse wrapperFile = .ok first := by
  obtain ⟨chosen, -, exact, -, more⟩ := selection_coherent headerParser wrapperFile
  have entries : headerParser.parseMach wrapperFile =
      .ok (.fat 4 [some (400, 32), some (88, 32), some (120, 32), some (152, 32)]) := by
    have magic : wrapperFile.window 0 4 = [0xca, 0xfe, 0xba, 0xbe] := by decide +kernel
    have count : beNumber (wrapperFile.window 4 4) = 4 := by decide +kernel
    have places : wrapperEntries wrapperFile = [some (400, 32), some (88, 32), some (120, 32), some (152, 32)] := by
      decide +kernel
    simp only [headerParser, if_pos magic, count, places]
  have images : headerParser.images wrapperFile (.fat 4 [some (400, 32), some (88, 32), some (120, 32), some (152, 32)]) =
      [wrapperImage 120 0x80000002, wrapperImage 152 0] := by decide +kernel
  have arm64e := (chosen 0x0100000c 2 ⟨(wrapperImage 120 0x80000002).1, (wrapperImage 120 0x80000002).2, 4⟩).mpr
    ⟨_, [], [wrapperImage 152 0], entries, rfl, images, by decide, by simp⟩
  have arm64 := (chosen 0x0100000c 0 ⟨(wrapperImage 152 0).1, (wrapperImage 152 0).2, 4⟩).mpr
    ⟨_, [wrapperImage 120 0x80000002], [], entries, rfl, images, by decide, by decide⟩
  have own : headerParser.cpusubtype (wrapperImage 120 0x80000002).2 = 0x80000002 := by decide +kernel
  have again := exact _ _ _ arm64e (.inr (by rw [own]; decide))
  rw [own] at again
  exact ⟨arm64e, again, arm64, (more _ _ _ arm64e).2⟩

end MachParser

end DarwinScope
