import DarwinScope.Binary
import DarwinScope.Machine.Counting
import DarwinScope.Machine.Registers
import DarwinScope.Machine.Rows

namespace DarwinScope

open Machine

abbrev sizeofBuildVersionCommand : Nat := 24
abbrev sizeofBuildToolVersion : Nat := 8

abbrev lcVersionMinMacosx : U32 := 0x24
abbrev lcVersionMinIphoneos : U32 := 0x25
abbrev lcVersionMinTvos : U32 := 0x2f
abbrev lcVersionMinWatchos : U32 := 0x30

abbrev platformMacos : U32 := 1
abbrev platformIos : U32 := 2
abbrev platformTvos : U32 := 3
abbrev platformWatchos : U32 := 4

structure MinOsVersion where
  platform : U32
  version : Version
deriving DecidableEq

structure SourceVersion where
  a : U32
  b : U16
  c : U16
  d : U16
  e : U16
deriving DecidableEq

def SourceVersion.fromPackedU64 (v : U64) : SourceVersion where
  a := ((v >>> 40) &&& 0x00ff_ffff).setWidth 32
  b := ((v >>> 30) &&& 0x3ff).setWidth 16
  c := ((v >>> 20) &&& 0x3ff).setWidth 16
  d := ((v >>> 10) &&& 0x3ff).setWidth 16
  e := (v &&& 0x3ff).setWidth 16

structure BuildTool where
  tool : U32
  version : Version
deriving DecidableEq

structure LinkeditDataCommand where
  dataoff : U32
  datasize : U32
deriving DecidableEq

inductive CommandVariant where
  | uuid (uuid : Bytes)
  | buildVersion (platform minos sdk ntools : U32)
  | versionMin (cmd version sdk : U32)
  | sourceVersion (version : U64)
  | loadDylinker (name : U32)
  | functionStarts (c : LinkeditDataCommand)
  | dyldChainedFixups (c : LinkeditDataCommand)
  | codeSignature (c : LinkeditDataCommand)
  | other
deriving DecidableEq

structure PlacedCommand where
  offset : Nat
  cmdsize : U32
  command : CommandVariant
deriving DecidableEq

structure Absorbed where
  uuid : Option Bytes
  minOs : Option MinOsVersion
  sdkVersion : Option Version
  sourceVersion : Option SourceVersion
  buildTools : List BuildTool
  dylinker : Option Str
  functionStartsCmd : Option LinkeditDataCommand
  chainedFixupsCmd : Option LinkeditDataCommand
  codeSignatureCmd : Option LinkeditDataCommand

def Absorbed.empty : Absorbed := ⟨none, none, none, none, [], none, none, none, none⟩

def readBuildTool (data : Slice) (base i : Nat) : Option BuildTool := do
  let stride ← checkedMulUsize i sizeofBuildToolVersion
  let off ← checkedAddUsize base stride
  let offVer ← checkedAddUsize off 4
  let tool ← readU32LeAt data off
  let versionPacked ← readU32LeAt data offVer
  some ⟨tool, Version.fromPackedU32 versionPacked⟩

/-- The tools of one build version, up to the first that cannot be read. -/
def readBuildTools (data : Slice) (offset : Nat) (ntools : U32) : List BuildTool :=
  match checkedAddUsize offset sizeofBuildVersionCommand with
  | none => []
  | some base => rows (fun i => Row.ofOption (readBuildTool data base i)) ntools.toNat

def versionMinPlatform (cmd : U32) : U32 :=
  if cmd = lcVersionMinMacosx then platformMacos
  else if cmd = lcVersionMinIphoneos then platformIos
  else if cmd = lcVersionMinTvos then platformTvos
  else if cmd = lcVersionMinWatchos then platformWatchos
  else 0

def absorb (data : Slice) (s : Absorbed) (lc : PlacedCommand) : Absorbed :=
  match lc.command with
  | .uuid uuid => { s with uuid := some uuid }
  | .buildVersion platform minos sdk ntools => {
      s with
      minOs := some ⟨platform, Version.fromPackedU32 minos⟩
      sdkVersion := some (Version.fromPackedU32 sdk)
      buildTools := s.buildTools ++ readBuildTools data lc.offset ntools
    }
  | .versionMin cmd version sdk => {
      s with
      minOs := if s.minOs.isNone then some ⟨versionMinPlatform cmd, Version.fromPackedU32 version⟩ else s.minOs
      sdkVersion := if s.sdkVersion.isNone ∧ sdk ≠ 0 then some (Version.fromPackedU32 sdk) else s.sdkVersion
    }
  | .sourceVersion version => { s with sourceVersion := some (SourceVersion.fromPackedU64 version) }
  | .loadDylinker name =>
    match (checkedAddUsize lc.offset name.toNat).bind fun off =>
      (checkedAddUsize lc.offset lc.cmdsize.toNat).bind fun stop => readLcStr data off stop with
    | some path => { s with dylinker := some path }
    | none => s
  | .functionStarts c => { s with functionStartsCmd := some c }
  | .dyldChainedFixups c => { s with chainedFixupsCmd := some c }
  | .codeSignature c => { s with codeSignatureCmd := some c }
  | .other => s

def absorbed (data : Slice) (commands : List PlacedCommand) : Absorbed := commands.foldl (absorb data) Absorbed.empty

def buildMinOs (lc : PlacedCommand) : Option MinOsVersion :=
  match lc.command with
  | .buildVersion platform minos _ _ => some ⟨platform, Version.fromPackedU32 minos⟩
  | _ => none

def legacyMinOs (lc : PlacedCommand) : Option MinOsVersion :=
  match lc.command with
  | .versionMin cmd version _ => some ⟨versionMinPlatform cmd, Version.fromPackedU32 version⟩
  | _ => none

/-- The version as documented: that of the first build version, and without one that of the first legacy command. -/
def firstMinOs (commands : List PlacedCommand) : Option MinOsVersion :=
  (commands.filterMap buildMinOs).head?.or (commands.filterMap legacyMinOs).head?

def toolsOf (data : Slice) (lc : PlacedCommand) : List BuildTool :=
  match lc.command with
  | .buildVersion _ _ _ ntools => readBuildTools data lc.offset ntools
  | _ => []

def declaredTools (lc : PlacedCommand) : Nat :=
  match lc.command with
  | .buildVersion _ _ _ ntools => ntools.toNat
  | _ => 0

/-- Every tool is one of a command, and is read from eight bytes between the fixed part and the end of that command. -/
structure ToolsInside (data : Slice) (commands : List PlacedCommand) : Prop where
  rows : (absorbed data commands).buildTools = commands.flatMap (toolsOf data)
  read : ∀ lc ∈ commands, ∀ i tool, (toolsOf data lc)[i]? = some tool →
    readU32LeAt data (lc.offset + sizeofBuildVersionCommand + i * sizeofBuildToolVersion) = some tool.tool ∧
      (readU32LeAt data (lc.offset + sizeofBuildVersionCommand + i * sizeofBuildToolVersion + 4)).map Version.fromPackedU32 =
        some tool.version
  inside : ∀ lc ∈ commands, ∀ i tool, (toolsOf data lc)[i]? = some tool →
    sizeofBuildVersionCommand + (i + 1) * sizeofBuildToolVersion ≤ lc.cmdsize.toNat

section

variable {data : Slice} {commands : List PlacedCommand}

theorem absorb_minOs (s : Absorbed) (lc : PlacedCommand) :
    (absorb data s lc).minOs = (buildMinOs lc).or (s.minOs.or (legacyMinOs lc)) := by
  rcases lc with ⟨offset, cmdsize, command⟩
  cases command with
  | buildVersion platform minos sdk ntools => rfl
  | versionMin cmd version sdk =>
    simp only [absorb, buildMinOs, legacyMinOs, Option.none_or]
    cases s.minOs <;> rfl
  | loadDylinker name =>
    simp only [absorb, buildMinOs, legacyMinOs, Option.none_or, Option.or_none]
    split <;> rfl
  | _ => exact (Option.or_none).symm

theorem absorb_buildTools (s : Absorbed) (lc : PlacedCommand) :
    (absorb data s lc).buildTools = s.buildTools ++ toolsOf data lc := by
  rcases lc with ⟨offset, cmdsize, command⟩
  cases command with
  | buildVersion platform minos sdk ntools => rfl
  | loadDylinker name =>
    simp only [absorb, toolsOf, List.append_nil]
    split <;> rfl
  | _ => exact (List.append_nil _).symm

/-- Of the build versions the last one is kept, of the legacy commands the first one. -/
theorem absorbed_minOs : (absorbed data commands).minOs =
    (commands.filterMap buildMinOs).getLast?.or (commands.filterMap legacyMinOs).head? :=
  foldl_prefers absorb_minOs Absorbed.empty

theorem absorbed_buildTools : (absorbed data commands).buildTools = commands.flatMap (toolsOf data) :=
  foldl_collects absorb_buildTools Absorbed.empty

end

theorem ends_or_iff {α : Type} (items : List α) (rest : Option α) :
    items.getLast?.or rest = items.head?.or rest ↔ items.getLast? = items.head? := by
  cases items with
  | nil => exact iff_of_true rfl rfl
  | cons a items => rw [List.getLast?_cons, List.head?_cons, Option.some_or, Option.some_or]

/-- Commands of other kinds may stand anywhere, but of several build versions the last one wins: the minimum version is the
    documented one exactly where the last build version says what the first one does. -/
theorem minOs_first_iff (data : Slice) (commands : List PlacedCommand) :
    (∀ others : List PlacedCommand, others.filterMap buildMinOs = commands.filterMap buildMinOs →
      others.filterMap legacyMinOs = commands.filterMap legacyMinOs →
        (absorbed data others).minOs = (absorbed data commands).minOs) ∧
    ((absorbed data commands).minOs = firstMinOs commands ↔
      (commands.filterMap buildMinOs).getLast? = (commands.filterMap buildMinOs).head?) := by
  refine ⟨fun others builds legacies => ?_, ?_⟩
  · rw [absorbed_minOs, absorbed_minOs, builds, legacies]
  · rw [absorbed_minOs, firstMinOs]
    exact ends_or_iff _ _

/-- A zippered image: macOS 11.0 first, and then Mac Catalyst 14.0. -/
def zippered : List PlacedCommand :=
  [⟨32, 24, .buildVersion 1 0x000b_0000 0x000b_0000 0⟩, ⟨56, 24, .buildVersion 6 0x000e_0000 0x000e_0000 0⟩]

theorem zippered_takes_last : (absorbed Slice.empty zippered).minOs = some ⟨6, ⟨14, 0, 0⟩⟩ ∧
    (absorbed Slice.empty zippered).minOs ≠ firstMinOs zippered := by
  decide

section

variable {data : Slice} {base i : Nat} {tool : BuildTool}

theorem readBuildTool_some (read : readBuildTool data base i = some tool) :
    readU32LeAt data (base + i * sizeofBuildToolVersion) = some tool.tool ∧
      (readU32LeAt data (base + i * sizeofBuildToolVersion + 4)).map Version.fromPackedU32 = some tool.version := by
  simp only [readBuildTool, Option.bind_eq_bind, Option.bind_eq_some_iff] at read
  rcases read with ⟨stride, product, off, sum, offVer, sum', number, first, packed, second, same⟩
  cases same
  rw [checkedMulUsize_some product] at sum
  rw [checkedAddUsize_some sum] at first sum'
  rw [checkedAddUsize_some sum'] at second
  exact ⟨first, by rw [second]; rfl⟩

theorem readBuildTool_isSome :
    (readBuildTool data base i).isSome = true ↔ base + (i + 1) * sizeofBuildToolVersion ≤ data.length := by
  have size : (i + 1) * sizeofBuildToolVersion = i * sizeofBuildToolVersion + 8 := Nat.succ_mul i 8
  rw [size]
  constructor
  · intro read
    rcases Option.isSome_iff_exists.mp read with ⟨tool, read⟩
    rcases Option.map_eq_some_iff.mp (readBuildTool_some read).2 with ⟨packed, second, -⟩
    have room := (readAt_some second).1
    omega
  · intro room
    have bound := data.length_lt
    have product : checkedMulUsize i sizeofBuildToolVersion = some (i * sizeofBuildToolVersion) := if_pos (by omega)
    have sum : checkedAddUsize base (i * sizeofBuildToolVersion) = some (base + i * sizeofBuildToolVersion) :=
      checkedAddUsize_of_lt (by omega)
    have sum' : checkedAddUsize (base + i * sizeofBuildToolVersion) 4 = some (base + i * sizeofBuildToolVersion + 4) :=
      checkedAddUsize_of_lt (by omega)
    have first : readU32LeAt data (base + i * sizeofBuildToolVersion) = some _ := readAt_of_le (by omega)
    have second : readU32LeAt data (base + i * sizeofBuildToolVersion + 4) = some _ := readAt_of_le (by omega)
    simp only [readBuildTool, product, sum, sum', first, second, Option.bind_eq_bind, Option.bind_some, Option.isSome_some]

theorem readBuildTools_getElem_iff {offset : Nat} {ntools : U32} : (readBuildTools data offset ntools)[i]? = some tool ↔
    i < ntools.toNat ∧ readBuildTool data (offset + sizeofBuildVersionCommand) i = some tool := by
  have bound := data.length_lt
  constructor
  · intro found
    unfold readBuildTools at found
    cases sum : checkedAddUsize offset sizeofBuildVersionCommand with
    | none =>
      rw [sum] at found
      cases found
    | some base =>
      rw [sum] at found
      rcases rows_getElem (fun i => Row.ofOption_ne_skip _) found with ⟨early, turn⟩
      rw [← checkedAddUsize_some sum]
      exact ⟨early, Row.ofOption_eq_yield.mp turn⟩
  · rintro ⟨early, read⟩
    have room := readBuildTool_isSome.mp (by rw [read]; rfl)
    have sum : checkedAddUsize offset sizeofBuildVersionCommand = some (offset + sizeofBuildVersionCommand) :=
      checkedAddUsize_of_lt (by omega)
    rw [readBuildTools, sum]
    refine (rows_getElem_iff fun i => Row.ofOption_ne_skip _).mpr ⟨early, Row.ofOption_eq_yield.mpr read, fun j before => ?_⟩
    have nearer := Nat.mul_le_mul_right sizeofBuildToolVersion (by omega : j + 1 ≤ i + 1)
    exact Row.ofOption_ne_stop.mpr (readBuildTool_isSome.mpr (by omega))

theorem toolsOf_getElem_iff {lc : PlacedCommand} : (toolsOf data lc)[i]? = some tool ↔
    i < declaredTools lc ∧ readBuildTool data (lc.offset + sizeofBuildVersionCommand) i = some tool := by
  rcases lc with ⟨offset, cmdsize, command⟩
  cases command with
  | buildVersion platform minos sdk ntools => exact readBuildTools_getElem_iff
  | _ => exact iff_of_false nofun fun found => Nat.not_lt_zero i found.1

end

/-- The tools are bounded by the end of the data only, so they are those of their own commands exactly where no command has
    more of them declared and in the data than it has room for. -/
theorem toolsInside_iff (data : Slice) (commands : List PlacedCommand) : ToolsInside data commands ↔
    ∀ lc ∈ commands, min (declaredTools lc) ((data.length - (lc.offset + sizeofBuildVersionCommand)) /
      sizeofBuildToolVersion) ≤
      (lc.cmdsize.toNat - sizeofBuildVersionCommand) / sizeofBuildToolVersion := by
  have size : 0 < sizeofBuildToolVersion := by decide
  constructor
  · intro within lc member
    rw [← forall_lt_min_iff]
    intro i early inData
    rw [← row_fits_iff size, ← readBuildTool_isSome] at inData
    rcases Option.isSome_iff_exists.mp inData with ⟨tool, read⟩
    rw [← row_fits_iff size]
    exact within.inside lc member i tool (toolsOf_getElem_iff.mpr ⟨early, read⟩)
  · intro room
    refine ⟨absorbed_buildTools, fun lc member i tool found => readBuildTool_some (toolsOf_getElem_iff.mp found).2, ?_⟩
    intro lc member i tool found
    rcases toolsOf_getElem_iff.mp found with ⟨early, read⟩
    have inData := readBuildTool_isSome.mp (by rw [read]; rfl)
    rw [row_fits_iff size] at inData ⊢
    exact forall_lt_min_iff.mpr (room lc member) i early inData

/-- An `LC_BUILD_VERSION` of 24 bytes that declares one tool, and eight bytes of a command behind it. -/
def greedy : PlacedCommand := ⟨0, 24, .buildVersion 1 0x000b_0000 0x000b_0000 1⟩

def greedyData : Slice := ⟨0, List.replicate 24 0 ++ [0x1b, 0, 0, 0, 0x18, 0, 0, 0], by decide⟩

/-- The next command's kind and size are reported as a tool. -/
theorem greedy_reads_next : (absorbed greedyData [greedy]).buildTools = [⟨0x1b, ⟨0, 0, 0x18⟩⟩] ∧
    ¬ ToolsInside greedyData [greedy] := by
  refine ⟨by decide, fun within => ?_⟩
  have room := within.inside greedy List.mem_cons_self 0 ⟨0x1b, ⟨0, 0, 0x18⟩⟩ (by decide)
  exact absurd room (by decide)

end DarwinScope
