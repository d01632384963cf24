import DarwinScope.LoadCommands
import DarwinScope.Machine.Layout
import DarwinScope.Machine.Registers

namespace DarwinScope

open Machine

/-- The kinds that the header tells apart: the four legacy commands are one. -/
inductive CommandKind where
  | uuid
  | buildVersion
  | versionMin
  | sourceVersion
  | loadDylinker
  | functionStarts
  | dyldChainedFixups
  | codeSignature
  | other
deriving DecidableEq

def PlacedCommand.kind (lc : PlacedCommand) : CommandKind :=
  match lc.command with
  | .uuid _ => .uuid
  | .buildVersion .. => .buildVersion
  | .versionMin .. => .versionMin
  | .sourceVersion _ => .sourceVersion
  | .loadDylinker _ => .loadDylinker
  | .functionStarts _ => .functionStarts
  | .dyldChainedFixups _ => .dyldChainedFixups
  | .codeSignature _ => .codeSignature
  | .other => .other

def uuidOf (lc : PlacedCommand) : Option Bytes :=
  match lc.command with
  | .uuid uuid => some uuid
  | _ => none

def buildSdk (lc : PlacedCommand) : Option Version :=
  match lc.command with
  | .buildVersion _ _ sdk _ => some (Version.fromPackedU32 sdk)
  | _ => none

/-- The SDK of a legacy command, where zero means that there is none. -/
def legacySdk (lc : PlacedCommand) : Option Version :=
  match lc.command with
  | .versionMin _ _ sdk => if sdk ≠ 0 then some (Version.fromPackedU32 sdk) else none
  | _ => none

def sourceVersionOf (lc : PlacedCommand) : Option SourceVersion :=
  match lc.command with
  | .sourceVersion version => some (SourceVersion.fromPackedU64 version)
  | _ => none

def dylinkerOf (data : Slice) (lc : PlacedCommand) : Option Str :=
  match lc.command with
  | .loadDylinker name =>
    (checkedAddUsize lc.offset name.toNat).bind fun off =>
      (checkedAddUsize lc.offset lc.cmdsize.toNat).bind fun stop => readLcStr data off stop
  | _ => none

def functionStartsOf (lc : PlacedCommand) : Option LinkeditDataCommand :=
  match lc.command with
  | .functionStarts c => some c
  | _ => none

def dyldChainedFixupsOf (lc : PlacedCommand) : Option LinkeditDataCommand :=
  match lc.command with
  | .dyldChainedFixups c => some c
  | _ => none

def codeSignatureOf (lc : PlacedCommand) : Option LinkeditDataCommand :=
  match lc.command with
  | .codeSignature c => some c
  | _ => none

section

variable {data : Slice}

/-- What one command does to the metadata: it replaces what its kind stands for, but a legacy version only fills a gap. -/
theorem absorb_eq (s : Absorbed) (lc : PlacedCommand) : absorb data s lc = {
    uuid := (uuidOf lc).or s.uuid
    minOs := (buildMinOs lc).or (s.minOs.or (legacyMinOs lc))
    sdkVersion := (buildSdk lc).or (s.sdkVersion.or (legacySdk lc))
    sourceVersion := (sourceVersionOf lc).or s.sourceVersion
    buildTools := s.buildTools ++ toolsOf data lc
    dylinker := (dylinkerOf data lc).or s.dylinker
    functionStartsCmd := (functionStartsOf lc).or s.functionStartsCmd
    chainedFixupsCmd := (dyldChainedFixupsOf lc).or s.chainedFixupsCmd
    codeSignatureCmd := (codeSignatureOf lc).or s.codeSignatureCmd } := by
  rcases lc with ⟨offset, cmdsize, command⟩
  rcases s with ⟨uuid, minOs, sdkVersion, sourceVersion, buildTools, dylinker, starts, fixups, signature⟩
  cases command with
  | versionMin cmd version sdk =>
    cases minOs <;> cases sdkVersion <;> by_cases zero : sdk = 0 <;>
      simp [absorb, uuidOf, buildMinOs, legacyMinOs, buildSdk, legacySdk, sourceVersionOf, toolsOf, dylinkerOf,
        functionStartsOf, dyldChainedFixupsOf, codeSignatureOf, zero]
  | loadDylinker name =>
    simp only [absorb, uuidOf, buildMinOs, legacyMinOs, buildSdk, legacySdk, sourceVersionOf, toolsOf, dylinkerOf,
      functionStartsOf, dyldChainedFixupsOf, codeSignatureOf, Option.none_or, Option.or_none, List.append_nil]
    split
    · next path found => rw [found, Option.some_or]
    · next missing => rw [missing, Option.none_or]
  | _ => simp [absorb, uuidOf, buildMinOs, legacyMinOs, buildSdk, legacySdk, sourceVersionOf, toolsOf, dylinkerOf,
      functionStartsOf, dyldChainedFixupsOf, codeSignatureOf]

section

variable {α : Type} {field : Absorbed → Option α} {write : PlacedCommand → Option α}

theorem absorbed_lastWrite (each : ∀ s lc, field (absorb data s lc) = (write lc).or (field s))
    (unset : field Absorbed.empty = none)
    (commands : List PlacedCommand) : field (absorbed data commands) = (commands.filterMap write).getLast? := by
  rw [absorbed, foldl_lastWrite each, unset, Option.or_none]

end

theorem absorbed_eq (commands : List PlacedCommand) : absorbed data commands = {
    uuid := (commands.filterMap uuidOf).getLast?
    minOs := (commands.filterMap buildMinOs).getLast?.or (commands.filterMap legacyMinOs).head?
    sdkVersion := (commands.filterMap buildSdk).getLast?.or (commands.filterMap legacySdk).head?
    sourceVersion := (commands.filterMap sourceVersionOf).getLast?
    buildTools := commands.flatMap (toolsOf data)
    dylinker := (commands.filterMap (dylinkerOf data)).getLast?
    functionStartsCmd := (commands.filterMap functionStartsOf).getLast?
    chainedFixupsCmd := (commands.filterMap dyldChainedFixupsOf).getLast?
    codeSignatureCmd := (commands.filterMap codeSignatureOf).getLast? } := by
  have uuid : (absorbed data commands).uuid = (commands.filterMap uuidOf).getLast? :=
    absorbed_lastWrite (fun s lc => by rw [absorb_eq]) rfl commands
  have sdk : (absorbed data commands).sdkVersion =
      (commands.filterMap buildSdk).getLast?.or (commands.filterMap legacySdk).head? :=
    foldl_prefers (fun s lc => by rw [absorb_eq]) Absorbed.empty
  have source : (absorbed data commands).sourceVersion = (commands.filterMap sourceVersionOf).getLast? :=
    absorbed_lastWrite (fun s lc => by rw [absorb_eq]) rfl commands
  have dylinker : (absorbed data commands).dylinker = (commands.filterMap (dylinkerOf data)).getLast? :=
    absorbed_lastWrite (fun s lc => by rw [absorb_eq]) rfl commands
  have starts : (absorbed data commands).functionStartsCmd = (commands.filterMap functionStartsOf).getLast? :=
    absorbed_lastWrite (fun s lc => by rw [absorb_eq]) rfl commands
  have fixups : (absorbed data commands).chainedFixupsCmd = (commands.filterMap dyldChainedFixupsOf).getLast? :=
    absorbed_lastWrite (fun s lc => by rw [absorb_eq]) rfl commands
  have signature : (absorbed data commands).codeSignatureCmd = (commands.filterMap codeSignatureOf).getLast? :=
    absorbed_lastWrite (fun s lc => by rw [absorb_eq]) rfl commands
  rw [← uuid, ← absorbed_minOs, ← sdk, ← source, ← absorbed_buildTools, ← dylinker, ← starts, ← fixups, ← signature]

/-- A field is written by one kind of command, and a version by two. -/
structure PlacedCommand.Silent (data : Slice) (lc : PlacedCommand) : Prop where
  uuid : lc.kind ≠ .uuid → uuidOf lc = none
  minOs : lc.kind ≠ .buildVersion → buildMinOs lc = none
  sdk : lc.kind ≠ .buildVersion → buildSdk lc = none
  tools : lc.kind ≠ .buildVersion → toolsOf data lc = []
  legacyMinOs : lc.kind ≠ .versionMin → legacyMinOs lc = none
  legacySdk : lc.kind ≠ .versionMin → legacySdk lc = none
  source : lc.kind ≠ .sourceVersion → sourceVersionOf lc = none
  dylinker : lc.kind ≠ .loadDylinker → dylinkerOf data lc = none
  starts : lc.kind ≠ .functionStarts → functionStartsOf lc = none
  fixups : lc.kind ≠ .dyldChainedFixups → dyldChainedFixupsOf lc = none
  signature : lc.kind ≠ .codeSignature → codeSignatureOf lc = none

theorem PlacedCommand.silent (data : Slice) (lc : PlacedCommand) : lc.Silent data := by
  rcases lc with ⟨offset, cmdsize, command⟩
  cases command <;> constructor <;> first | exact fun _ => rfl | exact fun different => absurd rfl different

end

/-- The header does not depend on how the kinds of load commands are mixed, only on the order within each kind. -/
theorem header_of_interleaving (data : Slice) (commands others : List PlacedCommand)
    (same : SameByKind PlacedCommand.kind commands others) : absorbed data commands = absorbed data others := by
  rw [absorbed_eq, absorbed_eq, same.filterMap fun lc => (lc.silent data).uuid,
    same.filterMap fun lc => (lc.silent data).minOs, same.filterMap fun lc => (lc.silent data).sdk,
    same.flatMap fun lc => (lc.silent data).tools,
    same.filterMap fun lc => (lc.silent data).legacyMinOs, same.filterMap fun lc => (lc.silent data).legacySdk,
    same.filterMap fun lc => (lc.silent data).source, same.filterMap fun lc => (lc.silent data).dylinker,
    same.filterMap fun lc => (lc.silent data).starts, same.filterMap fun lc => (lc.silent data).fixups,
    same.filterMap fun lc => (lc.silent data).signature]

def spreadCommands : List PlacedCommand :=
  [⟨32, 24, .uuid (List.replicate 16 1)⟩, ⟨56, 24, .buildVersion 1 0x000b_0000 0x000b_0000 0⟩,
    ⟨80, 24, .uuid (List.replicate 16 2)⟩]

def gatheredCommands : List PlacedCommand :=
  [⟨56, 24, .buildVersion 1 0x000b_0000 0x000b_0000 0⟩, ⟨32, 24, .uuid (List.replicate 16 1)⟩,
    ⟨80, 24, .uuid (List.replicate 16 2)⟩]

theorem header_of_interleaving_two : absorbed Slice.empty spreadCommands = absorbed Slice.empty gatheredCommands := by
  apply header_of_interleaving
  intro kind
  cases kind <;> rfl

end DarwinScope
