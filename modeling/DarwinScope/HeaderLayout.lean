import DarwinScope.Header
import DarwinScope.Machine.BitFields

namespace DarwinScope

open Machine

def Version.fields (v : Version) : List BitField := [⟨8, v.patch⟩, ⟨8, v.minor⟩, ⟨16, v.major⟩]

def Version.packed (v : Version) : U32 := packedIn 32 v.fields

structure SourceNumbers where
  a : BitVec 24
  b : BitVec 10
  c : BitVec 10
  d : BitVec 10
  e : BitVec 10
deriving DecidableEq

namespace SourceNumbers

variable (v : SourceNumbers)

def fields : List BitField := [⟨10, v.e⟩, ⟨10, v.d⟩, ⟨10, v.c⟩, ⟨10, v.b⟩, ⟨24, v.a⟩]

def packed : U64 := packedIn 64 v.fields

def version : SourceVersion := ⟨v.a.setWidth 32, v.b.setWidth 16, v.c.setWidth 16, v.d.setWidth 16, v.e.setWidth 16⟩

end SourceNumbers

theorem Version.fromPackedU32_packed (v : Version) : Version.fromPackedU32 v.packed = v := by
  have major : (v.packed >>> 16).toNat = v.major.toNat := packedIn_shift [_, _] v.major rfl rfl rfl
  have minor : ((v.packed >>> 8) &&& 0xff).toNat = v.minor.toNat := packedIn_shift_and [_] [_] v.minor 0xff rfl rfl rfl rfl
  have patch : (v.packed &&& 0xff).toNat = v.patch.toNat := packedIn_and [_, _] v.patch 0xff rfl rfl rfl
  rcases v with ⟨a, b, c⟩
  rw [Version.fromPackedU32, Version.mk.injEq]
  refine ⟨?_, ?_, ?_⟩
  · exact setWidth_of_toNat major
  · exact setWidth_of_toNat minor
  · exact setWidth_of_toNat patch

theorem Version.packed_eq_zero {v : Version} : v.packed = 0 ↔ v = ⟨0, 0, 0⟩ := by
  constructor
  · intro zero
    rw [← Version.fromPackedU32_packed v, zero]
    rfl
  · rintro rfl
    rfl

theorem SourceNumbers.fromPackedU64_packed (v : SourceNumbers) : SourceVersion.fromPackedU64 v.packed = v.version := by
  have a : ((v.packed >>> 40) &&& 0x00ff_ffff).toNat = v.a.toNat := packedIn_shift_and [_, _, _, _] [] v.a _ rfl rfl rfl rfl
  have b : ((v.packed >>> 30) &&& 0x3ff).toNat = v.b.toNat := packedIn_shift_and [_, _, _] [_] v.b _ rfl rfl rfl rfl
  have c : ((v.packed >>> 20) &&& 0x3ff).toNat = v.c.toNat := packedIn_shift_and [_, _] [_, _] v.c _ rfl rfl rfl rfl
  have d : ((v.packed >>> 10) &&& 0x3ff).toNat = v.d.toNat := packedIn_shift_and [_] [_, _, _] v.d _ rfl rfl rfl rfl
  have e : (v.packed &&& 0x3ff).toNat = v.e.toNat := packedIn_and [_, _, _, _] v.e _ rfl rfl rfl
  rw [SourceVersion.fromPackedU64, SourceNumbers.version, SourceVersion.mk.injEq]
  exact ⟨widened a, widened b, widened c, widened d, widened e⟩

structure CommandPlace where
  offset : Nat
  cmdsize : U32
  textOff : U32

def CommandPlace.str (data : Slice) (place : CommandPlace) (text : Bytes) : Str :=
  ⟨some (data.start + (place.offset + place.textOff.toNat)), text⟩

/-- A text fills its load command up to the end, padded with zeros, if need be. -/
structure TextStored (data : Slice) (place : CommandPlace) (text : Bytes) : Prop where
  inside : place.offset + place.cmdsize.toNat ≤ data.length
  padded : ∃ zeros, place.textOff.toNat + text.length + zeros = place.cmdsize.toNat ∧
    data.Holds (place.offset + place.textOff.toNat) (text ++ List.replicate zeros 0#8)
  valid : validUtf8 text = true
  clean : 0#8 ∉ text

section

variable {data : Slice} {place : CommandPlace}

theorem TextStored.read {text : Bytes} (stored : TextStored data place text) :
    readLcStr data (place.offset + place.textOff.toNat) (place.offset + place.cmdsize.toNat) =
      some (place.str data text) := by
  have inside := stored.inside
  rcases stored.padded with ⟨zeros, size, holds⟩
  have limit : min (place.offset + place.cmdsize.toNat) data.length = place.offset + place.cmdsize.toNat :=
    Nat.min_eq_left inside
  have window := holds.window
  rcases Slice.get_of_le (by omega : place.offset + place.textOff.toNat ≤ place.offset + place.cmdsize.toNat) inside with
    ⟨part, found, start, bytes⟩
  have length : place.offset + place.cmdsize.toNat - (place.offset + place.textOff.toNat) =
      (text ++ List.replicate zeros 0#8).length := by
    rw [List.length_append, List.length_replicate]
    omega
  rw [length, window] at bytes
  have body : part.bytes.takeWhile (· ≠ 0#8) = text := by
    rw [bytes, List.takeWhile_append_of_pos]
    · cases zeros <;> simp [List.replicate_succ]
    · intro byte member
      have nonzero : byte ≠ 0#8 := fun zero => stored.clean (zero ▸ member)
      simpa using nonzero
  simp only [readLcStr, limit, found, Option.bind_eq_bind, Option.bind_some, body, stored.valid, if_true]
  rw [start]
  rfl

theorem TextStored.resolve {text : Bytes} (stored : TextStored data place text) :
    ((checkedAddUsize place.offset place.textOff.toNat).bind fun off =>
      (checkedAddUsize place.offset place.cmdsize.toNat).bind fun stop => readLcStr data off stop) =
      some (place.str data text) := by
  have inside := stored.inside
  have bound := data.length_lt
  rcases stored.padded with ⟨zeros, size, -⟩
  rw [checkedAddUsize_of_lt (by omega), checkedAddUsize_of_lt (by omega), Option.bind_some, Option.bind_some, stored.read]

end

def BuildTool.encode (t : BuildTool) : Bytes := leBytes 4 t.tool.toNat ++ leBytes 4 t.version.packed.toNat

section

variable {data : Slice} {base i : Nat} {tool : BuildTool} {tools : List BuildTool}

theorem BuildTool.encode_length (t : BuildTool) : t.encode.length = sizeofBuildToolVersion := by
  rw [encode, List.length_append, leBytes_length, leBytes_length]

theorem readBuildTool_stored (holds : data.Holds (base + sizeofBuildToolVersion * i) tool.encode) :
    readBuildTool data base i = some tool := by
  have bound := data.length_lt
  have inside := holds.inside (by rw [BuildTool.encode_length]; decide)
  rw [BuildTool.encode_length] at inside
  rw [Nat.mul_comm] at holds inside
  have product : checkedMulUsize i sizeofBuildToolVersion = some (i * sizeofBuildToolVersion) := if_pos (by omega)
  have sum : checkedAddUsize base (i * sizeofBuildToolVersion) = some (base + i * sizeofBuildToolVersion) :=
    checkedAddUsize_of_lt (by omega)
  have sum' : checkedAddUsize (base + i * sizeofBuildToolVersion) 4 = some (base + i * sizeofBuildToolVersion + 4) :=
    checkedAddUsize_of_lt (by omega)
  have first : readU32LeAt data (base + i * sizeofBuildToolVersion) = some tool.tool :=
    readAt_leBytes_of_holds (by decide) (by decide) holds.left
  have second : readU32LeAt data (base + i * sizeofBuildToolVersion + 4) = some tool.version.packed :=
    readAt_leBytes_of_holds (by decide) (by decide) holds.right
  simp only [readBuildTool, product, sum, sum', first, second, Option.bind_eq_bind, Option.bind_some,
    Version.fromPackedU32_packed]

theorem readBuildTools_stored {offset : Nat} (few : tools.length < 2^32)
    (holds : data.Holds (offset + sizeofBuildVersionCommand) (tools.flatMap BuildTool.encode)) :
    readBuildTools data offset (BitVec.ofNat 32 tools.length) = tools := by
  have count : (BitVec.ofNat 32 tools.length).toNat = tools.length := toNat_ofNat_of_lt few
  have read : ∀ j tool, tools[j]? = some tool → readBuildTool data (offset + sizeofBuildVersionCommand) j = some tool :=
    fun j tool at? => readBuildTool_stored (holds.entry (fun t _ => t.encode_length) at?)
  apply List.ext_getElem?
  intro j
  apply Option.ext
  intro tool
  rw [readBuildTools_getElem_iff, count]
  constructor
  · rintro ⟨early, found⟩
    have at? := List.getElem?_eq_getElem early
    rw [at?, ← found, read j _ at?]
  · intro at?
    exact ⟨(List.getElem?_eq_some_iff.mp at?).1, read j tool at?⟩

end

inductive CommandData where
  | uuid (uuid : Bytes)
  | buildVersion (platform : U32) (minos sdk : Version) (tools : List BuildTool)
  | versionMin (cmd : U32) (version sdk : Version)
  | sourceVersion (version : SourceNumbers)
  | loadDylinker (path : Bytes)
  | dylib (kind : DylibKind) (name : Bytes) (timestamp : U32) (current compat : Version)
  | functionStarts (c : LinkeditDataCommand)
  | dyldChainedFixups (c : LinkeditDataCommand)
  | codeSignature (c : LinkeditDataCommand)
  | other

namespace CommandData

def placed (place : CommandPlace) (c : CommandData) : PlacedCommand where
  offset := place.offset
  cmdsize := place.cmdsize
  command :=
    match c with
    | .uuid u => .uuid u
    | .buildVersion platform minos sdk tools => .buildVersion platform minos.packed sdk.packed (BitVec.ofNat 32 tools.length)
    | .versionMin cmd version sdk => .versionMin cmd version.packed sdk.packed
    | .sourceVersion version => .sourceVersion version.packed
    | .loadDylinker _ => .loadDylinker place.textOff
    | .functionStarts c => .functionStarts c
    | .dyldChainedFixups c => .dyldChainedFixups c
    | .codeSignature c => .codeSignature c
    | .dylib .. | .other => .other

def listed (place : CommandPlace) : CommandData → LoadCommand
  | .dylib kind _ timestamp current compat =>
    .dylib kind place.offset place.cmdsize.toNat place.textOff timestamp current.packed compat.packed
  | .dyldChainedFixups c => .dyldChainedFixups c.dataoff c.datasize
  | _ => .other

/-- What stands in the image behind the fixed part of the command. The fixed part itself is handed over as parsed. -/
def Stored (data : Slice) (place : CommandPlace) : CommandData → Prop
  | .buildVersion _ _ _ tools =>
    tools.length < 2^32 ∧ data.Holds (place.offset + sizeofBuildVersionCommand) (tools.flatMap BuildTool.encode)
  | .loadDylinker path => TextStored data place path
  | .dylib _ name _ _ _ => TextStored data place name
  | _ => True

def uuid? : CommandData → Option Bytes
  | .uuid u => some u
  | _ => none

def minOs? : CommandData → Option MinOsVersion
  | .buildVersion platform minos _ _ => some ⟨platform, minos⟩
  | _ => none

def legacyMinOs? : CommandData → Option MinOsVersion
  | .versionMin cmd version _ => some ⟨versionMinPlatform cmd, version⟩
  | _ => none

def sdk? : CommandData → Option Version
  | .buildVersion _ _ sdk _ => some sdk
  | _ => none

def legacySdk? : CommandData → Option Version
  | .versionMin _ _ sdk => if sdk = ⟨0, 0, 0⟩ then none else some sdk
  | _ => none

def source? : CommandData → Option SourceVersion
  | .sourceVersion version => some version.version
  | _ => none

def tools : CommandData → List BuildTool
  | .buildVersion _ _ _ tools => tools
  | _ => []

def dylinker? (data : Slice) (place : CommandPlace) : CommandData → Option Str
  | .loadDylinker path => some (place.str data path)
  | _ => none

def starts? : CommandData → Option LinkeditDataCommand
  | .functionStarts c => some c
  | _ => none

def fixups? : CommandData → Option LinkeditDataCommand
  | .dyldChainedFixups c => some c
  | _ => none

def signature? : CommandData → Option LinkeditDataCommand
  | .codeSignature c => some c
  | _ => none

def dylib? (data : Slice) (place : CommandPlace) : CommandData → Option Dylib
  | .dylib kind name timestamp current compat => some ⟨place.str data name, kind, timestamp, current, compat⟩
  | _ => none

structure Read (data : Slice) (place : CommandPlace) (c : CommandData) : Prop where
  uuid : uuidOf (c.placed place) = c.uuid?
  minOs : buildMinOs (c.placed place) = c.minOs?
  legacyMinOs : legacyMinOs (c.placed place) = c.legacyMinOs?
  sdk : buildSdk (c.placed place) = c.sdk?
  legacySdk : legacySdk (c.placed place) = c.legacySdk?
  source : sourceVersionOf (c.placed place) = c.source?
  tools : toolsOf data (c.placed place) = c.tools
  dylinker : dylinkerOf data (c.placed place) = c.dylinker? data place
  starts : functionStartsOf (c.placed place) = c.starts?
  fixups : dyldChainedFixupsOf (c.placed place) = c.fixups?
  signature : codeSignatureOf (c.placed place) = c.signature?
  dylib : dylibs data [c.listed place] = (c.dylib? data place).toList

theorem Stored.read {data : Slice} {place : CommandPlace} {c : CommandData} (stored : c.Stored data place) :
    c.Read data place := by
  cases c with
  | buildVersion platform minos sdk tools =>
    constructor <;> try rfl
    · simp [placed, buildMinOs, minOs?, Version.fromPackedU32_packed]
    · simp [placed, buildSdk, sdk?, Version.fromPackedU32_packed]
    · exact readBuildTools_stored stored.1 stored.2
  | versionMin cmd version sdk =>
    constructor <;> try rfl
    · simp [placed, DarwinScope.legacyMinOs, legacyMinOs?, Version.fromPackedU32_packed]
    · simp only [placed, DarwinScope.legacySdk, legacySdk?, Version.fromPackedU32_packed, ne_eq, Version.packed_eq_zero,
        ite_not]
  | sourceVersion version =>
    constructor <;> try rfl
    simp [placed, sourceVersionOf, source?, SourceNumbers.fromPackedU64_packed]
  | loadDylinker path =>
    constructor <;> try rfl
    exact stored.resolve
  | dylib kind name timestamp current compat =>
    constructor <;> try rfl
    have name := stored.resolve
    simp only [listed, dylibs, resolveDylibName, Option.bind_eq_bind, List.filterMap_cons, List.filterMap_nil]
    rw [name]
    simp [dylib?, Version.fromPackedU32_packed]
  | _ => constructor <;> rfl

end CommandData

section

variable {data : Slice} {area : List (CommandPlace × CommandData)}

theorem filterMap_placed {α : Type} {read : PlacedCommand → Option α} {record : CommandPlace × CommandData → Option α}
    (each : ∀ item ∈ area, read (item.2.placed item.1) = record item) :
    (area.map fun item => item.2.placed item.1).filterMap read = area.filterMap record := by
  rw [List.filterMap_map]
  exact List.filterMap_congr each

theorem dylibs_cons (command : LoadCommand) (commands : List LoadCommand) :
    dylibs data (command :: commands) = dylibs data [command] ++ dylibs data commands :=
  List.filterMap_append (l := [command])

theorem dylibs_stored (stored : ∀ item ∈ area, item.2.Stored data item.1) :
    dylibs data (area.map fun item => item.2.listed item.1) = area.filterMap fun item => item.2.dylib? data item.1 := by
  induction area with
  | nil => rfl
  | cons item rest ih =>
    have first := (stored item List.mem_cons_self).read.dylib
    have others := ih fun other member => stored other (List.mem_cons_of_mem item member)
    rw [List.map_cons, dylibs_cons, first, others]
    cases row : item.2.dylib? data item.1 with
    | none => simp only [List.filterMap_cons, row, Option.toList_none, List.nil_append]
    | some d => simp only [List.filterMap_cons, row, Option.toList_some, List.singleton_append]

end

/-- What the commands of an area record of the image: the last command of a kind counts, but of the legacy versions the first
    one, and only where no build version stands. -/
def recorded (data : Slice) (area : List (CommandPlace × CommandData)) : Absorbed where
  uuid := (area.filterMap fun item => item.2.uuid?).getLast?
  minOs := (area.filterMap fun item => item.2.minOs?).getLast?.or (area.filterMap fun item => item.2.legacyMinOs?).head?
  sdkVersion := (area.filterMap fun item => item.2.sdk?).getLast?.or (area.filterMap fun item => item.2.legacySdk?).head?
  sourceVersion := (area.filterMap fun item => item.2.source?).getLast?
  buildTools := area.flatMap fun item => item.2.tools
  dylinker := (area.filterMap fun item => item.2.dylinker? data item.1).getLast?
  functionStartsCmd := (area.filterMap fun item => item.2.starts?).getLast?
  chainedFixupsCmd := (area.filterMap fun item => item.2.fixups?).getLast?
  codeSignatureCmd := (area.filterMap fun item => item.2.signature?).getLast?

/-- An area of parsed load commands is read back: the header has what they record, with the tools and texts that stand in
    the image, and the walk over the dylibs has one row for each of them. -/
theorem header_roundTrip (data : Slice) (area : List (CommandPlace × CommandData))
    (stored : ∀ item ∈ area, item.2.Stored data item.1) :
    absorbed data (area.map fun item => item.2.placed item.1) = recorded data area ∧
      dylibs data (area.map fun item => item.2.listed item.1) = area.filterMap fun item => item.2.dylib? data item.1 := by
  have read := fun item member => (stored item member).read
  have tools : (area.map fun item => item.2.placed item.1).flatMap (toolsOf data) =
      area.flatMap fun item => item.2.tools := by
    rw [List.flatMap_map]
    exact List.flatMap_congr fun item member => (read item member).tools
  refine ⟨?_, dylibs_stored stored⟩
  rw [absorbed_eq, filterMap_placed fun item member => (read item member).uuid,
    filterMap_placed fun item member => (read item member).minOs,
    filterMap_placed fun item member => (read item member).legacyMinOs,
    filterMap_placed fun item member => (read item member).sdk,
    filterMap_placed fun item member => (read item member).legacySdk,
    filterMap_placed fun item member => (read item member).source,
    filterMap_placed fun item member => (read item member).dylinker,
    filterMap_placed fun item member => (read item member).starts,
    filterMap_placed fun item member => (read item member).fixups,
    filterMap_placed fun item member => (read item member).signature, tools]
  rfl

/-- A legacy version, then a build version with one tool, the dynamic linker, and a dylib whose name fills its command. -/
def smallArea : List (CommandPlace × CommandData) :=
  [(⟨0, 16, 0⟩, .versionMin lcVersionMinMacosx ⟨10, 14, 0⟩ ⟨10, 15, 2⟩),
    (⟨16, 32, 0⟩, .buildVersion platformMacos ⟨11, 0, 0⟩ ⟨14, 5, 2⟩ [⟨3, ⟨1053, 12, 0⟩⟩]),
    (⟨48, 32, 12⟩, .loadDylinker (lit "/usr/lib/dyld")),
    (⟨80, 32, 24⟩, .dylib .load (lit "libA.dyl") 2 ⟨1, 2, 3⟩ ⟨1, 0, 0⟩)]

def smallAreaData : Slice :=
  ⟨0, List.replicate 40 0 ++ (BuildTool.encode ⟨3, ⟨1053, 12, 0⟩⟩ ++ (List.replicate 12 0 ++ (lit "/usr/lib/dyld" ++
    (List.replicate 31 0 ++ lit "libA.dyl")))), by decide +kernel⟩

theorem smallArea_stored : ∀ item ∈ smallArea, item.2.Stored smallAreaData item.1 := by
  intro item member
  simp only [smallArea, List.mem_cons, List.not_mem_nil, or_false] at member
  rcases member with rfl | rfl | rfl | rfl
  · trivial
  · exact ⟨by decide, by decide +kernel⟩
  · exact ⟨by decide +kernel, ⟨7, by decide, by decide +kernel⟩, by decide, by decide⟩
  · exact ⟨by decide +kernel, ⟨0, by decide, by decide +kernel⟩, by decide, by decide⟩

theorem header_roundTrip_small :
    absorbed smallAreaData (smallArea.map fun item => item.2.placed item.1) = recorded smallAreaData smallArea ∧
      dylibs smallAreaData (smallArea.map fun item => item.2.listed item.1) =
        smallArea.filterMap fun item => item.2.dylib? smallAreaData item.1 :=
  header_roundTrip smallAreaData smallArea smallArea_stored

end DarwinScope
