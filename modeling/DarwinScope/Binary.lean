import DarwinScope.Fixup.Chains

namespace DarwinScope

open Machine

inductive DylibKind where
  | load
  | loadWeak
  | reexport
  | loadUpward
  | lazyLoad
deriving DecidableEq

structure Version where
  major : U16
  minor : U8
  patch : U8
deriving DecidableEq

def Version.fromPackedU32 (v : U32) : Version :=
  ⟨(v >>> 16).setWidth 16, ((v >>> 8) &&& 0xff).setWidth 8, (v &&& 0xff).setWidth 8⟩

/-- The load commands the walkers read, as the Mach-O parser lists them. -/
inductive LoadCommand where
  | dylib (kind : DylibKind) (offset cmdsize : Nat) (name timestamp currentVersion compatibilityVersion : U32)
  | dyldChainedFixups (dataoff datasize : U32)
  | other
deriving DecidableEq

def readLcStr (data : Slice) (off stop : Nat) : Option Str := do
  let limit := min stop data.length
  let slice ← data.get off limit
  let body := slice.bytes.takeWhile (· ≠ 0#8)
  if validUtf8 body then some ⟨some slice.start, body⟩ else none

structure Dylib where
  name : Str
  kind : DylibKind
  timestamp : U32
  currentVersion : Version
  compatVersion : Version
deriving DecidableEq

def resolveDylibName (data : Slice) (offset cmdsize : Nat) (name : U32) : Option Str := do
  let totalOff ← checkedAddUsize offset name.toNat
  let stop ← checkedAddUsize offset cmdsize
  readLcStr data totalOff stop

def dylibs (data : Slice) (commands : List LoadCommand) : List Dylib :=
  commands.filterMap fun command =>
    match command with
    | .dylib kind offset cmdsize name timestamp currentVersion compatibilityVersion =>
      (resolveDylibName data offset cmdsize name).map fun name => {
        name := name
        kind := kind
        timestamp := timestamp
        currentVersion := Version.fromPackedU32 currentVersion
        compatVersion := Version.fromPackedU32 compatibilityVersion
      }
    | _ => none

open Fixup

structure Section where
  segname : Bytes
  sectname : Bytes
  addr : U64
  size : U64
  body : Slice
deriving DecidableEq

inductive SectionType where
  | regular
  | zeroFill
  | cstringLiterals
  | fourByteLiterals
  | eightByteLiterals
  | literalPointers
  | nonLazySymbolPointers
  | lazySymbolPointers
  | symbolStubs
  | modInitFuncPointers
  | modTermFuncPointers
  | coalesced
  | gbZeroFill
  | interposing
  | sixteenByteLiterals
  | dtraceDof
  | lazyDylibSymbolPointers
  | threadLocalRegular
  | threadLocalZeroFill
  | threadLocalVariables
  | threadLocalVariablePointers
  | threadLocalInitFunctionPointers
  | other (raw : U32)
deriving DecidableEq

namespace SectionType

/-- The types that have a name, by their number. -/
def named : List SectionType :=
  [regular, zeroFill, cstringLiterals, fourByteLiterals, eightByteLiterals, literalPointers, nonLazySymbolPointers,
    lazySymbolPointers, symbolStubs, modInitFuncPointers, modTermFuncPointers, coalesced, gbZeroFill, interposing,
    sixteenByteLiterals, dtraceDof, lazyDylibSymbolPointers, threadLocalRegular, threadLocalZeroFill, threadLocalVariables,
    threadLocalVariablePointers, threadLocalInitFunctionPointers]

def fromRaw (v : U32) : SectionType := named[v.toNat]?.getD (other v)

def isZeroFill (type : SectionType) : Bool :=
  match type with
  | zeroFill | gbZeroFill | threadLocalZeroFill => true
  | _ => false

def number (type : SectionType) : U32 :=
  match type with
  | other raw => raw
  | type => .ofNat 32 (named.idxOf type)

theorem number_named : ∀ i : Fin named.length, named[i].number = .ofNat 32 i := by decide

theorem number_fromRaw (raw : U32) : (fromRaw raw).number = raw := by
  by_cases inside : raw.toNat < named.length
  · have known : named[raw.toNat].number = .ofNat 32 raw.toNat := number_named ⟨raw.toNat, inside⟩
    rw [fromRaw, List.getElem?_eq_getElem inside, Option.getD_some, known, BitVec.ofNat_toNat, BitVec.setWidth_eq]
  · rw [fromRaw, List.getElem?_eq_none (Nat.le_of_not_lt inside)]
    rfl

end SectionType

abbrev sectionTypeMask : U32 := 0x000000ff

def Section.sectionType (flags : U32) : SectionType := SectionType.fromRaw (flags &&& sectionTypeMask)

def Section.attributes (flags : U32) : U32 := flags &&& ~~~sectionTypeMask

/-- The type and the attributes make up the word. -/
theorem Section.flags_split (flags : U32) : (sectionType flags).number ||| attributes flags = flags := by
  have whole : sectionTypeMask ||| ~~~sectionTypeMask = BitVec.allOnes 32 := by decide
  rw [sectionType, attributes, SectionType.number_fromRaw, ← BitVec.and_or_distrib_left, whole, BitVec.and_allOnes]

inductive SymbolKind where
  | undefined
  | absolute
  | section
  | preboundUndefined
  | indirect
  | stab (type : U8)
  | other (type : U8)
deriving DecidableEq

/-- A row of the symbol table, the section number as wide as the Mach-O parser makes it. -/
structure Symbol where
  nType : U8
  nSect : U64
  nDesc : U16

namespace Symbol

variable (symbol : Symbol)

def isStab : Bool := decide (symbol.nType &&& 0xe0 ≠ 0)

def kind : SymbolKind :=
  if symbol.isStab then .stab symbol.nType
  else if symbol.nType &&& 0x0e = 0x0 then .undefined
  else if symbol.nType &&& 0x0e = 0x2 then .absolute
  else if symbol.nType &&& 0x0e = 0xe then .section
  else if symbol.nType &&& 0x0e = 0xc then .preboundUndefined
  else if symbol.nType &&& 0x0e = 0xa then .indirect
  else .other (symbol.nType &&& 0x0e)

def isExternal : Bool := decide (symbol.nType &&& 0x01 ≠ 0)

def isPrivateExternal : Bool := decide (symbol.nType &&& 0x10 ≠ 0)

def isUndefined : Bool := decide (symbol.nType &&& 0x0e = 0x0) && decide (symbol.nSect = 0)

def isWeak : Bool := decide (symbol.nDesc &&& (0x40 ||| 0x80) ≠ 0)

end Symbol

/-- A segment load command. A section that the Mach-O parser rejects is `none`. -/
structure Segment where
  vmaddr : U64
  vmsize : U64
  fileoff : U64
  filesize : U64
  sections : List (Option Section)
deriving DecidableEq

def Segment.range (seg : Segment) : SegmentRange := ⟨seg.vmaddr, seg.vmsize, seg.fileoff, seg.filesize⟩

structure Import where
  name : Str
  dylib : Str
  isLazy : Bool
  isWeak : Bool
  offset : U64
  size : Nat
  address : U64
  addend : Int
  bindOffset : U64
deriving DecidableEq

/-- A parsed Mach-O image. The load commands, the segments and the rows of the legacy bind opcodes are
    what the Mach-O parser hands over; `legacyImports` is `none` when it reports an error. Its strings
    are borrowed from the image or constants of the program. -/
structure MachoBinary where
  data : Slice
  is64 : Bool
  loadCommands : List LoadCommand
  segments : List Segment
  legacyImports : Option (List Import)
  borrowed : ∀ imp ∈ legacyImports.getD [], imp.name.Sound data ∧ imp.dylib.Sound data

namespace MachoBinary

def chainedFixupsCmd (bin : MachoBinary) : Option (U32 × U32) :=
  bin.loadCommands.foldl (fun found command =>
    match command with
    | .dyldChainedFixups dataoff datasize => some (dataoff, datasize)
    | _ => found) none

def sections (bin : MachoBinary) : List Section := bin.segments.flatMap fun seg => seg.sections.filterMap id

def dylibNames (bin : MachoBinary) : List Str := (dylibs bin.data bin.loadCommands).map Dylib.name

def segmentRanges (bin : MachoBinary) : List SegmentRange := bin.segments.map Segment.range

def vmToFileOffset (bin : MachoBinary) (vmaddr : U64) : Option U64 := vmToFileOffsetIn bin.segmentRanges vmaddr

def chainedFixups (bin : MachoBinary) : Option ChainedFixups := do
  let (dataoff, datasize) ← bin.chainedFixupsCmd
  ChainedFixups.parse bin.data dataoff.toNat datasize.toNat

def lowest : List U64 → U64
  | [] => 0
  | first :: rest => rest.foldl (fun least v => if v < least then v else least) first

def imageBase (bin : MachoBinary) : U64 :=
  lowest ((bin.segments.filter fun seg => decide (0 < seg.filesize)).map Segment.vmaddr)

def collectChainedSegments (bin : MachoBinary) (cf : ChainedFixups) : List SegmentLoc × U64 :=
  let locs := cf.segments.filterMap fun chained =>
    (bin.segments[chained.segIndex.toNat]?).map fun seg => {
      chained := chained
      vmaddr := seg.vmaddr
      fileoff := seg.fileoff
      filesize := seg.filesize
    }
  (locs, bin.imageBase)

def chainedRebases (bin : MachoBinary) : List Rebase :=
  match bin.chainedFixups with
  | none => []
  | some cf =>
    let (locs, imageBase) := bin.collectChainedSegments cf
    if locs.isEmpty then [] else buildRebaseIter bin.data locs imageBase

def chainedBinds (bin : MachoBinary) : List Bind :=
  match bin.chainedFixups with
  | none => []
  | some cf =>
    let (locs, imageBase) := bin.collectChainedSegments cf
    if locs.isEmpty then [] else buildBindIter bin.data locs imageBase cf.imports bin.dylibNames

def chainedImport (bin : MachoBinary) (b : Bind) : Import where
  name := b.name
  dylib := b.dylib
  isLazy := false
  isWeak := b.isWeak
  offset := (bin.vmToFileOffset b.vmAddress).getD 0
  size := 8
  address := b.vmAddress
  addend := b.addend
  bindOffset := 0

def imports (bin : MachoBinary) : List Import :=
  bin.legacyImports.getD [] ++ bin.chainedBinds.map bin.chainedImport

end MachoBinary

end DarwinScope
