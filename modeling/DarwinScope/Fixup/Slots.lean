import DarwinScope.Fixup.Header

namespace DarwinScope

open Machine

abbrev vaMask : U64 := 0x0000_ffff_ffff_ffff

def stripSignature (raw : U64) : U64 := raw &&& vaMask

inductive PacKey where
  | ia
  | ib
  | da
  | db
deriving DecidableEq

def PacKey.fromBits (bits : U8) : PacKey :=
  if bits &&& 3 = 0 then .ia
  else if bits &&& 3 = 1 then .ib
  else if bits &&& 3 = 2 then .da
  else .db

def PacKey.bits : PacKey → BitVec 2
  | .ia => 0
  | .ib => 1
  | .da => 2
  | .db => 3

structure PtrAuth where
  diversity : U16
  addrDiv : Bool
  key : PacKey
deriving DecidableEq

theorem stripSignature_toNat (raw : U64) : (stripSignature raw).toNat = raw.toNat % 2^48 :=
  and_lowMask_toNat raw vaMask 48 rfl

theorem stripSignature_of_lt {raw : U64} (low : raw.toNat < 2^48) : stripSignature raw = raw := by
  apply BitVec.eq_of_toNat_eq
  rw [stripSignature_toNat, Nat.mod_eq_of_lt low]

end DarwinScope

namespace DarwinScope.Fixup

open Machine

structure Rebase where
  segIndex : U32
  segmentOffset : U64
  vmAddress : U64
  targetVmaddr : U64
  rawSlot : U64
  ptrAuth : Option PtrAuth
  high8 : Option U8
  pointerFormat : PointerFormat
deriving DecidableEq

structure Bind where
  segIndex : U32
  segmentOffset : U64
  vmAddress : U64
  importOrdinal : U32
  addend : Int
  name : Str
  dylib : Str
  isWeak : Bool
  ptrAuth : Option PtrAuth
  pointerFormat : PointerFormat
  rawSlot : U64
deriving DecidableEq

inductive Entry where
  | rebase (r : Rebase)
  | bind (b : Bind)
deriving DecidableEq

structure SlotCtx where
  imageBase : U64
  segIndex : U32
  segmentOffset : U64
  vmAddress : U64
  imports : List ChainedImport
  dylibNames : List Str

/-- Positive ordinals count from one; zero and the small negative ones have fixed names. -/
def resolveLibOrdinal (ordinal : Int) (dylibNames : List Str) : Str :=
  if 0 < ordinal then (dylibNames[ordinal.toNat - 1]?).getD (Str.literal "")
  else if ordinal = 0 then Str.literal "self"
  else if ordinal = -1 then Str.literal "main-executable"
  else if ordinal = -2 then Str.literal "flat-namespace"
  else if ordinal = -3 then Str.literal "weak"
  else Str.literal ""

def resolveImport (ordinal : U32) (imports : List ChainedImport) (dylibNames : List Str) :
    Str × Str × Bool × Int :=
  match imports[ordinal.toNat]? with
  | none => (Str.literal "", Str.literal "", false, 0)
  | some row => (row.name, resolveLibOrdinal row.libOrdinal dylibNames, row.weakImport, row.addend)

def extractSigned19 (slot : U64) : Int :=
  let raw := (slot >>> 32) &&& 0x0007_ffff
  if raw &&& 0x0004_0000 ≠ 0 then (raw ||| 0xffff_ffff_fff8_0000).toInt else raw.toInt

def decodeArm64eSlot (slot : U64) (format : PointerFormat) (ctx : SlotCtx) : Option (Entry × U64) :=
  let authBit := (slot >>> 63) &&& 1
  let bindBit := (slot >>> 62) &&& 1
  let next := (slot >>> 51) &&& 0x07ff
  let pa : Option PtrAuth :=
    if authBit ≠ 0 then
      some {
        diversity := ((slot >>> 32) &&& 0xffff).setWidth 16
        addrDiv := decide ((slot >>> 48) &&& 1 ≠ 0)
        key := PacKey.fromBits (((slot >>> 49) &&& 3).setWidth 8)
      }
    else none
  if bindBit = 0 then
    let targetVmaddr :=
      if authBit ≠ 0 then saturatingAdd ctx.imageBase (slot &&& 0xffff_ffff)
      else
        let target := slot &&& 0x0000_07ff_ffff_ffff
        match format with
        | .arm64e => target
        | _ => saturatingAdd ctx.imageBase target
    let high8 : Option U8 := if authBit = 0 then some (((slot >>> 43) &&& 0xff).setWidth 8) else none
    some (.rebase {
      segIndex := ctx.segIndex
      segmentOffset := ctx.segmentOffset
      vmAddress := ctx.vmAddress
      targetVmaddr := targetVmaddr
      rawSlot := slot
      ptrAuth := pa
      high8 := high8
      pointerFormat := format
    }, next)
  else
    let ordinal : U32 :=
      match format with
      | .arm64eUserland24 => (slot &&& 0x00ff_ffff).setWidth 32
      | _ => (slot &&& 0xffff).setWidth 32
    let addendBits : Int := if authBit ≠ 0 then 0 else extractSigned19 slot
    let (name, dylib, isWeak, importAddend) := resolveImport ordinal ctx.imports ctx.dylibNames
    some (.bind {
      segIndex := ctx.segIndex
      segmentOffset := ctx.segmentOffset
      vmAddress := ctx.vmAddress
      importOrdinal := ordinal
      addend := saturatingAddSigned addendBits importAddend
      name := name
      dylib := dylib
      isWeak := isWeak
      ptrAuth := pa
      pointerFormat := format
      rawSlot := slot
    }, next)

def decodePtr64Slot (slot : U64) (format : PointerFormat) (ctx : SlotCtx) : Option (Entry × U64) :=
  let bindBit := (slot >>> 63) &&& 1
  let next := (slot >>> 51) &&& 0x0fff
  if bindBit = 0 then
    let target := slot &&& 0x0000_000f_ffff_ffff
    let high8 : U8 := ((slot >>> 36) &&& 0xff).setWidth 8
    let targetVmaddr := if format = .ptr64Offset then saturatingAdd ctx.imageBase target else target
    some (.rebase {
      segIndex := ctx.segIndex
      segmentOffset := ctx.segmentOffset
      vmAddress := ctx.vmAddress
      targetVmaddr := targetVmaddr
      rawSlot := slot
      ptrAuth := none
      high8 := some high8
      pointerFormat := format
    }, next)
  else
    let ordinal : U32 := (slot &&& 0x00ff_ffff).setWidth 32
    let slotAddend : Int := ((slot >>> 24) &&& 0xff).toNat
    let (name, dylib, isWeak, importAddend) := resolveImport ordinal ctx.imports ctx.dylibNames
    some (.bind {
      segIndex := ctx.segIndex
      segmentOffset := ctx.segmentOffset
      vmAddress := ctx.vmAddress
      importOrdinal := ordinal
      addend := saturatingAddSigned slotAddend importAddend
      name := name
      dylib := dylib
      isWeak := isWeak
      ptrAuth := none
      pointerFormat := format
      rawSlot := slot
    }, next)

def decodeChainEntry (slot : U64) (format : PointerFormat) (ctx : SlotCtx) : Option (Entry × U64) :=
  match format with
  | .ptr64 | .ptr64Offset => decodePtr64Slot slot format ctx
  | .arm64e | .arm64eUserland | .arm64eUserland24 | .arm64eKernel | .arm64eSharedCache =>
    decodeArm64eSlot slot format ctx
  | .other _ => none

structure Site where
  segIndex : U32
  segmentOffset : U64
  vmAddress : U64
  rawSlot : U64
deriving DecidableEq

def Rebase.site (r : Rebase) : Site := ⟨r.segIndex, r.segmentOffset, r.vmAddress, r.rawSlot⟩

def Bind.site (b : Bind) : Site := ⟨b.segIndex, b.segmentOffset, b.vmAddress, b.rawSlot⟩

namespace Entry

def site : Entry → Site
  | rebase r => r.site
  | bind b => b.site

def isBind : Entry → Bool
  | rebase _ => false
  | bind _ => true

def rebase? : Entry → Option Rebase
  | rebase r => some r
  | bind _ => none

def bind? : Entry → Option Bind
  | rebase _ => none
  | bind b => some b

def mark (entry : Entry) : Site × Bool := (entry.site, entry.isBind)

end Entry

theorem rebases_sites (entries : List Entry) :
    (entries.filterMap Entry.rebase?).map Rebase.site =
      ((entries.map Entry.mark).filter fun mark => !mark.2).map Prod.fst := by
  induction entries with
  | nil => rfl
  | cons entry entries ih =>
    cases entry with
    | rebase r => simp [Entry.rebase?, Entry.mark, Entry.isBind, Entry.site, ih]
    | bind b => simp [List.filterMap_cons, Entry.rebase?, Entry.mark, Entry.isBind, ih]

theorem binds_sites (entries : List Entry) :
    (entries.filterMap Entry.bind?).map Bind.site = ((entries.map Entry.mark).filter Prod.snd).map Prod.fst := by
  induction entries with
  | nil => rfl
  | cons entry entries ih =>
    cases entry with
    | rebase r => simp [List.filterMap_cons, Entry.bind?, Entry.mark, Entry.isBind, ih]
    | bind b => simp [Entry.bind?, Entry.mark, Entry.isBind, Entry.site, ih]

/-- The next field of a slot, in strides: 12 bits in the 64-bit formats, 11 in the arm64e ones. -/
def nextField (format : PointerFormat) (slot : U64) : Nat :=
  match format with
  | .ptr64 | .ptr64Offset => slot.toNat / 2^51 % 2^12
  | _ => slot.toNat / 2^51 % 2^11

def bindBit (format : PointerFormat) (slot : U64) : Bool :=
  match format with
  | .ptr64 | .ptr64Offset => decide ((slot >>> 63) &&& 1 ≠ 0)
  | _ => decide ((slot >>> 62) &&& 1 ≠ 0)

theorem decodePtr64Slot_some (slot : U64) (format : PointerFormat) (ctx : SlotCtx) :
    ∃ entry, decodePtr64Slot slot format ctx = some (entry, (slot >>> 51) &&& 0x0fff) ∧
      entry.mark = (⟨ctx.segIndex, ctx.segmentOffset, ctx.vmAddress, slot⟩, decide ((slot >>> 63) &&& 1 ≠ 0)) := by
  unfold decodePtr64Slot
  by_cases rebase : (slot >>> 63) &&& 1 = 0
  · simp only [rebase, if_true]
    exact ⟨_, rfl, rfl⟩
  · simp only [rebase, if_false]
    exact ⟨_, rfl, by simpa [Entry.mark, Entry.site, Bind.site, Entry.isBind] using rebase⟩

theorem decodeArm64eSlot_some (slot : U64) (format : PointerFormat) (ctx : SlotCtx) :
    ∃ entry, decodeArm64eSlot slot format ctx = some (entry, (slot >>> 51) &&& 0x07ff) ∧
      entry.mark = (⟨ctx.segIndex, ctx.segmentOffset, ctx.vmAddress, slot⟩, decide ((slot >>> 62) &&& 1 ≠ 0)) := by
  unfold decodeArm64eSlot
  by_cases rebase : (slot >>> 62) &&& 1 = 0
  · simp only [rebase, if_true]
    exact ⟨_, rfl, rfl⟩
  · simp only [rebase, if_false]
    exact ⟨_, rfl, by simpa [Entry.mark, Entry.site, Bind.site, Entry.isBind] using rebase⟩

theorem decodeChainEntry_some {format : PointerFormat} (supported : format.isSupported = true) (slot : U64)
    (ctx : SlotCtx) :
    ∃ entry next, decodeChainEntry slot format ctx = some (entry, next) ∧ next.toNat = nextField format slot ∧
      entry.mark = (⟨ctx.segIndex, ctx.segmentOffset, ctx.vmAddress, slot⟩, bindBit format slot) := by
  have ptr64 := decodePtr64Slot_some slot format ctx
  have arm64e := decodeArm64eSlot_some slot format ctx
  cases format with
  | ptr64 | ptr64Offset =>
    rcases ptr64 with ⟨entry, decoded, mark⟩
    exact ⟨entry, _, decoded, field_toNat slot 0x0fff 51 12 rfl, mark⟩
  | other raw => cases supported
  | _ =>
    rcases arm64e with ⟨entry, decoded, mark⟩
    exact ⟨entry, _, decoded, field_toNat slot 0x07ff 51 11 rfl, mark⟩

end DarwinScope.Fixup
