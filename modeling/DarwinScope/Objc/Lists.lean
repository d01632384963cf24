import DarwinScope.Objc.Runtime

namespace DarwinScope.Objc

open Machine

structure ListLayout where
  baseVa : U64
  entsize : U32
  count : U32
deriving DecidableEq

/-- One turn over the entries of a list: an entry that does not decode is passed by, an address that
    overflows ends the iterator. -/
def entryRow {α : Type} (decode : U64 → Option α) (layout : ListLayout) (i : Nat) : Row α :=
  match (checkedMul (BitVec.ofNat 64 i) (layout.entsize.setWidth 64)).bind (checkedAdd layout.baseVa) with
  | none => .stop
  | some entryVa =>
    match decode entryVa with
    | some entry => .yield entry
    | none => .skip

def listRows {α : Type} (decode : U64 → Option α) (layout : ListLayout) : List α :=
  rows (entryRow decode layout) layout.count.toNat

theorem listRows_map {α β : Type} (f : α → β) (decode : U64 → Option α) (layout : ListLayout) :
    listRows (fun va => (decode va).map f) layout = (listRows decode layout).map f := by
  unfold listRows
  rw [← rows_map]
  congr 1
  funext i
  unfold entryRow
  cases (checkedMul (BitVec.ofNat 64 i) (layout.entsize.setWidth 64)).bind (checkedAdd layout.baseVa) with
  | none => rfl
  | some entryVa =>
    dsimp only
    cases decode entryVa with
    | none => rfl
    | some entry => rfl

def listHeader (rt : ObjcRuntime) (listVa : U64) : Option (U32 × U32) := do
  let header ← rt.readBytes listVa 8
  let entsizeAndFlags ← readU32LeAt header 0
  let count ← readU32LeAt header 4
  some (entsizeAndFlags, count)

abbrev methodListFlagMask : U32 := 0xffff0003
abbrev smallMethodListFlag : U32 := 0x80000000
abbrev relativeMethodSelectorsAreDirectFlag : U32 := 0x40000000

inductive MethodKind where
  | legacy
  | smallIndirect
  | smallDirect
deriving DecidableEq

structure Method where
  selector : Str
  types : Str
  imp : Option U64
  kind : MethodKind
deriving DecidableEq

def decodeLegacyMethod (rt : ObjcRuntime) (entryVa : U64) : Option Method := do
  let _ ← rt.readBytes entryVa 24
  let selVa ← rt.resolvePointer entryVa
  let typesVa ← rt.requiredField entryVa 8
  let impVa ← rt.pointerField entryVa 16
  let selector ← rt.readCstr selVa
  some {
    selector := selector
    types := (rt.readCstr typesVa).getD (Str.literal "")
    imp := if impVa = 0 then none else some impVa
    kind := .legacy
  }

def decodeSmallMethod (rt : ObjcRuntime) (entryVa : U64) (directSelectors : Bool) : Option Method := do
  let bytes ← rt.readBytes entryVa 12
  let nameOff ← readI32LeAt bytes 0
  let typesOff ← readI32LeAt bytes 4
  let impOff ← readI32LeAt bytes 8
  let typesSlotVa ← checkedAdd entryVa 4
  let impSlotVa ← checkedAdd entryVa 8
  let nameTarget := relativePointer entryVa nameOff
  let selector ←
    if directSelectors then rt.readCstr nameTarget else (rt.resolvePointer nameTarget).bind rt.readCstr
  some {
    selector := selector
    types := (rt.readCstr (relativePointer typesSlotVa typesOff)).getD (Str.literal "")
    imp := if impOff = 0 then none else some (stripSignature (relativePointer impSlotVa impOff))
    kind := if directSelectors then .smallDirect else .smallIndirect
  }

def decodeMethod (rt : ObjcRuntime) (kind : MethodKind) (entryVa : U64) : Option Method :=
  match kind with
  | .legacy => decodeLegacyMethod rt entryVa
  | .smallIndirect => decodeSmallMethod rt entryVa false
  | .smallDirect => decodeSmallMethod rt entryVa true

def methodLayout (listVa : U64) (entsizeAndFlags count : U32) : Option (ListLayout × MethodKind) :=
  let entsize := entsizeAndFlags &&& ~~~methodListFlagMask
  if entsize = 0 then none
  else
    let kind : MethodKind :=
      if entsizeAndFlags &&& smallMethodListFlag ≠ 0 then
        if entsizeAndFlags &&& relativeMethodSelectorsAreDirectFlag ≠ 0 then .smallDirect else .smallIndirect
      else .legacy
    let minEntsize : U32 := match kind with
      | .legacy => 24
      | .smallIndirect | .smallDirect => 12
    if entsize < minEntsize then none
    else (checkedAdd listVa 8).map fun baseVa => (⟨baseVa, entsize, count⟩, kind)

/-- There is no layout at a null pointer and at one whose low bit marks a list of lists. -/
def methodListLayout (rt : ObjcRuntime) (listVa : U64) : Option (ListLayout × MethodKind) :=
  if listVa = 0 ∨ listVa &&& 1 ≠ 0 then none
  else (listHeader rt listVa).bind fun header => methodLayout listVa header.1 header.2

def methodListIter (rt : ObjcRuntime) (listVa : U64) : List Method :=
  match methodListLayout rt listVa with
  | none => []
  | some (layout, kind) => listRows (decodeMethod rt kind) layout

abbrev ivarEntsize : Nat := 32

structure Ivar where
  name : Str
  typeEncoding : Str
  offset : Option U32
  size : U32
  log2Alignment : U8
deriving DecidableEq

def decodeIvar (rt : ObjcRuntime) (entryVa : U64) : Option Ivar := do
  let bytes ← rt.readBytes entryVa ivarEntsize
  let offsetSlotVa := (rt.resolvePointer entryVa).getD 0
  let nameVa ← rt.requiredField entryVa 8
  let typeVa ← rt.pointerField entryVa 16
  let alignmentRaw ← readU32LeAt bytes 24
  let size ← readU32LeAt bytes 28
  let name ← rt.readCstr nameVa
  some {
    name := name
    typeEncoding := (rt.readCstr typeVa).getD (Str.literal "")
    offset := if offsetSlotVa = 0 then none else rt.readU32 offsetSlotVa
    size := size
    -- all ones stand for the word alignment of the platform
    log2Alignment := if alignmentRaw = 0xffffffff then 3 else (alignmentRaw &&& 0xff).setWidth 8
  }

def plainLayout (listVa : U64) (minEntsize : Nat) (entsize count : U32) : Option ListLayout :=
  if entsize.toNat < minEntsize then none
  else (checkedAdd listVa 8).map fun baseVa => ⟨baseVa, entsize, count⟩

def plainListLayout (rt : ObjcRuntime) (listVa : U64) (minEntsize : Nat) : Option ListLayout :=
  (listHeader rt listVa).bind fun header => plainLayout listVa minEntsize header.1 header.2

def ivarListIter (rt : ObjcRuntime) (listVa : U64) : List Ivar :=
  if listVa = 0 then []
  else
    match plainListLayout rt listVa ivarEntsize with
    | none => []
    | some layout => listRows (decodeIvar rt) layout

abbrev propertyEntsize : Nat := 16

structure Property where
  name : Str
  attributes : Str
deriving DecidableEq

def decodeProperty (rt : ObjcRuntime) (entryVa : U64) : Option Property := do
  let _ ← rt.readBytes entryVa propertyEntsize
  let nameVa ← rt.resolvePointer entryVa
  let attrsVa ← rt.pointerField entryVa 8
  let name ← rt.readCstr nameVa
  some ⟨name, (rt.readCstr attrsVa).getD (Str.literal "")⟩

def propertyListIter (rt : ObjcRuntime) (listVa : U64) : List Property :=
  if listVa = 0 ∨ listVa &&& 1 ≠ 0 then []
  else
    match plainListLayout rt listVa propertyEntsize with
    | none => []
    | some layout => listRows (decodeProperty rt) layout

end DarwinScope.Objc
