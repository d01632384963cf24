import DarwinScope.Machine.Iteration
import DarwinScope.Image

namespace DarwinScope.Block

open Machine

inductive BlockIsa where
  | global
  | stack
deriving DecidableEq

structure BlockReference where
  kind : BlockIsa
  slotAddress : U64
  dylib : Str
deriving DecidableEq

structure BlockRuntime extends Image where
  rebasesByVa : Map U64 U64
  globalSites : List BlockReference
  stackSites : List BlockReference

def isaOf (name : Bytes) : Option BlockIsa :=
  if name = lit "_NSConcreteGlobalBlock" then some .global
  else if name = lit "_NSConcreteStackBlock" then some .stack
  else none

def blockSite (data : Slice) (imp : Import) : Option BlockReference := do
  let name ← reborrowIntoData data imp.name
  let dylib ← reborrowIntoData data imp.dylib
  let kind ← isaOf name.text
  some ⟨kind, imp.address, dylib⟩

namespace BlockRuntime

def build (bin : MachoBinary) : Option BlockRuntime :=
  if !bin.is64 then none
  else
    let sites := bin.imports.filterMap (blockSite bin.data)
    let globalSites := sites.filter fun site => site.kind = .global
    let stackSites := sites.filter fun site => site.kind = .stack
    if globalSites.isEmpty && stackSites.isEmpty then none
    else
      some {
        data := bin.data
        segments := bin.segmentRanges
        rebasesByVa := DarwinScope.rebasesByVa bin
        globalSites := globalSites
        stackSites := stackSites
      }

def references (rt : BlockRuntime) : List BlockReference := rt.globalSites ++ rt.stackSites

end BlockRuntime

abbrev blockHasCopyDispose : U32 := 1 <<< 25
abbrev blockHasSignature : U32 := 1 <<< 30

abbrev blockLayoutSize : U64 := 32

structure BlockDescriptor where
  address : U64
  reserved : U64
  size : U64
  copyHelper : Option U64
  disposeHelper : Option U64
  signature : Option Str
  layoutString : Option Str
deriving DecidableEq

structure BlockLiteral where
  address : U64
  isa : BlockIsa
  flags : U32
  reserved : U32
  invoke : U64
  descriptorAddress : U64
  descriptor : Option BlockDescriptor
deriving DecidableEq

namespace BlockRuntime

variable (rt : BlockRuntime)

def resolvePointer (slotVa raw : U64) : U64 :=
  match rt.rebasesByVa slotVa with
  | some target => target
  | none => stripSignature raw

def readHelpers (address : U64) (flags : U32) (cursor : U64) : Option (Option U64 × Option U64 × U64) :=
  if flags &&& blockHasCopyDispose ≠ 0 then do
    let copySlot := address + cursor
    let copyRaw ← rt.readU64 copySlot
    let cursor ← checkedAdd cursor 8
    let disposeSlot := address + cursor
    let disposeRaw ← rt.readU64 disposeSlot
    let cursor ← checkedAdd cursor 8
    some (some (rt.resolvePointer copySlot copyRaw), some (rt.resolvePointer disposeSlot disposeRaw), cursor)
  else some (none, none, cursor)

/-- The signature and the layout string. A slot that cannot be read loses the descriptor, a string only itself. -/
def readStrings (address : U64) (flags : U32) (cursor : U64) : Option (Option Str × Option Str) :=
  if flags &&& blockHasSignature ≠ 0 then do
    let sigSlot := address + cursor
    let sigRaw ← rt.readU64 sigSlot
    let cursor ← checkedAdd cursor 8
    let layoutSlot := address + cursor
    let layoutRaw ← rt.readU64 layoutSlot
    some (rt.readCstr (rt.resolvePointer sigSlot sigRaw), rt.readCstr (rt.resolvePointer layoutSlot layoutRaw))
  else some (none, none)

def decodeDescriptor (address : U64) (flags : U32) : Option BlockDescriptor :=
  if address = 0 then none
  else do
    let reserved ← rt.readU64 address
    let size ← rt.readU64 (address + 0x08)
    if size < blockLayoutSize then none
    else do
      let (copyHelper, disposeHelper, cursor) ← rt.readHelpers address flags 0x10
      let (signature, layoutString) ← rt.readStrings address flags cursor
      some {
        address := address
        reserved := reserved
        size := size
        copyHelper := copyHelper
        disposeHelper := disposeHelper
        signature := signature
        layoutString := layoutString
      }

/-- A literal whose descriptor does not decode is a row without one. -/
def decodeLiteral (address : U64) : Option BlockLiteral := do
  let flags ← rt.readU32 (address + 0x08)
  let reserved ← rt.readU32 (address + 0x0c)
  let invokeRaw ← rt.readU64 (address + 0x10)
  let descRaw ← rt.readU64 (address + 0x18)
  let descriptorAddress := rt.resolvePointer (address + 0x18) descRaw
  some {
    address := address
    isa := .global
    flags := flags
    reserved := reserved
    invoke := rt.resolvePointer (address + 0x10) invokeRaw
    descriptorAddress := descriptorAddress
    descriptor := rt.decodeDescriptor descriptorAddress flags
  }

/-- The iterator goes on with the next site where a literal does not decode. -/
def literals (fuel : Nat) : Option (List BlockLiteral) :=
  collect (nextSome fun site => rt.decodeLiteral site.slotAddress) fuel rt.globalSites

end BlockRuntime

end DarwinScope.Block
