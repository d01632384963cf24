import DarwinScope.Objc.Class

namespace DarwinScope.Objc

open Machine

abbrev categoryBaseSize : Nat := 48
abbrev categoryWithClassPropsSize : Nat := 56

structure ObjcCategory where
  address : U64
  name : Str
  classVa : U64
  clsSlotVa : U64
  instanceMethodsVa : U64
  classMethodsVa : U64
  protocolsVa : U64
  instancePropertiesVa : U64
  classPropertiesVa : Option U64
deriving DecidableEq

def decodeCategory (rt : ObjcRuntime) (catVa : U64) : Option ObjcCategory := do
  let wantClassProps := rt.imageInfo.hasCategoryClassProperties
  let wantSize := if wantClassProps then categoryWithClassPropsSize else categoryBaseSize
  let _ ← rt.readBytes catVa wantSize
  let nameVa ← rt.resolvePointer catVa
  let clsSlotVa ← checkedAdd catVa 8
  let classVa := (rt.resolvePointer clsSlotVa).getD 0
  let instanceMethodsVa ← rt.pointerField catVa 16
  let classMethodsVa ← rt.pointerField catVa 24
  let protocolsVa ← rt.pointerField catVa 32
  let instancePropertiesVa ← rt.pointerField catVa 40
  let classPropertiesVa ←
    if wantClassProps then
      (rt.pointerField catVa 48).map fun resolved => if resolved = 0 then none else some resolved
    else some none
  let name ← rt.readCstr nameVa
  some {
    address := catVa
    name := name
    classVa := classVa
    clsSlotVa := clsSlotVa
    instanceMethodsVa := instanceMethodsVa
    classMethodsVa := classMethodsVa
    protocolsVa := protocolsVa
    instancePropertiesVa := instancePropertiesVa
    classPropertiesVa := classPropertiesVa
  }

def ObjcCategory.className (rt : ObjcRuntime) (category : ObjcCategory) : Option Str :=
  match if category.classVa ≠ 0 then decodeClassName rt category.classVa else none with
  | some name => some name
  | none => (rt.bindsByVa category.clsSlotVa).map fun bound => stripObjcSymbolPrefix bound.1

def ObjcRuntime.categories (rt : ObjcRuntime) : List ObjcCategory :=
  (rt.pointerTargets [rt.catList, rt.nlcatList]).filterMap (decodeCategory rt)

inductive RefTarget where
  | local (address : U64) (name : Option Str)
  | external (name dylib : Str)
  | unresolved (slotAddress target : U64)
deriving DecidableEq

def refTargetAt (rt : ObjcRuntime) (resolveLocal : U64 → Option Str) (slotVa : U64) : RefTarget :=
  let target := (rt.resolvePointer slotVa).getD 0
  let bound : RefTarget :=
    match rt.bindsByVa slotVa with
    | some (sym, dylib) => .external (stripObjcSymbolPrefix sym) dylib
    | none => .unresolved slotVa target
  if target ≠ 0 then
    match resolveLocal target with
    | some name => .local target (some name)
    | none =>
      if (rt.bindsByVa slotVa).isNone ∧ (rt.vmToFileOffset target).isSome then .local target none else bound
  else bound

def nextRefTarget (rt : ObjcRuntime) (secBody : Slice) (secVmaddr : U64) (resolveLocal : U64 → Option Str)
    (cursor : Nat) : Option (RefTarget × Nat) := do
  let next ← checkedAddUsize cursor 8
  if secBody.length < next then none
  else some (refTargetAt rt resolveLocal (secVmaddr + BitVec.ofNat 64 cursor), next)

def ClassRefIter.next (rt : ObjcRuntime) (cursor : Nat) : Option (RefTarget × Nat) := do
  let sec ← rt.classRefs
  nextRefTarget rt sec.body sec.vmaddr (decodeClassName rt) cursor

def SuperRefIter.next (rt : ObjcRuntime) (cursor : Nat) : Option (RefTarget × Nat) := do
  let sec ← rt.superRefs
  nextRefTarget rt sec.body sec.vmaddr (decodeClassName rt) cursor

def ProtoRefIter.next (rt : ObjcRuntime) (cursor : Nat) : Option (RefTarget × Nat) := do
  let sec ← rt.protoRefs
  nextRefTarget rt sec.body sec.vmaddr (fun va => (decodeProtocol rt va).map ObjcProtocol.name) cursor

end DarwinScope.Objc
