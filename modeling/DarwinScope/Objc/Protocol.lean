import DarwinScope.Objc.Lists

namespace DarwinScope.Objc

open Machine

abbrev protocolBaseSize : Nat := 72
abbrev protocolFieldClassPropertiesOffset : Nat := 88

structure ObjcProtocol where
  address : U64
  name : Str
  instanceMethodsVa : U64
  classMethodsVa : U64
  optionalInstanceMethodsVa : U64
  optionalClassMethodsVa : U64
  instancePropertiesVa : U64
  classPropertiesVa : Option U64
  protocolsVa : U64
  size : U32
  flags : U32
deriving DecidableEq

def decodeProtocol (rt : ObjcRuntime) (protoVa : U64) : Option ObjcProtocol := do
  let bytes ← rt.readBytes protoVa protocolBaseSize
  let nameVa ← rt.requiredField protoVa 8
  let protocolsVa ← rt.pointerField protoVa 16
  let instanceMethodsVa ← rt.pointerField protoVa 24
  let classMethodsVa ← rt.pointerField protoVa 32
  let optionalInstanceMethodsVa ← rt.pointerField protoVa 40
  let optionalClassMethodsVa ← rt.pointerField protoVa 48
  let instancePropertiesVa ← rt.pointerField protoVa 56
  let size ← readU32LeAt bytes 64
  let flags ← readU32LeAt bytes 68
  let name ← rt.readCstr nameVa
  let classPropertiesVa ←
    if protocolFieldClassPropertiesOffset + 8 ≤ size.toNat then do
      let slotVa ← checkedAdd protoVa (BitVec.ofNat 64 protocolFieldClassPropertiesOffset)
      let _ ← rt.readBytes slotVa 8
      let resolved := (rt.resolvePointer slotVa).getD 0
      some (if resolved = 0 then none else some resolved)
    else some none
  some {
    address := protoVa
    name := name
    instanceMethodsVa := instanceMethodsVa
    classMethodsVa := classMethodsVa
    optionalInstanceMethodsVa := optionalInstanceMethodsVa
    optionalClassMethodsVa := optionalClassMethodsVa
    instancePropertiesVa := instancePropertiesVa
    classPropertiesVa := classPropertiesVa
    protocolsVa := protocolsVa
    size := size
    flags := flags
  }

def protocolSlotName (rt : ObjcRuntime) (slotVa : U64) : Option Str :=
  let protoVa := (rt.resolvePointer slotVa).getD 0
  match if protoVa ≠ 0 then decodeProtocol rt protoVa else none with
  | some p => some p.name
  | none => (rt.bindsByVa slotVa).map fun bound => stripObjcSymbolPrefix bound.1

def protocolNameRow (rt : ObjcRuntime) (base : U64) (i : Nat) : Row Str :=
  match (checkedMul (BitVec.ofNat 64 i) 8).bind (checkedAdd base) with
  | none => .stop
  | some slotVa =>
    match protocolSlotName rt slotVa with
    | some name => .yield name
    | none => .skip

/-- At most `2^20` slots are visited. -/
def protocolNameIter (rt : ObjcRuntime) (listVa : U64) : List Str :=
  if listVa = 0 ∨ listVa &&& 1 ≠ 0 then []
  else
    match (rt.readBytes listVa 8).bind fun header => readU64LeAt header 0, checkedAdd listVa 8 with
    | some count, some base => rows (protocolNameRow rt base) (min count.toNat (2^20))
    | _, _ => []

end DarwinScope.Objc
