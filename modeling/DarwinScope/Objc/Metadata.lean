import DarwinScope.Memory
import DarwinScope.Objc.Accesses

namespace DarwinScope.Objc

open Machine

abbrev Placed := U64 × Bytes

structure Text where
  va : U64
  text : Bytes

def Text.object (t : Text) : Placed := (t.va, t.text ++ [0#8])

def Text.Fits (t : Text) : Prop := validUtf8 t.text = true ∧ 0#8 ∉ t.text

instance (t : Text) : Decidable t.Fits := inferInstanceAs (Decidable (_ ∧ _))

structure MethodData where
  selector : Text
  types : Text
  imp : U64

namespace MethodData

def encode (m : MethodData) : Bytes := encodePointers [m.selector.va, m.types.va, m.imp]

def objects (m : MethodData) : List Placed := [m.selector.object, m.types.object]

def Fits (m : MethodData) : Prop := m.selector.Fits ∧ m.types.Fits ∧ m.imp.toNat < 2^47

instance (m : MethodData) : Decidable m.Fits := inferInstanceAs (Decidable (_ ∧ _ ∧ _))

def content (m : MethodData) : Bytes × Bytes × Option U64 × MethodKind :=
  (m.selector.text, m.types.text, if m.imp = 0 then none else some m.imp, .legacy)

end MethodData

/-- An instance variable; its offset stands in a cell of its own. -/
structure IvarData where
  name : Text
  type : Text
  cellVa : U64
  offset : U32
  log2Alignment : U8
  size : U32

namespace IvarData

def encode (v : IvarData) : Bytes :=
  encodePointers [v.cellVa, v.name.va, v.type.va] ++ encodeWords [v.log2Alignment.setWidth 32, v.size]

def objects (v : IvarData) : List Placed := [v.name.object, v.type.object, (v.cellVa, leBytes 4 v.offset.toNat)]

def Fits (v : IvarData) : Prop := v.name.Fits ∧ v.type.Fits

instance (v : IvarData) : Decidable v.Fits := inferInstanceAs (Decidable (_ ∧ _))

def content (v : IvarData) : Bytes × Bytes × Option U32 × U32 × U8 :=
  (v.name.text, v.type.text, some v.offset, v.size, v.log2Alignment)

end IvarData

structure PropertyData where
  name : Text
  attributes : Text

namespace PropertyData

def encode (p : PropertyData) : Bytes := encodePointers [p.name.va, p.attributes.va]

def objects (p : PropertyData) : List Placed := [p.name.object, p.attributes.object]

def Fits (p : PropertyData) : Prop := p.name.Fits ∧ p.attributes.Fits

instance (p : PropertyData) : Decidable p.Fits := inferInstanceAs (Decidable (_ ∧ _))

def content (p : PropertyData) : Bytes × Bytes := (p.name.text, p.attributes.text)

end PropertyData

/-- A protocol. What stands behind its flags is as long as its size field says, or longer. -/
structure ProtocolData where
  va : U64
  isa : U64
  name : Text
  lists : Fin 6 → U64
  size : U32
  flags : U32
  trailing : Bytes

namespace ProtocolData

def encode (p : ProtocolData) : Bytes :=
  encodePointers (p.isa :: p.name.va :: List.ofFn p.lists) ++ (encodeWords [p.size, p.flags] ++ p.trailing)

def objects (p : ProtocolData) : List Placed := [(p.va, p.encode), p.name.object]

def Fits (p : ProtocolData) : Prop := p.name.Fits ∧ p.size.toNat ≤ protocolBaseSize + p.trailing.length

instance (p : ProtocolData) : Decidable p.Fits := inferInstanceAs (Decidable (_ ∧ _))

end ProtocolData

/-- A list object; a class without one has a null pointer in its place. -/
structure Listed (α : Type) where
  va : U64
  items : List α

section

variable {α : Type}

def listPointer (o : Option (Listed α)) : U64 := (o.map Listed.va).getD 0

def listItems (o : Option (Listed α)) : List α := (o.map Listed.items).getD []

def listObjects (encode : List α → Bytes) (objects : α → List Placed) : Option (Listed α) → List Placed
  | none => []
  | some l => (l.va, encode l.items) :: l.items.flatMap objects

def encodeList (header : U32) (encode : α → Bytes) (items : List α) : Bytes :=
  encodeWords [header, BitVec.ofNat 32 items.length] ++ items.flatMap encode

end

def encodeProtocols (items : List ProtocolData) : Bytes :=
  encodePointers (BitVec.ofNat 64 items.length :: items.map ProtocolData.va)

/-- A `class_ro_t` and the lists that it points to. The first word of the method list may have flags
    beside its entry size, but not the one of a relative list. -/
structure RoData where
  va : U64
  flags : U32
  instanceStart : U32
  instanceSize : U32
  reserved : U32
  ivarLayoutVa : U64
  name : Text
  methodHeader : U32
  methods : Option (Listed MethodData)
  protocols : Option (Listed ProtocolData)
  ivars : Option (Listed IvarData)
  weakIvarLayoutVa : U64
  properties : Option (Listed PropertyData)

namespace RoData

def encode (ro : RoData) : Bytes :=
  encodeWords [ro.flags, ro.instanceStart, ro.instanceSize, ro.reserved] ++
    encodePointers [ro.ivarLayoutVa, ro.name.va, listPointer ro.methods, listPointer ro.protocols, listPointer ro.ivars,
      ro.weakIvarLayoutVa, listPointer ro.properties]

def objects (ro : RoData) : List Placed :=
  (ro.va, ro.encode) :: ro.name.object ::
    (listObjects (encodeList ro.methodHeader MethodData.encode) MethodData.objects ro.methods ++
      listObjects encodeProtocols ProtocolData.objects ro.protocols ++
      listObjects (encodeList 32 IvarData.encode) IvarData.objects ro.ivars ++
      listObjects (encodeList 16 PropertyData.encode) PropertyData.objects ro.properties)

structure Fits (ro : RoData) : Prop where
  name : ro.name.Fits
  layouts : ro.ivarLayoutVa.toNat < 2^47 ∧ ro.weakIvarLayoutVa.toNat < 2^47
  header : ro.methodHeader &&& ~~~methodListFlagMask = 24 ∧ ro.methodHeader &&& smallMethodListFlag = 0
  methods : ∀ m ∈ listItems ro.methods, m.Fits
  protocols : ∀ p ∈ listItems ro.protocols, p.Fits
  ivars : ∀ v ∈ listItems ro.ivars, v.Fits
  properties : ∀ p ∈ listItems ro.properties, p.Fits
  counts : (listItems ro.methods).length < 2^32 ∧ (listItems ro.ivars).length < 2^32 ∧
    (listItems ro.properties).length < 2^32

def content (ro : RoData) : RoContent where
  name := ro.name.text
  flags := ro.flags
  instanceStart := ro.instanceStart
  instanceSize := ro.instanceSize
  methods := (listItems ro.methods).map MethodData.content
  ivars := (listItems ro.ivars).map IvarData.content
  properties := (listItems ro.properties).map PropertyData.content

def protocolNames (ro : RoData) : List Bytes := (listItems ro.protocols).map fun p => p.name.text

end RoData

structure ClassData where
  va : U64
  isa : U64
  superclass : U64
  cache : U64
  vtable : U64
  fast : U64
  ro : RoData

namespace ClassData

def encode (c : ClassData) : Bytes := encodePointers [c.isa, c.superclass, c.cache, c.vtable, c.ro.va ||| c.fast]

def objects (c : ClassData) : List Placed := (c.va, c.encode) :: c.ro.objects

structure Fits (c : ClassData) : Prop where
  pointers : c.isa.toNat < 2^47 ∧ c.superclass.toNat < 2^47
  fast : c.fast.toNat < 8
  ro : c.ro.Fits

def row (c : ClassData) (isMeta : Bool) : ObjcClass := ⟨c.va, c.isa, c.superclass, c.ro.va ||| c.fast, isMeta⟩

end ClassData

structure ClassPair where
  instanceClass : ClassData
  metaclass : ClassData
  linked : instanceClass.isa = metaclass.va

namespace ClassPair

def objects (c : ClassPair) : List Placed := c.instanceClass.objects ++ c.metaclass.objects

def rows (c : ClassPair) : List (ClassData × Bool) := [(c.instanceClass, false), (c.metaclass, true)]

end ClassPair

/-- Objects lie in readable memory at aligned addresses below `2^47`. -/
def Held (rt : ObjcRuntime) (o : Placed) : Prop :=
  rt.Stored o.1 o.2 ∧ o.1 ≠ 0 ∧ o.1.toNat % 8 = 0 ∧ o.1.toNat < 2^47

/-- The classes as an image with plain pointers holds them: `__objc_classlist` refers to each of them, and
    the list of the non-lazy ones to no other. -/
structure LaidOut (rt : ObjcRuntime) (sec : MappedSection) (classes : List ClassPair) : Prop where
  plain : ∀ va, rt.rebasesByVa va = none
  listed : rt.classList = some sec
  slots : sec.body.length / 8 = classes.length
  held : Held rt (sec.vmaddr, encodePointers (classes.map fun c => c.instanceClass.va))
  others : ∀ nonlazy ∈ rt.nlclslist, ∀ slot ∈ nonlazy.slots, ∀ va, rt.resolvePointer slot = some va →
    va = 0 ∨ ∃ c ∈ classes, c.instanceClass.va = va
  objects : ∀ c ∈ classes, ∀ o ∈ c.objects, Held rt o
  fits : ∀ c ∈ classes, c.instanceClass.Fits ∧ c.metaclass.Fits
  distinct : (classes.map fun c => c.instanceClass.va).Nodup
  apart : ∀ c ∈ classes, c.metaclass.va ≠ c.instanceClass.va

end DarwinScope.Objc
