import DarwinScope.Objc.References

namespace DarwinScope.Objc

open Machine

namespace ObjcProtocol

variable (rt : ObjcRuntime) (p : ObjcProtocol)

def instanceMethods : List Method := methodListIter rt p.instanceMethodsVa

def classMethods : List Method := methodListIter rt p.classMethodsVa

def optionalInstanceMethods : List Method := methodListIter rt p.optionalInstanceMethodsVa

def optionalClassMethods : List Method := methodListIter rt p.optionalClassMethodsVa

def instanceProperties : List Property := propertyListIter rt p.instancePropertiesVa

/-- None when the protocol is too short for the field. -/
def classProperties : List Property :=
  match p.classPropertiesVa with
  | some va => propertyListIter rt va
  | none => []

def protocols : List Str := protocolNameIter rt p.protocolsVa

end ObjcProtocol

/-- What stands behind the flags of a protocol: a field for its class properties, or too few bytes for one. -/
inductive ProtocolTrailing where
  | short (rest : Bytes)
  | long (extendedMethodTypes demangledName : U64) (classProperties : Option (Listed PropertyData)) (rest : Bytes)

structure ProtocolObject where
  va : U64
  isa : U64
  name : Text
  methodHeader : U32
  protocols : Option (Listed ProtocolData)
  instanceMethods : Option (Listed MethodData)
  classMethods : Option (Listed MethodData)
  optionalInstanceMethods : Option (Listed MethodData)
  optionalClassMethods : Option (Listed MethodData)
  instanceProperties : Option (Listed PropertyData)
  size : U32
  flags : U32
  trailing : ProtocolTrailing

namespace ProtocolTrailing

def classProperties : ProtocolTrailing → Option (Listed PropertyData)
  | short _ => none
  | long _ _ classProperties _ => classProperties

def encode : ProtocolTrailing → Bytes
  | short rest => rest
  | long extendedMethodTypes demangledName classProperties rest =>
    encodePointers [extendedMethodTypes, demangledName, listPointer classProperties] ++ rest

def Declared (size : U32) : ProtocolTrailing → Prop
  | short _ => size.toNat < 96
  | long _ _ _ _ => 96 ≤ size.toNat

end ProtocolTrailing

namespace ProtocolObject

def pointers (p : ProtocolObject) : List U64 :=
  [p.isa, p.name.va, listPointer p.protocols, listPointer p.instanceMethods, listPointer p.classMethods,
    listPointer p.optionalInstanceMethods, listPointer p.optionalClassMethods, listPointer p.instanceProperties]

def encode (p : ProtocolObject) : Bytes :=
  encodePointers p.pointers ++ encodeWords [p.size, p.flags] ++ p.trailing.encode

def methodLists (p : ProtocolObject) : List (Option (Listed MethodData)) :=
  [p.instanceMethods, p.classMethods, p.optionalInstanceMethods, p.optionalClassMethods]

def propertyLists (p : ProtocolObject) : List (Option (Listed PropertyData)) :=
  [p.instanceProperties, p.trailing.classProperties]

def objects (p : ProtocolObject) : List Placed :=
  (p.va, p.encode) :: p.name.object :: (listObjects encodeProtocols ProtocolData.objects p.protocols ++
    p.methodLists.flatMap (listObjects (encodeList p.methodHeader MethodData.encode) MethodData.objects) ++
    p.propertyLists.flatMap (listObjects (encodeList 16 PropertyData.encode) PropertyData.objects))

structure Fits (p : ProtocolObject) : Prop where
  name : p.name.Fits
  header : p.methodHeader &&& ~~~methodListFlagMask = 24 ∧ p.methodHeader &&& smallMethodListFlag = 0
  protocols : ∀ adopted ∈ listItems p.protocols, adopted.Fits
  methods : ∀ l ∈ p.methodLists, (listItems l).length < 2^32 ∧ ∀ m ∈ listItems l, m.Fits
  properties : ∀ l ∈ p.propertyLists, (listItems l).length < 2^32 ∧ ∀ m ∈ listItems l, m.Fits
  declared : p.trailing.Declared p.size

end ProtocolObject

structure ProtocolContent where
  address : U64
  name : Bytes
  size : U32
  flags : U32
  instanceMethods : List (Bytes × Bytes × Option U64 × MethodKind)
  classMethods : List (Bytes × Bytes × Option U64 × MethodKind)
  optionalInstanceMethods : List (Bytes × Bytes × Option U64 × MethodKind)
  optionalClassMethods : List (Bytes × Bytes × Option U64 × MethodKind)
  instanceProperties : List (Bytes × Bytes)
  classProperties : List (Bytes × Bytes)
  protocols : List Bytes
deriving DecidableEq

def ObjcProtocol.content (rt : ObjcRuntime) (p : ObjcProtocol) : ProtocolContent where
  address := p.address
  name := p.name.text
  size := p.size
  flags := p.flags
  instanceMethods := (p.instanceMethods rt).map Method.content
  classMethods := (p.classMethods rt).map Method.content
  optionalInstanceMethods := (p.optionalInstanceMethods rt).map Method.content
  optionalClassMethods := (p.optionalClassMethods rt).map Method.content
  instanceProperties := (p.instanceProperties rt).map Property.content
  classProperties := (p.classProperties rt).map Property.content
  protocols := (p.protocols rt).map Str.text

/-- The content as it was laid out, of the adopted protocols the first `2^20`. -/
def ProtocolObject.content (p : ProtocolObject) : ProtocolContent where
  address := p.va
  name := p.name.text
  size := p.size
  flags := p.flags
  instanceMethods := (listItems p.instanceMethods).map MethodData.content
  classMethods := (listItems p.classMethods).map MethodData.content
  optionalInstanceMethods := (listItems p.optionalInstanceMethods).map MethodData.content
  optionalClassMethods := (listItems p.optionalClassMethods).map MethodData.content
  instanceProperties := (listItems p.instanceProperties).map PropertyData.content
  classProperties := (listItems p.trailing.classProperties).map PropertyData.content
  protocols := ((listItems p.protocols).map fun adopted => adopted.name.text).take (2^20)

section

variable {rt : ObjcRuntime} {p : ProtocolObject}

theorem methodList_held (held : ∀ o ∈ p.objects, Held rt o) {l : Option (Listed MethodData)} (member : l ∈ p.methodLists) :
    ∀ x ∈ listObjects (encodeList p.methodHeader MethodData.encode) MethodData.objects l, Held rt x := by
  intro x part
  have listed : x ∈ p.methodLists.flatMap (listObjects (encodeList p.methodHeader MethodData.encode) MethodData.objects) :=
    List.mem_flatMap.mpr ⟨l, member, part⟩
  apply held
  simp only [ProtocolObject.objects, List.mem_cons, List.mem_append, listed, or_true, true_or]

theorem propertyList_held (held : ∀ o ∈ p.objects, Held rt o) {l : Option (Listed PropertyData)}
    (member : l ∈ p.propertyLists) :
    ∀ x ∈ listObjects (encodeList 16 PropertyData.encode) PropertyData.objects l, Held rt x := by
  intro x part
  have listed : x ∈ p.propertyLists.flatMap (listObjects (encodeList 16 PropertyData.encode) PropertyData.objects) :=
    List.mem_flatMap.mpr ⟨l, member, part⟩
  apply held
  simp only [ProtocolObject.objects, List.mem_cons, List.mem_append, listed, or_true]

theorem methods_of_held (plain : ∀ va, rt.rebasesByVa va = none) (fits : p.Fits) (held : ∀ o ∈ p.objects, Held rt o)
    {l : Option (Listed MethodData)} (member : l ∈ p.methodLists) :
    (listPointer l).toNat < 2^47 ∧
      (methodListIter rt (listPointer l)).map Method.content = (listItems l).map MethodData.content := by
  have objects := methodList_held held member
  rcases fits.methods l member with ⟨few, each⟩
  exact ⟨listPointer_low objects, methodListIter_of_held plain fits.header.1 fits.header.2 few each objects⟩

theorem properties_of_held (plain : ∀ va, rt.rebasesByVa va = none) (fits : p.Fits) (held : ∀ o ∈ p.objects, Held rt o)
    {l : Option (Listed PropertyData)} (member : l ∈ p.propertyLists) :
    (listPointer l).toNat < 2^47 ∧
      (propertyListIter rt (listPointer l)).map Property.content = (listItems l).map PropertyData.content := by
  have objects := propertyList_held held member
  rcases fits.properties l member with ⟨few, each⟩
  exact ⟨listPointer_low objects, propertyListIter_of_held plain few each objects⟩

theorem propertyListIter_null : propertyListIter rt 0 = [] := by
  simp [propertyListIter]

theorem classProperties_of_pointer (va : U64) :
    (match if va = 0 then none else some va with
      | some va => propertyListIter rt va
      | none => []) = propertyListIter rt va := by
  by_cases null : va = 0
  · rw [if_pos null, null, propertyListIter_null]
  · rw [if_neg null]

/-- The field of the class properties, read only from a protocol whose size says that it is there. -/
theorem classProperties_of_held (plain : ∀ va, rt.rebasesByVa va = none) (fits : p.Fits)
    (held : ∀ o ∈ p.objects, Held rt o) :
    ∃ found : Option U64, (match found with
        | some va => propertyListIter rt va
        | none => []).map Property.content = (listItems p.trailing.classProperties).map PropertyData.content ∧
      ∀ {β : Type} (rest : Option U64 → Option β), (if protocolFieldClassPropertiesOffset + 8 ≤ p.size.toNat then
        (checkedAdd p.va (BitVec.ofNat 64 protocolFieldClassPropertiesOffset)).bind fun slotVa =>
          (rt.readBytes slotVa 8).bind fun _ =>
            rest (if (rt.resolvePointer slotVa).getD 0 = 0 then none else some ((rt.resolvePointer slotVa).getD 0))
      else rest none) = rest found := by
  have declared := fits.declared
  have object := (held (p.va, p.encode) List.mem_cons_self).1
  have part : p.trailing.classProperties ∈ p.propertyLists := by simp [ProtocolObject.propertyLists]
  rcases properties_of_held plain fits held part with ⟨low, list⟩
  cases shape : p.trailing with
  | short rest =>
    rw [shape] at declared
    have short : ¬ protocolFieldClassPropertiesOffset + 8 ≤ p.size.toNat := by
      change p.size.toNat < 96 at declared
      simp only [protocolFieldClassPropertiesOffset]
      omega
    exact ⟨none, rfl, fun _ => if_neg short⟩
  | long extendedMethodTypes demangledName classProperties rest =>
    rw [shape] at declared low list
    have long : protocolFieldClassPropertiesOffset + 8 ≤ p.size.toNat := declared
    have stored : rt.Stored p.va (encodePointers p.pointers ++ encodeWords [p.size, p.flags] ++
        (encodePointers [extendedMethodTypes, demangledName, listPointer classProperties] ++ rest)) := by
      rw [ProtocolObject.encode, shape] at object
      exact object
    have behind : rt.Stored (p.va + BitVec.ofNat 64 72)
        (encodePointers [extendedMethodTypes, demangledName, listPointer classProperties]) := by
      have right := stored.right.left
      rwa [List.length_append, encodePointers_length, encodeWords_length] at right
    have room := stored.room
    simp only [List.length_append, encodePointers_length, encodeWords_length, ProtocolObject.pointers, List.length_cons,
      List.length_nil] at room
    have slot := slot_of_stored (i := 2) plain behind rfl low
    rw [add_ofNat_add] at slot
    have inside : protocolFieldClassPropertiesOffset + 8 ≤ (encodePointers p.pointers ++ encodeWords [p.size, p.flags] ++
        (encodePointers [extendedMethodTypes, demangledName, listPointer classProperties] ++ rest)).length := by
      simp only [List.length_append, encodePointers_length, encodeWords_length, ProtocolObject.pointers, List.length_cons,
        List.length_nil, protocolFieldClassPropertiesOffset]
      omega
    rcases stored.readInside inside (by decide) with ⟨bytes, read⟩
    have place : (rt.resolvePointer (p.va + BitVec.ofNat 64 protocolFieldClassPropertiesOffset)).getD 0 =
        listPointer classProperties := by
      rw [slot]
      rfl
    refine ⟨if listPointer classProperties = 0 then none else some (listPointer classProperties), ?_, ?_⟩
    · rw [classProperties_of_pointer]
      exact list
    · intro β rest
      have inside : p.va.toNat + protocolFieldClassPropertiesOffset < 2^64 := by
        simp only [protocolFieldClassPropertiesOffset]
        omega
      rw [if_pos long, checkedAdd_ofNat inside, Option.bind_some, read, Option.bind_some, place]

theorem decodeProtocol_content (plain : ∀ va, rt.rebasesByVa va = none) (fits : p.Fits) (held : ∀ o ∈ p.objects, Held rt o) :
    (decodeProtocol rt p.va).map (ObjcProtocol.content rt) = some p.content := by
  have object := held (p.va, p.encode) List.mem_cons_self
  have nameHeld := held p.name.object (List.mem_cons_of_mem _ List.mem_cons_self)
  have protocolsHeld : ∀ x ∈ listObjects encodeProtocols ProtocolData.objects p.protocols, Held rt x :=
    fun x part => held x (by simp only [ProtocolObject.objects, List.mem_cons, List.mem_append, part, or_true, true_or])
  rcases text_of_held fits.name nameHeld with ⟨name, nameRead, nameText⟩
  rcases methods_of_held plain fits held (l := p.instanceMethods) (by simp [ProtocolObject.methodLists]) with ⟨low3, list3⟩
  rcases methods_of_held plain fits held (l := p.classMethods) (by simp [ProtocolObject.methodLists]) with ⟨low4, list4⟩
  rcases methods_of_held plain fits held (l := p.optionalInstanceMethods) (by simp [ProtocolObject.methodLists]) with
    ⟨low5, list5⟩
  rcases methods_of_held plain fits held (l := p.optionalClassMethods) (by simp [ProtocolObject.methodLists]) with
    ⟨low6, list6⟩
  rcases properties_of_held plain fits held (l := p.instanceProperties) (by simp [ProtocolObject.propertyLists]) with
    ⟨low7, list7⟩
  have protocols := protocolNameIter_of_held plain fits.protocols protocolsHeld
  have stored := object.1
  have room := stored.room
  dsimp only at stored room
  have fixed : rt.Stored p.va (encodePointers p.pointers ++ encodeWords [p.size, p.flags]) := stored.left
  have pointers : rt.Stored p.va (encodePointers p.pointers) := fixed.left
  have front := fixed.room
  rw [List.length_append, encodePointers_length, encodeWords_length] at front
  simp only [ProtocolObject.pointers, List.length_cons, List.length_nil] at front
  rcases fixed.readBytes (by rw [List.length_append, encodePointers_length]; exact Nat.succ_pos _) with ⟨part, read, same⟩
  have inside : rt.readBytes p.va protocolBaseSize = some part := by
    rw [List.length_append, encodePointers_length, encodeWords_length] at read
    exact read
  have tail : part.bytes = encodePointers p.pointers ++ (encodeWords [p.size, p.flags] ++ []) := by
    rw [List.append_nil]
    exact same
  have sizeWord : readU32LeAt part 64 = some p.size := by
    have word := readAt_words (i := 0) _ _ tail rfl
    rwa [encodePointers_length] at word
  have flagsWord : readU32LeAt part 68 = some p.flags := by
    have word := readAt_words (i := 1) _ _ tail rfl
    rwa [encodePointers_length] at word
  have nameField : rt.requiredField p.va 8 = some p.name.va :=
    (pointer_of_stored (i := 1) plain pointers rfl nameHeld.low (by omega)).1
  have field2 : rt.pointerField p.va 16 = some (listPointer p.protocols) :=
    (pointer_of_stored (i := 2) plain pointers rfl (listPointer_low protocolsHeld) (by omega)).2
  have field3 : rt.pointerField p.va 24 = some (listPointer p.instanceMethods) :=
    (pointer_of_stored (i := 3) plain pointers rfl low3 (by omega)).2
  have field4 : rt.pointerField p.va 32 = some (listPointer p.classMethods) :=
    (pointer_of_stored (i := 4) plain pointers rfl low4 (by omega)).2
  have field5 : rt.pointerField p.va 40 = some (listPointer p.optionalInstanceMethods) :=
    (pointer_of_stored (i := 5) plain pointers rfl low5 (by omega)).2
  have field6 : rt.pointerField p.va 48 = some (listPointer p.optionalClassMethods) :=
    (pointer_of_stored (i := 6) plain pointers rfl low6 (by omega)).2
  have field7 : rt.pointerField p.va 56 = some (listPointer p.instanceProperties) :=
    (pointer_of_stored (i := 7) plain pointers rfl low7 (by omega)).2
  simp only [decodeProtocol, inside, nameField, field2, field3, field4, field5, field6, field7, sizeWord, flagsWord,
    nameRead, Option.bind_eq_bind, Option.bind_some]
  rcases classProperties_of_held plain fits held with ⟨found, list8, field8⟩
  let decoded (classPropertiesVa : Option U64) : ObjcProtocol := ⟨p.va, name, listPointer p.instanceMethods,
    listPointer p.classMethods, listPointer p.optionalInstanceMethods, listPointer p.optionalClassMethods,
    listPointer p.instanceProperties, classPropertiesVa, listPointer p.protocols, p.size, p.flags⟩
  have content : (decoded found).content rt = p.content := by
    rw [ProtocolObject.content, ← nameText, ← list3, ← list4, ← list5, ← list6, ← list7, ← list8, ← protocols]
    rfl
  rw [← content, ← Option.map_some]
  exact congrArg (Option.map (ObjcProtocol.content rt)) (field8 fun classPropertiesVa => some (decoded classPropertiesVa))

theorem slots_of_stored {sec : MappedSection} {words : List U64} (plain : ∀ va, rt.rebasesByVa va = none)
    (listed : sec.body.length / 8 = words.length) (stored : rt.Stored sec.vmaddr (encodePointers words))
    (low : ∀ word ∈ words, word.toNat < 2^47) : sec.slots.map (fun slot => (rt.resolvePointer slot).getD 0) = words := by
  rw [MappedSection.slots, listed, List.map_map]
  apply List.ext_getElem
  · simp
  · intro i _ below
    have slot := slot_of_stored plain stored (List.getElem?_eq_getElem below) (low _ (List.getElem_mem below))
    simp [slot]

end

def protocolWord (entry : Option ProtocolObject) : U64 := (entry.map ProtocolObject.va).getD 0

/-- The slots of `__objc_protolist` and the protocols they point to. A protocol may be listed more than once. -/
structure ProtocolTable (rt : ObjcRuntime) (sec : MappedSection) (entries : List (Option ProtocolObject)) : Prop where
  plain : ∀ va, rt.rebasesByVa va = none
  listed : rt.protoList = some sec
  slots : sec.body.length / 8 = entries.length
  stored : rt.Stored sec.vmaddr (encodePointers (entries.map protocolWord))
  held : ∀ p, some p ∈ entries → ∀ o ∈ p.objects, Held rt o
  fits : ∀ p, some p ∈ entries → p.Fits

namespace ProtocolTable

variable {rt : ObjcRuntime} {sec : MappedSection} {entries : List (Option ProtocolObject)}

theorem targets (table : ProtocolTable rt sec entries) :
    sec.slots.map (fun slot => (rt.resolvePointer slot).getD 0) = entries.map protocolWord := by
  apply slots_of_stored table.plain (by rw [table.slots, List.length_map]) table.stored
  intro word member
  rcases List.mem_map.mp member with ⟨entry, listed, rfl⟩
  cases entry with
  | none => decide
  | some p => exact (table.held p listed _ List.mem_cons_self).low

theorem decoded (table : ProtocolTable rt sec entries) {entry : Option ProtocolObject} (member : entry ∈ entries) :
    (if protocolWord entry = 0 then none else decodeProtocol rt (protocolWord entry)).map (ObjcProtocol.content rt) =
      entry.map ProtocolObject.content := by
  cases entry with
  | none => rfl
  | some p =>
    have held := table.held p member
    have nonzero : protocolWord (some p) ≠ 0 := (held _ List.mem_cons_self).2.1
    rw [if_neg nonzero]
    exact decodeProtocol_content table.plain (table.fits p member) held

end ProtocolTable

/-- The protocols of `__objc_protolist` in the order of the slots, each with its names, its six lists of members and the
    protocols it adopts, of these the first `2^20`. A protocol that is too short for the field has no class properties. -/
theorem protocol_table_round_trip (rt : ObjcRuntime) (sec : MappedSection) (entries : List (Option ProtocolObject))
    (table : ProtocolTable rt sec entries) : ∃ bound, ∀ fuel, bound ≤ fuel →
      (collect (ProtocolIter.next rt) fuel 0).map (List.map (ObjcProtocol.content rt)) =
        some (entries.reduceOption.map ProtocolObject.content) := by
  refine ⟨sectionLength rt.protoList + 1, fun fuel enough => ?_⟩
  have walk := @collect_slots ObjcProtocol rt.protoList (ProtocolIter.next rt) fuel (protocolAt rt) (fun _ => rfl) enough
  rw [walk, table.listed, Option.map_some, Option.map_some, Option.getD_some]
  congr 1
  have read : sec.slots.filterMap (protocolAt rt) = (entries.map protocolWord).filterMap fun va =>
      if va = 0 then none else decodeProtocol rt va := by
    rw [← table.targets, List.filterMap_map]
    rfl
  rw [read, List.filterMap_map, List.map_filterMap, List.reduceOption, List.map_filterMap]
  apply List.filterMap_congr
  intro entry member
  exact table.decoded member

def currentProtocol : ProtocolObject where
  va := 0x1018
  isa := 0
  name := ⟨0x1078, [0x50]⟩
  methodHeader := 24
  protocols := none
  instanceMethods := some ⟨0x1080, [⟨⟨0x10a0, [0x6d]⟩, ⟨0x10a8, [0x76]⟩, 0⟩]⟩
  classMethods := none
  optionalInstanceMethods := none
  optionalClassMethods := none
  instanceProperties := none
  size := 96
  flags := 0
  trailing := .long 0 0 (some ⟨0x10b0, [⟨⟨0x10c8, [0x70]⟩, ⟨0x10d0, [0x54]⟩⟩]⟩) []

def shortProtocol : ProtocolObject where
  va := 0x10d8
  isa := 0
  name := ⟨0x1120, [0x51]⟩
  methodHeader := 24
  protocols :=
    some ⟨0x1128, [⟨0x1018, 0, ⟨0x1078, [0x50]⟩, List.get [0, 0x1080, 0, 0, 0, 0], 96, 0, encodePointers [0, 0, 0x10b0]⟩]⟩
  instanceMethods := none
  classMethods := none
  optionalInstanceMethods := none
  optionalClassMethods := none
  instanceProperties := none
  size := 72
  flags := 1
  trailing := .short []

def protocolSlots : MappedSection := ⟨⟨0, encodePointers [0x1018, 0, 0x10d8], by decide⟩, 0x1000⟩

def protocolRuntime : ObjcRuntime :=
  { ObjcRuntime.flat 0x1000
      ⟨0, encodePointers [0x1018, 0, 0x10d8] ++ currentProtocol.encode ++ [0x50, 0, 0, 0, 0, 0, 0, 0] ++
        encodeList 24 MethodData.encode (listItems currentProtocol.instanceMethods) ++ [0x6d, 0, 0, 0, 0, 0, 0, 0] ++
        [0x76, 0, 0, 0, 0, 0, 0, 0] ++ encodeList 16 PropertyData.encode
          (listItems currentProtocol.trailing.classProperties) ++
        [0x70, 0, 0, 0, 0, 0, 0, 0] ++ [0x54, 0, 0, 0, 0, 0, 0, 0] ++ shortProtocol.encode ++ [0x51, 0, 0, 0, 0, 0, 0, 0] ++
        encodePointers [1, 0x1018], by decide +kernel⟩ Map.empty Map.empty with
    protoList := some protocolSlots }

theorem protocolRuntime_stored {va : U64} {bytes : Bytes} (low : 0x1000 ≤ va.toNat) (high : va.toNat + bytes.length ≤ 0x1138)
    (holds : protocolRuntime.data.Holds (va.toNat - 0x1000) bytes) : protocolRuntime.Stored va bytes := by
  apply @Image.Stored.of_segment protocolRuntime.toImage va bytes ⟨0x1000, 0x138, 0, 0x138⟩ (by decide +kernel)
    (List.pairwise_singleton _ _) (by decide +kernel) low high high
  simpa using holds

theorem protocolRuntime_held : ∀ p ∈ [currentProtocol, shortProtocol], ∀ o ∈ p.objects, Held protocolRuntime o := by
  have placed : ∀ p ∈ [currentProtocol, shortProtocol], ∀ o ∈ p.objects, 0x1000 ≤ o.1.toNat ∧
      o.1.toNat + o.2.length ≤ 0x1138 ∧ protocolRuntime.data.Holds (o.1.toNat - 0x1000) o.2 ∧ o.1 ≠ 0 ∧
      o.1.toNat % 8 = 0 := by
    decide +kernel
  intro p member o part
  rcases placed p member o part with ⟨low, high, holds, nonzero, aligned⟩
  exact ⟨protocolRuntime_stored low high holds, nonzero, aligned, by omega⟩

theorem protocolRuntime_table :
    ProtocolTable protocolRuntime protocolSlots [some currentProtocol, none, some shortProtocol] where
  plain _ := rfl
  listed := rfl
  slots := rfl
  stored := protocolRuntime_stored (by decide) (by decide) (by decide +kernel)
  held p member := protocolRuntime_held p (by simpa using member)
  fits p member := by
    have either : p = currentProtocol ∨ p = shortProtocol := by simpa using member
    rcases either with rfl | rfl
    · exact ⟨by decide, by decide, nofun, by decide +kernel, by decide +kernel, Nat.le_refl 96⟩
    · exact ⟨by decide, by decide, by decide +kernel, by decide +kernel, by decide +kernel, (by decide : 72 < 96)⟩

theorem protocol_table_of_two : ∃ bound, ∀ fuel, bound ≤ fuel →
    (collect (ProtocolIter.next protocolRuntime) fuel 0).map (List.map (ObjcProtocol.content protocolRuntime)) =
      some [⟨0x1018, [0x50], 96, 0, [([0x6d], [0x76], none, .legacy)], [], [], [], [], [([0x70], [0x54])], []⟩,
        ⟨0x10d8, [0x51], 72, 1, [], [], [], [], [], [], [[0x50]]⟩] :=
  protocol_table_round_trip _ _ _ protocolRuntime_table

end DarwinScope.Objc
