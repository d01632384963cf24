import DarwinScope.Objc.Metadata

namespace DarwinScope.Objc

open Machine

section

variable {rt : ObjcRuntime} {va : U64} {words : List U64} {i : Nat} {word : U64}

theorem slot_of_stored (plain : ∀ va, rt.rebasesByVa va = none) (stored : rt.Stored va (encodePointers words))
    (at? : words[i]? = some word) (low : word.toNat < 2^47) :
    rt.resolvePointer (va + BitVec.ofNat 64 (8 * i)) = some word := by
  have pointer := stored.pointer at?
  rw [ObjcRuntime.resolvePointer, plain, pointer.readU64, Option.map_some, stripSignature_of_lt (by omega)]

theorem first_slot_of_stored (plain : ∀ va, rt.rebasesByVa va = none)
    (stored : rt.Stored va (encodePointers (word :: words)))
    (low : word.toNat < 2^47) : rt.resolvePointer va = some word := by
  have slot := slot_of_stored (i := 0) plain stored rfl low
  rwa [Nat.mul_zero, BitVec.add_zero] at slot

theorem field_of_stored {start : Nat} (plain : ∀ va, rt.rebasesByVa va = none)
    (stored : rt.Stored (va + BitVec.ofNat 64 start) (encodePointers words)) (at? : words[i]? = some word)
    (low : word.toNat < 2^47) (room : va.toNat + (start + 8 * i) < 2^64) :
    rt.requiredField va (BitVec.ofNat 64 (start + 8 * i)) = some word ∧
      rt.pointerField va (BitVec.ofNat 64 (start + 8 * i)) = some word := by
  have slot := slot_of_stored plain stored at? low
  rw [add_ofNat_add] at slot
  rw [ObjcRuntime.requiredField, ObjcRuntime.pointerField, checkedAdd_ofNat room, Option.bind_some, Option.map_some, slot]
  exact ⟨rfl, rfl⟩

theorem pointer_of_stored (plain : ∀ va, rt.rebasesByVa va = none) (stored : rt.Stored va (encodePointers words))
    (at? : words[i]? = some word) (low : word.toNat < 2^47) (room : va.toNat + 8 * i < 2^64) :
    rt.requiredField va (BitVec.ofNat 64 (8 * i)) = some word ∧
      rt.pointerField va (BitVec.ofNat 64 (8 * i)) = some word := by
  have base : rt.Stored (va + BitVec.ofNat 64 0) (encodePointers words) := by rwa [BitVec.add_zero]
  have field := field_of_stored plain base at? low (by omega)
  rwa [Nat.zero_add] at field

theorem text_of_held {t : Text} (fits : t.Fits) (held : Held rt t.object) :
    ∃ s, rt.readCstr t.va = some s ∧ s.text = t.text := by
  rcases held with ⟨stored, nonzero, -, -⟩
  have read := stored.readCstr fits.1 fits.2 nonzero
  exact Option.map_eq_some_iff.mp read

theorem Held.low {o : Placed} (held : Held rt o) : o.1.toNat < 2^47 := held.2.2.2

theorem decodeLegacyMethod_of_stored {m : MethodData} (plain : ∀ va, rt.rebasesByVa va = none) (fits : m.Fits)
    (held : ∀ o ∈ m.objects, Held rt o) (stored : rt.Stored va m.encode) :
    (decodeLegacyMethod rt va).map Method.content = some m.content := by
  rcases fits with ⟨selectorFits, typesFits, impLow⟩
  have selectorHeld := held m.selector.object (by simp [MethodData.objects])
  have typesHeld := held m.types.object (by simp [MethodData.objects])
  rcases text_of_held selectorFits selectorHeld with ⟨selector, selectorRead, selectorText⟩
  rcases text_of_held typesFits typesHeld with ⟨types, typesRead, typesText⟩
  have room := stored.room
  rw [MethodData.encode, encodePointers_length] at room
  simp only [List.length_cons, List.length_nil] at room
  rcases stored.readBytes (by rw [MethodData.encode, encodePointers_length]; exact Nat.succ_pos _) with ⟨part, read, -⟩
  have inside : rt.readBytes va 24 = some part := read
  have selectorSlot := first_slot_of_stored plain stored selectorHeld.low
  have typesField : rt.requiredField va 8 = some m.types.va :=
    (pointer_of_stored (i := 1) plain stored rfl typesHeld.low (by omega)).1
  have impField : rt.pointerField va 16 = some m.imp :=
    (pointer_of_stored (i := 2) plain stored rfl impLow (by omega)).2
  simp only [decodeLegacyMethod, inside, selectorSlot, typesField, impField, selectorRead, typesRead,
    Option.bind_eq_bind, Option.bind_some, Option.getD_some, Option.map_some, Method.content, MethodData.content,
    selectorText, typesText]

theorem decodeProperty_of_stored {p : PropertyData} (plain : ∀ va, rt.rebasesByVa va = none) (fits : p.Fits)
    (held : ∀ o ∈ p.objects, Held rt o) (stored : rt.Stored va p.encode) :
    (decodeProperty rt va).map Property.content = some p.content := by
  rcases fits with ⟨nameFits, attributesFits⟩
  have nameHeld := held p.name.object (by simp [PropertyData.objects])
  have attributesHeld := held p.attributes.object (by simp [PropertyData.objects])
  rcases text_of_held nameFits nameHeld with ⟨name, nameRead, nameText⟩
  rcases text_of_held attributesFits attributesHeld with ⟨attributes, attributesRead, attributesText⟩
  have room := stored.room
  rw [PropertyData.encode, encodePointers_length] at room
  simp only [List.length_cons, List.length_nil] at room
  rcases stored.readBytes (by rw [PropertyData.encode, encodePointers_length]; exact Nat.succ_pos _) with ⟨part, read, -⟩
  have inside : rt.readBytes va propertyEntsize = some part := read
  have nameSlot := first_slot_of_stored plain stored nameHeld.low
  have attributesField : rt.pointerField va 8 = some p.attributes.va :=
    (pointer_of_stored (i := 1) plain stored rfl attributesHeld.low (by omega)).2
  simp only [decodeProperty, inside, nameSlot, attributesField, nameRead, attributesRead, Option.bind_eq_bind,
    Option.bind_some, Option.getD_some, Option.map_some, Property.content, PropertyData.content, nameText, attributesText]

theorem alignment_of_byte (a : U8) :
    (if a.setWidth 32 = (0xffffffff : U32) then (3 : U8) else (a.setWidth 32 &&& 0xff : U32).setWidth 8) = a := by
  have low : (a.setWidth 32 : U32).toNat = a.toNat := by
    rw [BitVec.toNat_setWidth, Nat.mod_eq_of_lt (by omega)]
  rw [if_neg]
  · apply BitVec.eq_of_toNat_eq
    rw [BitVec.toNat_setWidth, and_lowMask_toNat _ 0xff 8 rfl, low]
    omega
  · intro full
    have value := congrArg BitVec.toNat full
    rw [low] at value
    have bound := a.isLt
    have top : (0xffffffff : U32).toNat = 4294967295 := rfl
    omega

theorem decodeIvar_of_stored {v : IvarData} (plain : ∀ va, rt.rebasesByVa va = none) (fits : v.Fits)
    (held : ∀ o ∈ v.objects, Held rt o) (stored : rt.Stored va v.encode) :
    (decodeIvar rt va).map Ivar.content = some v.content := by
  rcases fits with ⟨nameFits, typeFits⟩
  have nameHeld := held v.name.object (by simp [IvarData.objects])
  have typeHeld := held v.type.object (by simp [IvarData.objects])
  have cellHeld := held (v.cellVa, leBytes 4 v.offset.toNat) (by simp [IvarData.objects])
  rcases text_of_held nameFits nameHeld with ⟨name, nameRead, nameText⟩
  rcases text_of_held typeFits typeHeld with ⟨type, typeRead, typeText⟩
  have size : v.encode.length = ivarEntsize := by
    rw [IvarData.encode, List.length_append, encodePointers_length, encodeWords_length]
    rfl
  have room := stored.room
  have wide : ivarEntsize = 32 := rfl
  rw [size] at room
  rcases stored.readBytes (by rw [size]; decide) with ⟨part, inside, same⟩
  rw [size] at inside
  rw [IvarData.encode] at same
  have cellSlot := first_slot_of_stored plain stored.left cellHeld.low
  have nameField : rt.requiredField va 8 = some v.name.va :=
    (pointer_of_stored (i := 1) plain stored.left rfl nameHeld.low (by omega)).1
  have typeField : rt.pointerField va 16 = some v.type.va :=
    (pointer_of_stored (i := 2) plain stored.left rfl typeHeld.low (by omega)).2
  have tail : part.bytes = encodePointers [v.cellVa, v.name.va, v.type.va] ++
      (encodeWords [v.log2Alignment.setWidth 32, v.size] ++ []) := by rw [List.append_nil]; exact same
  have alignment : readU32LeAt part 24 = some (v.log2Alignment.setWidth 32) := readAt_words (i := 0) _ _ tail rfl
  have sizeWord : readU32LeAt part 28 = some v.size := readAt_words (i := 1) _ _ tail rfl
  have cell : rt.readU32 v.cellVa = some v.offset := cellHeld.1.readU32
  simp only [decodeIvar, inside, cellSlot, nameField, typeField, alignment, sizeWord, nameRead, typeRead,
    Option.bind_eq_bind, Option.bind_some, Option.getD_some, Option.map_some, Ivar.content, IvarData.content, nameText,
    typeText, if_neg cellHeld.2.1, cell, alignment_of_byte]

theorem listHeader_of_stored {α : Type} {encode : α → Bytes} {items : List α} {header : U32}
    (stored : rt.Stored va (encodeList header encode items)) :
    listHeader rt va = some (header, BitVec.ofNat 32 items.length) := by
  rcases stored.left.readWords (Nat.succ_pos _) with ⟨part, found, each⟩
  have read : rt.readBytes va 8 = some part := found
  have first : readU32LeAt part 0 = some header := each 0 _ rfl
  have second : readU32LeAt part 4 = some (BitVec.ofNat 32 items.length) := each 1 _ rfl
  simp only [listHeader, read, first, second, Option.bind_eq_bind, Option.bind_some]

theorem listRows_at {α β γ : Type} {decode : U64 → Option α} {content : α → γ} {expected : β → γ} {encode : β → Bytes}
    {items : List β} {stride : Nat} (sized : ∀ item ∈ items, (encode item).length = stride) (small : stride < 2^32)
    (some : 0 < stride) (few : items.length < 2^32) (stored : rt.Stored va (items.flatMap encode))
    (each : ∀ i item, items[i]? = .some item → rt.Stored (va + BitVec.ofNat 64 (stride * i)) (encode item) →
      (decode (va + BitVec.ofNat 64 (stride * i))).map content = .some (expected item)) :
    (listRows decode ⟨va, BitVec.ofNat 32 stride, BitVec.ofNat 32 items.length⟩).map content = items.map expected := by
  have room := stored.room
  rw [flatMap_length sized] at room
  have step : ((BitVec.ofNat 32 stride).setWidth 64 : U64) = BitVec.ofNat 64 stride :=
    BitVec.setWidth_ofNat_of_le_of_lt (by decide) small
  have count : (BitVec.ofNat 32 items.length).toNat = (items.map expected).length := by
    rw [List.length_map, toNat_ofNat_of_lt few]
  rw [← listRows_map, listRows, count]
  apply rows_yield
  intro i found at?
  rw [List.getElem?_map, Option.map_eq_some_iff] at at?
  rcases at? with ⟨item, here, rfl⟩
  have below : i < items.length := (List.getElem?_eq_some_iff.mp here).1
  rcases checkedEntry some below room with ⟨product, place⟩
  have entry := each i item here (stored.entry sized here)
  rw [entryRow]
  dsimp only
  rw [step, product, Option.bind_some, place]
  dsimp only
  rw [entry]

theorem listRows_of_stored {α β γ : Type} {decode : U64 → Option α} {content : α → γ} {expected : β → γ}
    {encode : β → Bytes} {items : List β} {stride : Nat} (sized : ∀ item ∈ items, (encode item).length = stride)
    (small : stride < 2^32) (some : 0 < stride) (few : items.length < 2^32) (stored : rt.Stored va (items.flatMap encode))
    (each : ∀ item ∈ items, ∀ va, rt.Stored va (encode item) → (decode va).map content = .some (expected item)) :
    (listRows decode ⟨va, BitVec.ofNat 32 stride, BitVec.ofNat 32 items.length⟩).map content = items.map expected :=
  listRows_at sized small some few stored fun _ item at? => each item (List.mem_of_getElem? at?) _

theorem low_bit {p : U64} (aligned : p.toNat % 8 = 0) : p &&& 1 = 0 := by
  have zero : (0 : U64).toNat = 0 := rfl
  apply BitVec.eq_of_toNat_eq
  rw [and_lowMask_toNat p 1 1 rfl, zero]
  omega

theorem not_skipped {o : Placed} (held : Held rt o) : ¬ (o.1 = 0 ∨ o.1 &&& 1 ≠ 0) := by
  rintro (null | odd)
  · exact held.2.1 null
  · exact odd (low_bit held.2.2.1)

theorem mem_listObjects {α : Type} {encode : List α → Bytes} {objects : α → List Placed} {l : Listed α} {item : α}
    (member : item ∈ l.items) {o : Placed} (part : o ∈ objects item) : o ∈ listObjects encode objects (some l) :=
  List.mem_cons_of_mem _ (List.mem_flatMap.mpr ⟨item, member, part⟩)

theorem entries_of_stored {α : Type} {encode : α → Bytes} {items : List α} {header : U32}
    (stored : rt.Stored va (encodeList header encode items)) : rt.Stored (va + 8) (items.flatMap encode) :=
  stored.right

theorem base_of_stored {α : Type} {encode : α → Bytes} {items : List α} {header : U32}
    (stored : rt.Stored va (encodeList header encode items)) : checkedAdd va 8 = some (va + 8) := by
  have room := stored.room
  rw [encodeList, List.length_append, encodeWords_length, List.length_cons, List.length_singleton] at room
  exact @checkedAdd_ofNat 64 va 8 (by omega)

theorem methodListIter_of_held {o : Option (Listed MethodData)} {header : U32} (plain : ∀ va, rt.rebasesByVa va = none)
    (entsize : header &&& ~~~methodListFlagMask = 24) (legacy : header &&& smallMethodListFlag = 0)
    (few : (listItems o).length < 2^32) (fits : ∀ m ∈ listItems o, m.Fits)
    (held : ∀ x ∈ listObjects (encodeList header MethodData.encode) MethodData.objects o, Held rt x) :
    (methodListIter rt (listPointer o)).map Method.content = (listItems o).map MethodData.content := by
  cases o with
  | none => rfl
  | some l =>
    have list := held (l.va, encodeList header MethodData.encode l.items) List.mem_cons_self
    have layout : methodListLayout rt l.va = some (⟨l.va + 8, 24, BitVec.ofNat 32 l.items.length⟩, .legacy) := by
      rw [methodListLayout, if_neg (not_skipped list), listHeader_of_stored list.1, Option.bind_some, methodLayout, entsize,
        if_neg (by decide)]
      dsimp only
      rw [legacy, if_neg (not_not.mpr rfl), if_neg (by decide), base_of_stored list.1]
      rfl
    change (methodListIter rt l.va).map Method.content = l.items.map MethodData.content
    rw [methodListIter, layout]
    refine listRows_of_stored (fun m _ => encodePointers_length _) (by decide) (by decide) few (entries_of_stored list.1) ?_
    intro m member va stored
    exact decodeLegacyMethod_of_stored plain (fits m member) (fun x part => held x (mem_listObjects member part)) stored

theorem plainListLayout_of_stored {α : Type} {encode : α → Bytes} {items : List α} {entsize : Nat} (small : entsize < 2^32)
    (stored : rt.Stored va (encodeList (BitVec.ofNat 32 entsize) encode items)) :
    plainListLayout rt va entsize = some ⟨va + 8, BitVec.ofNat 32 entsize, BitVec.ofNat 32 items.length⟩ := by
  have word : (BitVec.ofNat 32 entsize).toNat = entsize := by rw [toNat_ofNat_of_lt small]
  rw [plainListLayout, listHeader_of_stored stored, Option.bind_some, plainLayout, word, if_neg (Nat.lt_irrefl entsize),
    base_of_stored stored]
  rfl

theorem ivarListIter_of_held {o : Option (Listed IvarData)} (plain : ∀ va, rt.rebasesByVa va = none)
    (few : (listItems o).length < 2^32) (fits : ∀ v ∈ listItems o, v.Fits)
    (held : ∀ x ∈ listObjects (encodeList 32 IvarData.encode) IvarData.objects o, Held rt x) :
    (ivarListIter rt (listPointer o)).map Ivar.content = (listItems o).map IvarData.content := by
  cases o with
  | none => rfl
  | some l =>
    have list := held (l.va, encodeList 32 IvarData.encode l.items) List.mem_cons_self
    have layout : plainListLayout rt l.va 32 = some ⟨l.va + 8, 32, BitVec.ofNat 32 l.items.length⟩ :=
      plainListLayout_of_stored (by decide) list.1
    change (ivarListIter rt l.va).map Ivar.content = l.items.map IvarData.content
    rw [ivarListIter, if_neg list.2.1, ivarEntsize, layout]
    refine listRows_of_stored ?_ (by decide) (by decide) few (entries_of_stored list.1) ?_
    · intro v _
      rw [IvarData.encode, List.length_append, encodePointers_length, encodeWords_length]
      rfl
    · intro v member va stored
      exact decodeIvar_of_stored plain (fits v member) (fun x part => held x (mem_listObjects member part)) stored

theorem propertyListIter_of_held {o : Option (Listed PropertyData)} (plain : ∀ va, rt.rebasesByVa va = none)
    (few : (listItems o).length < 2^32) (fits : ∀ p ∈ listItems o, p.Fits)
    (held : ∀ x ∈ listObjects (encodeList 16 PropertyData.encode) PropertyData.objects o, Held rt x) :
    (propertyListIter rt (listPointer o)).map Property.content = (listItems o).map PropertyData.content := by
  cases o with
  | none => rfl
  | some l =>
    have list := held (l.va, encodeList 16 PropertyData.encode l.items) List.mem_cons_self
    have layout : plainListLayout rt l.va 16 = some ⟨l.va + 8, 16, BitVec.ofNat 32 l.items.length⟩ :=
      plainListLayout_of_stored (by decide) list.1
    change (propertyListIter rt l.va).map Property.content = l.items.map PropertyData.content
    rw [propertyListIter, if_neg (not_skipped list), propertyEntsize, layout]
    refine listRows_of_stored (fun p _ => encodePointers_length _) (by decide) (by decide) few (entries_of_stored list.1) ?_
    intro p member va stored
    exact decodeProperty_of_stored plain (fits p member) (fun x part => held x (mem_listObjects member part)) stored

theorem pointerField_some {k : Nat} (room : va.toNat + k < 2^64) : ∃ w, rt.pointerField va (BitVec.ofNat 64 k) = some w := by
  rw [ObjcRuntime.pointerField, checkedAdd_ofNat room]
  exact ⟨_, rfl⟩

theorem decodeProtocol_of_held {p : ProtocolData} (plain : ∀ va, rt.rebasesByVa va = none) (fits : p.Fits)
    (held : ∀ o ∈ p.objects, Held rt o) : ∃ d, decodeProtocol rt p.va = some d ∧ d.name.text = p.name.text := by
  rcases fits with ⟨nameFits, declared⟩
  have nameHeld := held p.name.object (by simp [ProtocolData.objects])
  have stored := (held (p.va, p.encode) (by simp [ProtocolData.objects])).1
  rcases text_of_held nameFits nameHeld with ⟨name, nameRead, nameText⟩
  have size : p.encode.length = 72 + p.trailing.length := by
    rw [ProtocolData.encode, List.length_append, List.length_append, encodePointers_length, encodeWords_length,
      ← Nat.add_assoc]
    rfl
  have room := stored.room
  dsimp only at stored room
  rw [size] at room
  have fixed : rt.Stored p.va
      (encodePointers (p.isa :: p.name.va :: List.ofFn p.lists) ++ encodeWords [p.size, p.flags]) := by
    rw [ProtocolData.encode, ← List.append_assoc] at stored
    exact stored.left
  rcases fixed.readBytes (by rw [List.length_append, encodePointers_length]; exact Nat.succ_pos _) with ⟨part, read, same⟩
  have inside : rt.readBytes p.va protocolBaseSize = some part := by
    rw [List.length_append, encodePointers_length, encodeWords_length] at read
    exact read
  have tail : part.bytes = encodePointers (p.isa :: p.name.va :: List.ofFn p.lists) ++
      (encodeWords [p.size, p.flags] ++ []) := by rw [List.append_nil]; exact same
  have sizeWord : readU32LeAt part 64 = some p.size := by
    have word := readAt_words (i := 0) _ _ tail rfl
    rwa [encodePointers_length] at word
  have flagsWord : readU32LeAt part 68 = some p.flags := by
    have word := readAt_words (i := 1) _ _ tail rfl
    rwa [encodePointers_length] at word
  have nameField : rt.requiredField p.va 8 = some p.name.va :=
    (pointer_of_stored (i := 1) plain fixed.left rfl nameHeld.low (by omega)).1
  have protocols : ∃ w, rt.pointerField p.va 16 = some w := pointerField_some (k := 16) (by omega)
  have instanceMethods : ∃ w, rt.pointerField p.va 24 = some w := pointerField_some (k := 24) (by omega)
  have classMethods : ∃ w, rt.pointerField p.va 32 = some w := pointerField_some (k := 32) (by omega)
  have optionalInstance : ∃ w, rt.pointerField p.va 40 = some w := pointerField_some (k := 40) (by omega)
  have optionalClass : ∃ w, rt.pointerField p.va 48 = some w := pointerField_some (k := 48) (by omega)
  have properties : ∃ w, rt.pointerField p.va 56 = some w := pointerField_some (k := 56) (by omega)
  rcases protocols with ⟨protocols, protocolsField⟩
  rcases instanceMethods with ⟨instanceMethods, instanceField⟩
  rcases classMethods with ⟨classMethods, classField⟩
  rcases optionalInstance with ⟨optionalInstance, optionalInstanceField⟩
  rcases optionalClass with ⟨optionalClass, optionalClassField⟩
  rcases properties with ⟨properties, propertiesField⟩
  simp only [decodeProtocol, inside, nameField, protocolsField, instanceField, classField, optionalInstanceField,
    optionalClassField, propertiesField, sizeWord, flagsWord, nameRead, Option.bind_eq_bind, Option.bind_some]
  by_cases long : protocolFieldClassPropertiesOffset + 8 ≤ p.size.toNat
  · -- the field of the class properties lies in what stands behind the flags
    have base72 : protocolBaseSize = 72 := rfl
    have offset88 : protocolFieldClassPropertiesOffset = 88 := rfl
    rcases stored.readInside (by omega : protocolFieldClassPropertiesOffset + 8 ≤ p.encode.length) (by decide)
      with ⟨slot, slotRead⟩
    rw [if_pos long, checkedAdd_ofNat (by omega), Option.bind_some, slotRead]
    exact ⟨_, rfl, nameText⟩
  · rw [if_neg long]
    exact ⟨_, rfl, nameText⟩

theorem protocolNameIter_of_held {o : Option (Listed ProtocolData)} (plain : ∀ va, rt.rebasesByVa va = none)
    (fits : ∀ p ∈ listItems o, p.Fits) (held : ∀ x ∈ listObjects encodeProtocols ProtocolData.objects o, Held rt x) :
    (protocolNameIter rt (listPointer o)).map Str.text = ((listItems o).map fun p => p.name.text).take (2^20) := by
  cases o with
  | none => rfl
  | some l =>
    have list := held (l.va, encodeProtocols l.items) List.mem_cons_self
    have room := list.1.room
    dsimp only [encodeProtocols] at room
    rw [encodePointers_length, List.length_cons, List.length_map] at room
    have header : (rt.readBytes l.va 8).bind (fun header => readU64LeAt header 0) =
        some (BitVec.ofNat 64 l.items.length) := by
      have first := list.1.pointer (i := 0) rfl
      rw [Nat.mul_zero, BitVec.add_zero] at first
      rcases first.readBytes (by rw [leBytes_length]; decide) with ⟨part, read, same⟩
      rw [leBytes_length] at read
      have word : readU64LeAt part 0 = some (BitVec.ofNat 64 l.items.length) :=
        readAt_leBytes_of_holds (by decide) (by decide) (Slice.holds_of_bytes same)
      dsimp only at read
      rw [read, Option.bind_some, word]
    have base : checkedAdd l.va 8 = some (l.va + 8) := @checkedAdd_ofNat 64 l.va 8 (by omega)
    have count : (BitVec.ofNat 64 l.items.length).toNat = l.items.length := by
      rw [toNat_ofNat_of_lt (by omega)]
    have visited : min l.items.length (2^20) = ((l.items.map fun p => p.name.text).take (2^20)).length := by
      rw [List.length_take, List.length_map, Nat.min_comm]
    change (protocolNameIter rt l.va).map Str.text = (l.items.map fun p => p.name.text).take (2^20)
    rw [protocolNameIter, if_neg (not_skipped list), header, base]
    dsimp only
    rw [count, ← rows_map, visited]
    apply rows_yield
    intro i text at?
    rw [List.getElem?_take] at at?
    split at at?
    · rw [List.getElem?_map, Option.map_eq_some_iff] at at?
      rcases at? with ⟨p, here, rfl⟩
      have member := List.mem_of_getElem? here
      have below : i < l.items.length := (List.getElem?_eq_some_iff.mp here).1
      have protocolHeld : ∀ x ∈ p.objects, Held rt x := fun x part => held x (mem_listObjects member part)
      have object := protocolHeld (p.va, p.encode) (by simp [ProtocolData.objects])
      rcases decodeProtocol_of_held plain (fits p member) protocolHeld with ⟨d, decoded, name⟩
      have pointer := slot_of_stored (i := i + 1) plain list.1
        (by rw [List.getElem?_cons_succ, List.getElem?_map, here, Option.map_some]) object.low
      have place : (l.va + 8 : U64) + BitVec.ofNat 64 (8 * i) = l.va + BitVec.ofNat 64 (8 * (i + 1)) := by
        rw [Nat.mul_succ, Nat.add_comm]
        exact add_ofNat_add l.va 8 (8 * i)
      have after : (l.va + 8).toNat = l.va.toNat + 8 := @toNat_add_ofNat 64 l.va 8 (by omega)
      rcases @checkedEntry 64 (l.va + 8) 8 i l.items.length (by decide) below (by omega) with ⟨product, sum⟩
      rw [place] at sum
      have step : checkedMul (BitVec.ofNat 64 i) 8 = some (BitVec.ofNat 64 (8 * i)) := product
      dsimp only at pointer
      rw [protocolNameRow, step, Option.bind_some, sum]
      dsimp only
      rw [protocolSlotName, pointer, Option.getD_some, if_pos object.2.1, decoded]
      exact congrArg Row.yield name
    · cases at?

theorem listPointer_low {α : Type} {encode : List α → Bytes} {objects : α → List Placed} {o : Option (Listed α)}
    (held : ∀ x ∈ listObjects encode objects o, Held rt x) : (listPointer o).toNat < 2^47 := by
  cases o with
  | none => exact Nat.two_pow_pos 47
  | some l => exact (held (l.va, encode l.items) List.mem_cons_self).low

structure RoRow where
  address : U64
  ivarLayoutVa : U64
  weakIvarLayoutVa : U64
  content : RoContent
  protocols : List Bytes

def ClassRo.shown (rt : ObjcRuntime) (ro : ClassRo) : RoRow :=
  ⟨ro.address, ro.ivarLayoutVa, ro.weakIvarLayoutVa, ro.content rt, (ro.protocols rt).map Str.text⟩

def RoData.shown (ro : RoData) : RoRow :=
  ⟨ro.va, ro.ivarLayoutVa, ro.weakIvarLayoutVa, ro.content, ro.protocolNames⟩

theorem decodeClassRo_of_held {ro : RoData} (plain : ∀ va, rt.rebasesByVa va = none) (fits : ro.Fits)
    (held : ∀ o ∈ ro.objects, Held rt o) :
    (decodeClassRo rt ro.va).map (ClassRo.shown rt) = some { ro.shown with protocols := ro.protocolNames.take (2^20) } := by
  have object := held (ro.va, ro.encode) List.mem_cons_self
  have nameHeld := held ro.name.object (List.mem_cons_of_mem _ List.mem_cons_self)
  have methodsHeld : ∀ x ∈ listObjects (encodeList ro.methodHeader MethodData.encode) MethodData.objects ro.methods,
    Held rt x :=
    fun x part => held x (by simp only [RoData.objects, List.mem_cons, List.mem_append, part, or_true, true_or])
  have protocolsHeld : ∀ x ∈ listObjects encodeProtocols ProtocolData.objects ro.protocols, Held rt x :=
    fun x part => held x (by simp only [RoData.objects, List.mem_cons, List.mem_append, part, or_true, true_or])
  have ivarsHeld : ∀ x ∈ listObjects (encodeList 32 IvarData.encode) IvarData.objects ro.ivars, Held rt x :=
    fun x part => held x (by simp only [RoData.objects, List.mem_cons, List.mem_append, part, or_true, true_or])
  have propertiesHeld : ∀ x ∈ listObjects (encodeList 16 PropertyData.encode) PropertyData.objects ro.properties,
    Held rt x :=
    fun x part => held x (by simp only [RoData.objects, List.mem_cons, List.mem_append, part, or_true])
  rcases text_of_held fits.name nameHeld with ⟨name, nameRead, nameText⟩
  have methods := methodListIter_of_held plain fits.header.1 fits.header.2 fits.counts.1 fits.methods methodsHeld
  have protocols := protocolNameIter_of_held plain fits.protocols protocolsHeld
  have ivars := ivarListIter_of_held plain fits.counts.2.1 fits.ivars ivarsHeld
  have properties := propertyListIter_of_held plain fits.counts.2.2 fits.properties propertiesHeld
  have stored := object.1
  have size : ro.encode.length = classRoTSize := by
    rw [RoData.encode, List.length_append, encodePointers_length, encodeWords_length]
    rfl
  have wide : classRoTSize = 72 := rfl
  have room := stored.room
  dsimp only at stored room
  rw [size] at room
  rcases stored.readBytes (by rw [size]; decide) with ⟨part, inside, same⟩
  rw [size] at inside
  have head : part.bytes = [] ++ (encodeWords [ro.flags, ro.instanceStart, ro.instanceSize, ro.reserved] ++ _) := same
  have pointers : rt.Stored (ro.va + BitVec.ofNat 64 16) _ := stored.right
  have flags : readU32LeAt part 0 = some ro.flags := readAt_words (i := 0) _ _ head rfl
  have instanceStart : readU32LeAt part 4 = some ro.instanceStart := readAt_words (i := 1) _ _ head rfl
  have instanceSize : readU32LeAt part 8 = some ro.instanceSize := readAt_words (i := 2) _ _ head rfl
  have ivarLayout : rt.pointerField ro.va 16 = some ro.ivarLayoutVa :=
    (field_of_stored (i := 0) plain pointers rfl fits.layouts.1 (by omega)).2
  have nameField : rt.requiredField ro.va 24 = some ro.name.va :=
    (field_of_stored (i := 1) plain pointers rfl nameHeld.low (by omega)).1
  have methodsField : rt.pointerField ro.va 32 = some (listPointer ro.methods) :=
    (field_of_stored (i := 2) plain pointers rfl (listPointer_low methodsHeld) (by omega)).2
  have protocolsField : rt.pointerField ro.va 40 = some (listPointer ro.protocols) :=
    (field_of_stored (i := 3) plain pointers rfl (listPointer_low protocolsHeld) (by omega)).2
  have ivarsField : rt.pointerField ro.va 48 = some (listPointer ro.ivars) :=
    (field_of_stored (i := 4) plain pointers rfl (listPointer_low ivarsHeld) (by omega)).2
  have weakIvarLayout : rt.pointerField ro.va 56 = some ro.weakIvarLayoutVa :=
    (field_of_stored (i := 5) plain pointers rfl fits.layouts.2 (by omega)).2
  have propertiesField : rt.pointerField ro.va 64 = some (listPointer ro.properties) :=
    (field_of_stored (i := 6) plain pointers rfl (listPointer_low propertiesHeld) (by omega)).2
  simp only [decodeClassRo, inside, flags, instanceStart, instanceSize, ivarLayout, nameField, methodsField, protocolsField,
    ivarsField, weakIvarLayout, propertiesField, nameRead, Option.bind_eq_bind, Option.bind_some, Option.map_some,
    ClassRo.shown, ClassRo.content, ClassRo.methods, ClassRo.ivars, ClassRo.properties, ClassRo.protocols, methods, ivars,
    properties, protocols, nameText]
  rfl

theorem wide_of_aligned {p fast : U64} (aligned : p.toNat % 8 = 0) (low : p.toNat < 2^47) (few : fast.toNat < 8) :
    (p ||| fast) &&& fastDataMaskArm64e = p :=
  or_and_mask p fast _ 3 47 aligned low few (by decide) (by decide)

theorem clear_of_aligned {p : U64} (aligned : p.toNat % 8 = 0) : p &&& ~~~fastFlagsMask = p := by
  have cleared := or_and_mask p 0#64 (~~~fastFlagsMask) 3 64 aligned p.isLt (by decide) (by decide) (by decide)
  rwa [BitVec.or_zero] at cleared

theorem fast_of_aligned {p fast : U64} (aligned : p.toNat % 8 = 0) (few : fast.toNat < 8) :
    (p ||| fast) &&& fastFlagsMask = fast := by
  have whole : p.toNat = 2^3 * (p.toNat / 8) := by omega
  have sum : p.toNat ||| fast.toNat = 2^3 * (p.toNat / 8) + fast.toNat := by
    rw [Nat.two_pow_add_eq_or_of_lt few, ← whole]
  apply BitVec.eq_of_toNat_eq
  rw [and_lowMask_toNat _ fastFlagsMask 3 rfl, BitVec.toNat_or, sum]
  omega

theorem maskClassRoPointer_of_held {ro : RoData} {fast : U64} (held : Held rt (ro.va, ro.encode)) (few : fast.toNat < 8) :
    maskClassRoPointer rt (ro.va ||| fast) = some ro.va := by
  rcases held with ⟨stored, nonzero, aligned, low⟩
  rcases stored.start (by rw [RoData.encode, List.length_append, encodeWords_length]; exact Nat.succ_pos _)
    with ⟨off, place, -⟩
  have mapped : (rt.vmToFileOffset ro.va).isSome := by
    rw [show rt.vmToFileOffset ro.va = some off from place]
    rfl
  rw [maskClassRoPointer, wide_of_aligned aligned low few]
  dsimp only
  rw [if_pos ⟨nonzero, mapped⟩]

theorem decodeClass_of_held {c : ClassData} (plain : ∀ va, rt.rebasesByVa va = none) (fits : c.Fits)
    (held : ∀ o ∈ c.objects, Held rt o) (isMeta : Bool) : decodeClass rt c.va isMeta = some (c.row isMeta) := by
  have object := held (c.va, c.encode) List.mem_cons_self
  have ro := held (c.ro.va, c.ro.encode) (List.mem_cons_of_mem _ List.mem_cons_self)
  have size : c.encode.length = classTSize := encodePointers_length _
  have wide : classTSize = 40 := rfl
  have stored := object.1
  have room := stored.room
  dsimp only at stored room
  rw [size] at room
  rcases stored.readBytes (by rw [size]; decide) with ⟨part, inside, -⟩
  rw [size] at inside
  have super := slot_of_stored (i := 1) plain stored rfl fits.pointers.2
  have bits := stored.pointer (i := 4) rfl
  have stitched : stitchBits rt (c.va + BitVec.ofNat 64 32) (c.ro.va ||| c.fast) = c.ro.va ||| c.fast := by
    rw [stitchBits, plain, maskClassRoPointer_of_held ro fits.fast]
    dsimp only
    rw [Option.getD_some, clear_of_aligned ro.2.2.1, fast_of_aligned ro.2.2.1 fits.fast]
  apply decodeClass_eq_some.mpr
  refine ⟨_, _, c.ro.va ||| c.fast, by rw [inside]; rfl, @checkedAdd_ofNat 64 c.va 8 (by omega),
    @checkedAdd_ofNat 64 c.va 32 (by omega), bits.readU64, ?_⟩
  rw [first_slot_of_stored plain stored fits.pointers.1, super, stitched]
  rfl

theorem ro_of_held {c : ClassData} (plain : ∀ va, rt.rebasesByVa va = none) (fits : c.Fits)
    (held : ∀ o ∈ c.objects, Held rt o) (isMeta : Bool) :
    ((c.row isMeta).ro rt).map (ClassRo.shown rt) =
      some { c.ro.shown with protocols := c.ro.protocolNames.take (2^20) } := by
  have ro := held (c.ro.va, c.ro.encode) (List.mem_cons_of_mem _ List.mem_cons_self)
  have masked : maskClassRoPointer rt (c.row isMeta).bits = some c.ro.va := maskClassRoPointer_of_held ro fits.fast
  rw [ObjcClass.ro, masked, Option.bind_eq_bind, Option.bind_some]
  exact decodeClassRo_of_held plain fits.ro fun o part => held o (List.mem_cons_of_mem _ part)

theorem pointerTargets_eq {sec : MappedSection} {nonlazy : Option MappedSection} {vas : List U64}
    (listed : sec.slots.map (fun slot => (rt.resolvePointer slot).getD 0) = vas) (nonzero : ∀ va ∈ vas, va ≠ 0)
    (distinct : vas.Nodup)
    (others : ∀ other ∈ nonlazy, ∀ slot ∈ other.slots, (rt.resolvePointer slot).getD 0 = 0 ∨
      (rt.resolvePointer slot).getD 0 ∈ vas) :
    rt.pointerTargets [some sec, nonlazy] = vas := by
  have first : (sec.slots.map fun slot => (rt.resolvePointer slot).getD 0).foldl visit [] = vas := by
    rw [listed]
    exact visit_new nonzero distinct
  cases nonlazy with
  | none =>
    change ((List.flatMap MappedSection.slots [sec]).map fun slot => (rt.resolvePointer slot).getD 0).foldl visit [] = vas
    rw [List.flatMap_singleton, first]
  | some other =>
    change ((List.flatMap MappedSection.slots [sec, other]).map fun slot =>
      (rt.resolvePointer slot).getD 0).foldl visit [] = vas
    rw [List.flatMap_cons, List.flatMap_singleton, List.map_append, List.foldl_append, first]
    apply visit_known
    intro va member
    rcases List.mem_map.mp member with ⟨slot, slotted, rfl⟩
    exact others other rfl slot slotted

end

namespace LaidOut

variable {rt : ObjcRuntime} {sec : MappedSection} {classes : List ClassPair} {c : ClassPair}

theorem instance_held (laid : LaidOut rt sec classes) (member : c ∈ classes) : ∀ o ∈ c.instanceClass.objects, Held rt o :=
  fun o part => laid.objects c member o (List.mem_append_left _ part)

theorem metaclass_held (laid : LaidOut rt sec classes) (member : c ∈ classes) : ∀ o ∈ c.metaclass.objects, Held rt o :=
  fun o part => laid.objects c member o (List.mem_append_right _ part)

theorem address_held (laid : LaidOut rt sec classes) (member : c ∈ classes) :
    Held rt (c.instanceClass.va, c.instanceClass.encode) :=
  laid.instance_held member _ List.mem_cons_self

theorem slots_eq (laid : LaidOut rt sec classes) :
    sec.slots.map (fun slot => (rt.resolvePointer slot).getD 0) = classes.map fun c => c.instanceClass.va := by
  rw [MappedSection.slots, laid.slots, List.map_map]
  apply List.ext_getElem?
  intro i
  rw [List.getElem?_map, List.getElem?_map]
  by_cases below : i < classes.length
  · rw [List.getElem?_range below, List.getElem?_eq_getElem below]
    have member := List.getElem_mem below
    have slot := slot_of_stored (i := i) laid.plain laid.held.1
      (by rw [List.getElem?_map, List.getElem?_eq_getElem below, Option.map_some]) (laid.address_held member).low
    dsimp only at slot
    rw [Option.map_some, Option.map_some, Function.comp, slot, Option.getD_some]
  · have past : classes.length ≤ i := Nat.le_of_not_lt below
    rw [List.getElem?_eq_none (by rwa [List.length_range]), List.getElem?_eq_none past]
    rfl

theorem addresses (laid : LaidOut rt sec classes) :
    rt.pointerTargets [rt.classList, rt.nlclslist] = classes.map fun c => c.instanceClass.va := by
  rw [laid.listed]
  apply pointerTargets_eq laid.slots_eq
  · intro va member
    rcases List.mem_map.mp member with ⟨c, here, rfl⟩
    exact (laid.address_held here).2.1
  · exact laid.distinct
  · intro nonlazy found slot slotted
    cases target : rt.resolvePointer slot with
    | none => exact .inl rfl
    | some va =>
      rcases laid.others nonlazy found slot slotted va target with null | ⟨c, member, same⟩
      · exact .inl null
      · exact .inr (List.mem_map.mpr ⟨c, member, same⟩)

theorem classRows_eq (laid : LaidOut rt sec classes) (member : c ∈ classes) :
    classRows rt c.instanceClass.va = c.rows.map fun row => row.1.row row.2 := by
  rcases laid.fits c member with ⟨instanceFits, metaFits⟩
  have metaHeld := laid.metaclass_held member
  have object := metaHeld (c.metaclass.va, c.metaclass.encode) List.mem_cons_self
  have queued : queuedMeta c.instanceClass.va (c.instanceClass.row false) = some c.metaclass.va := by
    rw [queuedMeta, ClassData.row]
    dsimp only
    rw [c.linked, if_pos ⟨object.2.1, laid.apart c member⟩]
  rw [classRows, decodeClass_of_held laid.plain instanceFits (laid.instance_held member)]
  dsimp only
  rw [queued, Option.bind_some, decodeClass_of_held laid.plain metaFits metaHeld]
  rfl

theorem classes_eq (laid : LaidOut rt sec classes) :
    rt.classes = classes.flatMap fun c => c.rows.map fun row => row.1.row row.2 := by
  rw [ObjcRuntime.classes, laid.addresses, List.flatMap_map]
  apply List.flatMap_congr
  intro c member
  exact laid.classRows_eq member

theorem ro_eq (laid : LaidOut rt sec classes) (member : c ∈ classes) {row : ClassData × Bool} (listed : row ∈ c.rows) :
    ((row.1.row row.2).ro rt).map (ClassRo.shown rt) =
      some { row.1.ro.shown with protocols := row.1.ro.protocolNames.take (2^20) } := by
  rcases laid.fits c member with ⟨instanceFits, metaFits⟩
  rcases List.mem_pair.mp listed with rfl | rfl
  · exact ro_of_held laid.plain instanceFits (laid.instance_held member) false
  · exact ro_of_held laid.plain metaFits (laid.metaclass_held member) true

end LaidOut

/-- The class table round trip: each class and then its metaclass, in the order of the section, and each row with
    the data that was laid out, of its protocol names the first `2^20`. -/
theorem class_table_round_trip (rt : ObjcRuntime) (sec : MappedSection) (classes : List ClassPair)
    (laid : LaidOut rt sec classes) :
    rt.classes = classes.flatMap (fun c => c.rows.map fun row => row.1.row row.2) ∧
      ∀ c ∈ classes, ∀ row ∈ c.rows, ((row.1.row row.2).ro rt).map (ClassRo.shown rt) =
        some { row.1.ro.shown with protocols := row.1.ro.protocolNames.take (2^20) } :=
  ⟨laid.classes_eq, fun _ member _ listed => laid.ro_eq member listed⟩

end DarwinScope.Objc
