import Mathlib.Data.Set.List
import DarwinScope.Objc.ClassNames
import DarwinScope.Objc.Enumeration
import DarwinScope.Objc.ProtocolTable

namespace DarwinScope.Objc

open Machine

namespace ObjcCategory

variable (rt : ObjcRuntime) (category : ObjcCategory)

def instanceMethods : List Method := methodListIter rt category.instanceMethodsVa

def classMethods : List Method := methodListIter rt category.classMethodsVa

def protocols : List Str := protocolNameIter rt category.protocolsVa

def instanceProperties : List Property := propertyListIter rt category.instancePropertiesVa

def classProperties : List Property :=
  match category.classPropertiesVa with
  | some va => propertyListIter rt va
  | none => []

end ObjcCategory

/-- The class that a category extends: one of the image, one that is bound at load time, or none that is known. -/
inductive CategoryHost where
  | here (c : ClassData)
  | bound (symbol dylib : Str)
  | unknown

namespace CategoryHost

def word : CategoryHost → U64
  | here c => c.va
  | bound _ _ => 0
  | unknown => 0

def objects : CategoryHost → List Placed
  | here c => [(c.va, c.encode), (c.ro.va, c.ro.encode), c.ro.name.object]
  | bound _ _ => []
  | unknown => []

def name : CategoryHost → Option Bytes
  | here c => some c.ro.name.text
  | bound symbol _ => some (stripObjcSymbolPrefix symbol).text
  | unknown => none

/-- The bind of the slot is looked at only where the class is in another image. -/
def Fits (rt : ObjcRuntime) (slot : U64) : CategoryHost → Prop
  | here c => c.fast.toNat < 8 ∧ c.ro.name.Fits
  | bound symbol dylib => rt.bindsByVa slot = some (symbol, dylib)
  | unknown => rt.bindsByVa slot = none

end CategoryHost

structure CategoryObject where
  va : U64
  name : Text
  host : CategoryHost
  methodHeader : U32
  instanceMethods : Option (Listed MethodData)
  classMethods : Option (Listed MethodData)
  protocols : Option (Listed ProtocolData)
  instanceProperties : Option (Listed PropertyData)
  classProperties : Option (Listed PropertyData)

namespace CategoryObject

def pointers (c : CategoryObject) : List U64 :=
  [c.name.va, c.host.word, listPointer c.instanceMethods, listPointer c.classMethods, listPointer c.protocols,
    listPointer c.instanceProperties]

/-- The flags of the image tell whether its categories end in a field for class properties. -/
def encode (info : ImageInfo) (c : CategoryObject) : Bytes :=
  encodePointers (c.pointers ++ if info.hasCategoryClassProperties then [listPointer c.classProperties] else [])

def methodLists (c : CategoryObject) : List (Option (Listed MethodData)) := [c.instanceMethods, c.classMethods]

def propertyLists (c : CategoryObject) : List (Option (Listed PropertyData)) := [c.instanceProperties, c.classProperties]

def objects (info : ImageInfo) (c : CategoryObject) : List Placed :=
  (c.va, c.encode info) :: c.name.object :: (c.host.objects ++
    c.methodLists.flatMap (listObjects (encodeList c.methodHeader MethodData.encode) MethodData.objects) ++
    listObjects encodeProtocols ProtocolData.objects c.protocols ++
    c.propertyLists.flatMap (listObjects (encodeList 16 PropertyData.encode) PropertyData.objects))

structure Fits (rt : ObjcRuntime) (c : CategoryObject) : Prop where
  name : c.name.Fits
  host : c.host.Fits rt (c.va + 8)
  header : c.methodHeader &&& ~~~methodListFlagMask = 24 ∧ c.methodHeader &&& smallMethodListFlag = 0
  methods : ∀ l ∈ c.methodLists, (listItems l).length < 2^32 ∧ ∀ m ∈ listItems l, m.Fits
  protocols : ∀ adopted ∈ listItems c.protocols, adopted.Fits
  properties : ∀ l ∈ c.propertyLists, (listItems l).length < 2^32 ∧ ∀ m ∈ listItems l, m.Fits
  flagged : rt.imageInfo.hasCategoryClassProperties = true ∨ c.classProperties = none

end CategoryObject

structure CategoryContent where
  address : U64
  name : Bytes
  className : Option Bytes
  instanceMethods : List (Bytes × Bytes × Option U64 × MethodKind)
  classMethods : List (Bytes × Bytes × Option U64 × MethodKind)
  protocols : List Bytes
  instanceProperties : List (Bytes × Bytes)
  classProperties : List (Bytes × Bytes)
deriving DecidableEq

def ObjcCategory.content (rt : ObjcRuntime) (category : ObjcCategory) : CategoryContent where
  address := category.address
  name := category.name.text
  className := (category.className rt).map Str.text
  instanceMethods := (category.instanceMethods rt).map Method.content
  classMethods := (category.classMethods rt).map Method.content
  protocols := (category.protocols rt).map Str.text
  instanceProperties := (category.instanceProperties rt).map Property.content
  classProperties := (category.classProperties rt).map Property.content

/-- The content as it was laid out, of the adopted protocols the first `2^20`. -/
def CategoryObject.content (c : CategoryObject) : CategoryContent where
  address := c.va
  name := c.name.text
  className := c.host.name
  instanceMethods := (listItems c.instanceMethods).map MethodData.content
  classMethods := (listItems c.classMethods).map MethodData.content
  protocols := ((listItems c.protocols).map fun adopted => adopted.name.text).take (2^20)
  instanceProperties := (listItems c.instanceProperties).map PropertyData.content
  classProperties := (listItems c.classProperties).map PropertyData.content

section

variable {rt : ObjcRuntime} {c : CategoryObject}

theorem decodeClassName_of_held {d : ClassData} (plain : ∀ va, rt.rebasesByVa va = none) (few : d.fast.toNat < 8)
    (fits : d.ro.name.Fits) (object : Held rt (d.va, d.encode)) (ro : Held rt (d.ro.va, d.ro.encode))
    (name : Held rt d.ro.name.object) : (decodeClassName rt d.va).map Str.text = some d.ro.name.text := by
  have size : d.encode.length = classTSize := encodePointers_length _
  have stored := object.1
  have room := stored.room
  have roRoom := ro.1.room
  dsimp only at stored room roRoom
  rw [size] at room
  rw [RoData.encode, List.length_append, encodeWords_length] at roRoom
  rcases stored.readBytes (by rw [size]; decide) with ⟨part, inside, -⟩
  rw [size] at inside
  have bits := stored.pointer (i := 4) rfl
  have pointers : rt.Stored (d.ro.va + BitVec.ofNat 64 16) _ := ro.1.right
  have nameField : rt.requiredField d.ro.va 24 = some d.ro.name.va :=
    (field_of_stored (i := 1) plain pointers rfl name.low (by simp at roRoom; omega)).1
  have sum : checkedAdd d.va 32 = some (d.va + BitVec.ofNat 64 32) :=
    @checkedAdd_ofNat 64 d.va 32 (by simp only [classTSize] at room; omega)
  have found := decodeClassName_unrebased (by rw [inside]; rfl) sum (plain _) bits.readU64
    (maskClassRoPointer_of_held ro few)
  rcases text_of_held fits name with ⟨text, read, same⟩
  rw [found, roName, nameField, Option.bind_some, read, Option.map_some, same]

theorem className_of_held (plain : ∀ va, rt.rebasesByVa va = none) (fits : c.host.Fits rt (c.va + 8))
    (held : ∀ o ∈ c.host.objects, Held rt o) {category : ObjcCategory} (word : category.classVa = c.host.word)
    (slot : category.clsSlotVa = c.va + 8) : (category.className rt).map Str.text = c.host.name := by
  unfold ObjcCategory.className
  rw [word, slot]
  cases host : c.host with
  | here d =>
    rw [host] at fits held
    have object : Held rt (d.va, d.encode) := held _ (by simp [CategoryHost.objects])
    have ro : Held rt (d.ro.va, d.ro.encode) := held _ (by simp [CategoryHost.objects])
    have name : Held rt d.ro.name.object := held _ (by simp [CategoryHost.objects])
    have named := decodeClassName_of_held plain fits.1 fits.2 object ro name
    rcases Option.map_eq_some_iff.mp named with ⟨text, decoded, same⟩
    have nonzero : CategoryHost.word (.here d) ≠ 0 := object.2.1
    rw [if_pos nonzero, CategoryHost.word, decoded]
    exact congrArg some same
  | bound symbol dylib =>
    rw [host] at fits
    change rt.bindsByVa (c.va + 8) = some (symbol, dylib) at fits
    have null : ¬ CategoryHost.word (.bound symbol dylib) ≠ 0 := fun nonzero => nonzero rfl
    rw [if_neg null, fits]
    rfl
  | unknown =>
    rw [host] at fits
    change rt.bindsByVa (c.va + 8) = none at fits
    have null : ¬ CategoryHost.word .unknown ≠ 0 := fun nonzero => nonzero rfl
    rw [if_neg null, fits]
    rfl

theorem CategoryHost.low {rt : ObjcRuntime} {host : CategoryHost} (held : ∀ o ∈ host.objects, Held rt o) :
    host.word.toNat < 2^47 := by
  cases host with
  | here d => exact (held (d.va, d.encode) List.mem_cons_self).low
  | bound symbol dylib => exact Nat.two_pow_pos 47
  | unknown => exact Nat.two_pow_pos 47

theorem categoryProperties_of_held (plain : ∀ va, rt.rebasesByVa va = none) (fits : c.Fits rt)
    (stored : rt.Stored c.va (c.encode rt.imageInfo)) (low : (listPointer c.classProperties).toNat < 2^47)
    (list : (propertyListIter rt (listPointer c.classProperties)).map Property.content =
      (listItems c.classProperties).map PropertyData.content) :
    ∃ found : Option U64, (match found with
        | some va => propertyListIter rt va
        | none => []).map Property.content = (listItems c.classProperties).map PropertyData.content ∧
      ∀ {β : Type} (rest : Option U64 → Option β), (if rt.imageInfo.hasCategoryClassProperties = true then
        ((rt.pointerField c.va 48).map fun resolved => if resolved = 0 then none else some resolved).bind rest
      else rest none) = rest found := by
  by_cases newer : rt.imageInfo.hasCategoryClassProperties = true
  · rw [CategoryObject.encode, if_pos newer] at stored
    have room := stored.room
    simp [CategoryObject.pointers] at room
    have field : rt.pointerField c.va 48 = some (listPointer c.classProperties) :=
      (pointer_of_stored (i := 6) plain stored rfl low (by omega)).2
    refine ⟨if listPointer c.classProperties = 0 then none else some (listPointer c.classProperties), ?_, ?_⟩
    · exact (congrArg (List.map Property.content) (classProperties_of_pointer _)).trans list
    · intro β rest
      rw [if_pos newer, field, Option.map_some, Option.bind_some]
  · have without := fits.flagged.resolve_left newer
    refine ⟨none, ?_, fun _ => if_neg newer⟩
    rw [without]
    rfl

theorem decodeCategory_content (plain : ∀ va, rt.rebasesByVa va = none) (fits : c.Fits rt)
    (held : ∀ o ∈ c.objects rt.imageInfo, Held rt o) :
    (decodeCategory rt c.va).map (ObjcCategory.content rt) = some c.content := by
  have object := held (c.va, c.encode rt.imageInfo) List.mem_cons_self
  have nameHeld := held c.name.object (List.mem_cons_of_mem _ List.mem_cons_self)
  have hostHeld : ∀ o ∈ c.host.objects, Held rt o :=
    fun o part => held o (by simp only [CategoryObject.objects, List.mem_cons, List.mem_append, part, or_true, true_or])
  have protocolsHeld : ∀ x ∈ listObjects encodeProtocols ProtocolData.objects c.protocols, Held rt x :=
    fun x part => held x (by simp only [CategoryObject.objects, List.mem_cons, List.mem_append, part, or_true, true_or])
  have methods : ∀ l ∈ c.methodLists, (listPointer l).toNat < 2^47 ∧
      (methodListIter rt (listPointer l)).map Method.content = (listItems l).map MethodData.content := by
    intro l member
    have objects : ∀ x ∈ listObjects (encodeList c.methodHeader MethodData.encode) MethodData.objects l, Held rt x := by
      intro x part
      have listed := List.mem_flatMap.mpr ⟨l, member, part⟩
      exact held x (by simp only [CategoryObject.objects, List.mem_cons, List.mem_append, listed, or_true, true_or])
    rcases fits.methods l member with ⟨few, each⟩
    exact ⟨listPointer_low objects, methodListIter_of_held plain fits.header.1 fits.header.2 few each objects⟩
  have properties : ∀ l ∈ c.propertyLists, (listPointer l).toNat < 2^47 ∧
      (propertyListIter rt (listPointer l)).map Property.content = (listItems l).map PropertyData.content := by
    intro l member
    have objects : ∀ x ∈ listObjects (encodeList 16 PropertyData.encode) PropertyData.objects l, Held rt x := by
      intro x part
      have listed := List.mem_flatMap.mpr ⟨l, member, part⟩
      exact held x (by simp only [CategoryObject.objects, List.mem_cons, List.mem_append, listed, or_true])
    rcases fits.properties l member with ⟨few, each⟩
    exact ⟨listPointer_low objects, propertyListIter_of_held plain few each objects⟩
  rcases methods c.instanceMethods (by simp [CategoryObject.methodLists]) with ⟨low2, list2⟩
  rcases methods c.classMethods (by simp [CategoryObject.methodLists]) with ⟨low3, list3⟩
  rcases properties c.instanceProperties (by simp [CategoryObject.propertyLists]) with ⟨low5, list5⟩
  rcases properties c.classProperties (by simp [CategoryObject.propertyLists]) with ⟨low6, list6⟩
  rcases text_of_held fits.name nameHeld with ⟨name, nameRead, nameText⟩
  have protocols := protocolNameIter_of_held plain fits.protocols protocolsHeld
  have stored := object.1
  dsimp only at stored
  rcases categoryProperties_of_held plain fits stored low6 list6 with ⟨found, list, field6⟩
  have size : (c.encode rt.imageInfo).length =
      if rt.imageInfo.hasCategoryClassProperties = true then categoryWithClassPropsSize else categoryBaseSize := by
    rw [CategoryObject.encode, encodePointers_length, List.length_append]
    split <;> rfl
  rcases stored.readBytes (by rw [size]; split <;> decide) with ⟨part, read, -⟩
  rw [size] at read
  have front : rt.Stored c.va (encodePointers c.pointers) := by
    rw [CategoryObject.encode, encodePointers, List.flatMap_append] at stored
    exact stored.left
  have room := front.room
  simp only [encodePointers_length, CategoryObject.pointers, List.length_cons, List.length_nil] at room
  have slot1 : checkedAdd c.va 8 = some (c.va + 8) := @checkedAdd_ofNat 64 c.va 8 (by omega)
  have host : (rt.resolvePointer (c.va + 8)).getD 0 = c.host.word := by
    have word := slot_of_stored (i := 1) plain front rfl (CategoryHost.low hostHeld)
    exact congrArg (Option.getD · 0) word
  have nameField : rt.resolvePointer c.va = some c.name.va := first_slot_of_stored plain front nameHeld.low
  have field2 : rt.pointerField c.va 16 = some (listPointer c.instanceMethods) :=
    (pointer_of_stored (i := 2) plain front rfl low2 (by omega)).2
  have field3 : rt.pointerField c.va 24 = some (listPointer c.classMethods) :=
    (pointer_of_stored (i := 3) plain front rfl low3 (by omega)).2
  have field4 : rt.pointerField c.va 32 = some (listPointer c.protocols) :=
    (pointer_of_stored (i := 4) plain front rfl (listPointer_low protocolsHeld) (by omega)).2
  have field5 : rt.pointerField c.va 40 = some (listPointer c.instanceProperties) :=
    (pointer_of_stored (i := 5) plain front rfl low5 (by omega)).2
  simp only [decodeCategory, read, nameField, slot1, host, field2, field3, field4, field5, nameRead, Option.bind_eq_bind,
    Option.bind_some]
  let decoded (classPropertiesVa : Option U64) : ObjcCategory := ⟨c.va, name, c.host.word, c.va + 8,
    listPointer c.instanceMethods, listPointer c.classMethods, listPointer c.protocols, listPointer c.instanceProperties,
    classPropertiesVa⟩
  have content : (decoded found).content rt = c.content := by
    have className := @className_of_held _ _ plain fits.host hostHeld (decoded found) rfl rfl
    rw [CategoryObject.content, ← nameText, ← className, ← list2, ← list3, ← list5, ← list, ← protocols]
    rfl
  rw [← content, ← Option.map_some]
  exact congrArg (Option.map (ObjcCategory.content rt)) (field6 fun classPropertiesVa => some (decoded classPropertiesVa))

end

def categoryWord (entry : Option CategoryObject) : U64 := (entry.map CategoryObject.va).getD 0

def SlotsHold (rt : ObjcRuntime) (words : List U64) : Option MappedSection → Prop
  | some sec => sec.body.length / 8 = words.length ∧ rt.Stored sec.vmaddr (encodePointers words)
  | none => words = []

/-- The slots of both category lists and the categories they point to. A category may stand in both. -/
structure CategoryTable (rt : ObjcRuntime) (listed nonlazy : List (Option CategoryObject)) : Prop where
  plain : ∀ va, rt.rebasesByVa va = none
  slots : SlotsHold rt (listed.map categoryWord) rt.catList
  nonlazySlots : SlotsHold rt (nonlazy.map categoryWord) rt.nlcatList
  held : ∀ c, some c ∈ listed ++ nonlazy → ∀ o ∈ c.objects rt.imageInfo, Held rt o
  fits : ∀ c, some c ∈ listed ++ nonlazy → c.Fits rt

section

variable {rt : ObjcRuntime} {words : List U64} {found : Option MappedSection}

theorem SlotsHold.targets (plain : ∀ va, rt.rebasesByVa va = none) (hold : SlotsHold rt words found)
    (low : ∀ word ∈ words, word.toNat < 2^47) :
    ((found.map MappedSection.slots).getD []).map (fun slot => (rt.resolvePointer slot).getD 0) = words := by
  cases found with
  | none => exact hold.symm
  | some sec => exact slots_of_stored plain hold.1 hold.2 low

namespace CategoryTable

variable {listed nonlazy : List (Option CategoryObject)}

theorem low (table : CategoryTable rt listed nonlazy) {entry : Option CategoryObject} (member : entry ∈ listed ++ nonlazy) :
    (categoryWord entry).toNat < 2^47 := by
  cases entry with
  | none => exact Nat.two_pow_pos 47
  | some c => exact (table.held c member _ List.mem_cons_self).low

theorem addresses (table : CategoryTable rt listed nonlazy) :
    CategoryIter.new rt = ((listed ++ nonlazy).reduceOption.map CategoryObject.va).eraseDups := by
  have first := table.slots.targets table.plain (by
    intro word member
    rcases List.mem_map.mp member with ⟨entry, here, rfl⟩
    exact table.low (List.mem_append_left _ here))
  have second := table.nonlazySlots.targets table.plain (by
    intro word member
    rcases List.mem_map.mp member with ⟨entry, here, rfl⟩
    exact table.low (List.mem_append_right _ here))
  have both : (([rt.catList, rt.nlcatList].filterMap id).flatMap MappedSection.slots).map
      (fun slot => (rt.resolvePointer slot).getD 0) = (listed ++ nonlazy).map categoryWord := by
    rw [List.map_append, ← first, ← second, ← List.map_append]
    cases rt.catList <;> cases rt.nlcatList <;> simp
  rw [CategoryIter.new, pointerTargets_eq_eraseDups, ObjcRuntime.slotTargets, ← nonzero_targets, both, List.filter_map,
    List.reduceOption, List.map_filterMap]
  congr 1
  rw [← List.filterMap_eq_filter, List.map_filterMap]
  apply List.filterMap_congr
  intro entry member
  cases entry with
  | none => rfl
  | some c =>
    have nonzero : c.va ≠ 0 := (table.held c member _ List.mem_cons_self).2.1
    have guarded : Option.guard (fun entry => decide (categoryWord entry ≠ 0)) (some c) = some (some c) :=
      if_pos (decide_eq_true nonzero)
    exact congrArg (Option.map categoryWord) guarded

end CategoryTable

end

/-- The categories of both lists, each once and in the order in which they first occur: with the name of the class, of the
    image or bound at load time, with all its members, and the protocols it adds, of these the first `2^20`. -/
theorem category_table_round_trip (rt : ObjcRuntime) (listed nonlazy : List (Option CategoryObject))
    (table : CategoryTable rt listed nonlazy) :
    ∃ (rows : List CategoryObject) (bound : Nat), rows.map CategoryObject.va =
      ((listed ++ nonlazy).reduceOption.map CategoryObject.va).eraseDups ∧
      (∀ c ∈ rows, some c ∈ listed ++ nonlazy) ∧ ∀ fuel, bound ≤ fuel →
        (collect (CategoryIter.next rt) fuel (CategoryIter.new rt)).map (List.map (ObjcCategory.content rt)) =
          some (rows.map CategoryObject.content) := by
  have listedAddresses : CategoryIter.new rt ∈ Set.range
      (List.map fun c : { c : CategoryObject // some c ∈ listed ++ nonlazy } => c.val.va) := by
    rw [Set.range_list_map, table.addresses]
    intro va member
    rcases List.mem_map.mp (List.mem_eraseDups.mp member) with ⟨c, here, same⟩
    exact ⟨⟨c, List.reduceOption_mem_iff.mp here⟩, same⟩
  rcases listedAddresses with ⟨chosen, order⟩
  have known : ∀ c ∈ chosen.map Subtype.val, some c ∈ listed ++ nonlazy := by
    intro c member
    rcases List.mem_map.mp member with ⟨choice, -, rfl⟩
    exact choice.property
  generalize rowsEq : chosen.map Subtype.val = rows at known
  replace order : rows.map CategoryObject.va = CategoryIter.new rt := by
    rw [← order, ← rowsEq, List.map_map]
    rfl
  refine ⟨rows, (CategoryIter.new rt).length + 1, order.trans table.addresses, known, fun fuel enough => ?_⟩
  rw [CategoryIter.next, collect_nextSome _ _ (by omega), Option.map_some, ← order, List.filterMap_map, List.map_filterMap]
  congr 1
  rw [← List.filterMap_eq_map']
  apply List.filterMap_congr
  intro c member
  exact decodeCategory_content table.plain (table.fits c (known c member)) (table.held c (known c member))

def extendedClass : ClassData where
  va := 0x1090
  isa := 0
  superclass := 0
  cache := 0
  vtable := 0
  fast := 1
  ro := ⟨0x10b8, 0, 0, 0, 0, 0, ⟨0x1100, [0x43]⟩, 24, none, none, none, 0, none⟩

def localCategory : CategoryObject where
  va := 0x1020
  name := ⟨0x1108, [0x41]⟩
  host := .here extendedClass
  methodHeader := 24
  instanceMethods := none
  classMethods := some ⟨0x1118, [⟨⟨0x1138, [0x6d]⟩, ⟨0x1140, [0x76]⟩, 0x2000⟩]⟩
  protocols := none
  instanceProperties := none
  classProperties := none

def foundationString : Str := ⟨none, lit "_OBJC_CLASS_$_NSString"⟩

def foreignCategory : CategoryObject where
  va := 0x1058
  name := ⟨0x1110, [0x42]⟩
  host := .bound foundationString ⟨none, lit "Foundation"⟩
  methodHeader := 24
  instanceMethods := none
  classMethods := none
  protocols := none
  instanceProperties := none
  classProperties := some ⟨0x1148, [⟨⟨0x1160, [0x70]⟩, ⟨0x1168, [0x54]⟩⟩]⟩

def categoryRuntime : ObjcRuntime :=
  { ObjcRuntime.flat 0x1000
      ⟨0, encodePointers [0x1020, 0x1058, 0x1020, 0] ++ localCategory.encode ⟨0, 0x40⟩ ++ foreignCategory.encode ⟨0, 0x40⟩ ++
        extendedClass.encode ++ extendedClass.ro.encode ++ [0x43, 0, 0, 0, 0, 0, 0, 0] ++ [0x41, 0, 0, 0, 0, 0, 0, 0] ++
        [0x42, 0, 0, 0, 0, 0, 0, 0] ++ encodeList 24 MethodData.encode (listItems localCategory.classMethods) ++
        [0x6d, 0, 0, 0, 0, 0, 0, 0] ++ [0x76, 0, 0, 0, 0, 0, 0, 0] ++
        encodeList 16 PropertyData.encode (listItems foreignCategory.classProperties) ++
        [0x70, 0, 0, 0, 0, 0, 0, 0] ++ [0x54, 0, 0, 0, 0, 0, 0, 0], by decide +kernel⟩
      (Map.ofRows [(0x1060, foundationString, ⟨none, lit "Foundation"⟩)]) Map.empty with
    imageInfo := ⟨0, 0x40⟩
    catList := some ⟨⟨0, encodePointers [0x1020], by decide⟩, 0x1000⟩
    nlcatList := some ⟨⟨8, encodePointers [0x1058, 0x1020, 0], by decide⟩, 0x1008⟩ }

theorem categoryRuntime_stored {va : U64} {bytes : Bytes} (low : 0x1000 ≤ va.toNat) (high : va.toNat + bytes.length ≤ 0x1170)
    (holds : categoryRuntime.data.Holds (va.toNat - 0x1000) bytes) : categoryRuntime.Stored va bytes := by
  apply @Image.Stored.of_segment categoryRuntime.toImage va bytes ⟨0x1000, 0x170, 0, 0x170⟩ (by decide +kernel)
    (List.pairwise_singleton _ _) (by decide +kernel) low high high
  simpa using holds

theorem categoryRuntime_held : ∀ c ∈ [localCategory, foreignCategory], ∀ o ∈ c.objects ⟨0, 0x40⟩,
    Held categoryRuntime o := by
  have placed : ∀ c ∈ [localCategory, foreignCategory], ∀ o ∈ c.objects ⟨0, 0x40⟩, 0x1000 ≤ o.1.toNat ∧
      o.1.toNat + o.2.length ≤ 0x1170 ∧ categoryRuntime.data.Holds (o.1.toNat - 0x1000) o.2 ∧ o.1 ≠ 0 ∧
      o.1.toNat % 8 = 0 := by
    decide +kernel
  intro c member o part
  rcases placed c member o part with ⟨low, high, holds, nonzero, aligned⟩
  exact ⟨categoryRuntime_stored low high holds, nonzero, aligned, by omega⟩

theorem categoryRuntime_table :
    CategoryTable categoryRuntime [some localCategory] [some foreignCategory, some localCategory, none] where
  plain _ := rfl
  slots := ⟨rfl, categoryRuntime_stored (by decide) (by decide) (by decide +kernel)⟩
  nonlazySlots := ⟨rfl, categoryRuntime_stored (by decide) (by decide) (by decide +kernel)⟩
  held c member := categoryRuntime_held c (by
    have either : c = localCategory ∨ c = foreignCategory ∨ c = localCategory := by simpa using member
    rcases either with rfl | rfl | rfl <;> simp)
  fits c member := by
    have either : c = localCategory ∨ c = foreignCategory ∨ c = localCategory := by simpa using member
    have first : localCategory.Fits categoryRuntime :=
      ⟨by decide, ⟨by decide, by decide⟩, by decide, by decide +kernel, nofun, by decide +kernel, .inl (by decide)⟩
    have second : foreignCategory.Fits categoryRuntime :=
      ⟨by decide, (by decide +kernel : categoryRuntime.bindsByVa 0x1060 = some (foundationString, ⟨none, lit "Foundation"⟩)),
        by decide, by decide +kernel, nofun, by decide +kernel, .inl (by decide)⟩
    rcases either with rfl | rfl | rfl
    · exact first
    · exact second
    · exact first

theorem category_table_of_two : ∃ (rows : List CategoryObject) (bound : Nat), rows.map CategoryObject.va = [0x1020, 0x1058] ∧
    (∀ c ∈ rows, some c ∈ [some localCategory, some foreignCategory, some localCategory, none]) ∧ ∀ fuel, bound ≤ fuel →
      (collect (CategoryIter.next categoryRuntime) fuel (CategoryIter.new categoryRuntime)).map
        (List.map (ObjcCategory.content categoryRuntime)) = some (rows.map CategoryObject.content) :=
  category_table_round_trip _ _ _ categoryRuntime_table

end DarwinScope.Objc
