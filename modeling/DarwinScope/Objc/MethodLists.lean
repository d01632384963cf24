import DarwinScope.Objc.ClassTable
import DarwinScope.Memory

namespace DarwinScope.Objc

open Machine

/-- A method as the program meant it, whichever way its list is written. -/
structure LogicalMethod where
  selector : Label
  types : Label
  imp : Option U64

structure LogicalMethod.Fits (image : Image) (m : LogicalMethod) : Prop where
  selector : m.selector.Readable image
  types : m.types.Readable image
  imp : ∀ va ∈ m.imp, va ≠ 0 ∧ va.toNat < 2^48

def LogicalMethod.content (kind : MethodKind) (m : LogicalMethod) : Bytes × Bytes × Option U64 × MethodKind :=
  (m.selector.text, m.types.text, m.imp, kind)

structure LegacyEntry where
  selector : U64
  types : U64
  imp : U64
  padding : Bytes

def LegacyEntry.encode (e : LegacyEntry) : Bytes := encodePointers [e.selector, e.types, e.imp] ++ e.padding

structure SmallEntry where
  name : U32
  types : U32
  imp : U32
  padding : Bytes

def SmallEntry.encode (e : SmallEntry) : Bytes := encodeWords [e.name, e.types, e.imp] ++ e.padding

/-- The word in a slot stands for the target: through a rebase of the slot, or by itself. -/
def PointsTo (rt : ObjcRuntime) (slot word target : U64) : Prop :=
  rt.rebasesByVa slot = some target ∨ rt.rebasesByVa slot = none ∧ stripSignature word = target

def LegacyEntry.Means (rt : ObjcRuntime) (va : U64) (e : LegacyEntry) (m : LogicalMethod) : Prop :=
  PointsTo rt va e.selector m.selector.va ∧ PointsTo rt (va + 8) e.types m.types.va ∧
    PointsTo rt (va + 16) e.imp (m.imp.getD 0)

/-- The name of a small entry leads to the selector, or to a slot with a pointer to it. -/
def NameMeans (rt : ObjcRuntime) (direct : Bool) (place target : U64) : Prop :=
  if direct then place = target else ∃ word, rt.Stored place (leBytes 8 word.toNat) ∧ PointsTo rt place word target

def SmallEntry.Means (rt : ObjcRuntime) (direct : Bool) (va : U64) (e : SmallEntry) (m : LogicalMethod) : Prop :=
  NameMeans rt direct (relativePointer va e.name) m.selector.va ∧ relativePointer (va + 4) e.types = m.types.va ∧
    (if e.imp = 0 then none else some (relativePointer (va + 8) e.imp)) = m.imp

def MethodKind.minEntsize : MethodKind → Nat
  | .legacy => 24
  | .smallIndirect | .smallDirect => 12

def headerKind (header : U32) : MethodKind :=
  if header &&& smallMethodListFlag ≠ 0 then
    if header &&& relativeMethodSelectorsAreDirectFlag ≠ 0 then .smallDirect else .smallIndirect
  else .legacy

abbrev headerEntsize (header : U32) : U32 := header &&& ~~~methodListFlagMask

structure WrittenList {α : Type} (rt : ObjcRuntime) (encode : α → Bytes) (means : U64 → α → LogicalMethod → Prop)
    (kind : MethodKind) (methods : List LogicalMethod) where
  va : U64
  header : U32
  rows : List (LogicalMethod × α)
  nonzero : va ≠ 0
  even : va &&& 1 = 0
  flags : headerKind header = kind
  wide : kind.minEntsize ≤ (headerEntsize header).toNat
  few : rows.length < 2^32
  logical : rows.map Prod.fst = methods
  sized : ∀ row ∈ rows, (encode row.2).length = (headerEntsize header).toNat
  stored : rt.Stored va (encodeList header (fun row => encode row.2) rows)
  each : ∀ i row, rows[i]? = some row → means (va + 8 + BitVec.ofNat 64 ((headerEntsize header).toNat * i)) row.2 row.1

abbrev LegacyList (rt : ObjcRuntime) (methods : List LogicalMethod) :=
  WrittenList rt LegacyEntry.encode (LegacyEntry.Means rt) .legacy methods

abbrev IndirectList (rt : ObjcRuntime) (methods : List LogicalMethod) :=
  WrittenList rt SmallEntry.encode (SmallEntry.Means rt false) .smallIndirect methods

abbrev DirectList (rt : ObjcRuntime) (methods : List LogicalMethod) :=
  WrittenList rt SmallEntry.encode (SmallEntry.Means rt true) .smallDirect methods

section

variable {rt : ObjcRuntime} {va slot word target : U64} {m : LogicalMethod}

theorem PointsTo.resolve (points : PointsTo rt slot word target) (stored : rt.Stored slot (leBytes 8 word.toNat)) :
    rt.resolvePointer slot = some target := by
  rcases points with rebased | ⟨plain, same⟩
  · rw [ObjcRuntime.resolvePointer, rebased]
  · rw [ObjcRuntime.resolvePointer, plain, stored.readU64, Option.map_some, same]

theorem pointers_stored {a b c : U64} {rest : Bytes} (stored : rt.Stored va (encodePointers [a, b, c] ++ rest)) :
    rt.Stored va (leBytes 8 a.toNat) ∧ rt.Stored (va + 8) (leBytes 8 b.toNat) ∧ rt.Stored (va + 16) (leBytes 8 c.toNat) := by
  have pointers := stored.left
  have first := pointers.pointer (i := 0) rfl
  have second := pointers.pointer (i := 1) rfl
  have third := pointers.pointer (i := 2) rfl
  rw [Nat.mul_zero, BitVec.add_zero] at first
  exact ⟨first, second, third⟩

theorem decodeLegacyMethod_means {e : LegacyEntry} (fits : m.Fits rt.toImage) (means : e.Means rt va m)
    (stored : rt.Stored va e.encode) : (decodeLegacyMethod rt va).map Method.content = some (m.content .legacy) := by
  rcases pointers_stored stored with ⟨first, second, third⟩
  rcases means with ⟨selectorMeans, typesMeans, impMeans⟩
  rcases fits.selector.read with ⟨selector, selectorRead, selectorText⟩
  rcases fits.types.read with ⟨types, typesRead, typesText⟩
  have room := stored.room
  rw [LegacyEntry.encode, List.length_append, encodePointers_length] at room
  simp only [List.length_cons, List.length_nil] at room
  rcases stored.left.readBytes (by rw [encodePointers_length]; exact Nat.succ_pos _) with ⟨part, read, -⟩
  have inside : rt.readBytes va 24 = some part := read
  have typesSlot : checkedAdd va 8 = some (va + 8) := @checkedAdd_ofNat 64 va 8 (by omega)
  have impSlot : checkedAdd va 16 = some (va + 16) := @checkedAdd_ofNat 64 va 16 (by omega)
  have typesField : rt.requiredField va 8 = some m.types.va := by
    rw [ObjcRuntime.requiredField, typesSlot, Option.bind_some, typesMeans.resolve second]
  have impField : rt.pointerField va 16 = some (m.imp.getD 0) := by
    rw [ObjcRuntime.pointerField, impSlot, Option.map_some, impMeans.resolve third, Option.getD_some]
  have imp : (if m.imp.getD 0 = 0 then none else some (m.imp.getD 0)) = m.imp := by
    cases given : m.imp with
    | none => rfl
    | some target => exact if_neg (fits.imp target given).1
  simp only [decodeLegacyMethod, inside, selectorMeans.resolve first, typesField, impField, selectorRead, typesRead,
    Option.bind_eq_bind, Option.bind_some, Option.getD_some, Option.map_some, Method.content, LogicalMethod.content,
    selectorText, typesText, imp]

theorem NameMeans.read {direct : Bool} {place : U64} {label : Label} (means : NameMeans rt direct place label.va)
    (readable : label.Readable rt.toImage) :
    ∃ s, (if direct then rt.readCstr place else (rt.resolvePointer place).bind rt.readCstr) = some s ∧
      s.text = label.text := by
  rcases readable.read with ⟨s, found, text⟩
  refine ⟨s, ?_, text⟩
  cases direct with
  | true =>
    cases means
    exact found
  | false =>
    rcases means with ⟨word, stored, points⟩
    rw [if_neg Bool.false_ne_true, points.resolve stored, Option.bind_some, found]

theorem decodeSmallMethod_means {e : SmallEntry} {direct : Bool} (fits : m.Fits rt.toImage) (means : e.Means rt direct va m)
    (stored : rt.Stored va e.encode) :
    (decodeSmallMethod rt va direct).map Method.content =
      some (m.content (if direct then .smallDirect else .smallIndirect)) := by
  rcases means with ⟨nameMeans, typesMeans, impMeans⟩
  rcases nameMeans.read fits.selector with ⟨selector, selectorRead, selectorText⟩
  rcases fits.types.read with ⟨types, typesRead, typesText⟩
  have room := stored.room
  rw [SmallEntry.encode, List.length_append, encodeWords_length] at room
  simp only [List.length_cons, List.length_nil] at room
  rcases stored.left.readWords (Nat.succ_pos _) with ⟨part, read, words⟩
  have inside : rt.readBytes va 12 = some part := read
  have name : readI32LeAt part 0 = some e.name := words 0 _ rfl
  have typesWord : readI32LeAt part 4 = some e.types := words 1 _ rfl
  have impWord : readI32LeAt part 8 = some e.imp := words 2 _ rfl
  have typesSlot : checkedAdd va 4 = some (va + 4) := @checkedAdd_ofNat 64 va 4 (by omega)
  have impSlot : checkedAdd va 8 = some (va + 8) := @checkedAdd_ofNat 64 va 8 (by omega)
  have imp : (if e.imp = 0 then none else some (stripSignature (relativePointer (va + 8) e.imp))) = m.imp := by
    rw [← impMeans]
    split
    · rfl
    · rename_i present
      rw [if_neg present] at impMeans
      rw [stripSignature_of_lt (fits.imp _ impMeans.symm).2]
  -- the binding of the selector stands in both branches of the flag
  cases direct <;> simp only [Bool.false_eq_true, if_false, if_true] at selectorRead ⊢ <;>
  simp only [decodeSmallMethod, Bool.false_eq_true, if_false, if_true, inside, name, typesWord, impWord, typesSlot, impSlot,
    selectorRead, typesMeans, typesRead, Option.bind_eq_bind, Option.bind_some, Option.getD_some, Option.map_some,
    Method.content, LogicalMethod.content, selectorText, typesText, imp]

theorem headerEntsize_lt (header : U32) : (headerEntsize header).toNat < 2^32 := (headerEntsize header).isLt

theorem methodLayout_written {header count : U32} {kind : MethodKind} (flags : headerKind header = kind)
    (wide : kind.minEntsize ≤ (headerEntsize header).toNat) (room : va.toNat + 8 < 2^64) :
    methodLayout va header count = some (⟨va + 8, headerEntsize header, count⟩, kind) := by
  have base : checkedAdd va 8 = some (va + 8) := @checkedAdd_ofNat 64 va 8 room
  have sized : headerEntsize header ≠ 0 := by
    intro zero
    rw [zero] at wide
    cases kind <;> exact absurd wide (by decide)
  have enough : ∀ least : U32, least.toNat = kind.minEntsize → ¬ headerEntsize header < least := by
    intro least same below
    rw [BitVec.lt_def, same] at below
    exact Nat.not_le.mpr below wide
  unfold methodLayout
  rw [← headerKind, flags]
  simp only [if_neg sized, base, Option.map_some]
  cases kind <;> exact if_neg (enough _ rfl)

theorem methodListIter_written {α : Type} {encode : α → Bytes} {means : U64 → α → LogicalMethod → Prop} {kind : MethodKind}
    {methods : List LogicalMethod} (list : WrittenList rt encode means kind methods)
    (decodes : ∀ va e m, m ∈ methods → means va e m → rt.Stored va (encode e) →
      (decodeMethod rt kind va).map Method.content = some (m.content kind)) :
    (methodListIter rt list.va).map Method.content = methods.map (LogicalMethod.content kind) := by
  have room := list.stored.room
  rw [encodeList, List.length_append, encodeWords_length] at room
  have layout : methodListLayout rt list.va =
      some (⟨list.va + 8, headerEntsize list.header, BitVec.ofNat 32 list.rows.length⟩, kind) := by
    rw [methodListLayout, if_neg (not_or.mpr ⟨list.nonzero, not_not.mpr list.even⟩), listHeader_of_stored list.stored,
      Option.bind_some]
    exact methodLayout_written list.flags list.wide (by simp only [List.length_cons, List.length_nil] at room; omega)
  have entsize : headerEntsize list.header = BitVec.ofNat 32 (headerEntsize list.header).toNat := by
    rw [BitVec.ofNat_toNat, BitVec.setWidth_eq]
  have positive : 0 < (headerEntsize list.header).toNat := by
    have wide := list.wide
    cases kind <;> exact Nat.lt_of_lt_of_le (by decide) wide
  have logical : list.rows.map (LogicalMethod.content kind ∘ Prod.fst) = methods.map (LogicalMethod.content kind) :=
    List.map_map.symm.trans (congrArg (List.map (LogicalMethod.content kind)) list.logical)
  rw [methodListIter, layout, ← logical]
  dsimp only
  rw [entsize]
  refine listRows_at list.sized (headerEntsize_lt list.header) positive list.few (entries_of_stored list.stored) ?_
  intro i row at? stored
  have member : row.1 ∈ methods := list.logical ▸ List.mem_map_of_mem (List.mem_of_getElem? at?)
  exact decodes _ row.2 row.1 member (list.each i row at?) stored

end

/-- The three ways to write a list of methods say the same: each reads back the methods it was made
    from, and only the kind tells them apart. -/
theorem methodLists_agree (rt : ObjcRuntime) (methods : List LogicalMethod)
    (fits : ∀ m ∈ methods, m.Fits rt.toImage) :
    (∀ list : LegacyList rt methods,
      (methodListIter rt list.va).map Method.content = methods.map (LogicalMethod.content .legacy)) ∧
    (∀ list : IndirectList rt methods,
      (methodListIter rt list.va).map Method.content = methods.map (LogicalMethod.content .smallIndirect)) ∧
    (∀ list : DirectList rt methods,
      (methodListIter rt list.va).map Method.content = methods.map (LogicalMethod.content .smallDirect)) := by
  refine ⟨fun list => ?_, fun list => ?_, fun list => ?_⟩
  · apply methodListIter_written list
    intro va e m member means stored
    exact decodeLegacyMethod_means (fits m member) means stored
  · apply methodListIter_written list
    intro va e m member means stored
    exact decodeSmallMethod_means (fits m member) means stored
  · apply methodListIter_written list
    intro va e m member means stored
    exact decodeSmallMethod_means (fits m member) means stored

def sampleMethods : List LogicalMethod :=
  [⟨⟨0x1000, [0x61]⟩, ⟨0x1002, [0x76]⟩, some 0x2000⟩, ⟨⟨0x1000, [0x61]⟩, ⟨0x1002, [0x76]⟩, none⟩]

def legacyRows : List LegacyEntry := [⟨0, 0x1002, 0x2000, []⟩, ⟨0x1000, 0x1002, 0, []⟩]

def smallRows (first second name : U64) : List SmallEntry :=
  [⟨offsetTo first name, offsetTo (first + 4) 0x1002, offsetTo (first + 8) 0x2000, []⟩,
    ⟨offsetTo second name, offsetTo (second + 4) 0x1002, 0, []⟩]

/-- Two strings, a selector reference and the three lists; the first pointer of all is a rebase. -/
def methodImage : ObjcRuntime :=
  .flat 0x1000 ⟨0, [0x61, 0, 0x76, 0, 0, 0, 0, 0] ++ leBytes 8 0x1000 ++ encodeList 24 LegacyEntry.encode legacyRows ++
    encodeList 0x8000000c SmallEntry.encode (smallRows 0x1050 0x105c 0x1008) ++
    encodeList 0xc000000c SmallEntry.encode (smallRows 0x1070 0x107c 0x1000), by decide +kernel⟩ (fun _ => none)
    (fun slot => if slot = 0x1018 then some 0x1000 else none)

theorem methodImage_stored {va : U64} {bytes : Bytes} (low : 0x1000 ≤ va.toNat) (high : va.toNat + bytes.length ≤ 0x1088)
    (holds : methodImage.data.Holds (va.toNat - 0x1000) bytes) : methodImage.Stored va bytes := by
  refine @Image.Stored.of_segment methodImage.toImage va bytes ⟨0x1000, 0x88, 0, 0x88⟩ (by decide +kernel)
    (List.pairwise_singleton _ _) (by decide +kernel) low high high ?_
  rwa [show (0 : U64).toNat + (va.toNat - (0x1000 : U64).toNat) = va.toNat - 0x1000 from Nat.zero_add _]

theorem sampleMethods_fit : ∀ m ∈ sampleMethods, m.Fits methodImage.toImage := by
  have selector : Label.Readable methodImage.toImage ⟨0x1000, [0x61]⟩ :=
    ⟨⟨0, by decide +kernel, by decide +kernel⟩, by decide, by decide, by decide⟩
  have types : Label.Readable methodImage.toImage ⟨0x1002, [0x76]⟩ :=
    ⟨⟨2, by decide +kernel, by decide +kernel⟩, by decide, by decide, by decide⟩
  intro m member
  rcases List.mem_cons.mp member with rfl | member
  · exact ⟨selector, types, fun va given => by cases given; decide⟩
  · rcases List.mem_singleton.mp member with rfl
    exact ⟨selector, types, fun va given => nomatch given⟩

def sampleLegacy : LegacyList methodImage sampleMethods where
  va := 0x1010
  header := 24
  rows := sampleMethods.zip legacyRows
  nonzero := by decide
  even := by decide
  flags := by decide
  wide := by decide
  few := by decide
  logical := rfl
  sized := by decide
  stored := methodImage_stored (by decide) (by decide) (by decide +kernel)
  each := by
    intro i row at?
    match i with
    | 0 =>
      cases at?
      exact ⟨.inl rfl, .inr ⟨rfl, by decide⟩, .inr ⟨rfl, by decide⟩⟩
    | 1 =>
      cases at?
      exact ⟨.inr ⟨rfl, by decide⟩, .inr ⟨rfl, by decide⟩, .inr ⟨rfl, by decide⟩⟩
    | i + 2 => cases at?

theorem selref_means : NameMeans methodImage false 0x1008 0x1000 :=
  ⟨0x1000, methodImage_stored (by decide) (by decide) (by decide +kernel), .inr ⟨rfl, by decide⟩⟩

def sampleIndirect : IndirectList methodImage sampleMethods where
  va := 0x1048
  header := 0x8000000c
  rows := sampleMethods.zip (smallRows 0x1050 0x105c 0x1008)
  nonzero := by decide
  even := by decide
  flags := by decide
  wide := by decide
  few := by decide
  logical := rfl
  sized := by decide
  stored := methodImage_stored (by decide) (by decide) (by decide +kernel)
  each := by
    intro i row at?
    match i with
    | 0 =>
      cases at?
      exact ⟨selref_means, by decide, by decide⟩
    | 1 =>
      cases at?
      exact ⟨selref_means, by decide, by decide⟩
    | i + 2 => cases at?

def sampleDirect : DirectList methodImage sampleMethods where
  va := 0x1068
  header := 0xc000000c
  rows := sampleMethods.zip (smallRows 0x1070 0x107c 0x1000)
  nonzero := by decide
  even := by decide
  flags := by decide
  wide := by decide
  few := by decide
  logical := rfl
  sized := by decide
  stored := methodImage_stored (by decide) (by decide) (by decide +kernel)
  each := by
    intro i row at?
    match i with
    | 0 =>
      cases at?
      exact ⟨rfl, by decide, by decide⟩
    | 1 =>
      cases at?
      exact ⟨rfl, by decide, by decide⟩
    | i + 2 => cases at?

theorem methodLists_agree_sample :
    (methodListIter methodImage 0x1010).map Method.content = sampleMethods.map (LogicalMethod.content .legacy) ∧
      (methodListIter methodImage 0x1048).map Method.content = sampleMethods.map (LogicalMethod.content .smallIndirect) ∧
      (methodListIter methodImage 0x1068).map Method.content = sampleMethods.map (LogicalMethod.content .smallDirect) := by
  have agree := methodLists_agree methodImage sampleMethods sampleMethods_fit
  exact ⟨agree.1 sampleLegacy, agree.2.1 sampleIndirect, agree.2.2 sampleDirect⟩

end DarwinScope.Objc
