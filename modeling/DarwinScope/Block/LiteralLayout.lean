import DarwinScope.Memory
import DarwinScope.Block.Literals

namespace DarwinScope.Block

open Machine

structure PointerData where
  target : U64
  word : U64

/-- The slot has a rebase to the target, or none, and then the word is the target under its signature bits. -/
def PointerData.At (p : PointerData) (rt : BlockRuntime) (slot : U64) : Prop :=
  rt.rebasesByVa slot = some p.target ∨ rt.rebasesByVa slot = none ∧ p.word.toNat % 2^48 = p.target.toNat

structure Text where
  va : U64
  text : Bytes
  nonzero : va ≠ 0
  valid : validUtf8 text = true
  clean : 0#8 ∉ text

structure StringData where
  label : Option Text
  word : U64

namespace StringData

def pointer (s : StringData) : PointerData := ⟨(s.label.map Text.va).getD 0, s.word⟩

def text (s : StringData) : Option Bytes := s.label.map Text.text

def objects (s : StringData) : List (U64 × Bytes) := s.label.toList.map fun t => (t.va, t.text ++ [0#8])

end StringData

/-- A descriptor: the helpers are the copy and the dispose one, the strings the signature and the layout. -/
structure DescriptorData where
  va : U64
  reserved : U64
  size : U64
  helpers : Option (PointerData × PointerData)
  strings : Option (StringData × StringData)
  nonzero : va ≠ 0
  sized : blockLayoutSize ≤ size

namespace DescriptorData

def pointers (d : DescriptorData) : List PointerData :=
  d.helpers.toList.flatMap (fun h => [h.1, h.2]) ++ d.strings.toList.flatMap fun s => [s.1.pointer, s.2.pointer]

def encode (d : DescriptorData) : Bytes := encodePointers ([d.reserved, d.size] ++ d.pointers.map PointerData.word)

def objects (d : DescriptorData) : List (U64 × Bytes) :=
  (d.va, d.encode) :: d.strings.toList.flatMap fun s => s.1.objects ++ s.2.objects

def Pointing (d : DescriptorData) (rt : BlockRuntime) : Prop :=
  ∀ i (p : PointerData), d.pointers[i]? = some p → p.At rt (d.va + BitVec.ofNat 64 (8 * (i + 2)))

end DescriptorData

/-- A literal has helpers and strings where its flags say so. -/
structure BlockData where
  va : U64
  isa : U64
  flags : U32
  reserved : U32
  invoke : PointerData
  descriptorWord : U64
  descriptor : DescriptorData
  helped : descriptor.helpers.isSome = true ↔ flags &&& blockHasCopyDispose ≠ 0
  signed : descriptor.strings.isSome = true ↔ flags &&& blockHasSignature ≠ 0

namespace BlockData

def encode (b : BlockData) : Bytes :=
  encodePointers [b.isa] ++ encodeWords [b.flags, b.reserved] ++ encodePointers [b.invoke.word, b.descriptorWord]

def objects (b : BlockData) : List (U64 × Bytes) := (b.va, b.encode) :: b.descriptor.objects

end BlockData

/-- The literals in the file part of one segment, each with its descriptor and its strings, and a site for each. -/
structure LaidOut (rt : BlockRuntime) (seg : SegmentRange) (blocks : List BlockData) : Prop where
  decides : seg.Decides rt.segments
  backed : ∀ b ∈ blocks, ∀ o ∈ b.objects, seg.Backs rt.data o.1 o.2
  invoke : ∀ b ∈ blocks, b.invoke.At rt (b.va + 0x10)
  descriptor : ∀ b ∈ blocks, PointerData.At ⟨b.descriptor.va, b.descriptorWord⟩ rt (b.va + 0x18)
  pointers : ∀ b ∈ blocks, b.descriptor.Pointing rt
  listed : rt.globalSites.map BlockReference.slotAddress = blocks.map BlockData.va

structure BlockDescriptor.Shows (row : BlockDescriptor) (d : DescriptorData) : Prop where
  address : row.address = d.va
  reserved : row.reserved = d.reserved
  size : row.size = d.size
  copyHelper : row.copyHelper = d.helpers.map fun h => h.1.target
  disposeHelper : row.disposeHelper = d.helpers.map fun h => h.2.target
  signature : row.signature.map Str.text = d.strings.bind fun s => s.1.text
  layoutString : row.layoutString.map Str.text = d.strings.bind fun s => s.2.text

/-- Helpers and strings are missing where the flags leave them out, and a string also where its pointer is null. -/
structure BlockDescriptor.Gated (row : BlockDescriptor) (b : BlockData) : Prop where
  copyHelper : row.copyHelper = none ↔ b.flags &&& blockHasCopyDispose = 0
  disposeHelper : row.disposeHelper = none ↔ b.flags &&& blockHasCopyDispose = 0
  signature : row.signature = none ↔
    b.flags &&& blockHasSignature = 0 ∨ ∃ s, b.descriptor.strings = some s ∧ s.1.pointer.target = 0
  layoutString : row.layoutString = none ↔
    b.flags &&& blockHasSignature = 0 ∨ ∃ s, b.descriptor.strings = some s ∧ s.2.pointer.target = 0

structure BlockLiteral.Shows (row : BlockLiteral) (b : BlockData) : Prop where
  address : row.address = b.va
  isa : row.isa = .global
  flags : row.flags = b.flags
  reserved : row.reserved = b.reserved
  invoke : row.invoke = b.invoke.target
  descriptorAddress : row.descriptorAddress = b.descriptor.va
  descriptor : ∃ d, row.descriptor = some d ∧ d.Shows b.descriptor ∧ d.Gated b

section

variable {rt : BlockRuntime} {d : DescriptorData} {flags : U32}

theorem readPointer {p : PointerData} {slot : U64} (stored : rt.Stored slot (leBytes 8 p.word.toNat))
    (placed : p.At rt slot) :
    rt.readU64 slot = some p.word ∧ rt.resolvePointer slot p.word = p.target := by
  refine ⟨stored.readU64, ?_⟩
  rcases placed with rebased | ⟨plain, low⟩
  · rw [BlockRuntime.resolvePointer, rebased]
  · rw [BlockRuntime.resolvePointer, plain]
    apply BitVec.eq_of_toNat_eq
    rw [stripSignature_toNat, low]

theorem readDescriptorPointer (stored : rt.Stored d.va d.encode) (pointing : d.Pointing rt) {i : Nat} {p : PointerData}
    (at? : d.pointers[i]? = some p) :
    rt.readU64 (d.va + BitVec.ofNat 64 (8 * (i + 2))) = some p.word ∧
      rt.resolvePointer (d.va + BitVec.ofNat 64 (8 * (i + 2))) p.word = p.target := by
  have word : ([d.reserved, d.size] ++ d.pointers.map PointerData.word)[i + 2]? = some p.word := by
    rw [List.cons_append, List.cons_append, List.nil_append, List.getElem?_cons_succ, List.getElem?_cons_succ,
      List.getElem?_map, at?, Option.map_some]
  exact readPointer (stored.pointer word) (pointing i p at?)

theorem readHelpers_of_stored (stored : rt.Stored d.va d.encode) (pointing : d.Pointing rt)
    (helped : d.helpers.isSome = true ↔ flags &&& blockHasCopyDispose ≠ 0) :
    rt.readHelpers d.va flags 0x10 = some (d.helpers.map fun h => h.1.target, d.helpers.map fun h => h.2.target,
      if d.helpers.isSome = true then 0x20 else 0x10) := by
  cases given : d.helpers with
  | none =>
    rw [given] at helped
    rw [BlockRuntime.readHelpers, if_neg fun set => nomatch helped.mpr set]
    rfl
  | some h =>
    rw [given] at helped
    have first : d.pointers[0]? = some h.1 := by rw [DescriptorData.pointers, given]; rfl
    have second : d.pointers[1]? = some h.2 := by rw [DescriptorData.pointers, given]; rfl
    rcases readDescriptorPointer stored pointing first with ⟨copyRaw, copy⟩
    rcases readDescriptorPointer stored pointing second with ⟨disposeRaw, dispose⟩
    have moved : checkedAdd (0x10 : U64) 8 = some 0x18 := by decide
    have moved' : checkedAdd (0x18 : U64) 8 = some 0x20 := by decide
    change rt.readU64 (d.va + 0x10) = _ at copyRaw
    change rt.resolvePointer (d.va + 0x10) _ = _ at copy
    change rt.readU64 (d.va + 0x18) = _ at disposeRaw
    change rt.resolvePointer (d.va + 0x18) _ = _ at dispose
    rw [BlockRuntime.readHelpers, if_pos (helped.mp rfl)]
    simp only [copyRaw, moved, disposeRaw, moved', copy, dispose, Option.bind_eq_bind, Option.bind_some]
    rfl

theorem readString {s : StringData} (objects : ∀ o ∈ s.objects, rt.Stored o.1 o.2) :
    (rt.readCstr s.pointer.target).map Str.text = s.text := by
  rcases s with ⟨label, word⟩
  cases label with
  | none => rfl
  | some t => exact Image.Stored.readCstr (objects _ List.mem_cons_self) t.valid t.clean t.nonzero

theorem readStrings_at (stored : rt.Stored d.va d.encode) (pointing : d.Pointing rt)
    (signed : flags &&& blockHasSignature ≠ 0) {i : Nat} (near : i ≤ 2) {signature layout : PointerData}
    (first : d.pointers[i]? = some signature) (second : d.pointers[i + 1]? = some layout) :
    rt.readStrings d.va flags (BitVec.ofNat 64 (8 * (i + 2))) =
      some (rt.readCstr signature.target, rt.readCstr layout.target) := by
  have cursor : (BitVec.ofNat 64 (8 * (i + 2)) : U64).toNat = 8 * (i + 2) := by
    rw [toNat_ofNat_of_lt (by omega)]
  have moved : checkedAdd (BitVec.ofNat 64 (8 * (i + 2)) : U64) 8 = some (BitVec.ofNat 64 (8 * (i + 1 + 2))) := by
    refine (@checkedAdd_ofNat 64 (BitVec.ofNat 64 (8 * (i + 2))) 8 (by omega)).trans (congrArg some ?_)
    rw [← BitVec.ofNat_add]
    congr 1
  rcases readDescriptorPointer stored pointing first with ⟨sigRaw, sig⟩
  rcases readDescriptorPointer stored pointing second with ⟨layoutRaw, layoutTarget⟩
  rw [BlockRuntime.readStrings, if_pos signed]
  simp only [sigRaw, moved, layoutRaw, sig, layoutTarget, Option.bind_eq_bind, Option.bind_some]

theorem readStrings_of_stored (stored : rt.Stored d.va d.encode) (pointing : d.Pointing rt)
    (objects : ∀ o ∈ d.objects, rt.Stored o.1 o.2)
    (signed : d.strings.isSome = true ↔ flags &&& blockHasSignature ≠ 0) :
    ∃ signature layoutString,
      rt.readStrings d.va flags (if d.helpers.isSome = true then 0x20 else 0x10) = some (signature, layoutString) ∧
        signature.map Str.text = (d.strings.bind fun s => s.1.text) ∧
          layoutString.map Str.text = d.strings.bind fun s => s.2.text := by
  cases given : d.strings with
  | none =>
    rw [given] at signed
    refine ⟨none, none, ?_, rfl, rfl⟩
    rw [BlockRuntime.readStrings, if_neg fun set => nomatch signed.mpr set]
  | some s =>
    rw [given] at signed
    have inside (o : U64 × Bytes) (member : o ∈ s.1.objects ++ s.2.objects) : rt.Stored o.1 o.2 := by
      apply objects o
      rw [DescriptorData.objects, given]
      exact List.mem_cons_of_mem _ (List.mem_flatMap.mpr ⟨s, List.mem_cons_self, member⟩)
    have signature := readString fun o member => inside o (List.mem_append_left _ member)
    have layoutString := readString fun o member => inside o (List.mem_append_right _ member)
    refine ⟨_, _, ?_, signature, layoutString⟩
    -- the slots stand behind the helpers where there are any
    cases helpers : d.helpers with
    | none =>
      apply readStrings_at stored pointing (signed.mp rfl) (Nat.zero_le 2)
      · rw [DescriptorData.pointers, helpers, given]
        rfl
      · rw [DescriptorData.pointers, helpers, given]
        rfl
    | some h =>
      apply readStrings_at stored pointing (signed.mp rfl) (Nat.le_refl 2)
      · rw [DescriptorData.pointers, helpers, given]
        rfl
      · rw [DescriptorData.pointers, helpers, given]
        rfl

theorem decodeDescriptor_of_stored (objects : ∀ o ∈ d.objects, rt.Stored o.1 o.2) (pointing : d.Pointing rt)
    (helped : d.helpers.isSome = true ↔ flags &&& blockHasCopyDispose ≠ 0)
    (signed : d.strings.isSome = true ↔ flags &&& blockHasSignature ≠ 0) :
    ∃ row, rt.decodeDescriptor d.va flags = some row ∧ row.Shows d := by
  have stored : rt.Stored d.va d.encode := objects (d.va, d.encode) List.mem_cons_self
  have reserved : rt.readU64 d.va = some d.reserved := by
    have first := (stored.pointer (i := 0) rfl).readU64
    rwa [Nat.mul_zero, BitVec.add_zero] at first
  have size : rt.readU64 (d.va + 0x08) = some d.size := (stored.pointer (i := 1) rfl).readU64
  have enough : ¬ d.size < blockLayoutSize := BitVec.not_lt.mpr d.sized
  rcases readStrings_of_stored stored pointing objects signed with ⟨signature, layoutString, strings, sigText, layoutText⟩
  refine ⟨⟨d.va, d.reserved, d.size, _, _, signature, layoutString⟩, ?_, rfl, rfl, rfl, rfl, rfl, sigText, layoutText⟩
  rw [BlockRuntime.decodeDescriptor, if_neg d.nonzero]
  simp only [reserved, size, if_neg enough, readHelpers_of_stored stored pointing helped, strings, Option.bind_eq_bind,
    Option.bind_some]
  rfl

theorem StringData.text_eq_none (s : StringData) : s.text = none ↔ s.pointer.target = 0 := by
  rcases s with ⟨label, word⟩
  cases label with
  | none => exact iff_of_true rfl rfl
  | some t => exact iff_of_false (Option.some_ne_none _) t.nonzero

theorem missing_iff {α : Type} {part : Option α} {bit : U32} (present : part.isSome = true ↔ bit ≠ 0) :
    part = none ↔ bit = 0 := by
  rw [← Option.not_isSome_iff_eq_none, present, not_not]

theorem BlockDescriptor.Shows.gated {b : BlockData} {row : BlockDescriptor} (shown : row.Shows b.descriptor) :
    row.Gated b := by
  have strings (pick : StringData × StringData → StringData) : (b.descriptor.strings.bind fun s => (pick s).text) = none ↔
      b.flags &&& blockHasSignature = 0 ∨ ∃ s, b.descriptor.strings = some s ∧ (pick s).pointer.target = 0 := by
    rw [← missing_iff b.signed]
    cases b.descriptor.strings with
    | none => exact iff_of_true rfl (.inl rfl)
    | some s =>
      rw [Option.bind_some, StringData.text_eq_none]
      constructor
      · exact fun null => .inr ⟨s, rfl, null⟩
      · rintro (missing | ⟨_, same, null⟩)
        · cases missing
        · cases same
          exact null
  refine ⟨?_, ?_, ?_, ?_⟩
  · rw [shown.copyHelper, Option.map_eq_none_iff, missing_iff b.helped]
  · rw [shown.disposeHelper, Option.map_eq_none_iff, missing_iff b.helped]
  · rw [← strings Prod.fst, ← shown.signature, Option.map_eq_none_iff]
  · rw [← strings Prod.snd, ← shown.layoutString, Option.map_eq_none_iff]

theorem decodeLiteral_of_stored {b : BlockData} (objects : ∀ o ∈ b.objects, rt.Stored o.1 o.2)
    (invoke : b.invoke.At rt (b.va + 0x10))
    (descriptor : PointerData.At ⟨b.descriptor.va, b.descriptorWord⟩ rt (b.va + 0x18))
    (pointing : b.descriptor.Pointing rt) : ∃ row, rt.decodeLiteral b.va = some row ∧ row.Shows b := by
  have stored : rt.Stored b.va b.encode := objects (b.va, b.encode) List.mem_cons_self
  have words := stored.left.right
  have pointers := stored.right
  rw [encodePointers_length] at words
  rw [List.length_append, encodePointers_length, encodeWords_length] at pointers
  have flags := (words.word (i := 0) rfl).readU32
  have reserved := (words.word (i := 1) rfl).readU32
  have invokeStored := pointers.pointer (i := 0) rfl
  have descriptorStored := pointers.pointer (i := 1) rfl
  rw [add_ofNat_add] at flags reserved invokeStored descriptorStored
  change rt.readU32 (b.va + 0x08) = _ at flags
  change rt.readU32 (b.va + 0x0c) = _ at reserved
  change rt.Stored (b.va + 0x10) _ at invokeStored
  change rt.Stored (b.va + 0x18) _ at descriptorStored
  rcases readPointer invokeStored invoke with ⟨invokeRaw, invokeTarget⟩
  rcases @readPointer rt ⟨b.descriptor.va, b.descriptorWord⟩ _ descriptorStored descriptor with ⟨descRaw, descTarget⟩
  rcases decodeDescriptor_of_stored (fun o member => objects o (List.mem_cons_of_mem _ member)) pointing b.helped b.signed
    with ⟨row, decoded, shown⟩
  refine ⟨⟨b.va, .global, b.flags, b.reserved, b.invoke.target, b.descriptor.va, some row⟩, ?_, rfl, rfl, rfl, rfl, rfl, rfl,
    row, rfl, shown, shown.gated⟩
  simp only [BlockRuntime.decodeLiteral, flags, reserved, invokeRaw, descRaw, invokeTarget, descTarget, decoded,
    Option.bind_eq_bind, Option.bind_some]

theorem filterMap_forall₂ {α β ρ : Type} {key : α → U64} {place : β → U64} {decode : U64 → Option ρ} {R : ρ → β → Prop}
    {items : List α} {given : List β} (listed : items.map key = given.map place)
    (decodes : ∀ b ∈ given, ∃ row, decode (place b) = some row ∧ R row b) :
    List.Forall₂ R (items.filterMap fun item => decode (key item)) given := by
  induction given generalizing items with
  | nil =>
    rw [List.map_nil, List.map_eq_nil_iff] at listed
    rw [listed]
    exact .nil
  | cons b given ih =>
    rcases List.map_eq_cons_iff.mp listed with ⟨item, items, rfl, same, rest⟩
    rcases decodes b List.mem_cons_self with ⟨row, decoded, related⟩
    rw [List.filterMap_cons, same, decoded]
    exact .cons related (ih rest fun b member => decodes b (List.mem_cons_of_mem _ member))

end

/-- Literals that lie in one segment are listed in the order of their sites, each with all that was written. -/
theorem literals_layout (rt : BlockRuntime) (seg : SegmentRange) (blocks : List BlockData) (laid : LaidOut rt seg blocks) :
    ∀ fuel, blocks.length < fuel → ∃ rows, rt.literals fuel = some rows ∧ List.Forall₂ BlockLiteral.Shows rows blocks := by
  intro fuel enough
  have count : rt.globalSites.length = blocks.length := by
    have lengths := congrArg List.length laid.listed
    rwa [List.length_map, List.length_map] at lengths
  refine ⟨_, collect_nextSome _ rt.globalSites (by rwa [count]), filterMap_forall₂ laid.listed ?_⟩
  intro b member
  apply decodeLiteral_of_stored _ (laid.invoke b member) (laid.descriptor b member) (laid.pointers b member)
  exact fun o placed => .of_backs laid.decides (laid.backed b member o placed)

def sampleDescriptor : DescriptorData where
  va := 0x1020
  reserved := 0
  size := 0x20
  helpers := some (⟨0x2010, 0x2010⟩, ⟨0x2020, 0x2020⟩)
  strings := some (⟨some ⟨0x1050, [0x76, 0x40, 0x3f], by decide, by decide, by decide⟩, 0x1050⟩, ⟨none, 0⟩)
  nonzero := by decide
  sized := by decide

/-- A literal with a signed `invoke` and a rebased descriptor, which has helpers and a signature but no layout string. -/
def sampleBlock : BlockData where
  va := 0x1000
  isa := 0
  flags := 0x4200_0000
  reserved := 0
  invoke := ⟨0x2000, 0xabcd_0000_0000_2000⟩
  descriptorWord := 0
  descriptor := sampleDescriptor
  helped := by decide
  signed := by decide

def sampleBlockSegment : SegmentRange := ⟨0x1000, 0x54, 0, 0x54⟩

def sampleBlockRuntime : BlockRuntime where
  data := ⟨0, sampleBlock.encode ++ sampleDescriptor.encode ++ [0x76, 0x40, 0x3f, 0], by decide⟩
  segments := [sampleBlockSegment]
  rebasesByVa := Map.ofRows [(0x1018, 0x1020)]
  globalSites := [⟨.global, 0x1000, Str.literal "/usr/lib/libSystem.B.dylib"⟩]
  stackSites := []

theorem sampleBlock_backed {o : U64 × Bytes} (member : o ∈ sampleBlock.objects) :
    sampleBlockSegment.Backs sampleBlockRuntime.data o.1 o.2 := by
  have all : ∀ o ∈ sampleBlock.objects, (0x1000 ≤ o.1.toNat ∧ o.1.toNat + o.2.length ≤ 0x1000 + 0x54) ∧
      sampleBlockRuntime.data.Holds (0 + (o.1.toNat - 0x1000)) o.2 := by
    decide +kernel
  rcases all o member with ⟨⟨low, high⟩, holds⟩
  exact ⟨low, high, high, holds⟩

theorem sampleBlock_pointing : sampleDescriptor.Pointing sampleBlockRuntime := by
  intro i p at?
  match i with
  | 0 | 1 | 2 | 3 =>
    cases at?
    exact .inr ⟨by decide, by decide⟩
  | i + 4 => cases at?

theorem sampleBlock_laidOut : LaidOut sampleBlockRuntime sampleBlockSegment [sampleBlock] where
  decides := ⟨[], [], rfl, by decide, fun s member => nomatch member⟩
  backed := List.forall_mem_singleton.mpr fun _ => sampleBlock_backed
  invoke := List.forall_mem_singleton.mpr (.inr ⟨by decide, by decide⟩)
  descriptor := List.forall_mem_singleton.mpr (.inl (by decide))
  pointers := List.forall_mem_singleton.mpr sampleBlock_pointing
  listed := rfl

theorem literals_layout_sample :
    ∃ rows, sampleBlockRuntime.literals 2 = some rows ∧ List.Forall₂ BlockLiteral.Shows rows [sampleBlock] :=
  literals_layout sampleBlockRuntime sampleBlockSegment [sampleBlock] sampleBlock_laidOut 2 (by decide)

end DarwinScope.Block
