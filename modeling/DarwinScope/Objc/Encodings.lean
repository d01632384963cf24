import DarwinScope.Machine.Agreement
import DarwinScope.Objc.Accesses

namespace DarwinScope.Objc

open Machine Asking

def Rewritten (rt : ObjcRuntime) (i : Nat) : Prop :=
  ∃ slot target off, rt.rebasesByVa slot = some target ∧ rt.vmToFileOffset slot = some off ∧
    off.toNat ≤ i ∧ i < off.toNat + 8

def Access.Clear (rt : ObjcRuntime) : Access → Prop
  | .half va len k => ∀ off, rt.vmToFileOffset va = some off → off.toNat + len ≤ rt.data.length →
      ∀ i, off.toNat + k ≤ i → i < off.toNat + k + 4 → ¬ Rewritten rt i
  | .word va => ∀ off, rt.vmToFileOffset va = some off → off.toNat + 4 ≤ rt.data.length →
      ∀ i, off.toNat ≤ i → i < off.toNat + 4 → ¬ Rewritten rt i
  | .string va => va ≠ 0 → ∀ off, rt.vmToFileOffset va = some off →
      ∀ i, Scanned rt.data 0#8 off.toNat i → ¬ Rewritten rt i
  | .mapped _ _ => True
  | .slot _ => True

def bodyAccesses (rt : ObjcRuntime) (c : ObjcClass) : List Access :=
  ((maskClassRoPointer rt c.bits).map fun roVa => asked rt.answer (Walk.classRo roVa)).getD []

inductive PointerSlot (rt : ObjcRuntime) : U64 → Prop where
  | listed {sec : MappedSection} {slot : U64} : some sec ∈ [rt.classList, rt.nlclslist] → slot ∈ sec.slots →
      PointerSlot rt slot
  | isa {c : ObjcClass} : c ∈ rt.classes → PointerSlot rt c.address
  | superclass {c : ObjcClass} : c ∈ rt.classes → PointerSlot rt (c.address + 8)
  | bits {c : ObjcClass} : c ∈ rt.classes → PointerSlot rt (c.address + 32)
  | body {c : ObjcClass} {va : U64} : c ∈ rt.classes → .slot va ∈ bodyAccesses rt c → PointerSlot rt va

/-- One image with plain pointers and one with a rebase map: the same segments and sections, and the same
    bytes except at the slots of the map. Each of these holds a pointer to its target on one side and any
    word with the low bits of the pointer on the other. -/
structure TwoEncodings (plain chained : ObjcRuntime) : Prop where
  segments : plain.segments = chained.segments
  classList : plain.classList.map MappedSection.slots = chained.classList.map MappedSection.slots
  nlclslist : plain.nlclslist.map MappedSection.slots = chained.nlclslist.map MappedSection.slots
  unmapped : plain.rebasesByVa = Map.empty
  agree : AgreeOutside (Rewritten chained) plain.data chained.data
  words : ∀ slot target, chained.rebasesByVa slot = some target → ∃ p word, plain.readU64 slot = some p ∧
    chained.readU64 slot = some word ∧ p ≠ 0 ∧ p.toNat % 2^48 = target.toNat ∧ word &&& 7 = p &&& 7
  /-- a pointer slot outside the map holds the same word on both sides -/
  slots : ∀ slot, PointerSlot chained slot → chained.rebasesByVa slot = none → plain.readU64 slot = chained.readU64 slot
  clear : ∀ c ∈ chained.classes, ∀ a ∈ bodyAccesses chained c, a.Clear chained
  targets : ∀ c ∈ chained.classes, ∀ target, chained.rebasesByVa (c.address + 32) = some target →
    target.toNat < 2^47 ∧ (chained.vmToFileOffset target).isSome

def SameRows (plain chained : ObjcRuntime) : Prop :=
  plain.classes = chained.classes ∧
  ∀ c ∈ chained.classes, (c.ro plain).map (ClassRo.content plain) = (c.ro chained).map (ClassRo.content chained)

abbrev highDataMask : U64 := 0x0f00000000000000

/-- The masks take the pointer `p` to its target: where the wide mask finds a mapped address, `p` has no
    bit above bit 47 that the mask keeps; elsewhere the target has the width of the standard mask. -/
def MasksToTarget (rt : ObjcRuntime) (p target : U64) : Prop :=
  if p &&& fastDataMaskArm64e ≠ 0 ∧ (rt.vmToFileOffset (p &&& fastDataMaskArm64e)).isSome then p &&& highDataMask = 0
  else target.toNat < 2^39

section

variable {rt : ObjcRuntime} {p target : U64}

theorem maskClassRoPointer_getD :
    (maskClassRoPointer rt p).getD 0 =
      if p &&& fastDataMaskArm64e ≠ 0 ∧ (rt.vmToFileOffset (p &&& fastDataMaskArm64e)).isSome then
        p &&& fastDataMaskArm64e
      else p &&& fastDataMask64 := by
  unfold maskClassRoPointer
  dsimp only
  split
  · rfl
  split
  · rfl
  split
  · rfl
  · rename_i zero
    exact (not_not.mp zero).symm

theorem target_low (low : p.toNat % 2^48 = target.toNat) (small : target.toNat < 2^47) :
    target = p &&& 0x7fffffffffff := by
  apply BitVec.eq_of_toNat_eq
  rw [and_lowMask_toNat p 0x7fffffffffff 47 rfl]
  omega

theorem lt_std_iff : target.toNat < 2^39 ↔ target &&& fastDataMask64 = target &&& ~~~fastFlagsMask := by
  have split : target = (target &&& ~~~fastFlagsMask) ||| (target &&& fastFlagsMask) := by
    rw [← BitVec.and_or_distrib_left, show ~~~fastFlagsMask ||| fastFlagsMask = BitVec.allOnes 64 from by decide,
      BitVec.and_allOnes]
  have both : (target &&& fastDataMask64) ||| (target &&& fastFlagsMask) = target &&& 0x7fffffffff := by
    rw [← BitVec.and_or_distrib_left]
    rfl
  have width := and_lowMask_toNat target 0x7fffffffff 39 rfl
  constructor
  · intro fits
    have low : target &&& 0x7fffffffff = target := by
      apply BitVec.eq_of_toNat_eq
      rw [width]
      omega
    rw [← low, BitVec.and_assoc, BitVec.and_assoc]
    rfl
  · intro same
    rw [same, ← split] at both
    rw [← both] at width
    omega

theorem masked_eq_iff (low : p.toNat % 2^48 = target.toNat) (small : target.toNat < 2^47) :
    (maskClassRoPointer rt p).getD 0 &&& ~~~fastFlagsMask = target &&& ~~~fastFlagsMask ↔ MasksToTarget rt p target := by
  have cut := target_low low small
  rw [maskClassRoPointer_getD]
  unfold MasksToTarget
  by_cases mapped : p &&& fastDataMaskArm64e ≠ 0 ∧ (rt.vmToFileOffset (p &&& fastDataMaskArm64e)).isSome
  · rw [if_pos mapped, if_pos mapped]
    have wide : p &&& fastDataMaskArm64e &&& ~~~fastFlagsMask = (p &&& highDataMask) ||| (target &&& ~~~fastFlagsMask) := by
      rw [cut, BitVec.and_assoc, BitVec.and_assoc, ← BitVec.and_or_distrib_left]
      rfl
    rw [wide]
    constructor
    · intro same
      have high : ((p &&& highDataMask) ||| (target &&& ~~~fastFlagsMask)) &&& highDataMask = p &&& highDataMask := by
        rw [← wide, BitVec.and_assoc, BitVec.and_assoc]
        rfl
      rw [← high, same, cut, BitVec.and_assoc, BitVec.and_assoc]
      exact BitVec.and_zero
    · intro none
      rw [none]
      exact BitVec.zero_or
  · rw [if_neg mapped, if_neg mapped, lt_std_iff]
    have std : p &&& fastDataMask64 &&& ~~~fastFlagsMask = target &&& fastDataMask64 := by
      rw [cut, BitVec.and_assoc, BitVec.and_assoc]
      rfl
    rw [std]

theorem stitched_eq_iff {x y f : U64} :
    (x &&& ~~~fastFlagsMask) ||| (f &&& fastFlagsMask) = (y &&& ~~~fastFlagsMask) ||| (f &&& fastFlagsMask) ↔
      x &&& ~~~fastFlagsMask = y &&& ~~~fastFlagsMask := by
  constructor
  · intro same
    have pointer : ∀ z : U64, ((z &&& ~~~fastFlagsMask) ||| (f &&& fastFlagsMask)) &&& ~~~fastFlagsMask =
        z &&& ~~~fastFlagsMask := by
      intro z
      rw [BitVec.and_or_distrib_right, BitVec.and_assoc, BitVec.and_assoc, BitVec.and_self]
      exact congrArg _ BitVec.and_zero |>.trans BitVec.or_zero
    rw [← pointer x, same, pointer y]
  · intro same
    rw [same]

end

theorem readCstrAt_text (data : Slice) (off : Nat) :
    (readCstrAt data off).map Str.text =
      if off ≤ data.length ∧ validUtf8 ((data.bytes.drop off).takeWhile (· ≠ 0#8)) = true then
        some ((data.bytes.drop off).takeWhile (· ≠ 0#8))
      else none := by
  unfold readCstrAt Slice.from?
  by_cases inside : off ≤ data.length
  · rcases Slice.get_of_le inside (Nat.le_refl _) with ⟨tail, found, -, bytes⟩
    have rest : tail.bytes = data.bytes.drop off := by
      rw [bytes, Slice.window, Slice.length]
      exact List.take_of_length_le (by rw [List.length_drop])
    rw [found, Option.bind_eq_bind, Option.bind_some, rest]
    dsimp only
    by_cases valid : validUtf8 ((data.bytes.drop off).takeWhile (· ≠ 0#8)) = true
    · rw [if_pos valid, if_pos ⟨inside, valid⟩]
      rfl
    · rw [if_neg valid, if_neg fun both => valid both.2]
      rfl
  · rw [show data.get off data.length = none from if_neg fun both => inside both.1, if_neg fun both => inside both.1]
    rfl

theorem listed_slots (first second : Option MappedSection) :
    ([first, second].filterMap id).flatMap MappedSection.slots =
      (first.map MappedSection.slots).getD [] ++ (second.map MappedSection.slots).getD [] := by
  cases first <;> cases second <;> simp

namespace TwoEncodings

variable {plain chained : ObjcRuntime} (enc : TwoEncodings plain chained)

include enc

theorem vmToFileOffset (va : U64) : plain.vmToFileOffset va = chained.vmToFileOffset va := by
  unfold Image.vmToFileOffset
  rw [enc.segments]

theorem maskClassRoPointer (bits : U64) : maskClassRoPointer plain bits = maskClassRoPointer chained bits := by
  unfold Objc.maskClassRoPointer
  simp only [enc.vmToFileOffset]

theorem readBytes_isSome (va : U64) (len : Nat) : (plain.readBytes va len).isSome = (chained.readBytes va len).isSome := by
  unfold Image.readBytes
  rw [enc.vmToFileOffset]
  cases chained.vmToFileOffset va with
  | none => rfl
  | some off =>
    simp only [Option.bind_eq_bind, Option.bind_some]
    cases checkedAddUsize off.toNat len with
    | none => rfl
    | some stop => exact enc.agree.get_isSome off.toNat stop

theorem readU64_isSome (va : U64) : (plain.readU64 va).isSome = (chained.readU64 va).isSome := by
  unfold Image.readU64
  rw [enc.vmToFileOffset]
  cases chained.vmToFileOffset va with
  | none => rfl
  | some off => exact enc.agree.readAt_isSome leNumber 64 8 off.toNat

theorem resolvePointer {slot : U64} (read : PointerSlot chained slot) :
    plain.resolvePointer slot = chained.resolvePointer slot := by
  unfold ObjcRuntime.resolvePointer
  rw [enc.unmapped]
  cases found : chained.rebasesByVa slot with
  | none => exact congrArg (Option.map stripSignature) (enc.slots slot read found)
  | some target =>
    rcases enc.words slot target found with ⟨p, word, stored, -, -, low, -⟩
    have stripped : stripSignature p = target := by
      apply BitVec.eq_of_toNat_eq
      rw [stripSignature_toNat, low]
    change (plain.readU64 slot).map stripSignature = some target
    rw [stored, Option.map_some, stripped]

theorem answer {a : Access} (clear : a.Clear chained) (slot : ∀ va, a = .slot va → PointerSlot chained va) :
    plain.answer a = chained.answer a := by
  cases a with
  | mapped va len => exact enc.readBytes_isSome va len
  | slot va => exact enc.resolvePointer (slot va rfl)
  | half va len k =>
    simp only [ObjcRuntime.answer, Image.readBytes, enc.vmToFileOffset]
    cases place : chained.vmToFileOffset va with
    | none => rfl
    | some off =>
      simp only [Option.bind_eq_bind, Option.bind_some]
      cases sum : checkedAddUsize off.toNat len with
      | none => rfl
      | some stop =>
        apply enc.agree.readAt_part leNumber 32
        intro inside
        exact clear off place (by rw [← checkedAddUsize_some sum]; exact inside)
  | word va =>
    simp only [ObjcRuntime.answer, Image.readU32, enc.vmToFileOffset]
    cases place : chained.vmToFileOffset va with
    | none => rfl
    | some off => exact enc.agree.readAt leNumber 32 (clear off place)
  | string va =>
    simp only [ObjcRuntime.answer, Image.readCstr, enc.vmToFileOffset]
    by_cases null : va = 0
    · rw [if_pos null, if_pos null]
    · rw [if_neg null, if_neg null]
      cases place : chained.vmToFileOffset va with
      | none => rfl
      | some off =>
        simp only [Option.bind_eq_bind, Option.bind_some, readCstrAt_text]
        rw [enc.agree.length, enc.agree.scan (clear null off place)]

theorem pointerTargets :
    plain.pointerTargets [plain.classList, plain.nlclslist] =
      chained.pointerTargets [chained.classList, chained.nlclslist] := by
  unfold ObjcRuntime.pointerTargets
  rw [listed_slots, listed_slots, enc.classList, enc.nlclslist, ← listed_slots]
  congr 1
  apply List.map_congr_left
  intro slot member
  rcases List.mem_flatMap.mp member with ⟨sec, present, inside⟩
  rw [enc.resolvePointer (.listed (by simpa using present) inside)]

theorem stitchBits_iff {c : ObjcClass} (member : c ∈ chained.classes) {p raw : U64}
    (stored : plain.readU64 (c.address + 32) = some p) (word : chained.readU64 (c.address + 32) = some raw) :
    stitchBits plain (c.address + 32) p = stitchBits chained (c.address + 32) raw ↔
      ∀ target, chained.rebasesByVa (c.address + 32) = some target → MasksToTarget chained p target := by
  unfold stitchBits
  rw [enc.unmapped]
  cases found : chained.rebasesByVa (c.address + 32) with
  | none =>
    have same := enc.slots _ (.bits member) found
    rw [stored, word] at same
    cases same
    dsimp only [Map.empty]
    rw [enc.maskClassRoPointer]
    simp
  | some target =>
    rcases enc.words _ target found with ⟨q, other, pointer, chain, -, low, flags⟩
    cases Option.some.inj (stored.symm.trans pointer)
    cases Option.some.inj (word.symm.trans chain)
    have small := (enc.targets c member target found).1
    dsimp only [Map.empty]
    rw [flags, stitched_eq_iff, enc.maskClassRoPointer, masked_eq_iff low small]
    simp

theorem decodeClass_isSome (va : U64) (isMeta : Bool) :
    (decodeClass plain va isMeta).isSome = (decodeClass chained va isMeta).isSome := by
  rw [Bool.eq_iff_iff]
  simp only [Option.isSome_iff_exists, decodeClass_eq_some, enc.readBytes_isSome]
  constructor
  · intro decoded
    rcases decoded with ⟨_, superSlot, bitsSlot, raw, inside, superSum, sum, word, -⟩
    have read := enc.readU64_isSome bitsSlot
    rw [word] at read
    rcases Option.isSome_iff_exists.mp read.symm with ⟨other, found⟩
    exact ⟨_, superSlot, bitsSlot, other, inside, superSum, sum, found, rfl⟩
  · intro decoded
    rcases decoded with ⟨_, superSlot, bitsSlot, raw, inside, superSum, sum, word, -⟩
    have read := enc.readU64_isSome bitsSlot
    rw [word] at read
    rcases Option.isSome_iff_exists.mp read with ⟨other, found⟩
    exact ⟨_, superSlot, bitsSlot, other, inside, superSum, sum, found, rfl⟩

theorem decodeClass_iff {c : ObjcClass} (member : c ∈ chained.classes) :
    decodeClass plain c.address c.isMeta = some c ↔
      ∀ target p, chained.rebasesByVa (c.address + 32) = some target → plain.readU64 (c.address + 32) = some p →
        MasksToTarget chained p target := by
  rcases decodeClass_eq_some.mp (mem_classes member) with ⟨superSlot, bitsSlot, raw, inside, superSum, sum, word, fields⟩
  have superPlace := (checkedAdd_some superSum).1
  have place := (checkedAdd_some sum).1
  subst superPlace
  subst place
  have read := enc.readU64_isSome (c.address + 32)
  rw [word] at read
  rcases Option.isSome_iff_exists.mp read with ⟨p, stored⟩
  have decoded : decodeClass plain c.address c.isMeta = some { c with bits := stitchBits plain (c.address + 32) p } := by
    rw [decodeClass_eq_some]
    refine ⟨_, _, p, by rw [enc.readBytes_isSome, inside], superSum, sum, stored, ?_⟩
    rw [enc.resolvePointer (.isa member), enc.resolvePointer (.superclass member)]
    rw [fields]
  have bits : c.bits = stitchBits chained (c.address + 32) raw := congrArg ObjcClass.bits fields
  have same := enc.stitchBits_iff member stored word
  rw [← bits] at same
  rw [decoded]
  constructor
  · intro whole target q found pointer
    cases Option.some.inj (stored.symm.trans pointer)
    exact same.mp (congrArg ObjcClass.bits (Option.some.inj whole)) target found
  · intro masks
    rw [same.mpr fun target found => masks target p found stored]

theorem decodeClass_copied {va : U64} {isMeta : Bool}
    (copied : ∀ c, decodeClass chained va isMeta = some c → decodeClass plain c.address c.isMeta = some c) :
    decodeClass plain va isMeta = decodeClass chained va isMeta := by
  have both := enc.decodeClass_isSome va isMeta
  cases decoded : decodeClass chained va isMeta with
  | none =>
    rw [decoded] at both
    simpa using both
  | some c =>
    have fields := decodeClass_fields decoded
    have same := copied c decoded
    rwa [fields.1, fields.2] at same

theorem classes_iff :
    plain.classes = chained.classes ↔
      ∀ c ∈ chained.classes, decodeClass plain c.address c.isMeta = some c := by
  constructor
  · intro same c member
    rw [← same] at member
    exact mem_classes member
  · intro decoded
    unfold ObjcRuntime.classes at decoded ⊢
    rw [enc.pointerTargets]
    apply List.flatMap_congr
    intro va listed
    have rows : ∀ c ∈ classRows chained va, decodeClass plain c.address c.isMeta = some c := by
      intro c member
      exact decoded c (List.mem_flatMap.mpr ⟨va, listed, member⟩)
    unfold classRows at rows ⊢
    have instanceRow : decodeClass plain va false = decodeClass chained va false := by
      apply enc.decodeClass_copied
      intro c found
      apply rows
      rw [found]
      exact List.mem_cons_self ..
    rw [instanceRow]
    cases found : decodeClass chained va false with
    | none => rfl
    | some c =>
      rw [found] at rows
      dsimp only at rows ⊢
      cases queued : queuedMeta va c with
      | none => rfl
      | some metaVa =>
        rw [queued] at rows
        have metaclass : decodeClass plain metaVa true = decodeClass chained metaVa true := by
          apply enc.decodeClass_copied
          intro d found'
          apply rows
          rw [Option.bind_some, found']
          exact List.mem_cons_of_mem _ (List.mem_cons_self ..)
        rw [Option.bind_some, Option.bind_some, metaclass]

theorem ro_content {c : ObjcClass} (member : c ∈ chained.classes) :
    (c.ro plain).map (ClassRo.content plain) = (c.ro chained).map (ClassRo.content chained) := by
  unfold ObjcClass.ro
  rw [enc.maskClassRoPointer]
  cases masked : Objc.maskClassRoPointer chained c.bits with
  | none => simp only [Option.bind_eq_bind, Option.bind_none, Option.map_none]
  | some roVa =>
    simp only [Option.bind_eq_bind, Option.bind_some]
    rw [← Walk.run_classRo, ← Walk.run_classRo]
    apply run_congr
    intro a access
    have behind : a ∈ bodyAccesses chained c := by
      rw [bodyAccesses, masked, Option.map_some, Option.getD_some]
      exact access
    apply enc.answer (enc.clear c member a behind)
    intro va same
    subst same
    exact .body member behind

end TwoEncodings

/-- The two encodings of an image give the same rows exactly when every pointer of a bits slot masks to the
    target of its rebase. -/
theorem encodings_agree_iff {plain chained : ObjcRuntime} (enc : TwoEncodings plain chained) :
    SameRows plain chained ↔ ∀ c ∈ chained.classes, ∀ target p, chained.rebasesByVa (c.address + 32) = some target →
      plain.readU64 (c.address + 32) = some p → MasksToTarget chained p target := by
  constructor
  · intro same c member
    exact (enc.decodeClass_iff member).mp (enc.classes_iff.mp same.1 c member)
  · intro masks
    constructor
    · apply enc.classes_iff.mpr
      intro c member
      exact (enc.decodeClass_iff member).mpr (masks c member)
    · intro c member
      exact enc.ro_content member

/-- A class `A` at `2^40 + 8` whose bits slot holds the word, with its `class_ro_t` at `2^40 + 48`. -/
def listedClass (word : Nat) (rebases : Map U64 U64) : ObjcRuntime :=
  let data : Slice := ⟨0, leBytes 8 (2^40 + 8) ++ List.replicate 32 0 ++ leBytes 8 word ++ List.replicate 24 0 ++
    leBytes 8 (2^40 + 120) ++ List.replicate 40 0 ++ lit "A" ++ [0], by
      simp only [List.length_append, leBytes_length, List.length_replicate]
      decide⟩
  { ObjcRuntime.flat (2^40) data Map.empty rebases with
    classList := some ⟨⟨0, leBytes 8 (2^40 + 8), by decide⟩, 2^40⟩ }

def signedClass (signature : Nat) : ObjcRuntime := listedClass (signature + 2^40 + 48) Map.empty

def chainedClass : ObjcRuntime := listedClass 48 (Map.ofRows [(2^40 + 40, 2^40 + 48)])

theorem chainedClass_rebase {slot target : U64} (found : chainedClass.rebasesByVa slot = some target) :
    slot = 2^40 + 40 ∧ target = 2^40 + 48 := by
  simpa using Map.mem_of_ofRows found

theorem chainedClass_rewritten {i : Nat} (rewritten : Rewritten chainedClass i) : 40 ≤ i ∧ i < 48 := by
  rcases rewritten with ⟨slot, target, off, found, place, low, high⟩
  have known : chainedClass.vmToFileOffset (2^40 + 40) = some 40 := by decide +kernel
  rw [(chainedClass_rebase found).1] at place
  cases Option.some.inj (place.symm.trans known)
  exact ⟨low, high⟩

def untouched (signature : Nat) : Access → Bool
  | .half va _ _ => (chainedClass.vmToFileOffset va).all fun off => decide (48 ≤ off.toNat)
  | .word va => (chainedClass.vmToFileOffset va).all fun off => decide (48 ≤ off.toNat)
  | .string va => (chainedClass.vmToFileOffset va).all fun off => decide (48 ≤ off.toNat)
  | .slot va => decide ((signedClass signature).readU64 va = chainedClass.readU64 va)
  | .mapped _ _ => true

theorem untouched_clear {signature : Nat} {a : Access} (behind : untouched signature a = true) : a.Clear chainedClass := by
  have apart : ∀ va i off, chainedClass.vmToFileOffset va = some off →
      ((chainedClass.vmToFileOffset va).all fun off => decide (48 ≤ off.toNat)) = true → off.toNat ≤ i →
      ¬ Rewritten chainedClass i := by
    intro va i off place after low rewritten
    rw [place] at after
    have start : 48 ≤ off.toNat := by simpa using after
    have bits := chainedClass_rewritten rewritten
    omega
  cases a with
  | mapped va len => exact True.intro
  | slot va => exact True.intro
  | half va len k =>
    intro off place _ i low _
    exact apart va i off place behind (by omega)
  | word va =>
    intro off place _ i low _
    exact apart va i off place behind low
  | string va =>
    intro _ off place i scanned
    exact apart va i off place behind scanned.1

theorem untouched_slot {signature : Nat} {va : U64} (alike : untouched signature (.slot va) = true) :
    (signedClass signature).readU64 va = chainedClass.readU64 va := by
  unfold untouched at alike
  exact of_decide_eq_true alike

theorem chainedClass_only {c : ObjcClass} (member : c ∈ chainedClass.classes) :
    c = ⟨2^40 + 8, 0, 0, 2^40 + 48, false⟩ := by
  have classes : chainedClass.classes = [⟨2^40 + 8, 0, 0, 2^40 + 48, false⟩] := by decide +kernel
  rw [classes] at member
  exact List.mem_singleton.mp member

section

variable {signature : Nat} (known : signature = 0 ∨ signature = 2^56)

include known

theorem signedClass_agrees : AgreeOutside (Rewritten chainedClass) (signedClass signature).data chainedClass.data := by
  have length : (signedClass signature).data.length = 122 ∧ chainedClass.data.length = 122 := by
    rcases known with rfl | rfl <;> decide +kernel
  refine ⟨length.1.trans length.2.symm, ?_⟩
  intro i outside
  have same : ∀ i ∈ List.range 122, 40 ≤ i ∧ i < 48 ∨
      (signedClass signature).data.bytes[i]? = chainedClass.data.bytes[i]? := by
    rcases known with rfl | rfl <;> decide +kernel
  by_cases inside : i < 122
  · rcases same i (List.mem_range.mpr inside) with bits | same
    · exact absurd ⟨2^40 + 40, 2^40 + 48, 40, by decide +kernel, by decide +kernel, bits.1, bits.2⟩ outside
    · exact same
  · unfold Slice.length at length
    rw [List.getElem?_eq_none (by omega), List.getElem?_eq_none (by omega)]

theorem signedClass_untouched :
    (bodyAccesses chainedClass ⟨2^40 + 8, 0, 0, 2^40 + 48, false⟩).all (untouched signature) = true := by
  rcases known with rfl | rfl <;> decide +kernel

theorem signedClass_slots {slot : U64} (read : PointerSlot chainedClass slot)
    (free : chainedClass.rebasesByVa slot = none) : (signedClass signature).readU64 slot = chainedClass.readU64 slot := by
  cases read with
  | listed present inside =>
    have only : chainedClass.classList.map MappedSection.slots = some [2^40] := by decide +kernel
    rcases List.mem_cons.mp present with first | second
    · rw [← first] at only
      rw [Option.some.inj only] at inside
      cases List.mem_singleton.mp inside
      rcases known with rfl | rfl <;> decide +kernel
    · cases List.mem_singleton.mp second
  | isa member =>
    rw [chainedClass_only member]
    rcases known with rfl | rfl <;> decide +kernel
  | superclass member =>
    rw [chainedClass_only member]
    rcases known with rfl | rfl <;> decide +kernel
  | bits member =>
    rw [chainedClass_only member] at free
    exact absurd free (by decide +kernel)
  | body member access =>
    rw [chainedClass_only member] at access
    exact untouched_slot (List.all_eq_true.mp (signedClass_untouched known) _ access)

theorem signedClass_encodes : TwoEncodings (signedClass signature) chainedClass := by
  have word : (signedClass signature).readU64 (2^40 + 40) = some (BitVec.ofNat 64 (signature + 2^40 + 48)) := by
    rcases known with rfl | rfl <;> decide +kernel
  refine ⟨?_, rfl, rfl, rfl, signedClass_agrees known, ?_, fun _ => signedClass_slots known, ?_, ?_⟩
  · rcases known with rfl | rfl <;> decide +kernel
  · intro slot target found
    rcases chainedClass_rebase found with ⟨place, leads⟩
    subst place
    subst leads
    refine ⟨_, 48, word, by decide +kernel, ?_⟩
    rcases known with rfl | rfl <;> decide +kernel
  · intro c member a access
    rw [chainedClass_only member] at access
    exact untouched_clear (List.all_eq_true.mp (signedClass_untouched known) a access)
  · intro c member target found
    rw [(chainedClass_rebase found).2]
    decide +kernel

end

theorem unsigned_pointer_agrees :
    chainedClass.classes = [⟨2^40 + 8, 0, 0, 2^40 + 48, false⟩] ∧ SameRows (signedClass 0) chainedClass := by
  refine ⟨by decide +kernel, (encodings_agree_iff (signedClass_encodes (Or.inl rfl))).mpr ?_⟩
  intro c member target p found stored
  rcases chainedClass_rebase found with ⟨place, leads⟩
  have word : (signedClass 0).readU64 (2^40 + 40) = some (2^40 + 48) := by decide +kernel
  rw [place] at stored
  cases Option.some.inj (stored.symm.trans word)
  rw [leads, MasksToTarget, if_pos (by decide +kernel)]
  decide

theorem signed_pointer_differs :
    TwoEncodings (signedClass (2^56)) chainedClass ∧ (signedClass (2^56)).classes = [⟨2^40 + 8, 0, 0, 48, false⟩] ∧
      chainedClass.classes = [⟨2^40 + 8, 0, 0, 2^40 + 48, false⟩] ∧ ¬ SameRows (signedClass (2^56)) chainedClass := by
  have signed : (signedClass (2^56)).classes = [⟨2^40 + 8, 0, 0, 48, false⟩] := by decide +kernel
  have chained : chainedClass.classes = [⟨2^40 + 8, 0, 0, 2^40 + 48, false⟩] := by decide +kernel
  refine ⟨signedClass_encodes (Or.inr rfl), signed, chained, ?_⟩
  intro same
  have rows := same.1
  rw [signed, chained] at rows
  exact absurd rows (by decide)

end DarwinScope.Objc
