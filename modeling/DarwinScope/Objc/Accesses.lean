import DarwinScope.Machine.Queries
import DarwinScope.Objc.Class

namespace DarwinScope.Objc

open Machine Asking

/-- One look at an image: whether a range is mapped, the 32-bit word at offset `k` of a mapped range, the
    one at an address, the target of a pointer slot, the text of a string. -/
inductive Access where
  | mapped (va : U64) (len : Nat)
  | half (va : U64) (len k : Nat)
  | word (va : U64)
  | slot (va : U64)
  | string (va : U64)
deriving DecidableEq

abbrev Access.Answer : Access → Type
  | .mapped _ _ => Bool
  | .half _ _ _ => Option U32
  | .word _ => Option U32
  | .slot _ => Option U64
  | .string _ => Option Bytes

def ObjcRuntime.answer (rt : ObjcRuntime) : (a : Access) → a.Answer
  | .mapped va len => (rt.readBytes va len).isSome
  | .half va len k => (rt.readBytes va len).bind fun bytes => readU32LeAt bytes k
  | .word va => rt.readU32 va
  | .slot va => rt.resolvePointer va
  | .string va => (rt.readCstr va).map Str.text

abbrev Walk := Asking Access Access.Answer

namespace Walk

def mapped (va : U64) (len : Nat) : Walk Unit :=
  ask (.mapped va len) fun (inside : Bool) => if inside then pure () else fail

def half (va : U64) (len k : Nat) : Walk U32 := ask (.half va len k) fun (found : Option U32) => ofOption found

def word (va : U64) : Walk (Option U32) := ask (.word va) pure

def target (va : U64) : Walk (Option U64) := ask (.slot va) pure

def slot (va : U64) : Walk U64 := target va >>= ofOption

def string (va : U64) : Walk Bytes := ask (.string va) fun (found : Option Bytes) => ofOption found

def requiredField (va offset : U64) : Walk U64 := do
  let slotVa ← ofOption (checkedAdd va offset)
  slot slotVa

def pointerField (va offset : U64) : Walk U64 := do
  let slotVa ← ofOption (checkedAdd va offset)
  let found ← target slotVa
  pure (found.getD 0)

section

variable (rt : ObjcRuntime)

@[simp] theorem run_mapped (va : U64) (len : Nat) :
    run rt.answer (mapped va len) = (rt.readBytes va len).map fun _ => () := by
  rw [mapped, run_ask, ObjcRuntime.answer]
  cases rt.readBytes va len <;> rfl

@[simp] theorem run_half (va : U64) (len k : Nat) :
    run rt.answer (half va len k) = (rt.readBytes va len).bind fun bytes => readU32LeAt bytes k := by
  rw [half, run_ask, run_ofOption, ObjcRuntime.answer]

@[simp] theorem run_target (va : U64) : run rt.answer (target va) = some (rt.resolvePointer va) := rfl

@[simp] theorem run_slot (va : U64) : run rt.answer (slot va) = rt.resolvePointer va := by
  rw [slot, run_bind, run_target, Option.bind_some, run_ofOption]

@[simp] theorem run_string (va : U64) : run rt.answer (string va) = (rt.readCstr va).map Str.text := by
  rw [string, run_ask, run_ofOption, ObjcRuntime.answer]

@[simp] theorem run_requiredField (va offset : U64) :
    run rt.answer (requiredField va offset) = rt.requiredField va offset := by
  unfold requiredField ObjcRuntime.requiredField
  rw [run_bind, run_ofOption]
  simp only [run_slot]

@[simp] theorem run_pointerField (va offset : U64) :
    run rt.answer (pointerField va offset) = rt.pointerField va offset := by
  unfold pointerField ObjcRuntime.pointerField
  rw [run_bind, run_ofOption]
  cases checkedAdd va offset <;> rfl

end

def entryRow {α : Type} (decode : U64 → Walk α) (layout : ListLayout) (i : Nat) : Walk (Row α) :=
  match (checkedMul (BitVec.ofNat 64 i) (layout.entsize.setWidth 64)).bind (checkedAdd layout.baseVa) with
  | none => pure .stop
  | some entryVa => do
    match ← attempt (decode entryVa) with
    | some entry => pure (.yield entry)
    | none => pure .skip

def listRows {α : Type} (decode : U64 → Walk α) (layout : ListLayout) : Walk (List α) :=
  rowsFrom (entryRow decode layout) 0 layout.count.toNat

theorem run_listRows {α : Type} (rt : ObjcRuntime) (decode : U64 → Walk α) (layout : ListLayout) :
    run rt.answer (listRows decode layout) =
      some (Objc.listRows (fun va => run rt.answer (decode va)) layout) := by
  unfold listRows
  apply run_rowsFrom
  intro i
  unfold entryRow Objc.entryRow
  cases (checkedMul (BitVec.ofNat 64 i) (layout.entsize.setWidth 64)).bind (checkedAdd layout.baseVa) with
  | none => rfl
  | some entryVa =>
    dsimp only
    rw [run_bind, run_attempt, Option.bind_some]
    cases run rt.answer (decode entryVa) with
    | none => rfl
    | some entry => rfl

end Walk

def Method.content (m : Method) : Bytes × Bytes × Option U64 × MethodKind :=
  (m.selector.text, m.types.text, m.imp, m.kind)

def Ivar.content (v : Ivar) : Bytes × Bytes × Option U32 × U32 × U8 :=
  (v.name.text, v.typeEncoding.text, v.offset, v.size, v.log2Alignment)

def Property.content (p : Property) : Bytes × Bytes := (p.name.text, p.attributes.text)

namespace Walk

def legacyMethod (entryVa : U64) : Walk (Bytes × Bytes × Option U64 × MethodKind) := do
  mapped entryVa 24
  let selVa ← slot entryVa
  let typesVa ← requiredField entryVa 8
  let impVa ← pointerField entryVa 16
  let selector ← string selVa
  let types ← attempt (string typesVa)
  pure (selector, types.getD [], if impVa = 0 then none else some impVa, .legacy)

def smallMethod (entryVa : U64) (directSelectors : Bool) : Walk (Bytes × Bytes × Option U64 × MethodKind) := do
  let nameOff ← half entryVa 12 0
  let typesOff ← half entryVa 12 4
  let impOff ← half entryVa 12 8
  let typesSlotVa ← ofOption (checkedAdd entryVa 4)
  let impSlotVa ← ofOption (checkedAdd entryVa 8)
  let nameTarget := relativePointer entryVa nameOff
  let selector ← if directSelectors then string nameTarget else slot nameTarget >>= string
  let types ← attempt (string (relativePointer typesSlotVa typesOff))
  pure (selector, types.getD [],
    if impOff = 0 then none else some (stripSignature (relativePointer impSlotVa impOff)),
    if directSelectors then .smallDirect else .smallIndirect)

def method (kind : MethodKind) (entryVa : U64) : Walk (Bytes × Bytes × Option U64 × MethodKind) :=
  match kind with
  | .legacy => legacyMethod entryVa
  | .smallIndirect => smallMethod entryVa false
  | .smallDirect => smallMethod entryVa true

def ivar (entryVa : U64) : Walk (Bytes × Bytes × Option U32 × U32 × U8) := do
  mapped entryVa ivarEntsize
  let found ← target entryVa
  let offsetSlotVa := found.getD 0
  let nameVa ← requiredField entryVa 8
  let typeVa ← pointerField entryVa 16
  let alignmentRaw ← half entryVa ivarEntsize 24
  let size ← half entryVa ivarEntsize 28
  let name ← string nameVa
  let typeEncoding ← attempt (string typeVa)
  let offset ← if offsetSlotVa = 0 then pure none else word offsetSlotVa
  pure (name, typeEncoding.getD [], offset, size,
    if alignmentRaw = 0xffffffff then 3 else (alignmentRaw &&& 0xff).setWidth 8)

def property (entryVa : U64) : Walk (Bytes × Bytes) := do
  mapped entryVa propertyEntsize
  let nameVa ← slot entryVa
  let attrsVa ← pointerField entryVa 8
  let name ← string nameVa
  let attributes ← attempt (string attrsVa)
  pure (name, attributes.getD [])

section

variable (rt : ObjcRuntime)

theorem text_getD (s : Option Str) : (s.map Str.text).getD [] = (s.getD (Str.literal "")).text := by
  cases s <;> rfl

theorem run_legacyMethod (entryVa : U64) :
    run rt.answer (legacyMethod entryVa) = (decodeLegacyMethod rt entryVa).map Method.content := by
  unfold legacyMethod decodeLegacyMethod
  apply run_then_map (run_mapped rt entryVa 24)
  intro _
  apply run_then (run_slot rt entryVa)
  intro selVa
  apply run_then (run_requiredField rt entryVa 8)
  intro typesVa
  apply run_then (run_pointerField rt entryVa 16)
  intro impVa
  apply run_then_map (run_string rt selVa)
  intro selector
  rw [run_given (run_attempt _ _), run_string, text_getD]
  rfl

theorem run_smallMethod (entryVa : U64) (directSelectors : Bool) :
    run rt.answer (smallMethod entryVa directSelectors) =
      (decodeSmallMethod rt entryVa directSelectors).map Method.content := by
  unfold smallMethod decodeSmallMethod
  cases read : rt.readBytes entryVa 12 with
  | none =>
    rw [run_bind, run_half, read]
    rfl
  | some bytes =>
    have half : ∀ k, run rt.answer (half entryVa 12 k) = readI32LeAt bytes k := by
      intro k
      rw [run_half, read]
      rfl
    apply run_then (half 0)
    intro nameOff
    apply run_then (half 4)
    intro typesOff
    apply run_then (half 8)
    intro impOff
    apply run_then (run_ofOption _ (checkedAdd entryVa 4))
    intro typesSlotVa
    apply run_then (run_ofOption _ (checkedAdd entryVa 8))
    intro impSlotVa
    cases directSelectors with
    | true =>
      apply run_then_map (run_string rt (relativePointer entryVa nameOff))
      intro selector
      rw [run_given (run_attempt _ _), run_string, text_getD]
      rfl
    | false =>
      have indirect : run rt.answer (slot (relativePointer entryVa nameOff) >>= string) =
          ((rt.resolvePointer (relativePointer entryVa nameOff)).bind rt.readCstr).map Str.text := by
        apply run_then (run_slot rt _)
        intro selVa
        exact run_string rt selVa
      apply run_then_map indirect
      intro selector
      rw [run_given (run_attempt _ _), run_string, text_getD]
      rfl

theorem run_method (kind : MethodKind) (entryVa : U64) :
    run rt.answer (method kind entryVa) = (decodeMethod rt kind entryVa).map Method.content := by
  cases kind with
  | legacy => exact run_legacyMethod rt entryVa
  | smallIndirect => exact run_smallMethod rt entryVa false
  | smallDirect => exact run_smallMethod rt entryVa true

theorem run_ivar (entryVa : U64) : run rt.answer (ivar entryVa) = (decodeIvar rt entryVa).map Ivar.content := by
  unfold ivar decodeIvar
  cases read : rt.readBytes entryVa ivarEntsize with
  | none =>
    rw [run_bind, run_mapped, read]
    rfl
  | some bytes =>
    have half : ∀ k, run rt.answer (half entryVa ivarEntsize k) = readU32LeAt bytes k := by
      intro k
      rw [run_half, read]
      rfl
    rw [run_given (by rw [run_mapped, read]; rfl), run_given (run_target rt entryVa)]
    apply run_then (run_requiredField rt entryVa 8)
    intro nameVa
    apply run_then (run_pointerField rt entryVa 16)
    intro typeVa
    apply run_then (half 24)
    intro alignmentRaw
    apply run_then (half 28)
    intro size
    apply run_then_map (run_string rt nameVa)
    intro name
    rw [run_given (run_attempt _ _), run_string, text_getD]
    by_cases null : (rt.resolvePointer entryVa).getD 0 = 0
    · rw [if_pos null, Option.map_some, Ivar.content, if_pos null]
      rfl
    · rw [if_neg null, Option.map_some, Ivar.content, if_neg null]
      rfl

theorem run_property (entryVa : U64) :
    run rt.answer (property entryVa) = (decodeProperty rt entryVa).map Property.content := by
  unfold property decodeProperty
  apply run_then_map (run_mapped rt entryVa propertyEntsize)
  intro _
  apply run_then (run_slot rt entryVa)
  intro nameVa
  apply run_then (run_pointerField rt entryVa 8)
  intro attrsVa
  apply run_then_map (run_string rt nameVa)
  intro name
  rw [run_given (run_attempt _ _), run_string, text_getD]
  rfl

end

def header (listVa : U64) : Walk (U32 × U32) := do
  let entsizeAndFlags ← half listVa 8 0
  let count ← half listVa 8 4
  pure (entsizeAndFlags, count)

def methodList (listVa : U64) : Walk (List (Bytes × Bytes × Option U64 × MethodKind)) :=
  if listVa = 0 ∨ listVa &&& 1 ≠ 0 then pure []
  else do
    match ← attempt (header listVa >>= fun words => ofOption (methodLayout listVa words.1 words.2)) with
    | none => pure []
    | some (layout, kind) => listRows (method kind) layout

def plainList {α : Type} (decode : U64 → Walk α) (minEntsize : Nat) (listVa : U64) : Walk (List α) := do
  match ← attempt (header listVa >>= fun words => ofOption (plainLayout listVa minEntsize words.1 words.2)) with
  | none => pure []
  | some layout => listRows decode layout

def ivarList (listVa : U64) : Walk (List (Bytes × Bytes × Option U32 × U32 × U8)) :=
  if listVa = 0 then pure [] else plainList ivar ivarEntsize listVa

def propertyList (listVa : U64) : Walk (List (Bytes × Bytes)) :=
  if listVa = 0 ∨ listVa &&& 1 ≠ 0 then pure [] else plainList property propertyEntsize listVa

section

variable (rt : ObjcRuntime)

theorem run_header (listVa : U64) : run rt.answer (header listVa) = listHeader rt listVa := by
  unfold header listHeader
  cases read : rt.readBytes listVa 8 with
  | none => simp [read]
  | some bytes => simp [read]

theorem run_methodList (listVa : U64) :
    run rt.answer (methodList listVa) = some ((methodListIter rt listVa).map Method.content) := by
  unfold methodList methodListIter methodListLayout
  by_cases skipped : listVa = 0 ∨ listVa &&& 1 ≠ 0
  · rw [if_pos skipped, if_pos skipped]
    rfl
  · rw [if_neg skipped, if_neg skipped, run_bind, run_attempt, run_bind, run_header, Option.bind_some]
    simp only [run_ofOption]
    cases (listHeader rt listVa).bind fun words => methodLayout listVa words.1 words.2 with
    | none => rfl
    | some found =>
      dsimp only
      rw [run_listRows]
      simp only [run_method]
      rw [listRows_map]

theorem run_plainList {α β : Type} {walk : U64 → Walk β} {decode : U64 → Option α} {content : α → β}
    (each : ∀ va, run rt.answer (walk va) = (decode va).map content) (minEntsize : Nat) (listVa : U64) :
    run rt.answer (plainList walk minEntsize listVa) =
      some ((match plainListLayout rt listVa minEntsize with
        | none => []
        | some layout => Objc.listRows decode layout).map content) := by
  unfold plainList plainListLayout
  rw [run_bind, run_attempt, run_bind, run_header, Option.bind_some]
  simp only [run_ofOption]
  cases (listHeader rt listVa).bind fun words => plainLayout listVa minEntsize words.1 words.2 with
  | none => rfl
  | some layout =>
    dsimp only
    rw [run_listRows]
    simp only [each]
    rw [listRows_map]

theorem run_ivarList (listVa : U64) :
    run rt.answer (ivarList listVa) = some ((ivarListIter rt listVa).map Ivar.content) := by
  unfold ivarList ivarListIter
  by_cases null : listVa = 0
  · rw [if_pos null, if_pos null]
    rfl
  · rw [if_neg null, if_neg null]
    exact run_plainList rt (run_ivar rt) ivarEntsize listVa

theorem run_propertyList (listVa : U64) :
    run rt.answer (propertyList listVa) = some ((propertyListIter rt listVa).map Property.content) := by
  unfold propertyList propertyListIter
  by_cases skipped : listVa = 0 ∨ listVa &&& 1 ≠ 0
  · rw [if_pos skipped, if_pos skipped]
    rfl
  · rw [if_neg skipped, if_neg skipped]
    exact run_plainList rt (run_property rt) propertyEntsize listVa

end

end Walk

structure RoContent where
  name : Bytes
  flags : U32
  instanceStart : U32
  instanceSize : U32
  methods : List (Bytes × Bytes × Option U64 × MethodKind)
  ivars : List (Bytes × Bytes × Option U32 × U32 × U8)
  properties : List (Bytes × Bytes)
deriving DecidableEq

def ClassRo.content (rt : ObjcRuntime) (ro : ClassRo) : RoContent where
  name := ro.name.text
  flags := ro.flags
  instanceStart := ro.instanceStart
  instanceSize := ro.instanceSize
  methods := (ro.methods rt).map Method.content
  ivars := (ro.ivars rt).map Ivar.content
  properties := (ro.properties rt).map Property.content

namespace Walk

def classRo (roVa : U64) : Walk RoContent := do
  let flags ← half roVa classRoTSize 0
  let instanceStart ← half roVa classRoTSize 4
  let instanceSize ← half roVa classRoTSize 8
  let _ ← pointerField roVa 16
  let nameVa ← requiredField roVa 24
  let baseMethodsVa ← pointerField roVa 32
  let _ ← pointerField roVa 40
  let ivarsVa ← pointerField roVa 48
  let _ ← pointerField roVa 56
  let basePropertiesVa ← pointerField roVa 64
  let name ← string nameVa
  let methods ← methodList baseMethodsVa
  let ivars ← ivarList ivarsVa
  let properties ← propertyList basePropertiesVa
  pure ⟨name, flags, instanceStart, instanceSize, methods, ivars, properties⟩

theorem run_classRo (rt : ObjcRuntime) (roVa : U64) :
    run rt.answer (classRo roVa) = (decodeClassRo rt roVa).map (ClassRo.content rt) := by
  unfold classRo decodeClassRo
  cases read : rt.readBytes roVa classRoTSize with
  | none =>
    rw [run_bind, run_half, read]
    rfl
  | some bytes =>
    have half : ∀ k, run rt.answer (half roVa classRoTSize k) = readU32LeAt bytes k := by
      intro k
      rw [run_half, read]
      rfl
    apply run_then (half 0)
    intro flags
    apply run_then (half 4)
    intro instanceStart
    apply run_then (half 8)
    intro instanceSize
    apply run_then (run_pointerField rt roVa 16)
    intro _
    apply run_then (run_requiredField rt roVa 24)
    intro nameVa
    apply run_then (run_pointerField rt roVa 32)
    intro baseMethodsVa
    apply run_then (run_pointerField rt roVa 40)
    intro _
    apply run_then (run_pointerField rt roVa 48)
    intro ivarsVa
    apply run_then (run_pointerField rt roVa 56)
    intro _
    apply run_then (run_pointerField rt roVa 64)
    intro basePropertiesVa
    apply run_then_map (run_string rt nameVa)
    intro name
    rw [run_given (run_methodList rt baseMethodsVa), run_given (run_ivarList rt ivarsVa),
      run_given (run_propertyList rt basePropertiesVa)]
    rfl

end Walk

end DarwinScope.Objc
