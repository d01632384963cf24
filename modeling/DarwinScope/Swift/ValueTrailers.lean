import DarwinScope.Swift.ClassTrailers

namespace DarwinScope.Swift

open Machine

structure ValueTrailers where
  genericHeaderVa : Option U64
  foreignMetadataInitVa : Option U64
  singletonMetadataInitVa : Option U64
  prespecializationsCount : Option U32
  prespecializationsBaseVa : Option U64
  invertibleProtocolSet : Option U16
  singletonMetadataPointerVa : Option U64
deriving DecidableEq

def ValueTrailers.absent : ValueTrailers := ⟨none, none, none, none, none, none, none⟩

structure StructBody extends ValueTrailers where
  numFields : U32
  fieldOffsetVectorOffset : U32
deriving DecidableEq

structure EnumBody extends ValueTrailers where
  numPayloadCases : U32
  payloadSizeOffset : U8
  numEmptyCases : U32
deriving DecidableEq

/-- What the caller of the walk does with each block. -/
structure TrailerCallbacks (σ : Type) where
  onGeneric : U64 → σ → σ
  onForeign : U64 → σ → σ
  onSingleton : U64 → σ → σ
  onPrespec : U32 → U64 → σ → σ
  onInvertible : U16 → σ → σ
  onSingletonPointer : U64 → σ → σ

/-- The last block, behind which the walk reads nothing. -/
def lastAddressBlock {σ : Type} (present : Bool) (set : U64 → σ → σ) : Block σ := fun cursor s =>
  (if present then set cursor s else s, none)

def valueTypeBlocks {σ : Type} (rt : Image) (flags : ContextDescriptorFlags) (on : TrailerCallbacks σ) : List (Block σ) :=
  let typeFlags := flags.typeFlags
  [headerBlock flags.isGeneric (decodeGenericHeader rt) on.onGeneric,
    metadataInitBlock typeFlags.metadataInitialization on.onForeign on.onSingleton,
    headerBlock typeFlags.hasCanonicalMetadataPrespecializations (decodePrespecializations rt)
      fun found => on.onPrespec found.1 found.2,
    invertibleBlock rt flags.hasInvertibleProtocols on.onInvertible,
    lastAddressBlock typeFlags.hasSingletonMetadataPointer on.onSingletonPointer]

def decodeValueTypeTrailers {σ : Type} (rt : Image) (flags : ContextDescriptorFlags) (trailingStart : U64)
    (on : TrailerCallbacks σ) (s : σ) : σ := walk (valueTypeBlocks rt flags on) trailingStart s

def structCallbacks : TrailerCallbacks StructBody where
  onGeneric va body := { body with genericHeaderVa := some va }
  onForeign va body := { body with foreignMetadataInitVa := some va }
  onSingleton va body := { body with singletonMetadataInitVa := some va }
  onPrespec count base body := { body with prespecializationsCount := some count, prespecializationsBaseVa := some base }
  onInvertible bits body := { body with invertibleProtocolSet := some bits }
  onSingletonPointer va body := { body with singletonMetadataPointerVa := some va }

def enumCallbacks : TrailerCallbacks EnumBody where
  onGeneric va body := { body with genericHeaderVa := some va }
  onForeign va body := { body with foreignMetadataInitVa := some va }
  onSingleton va body := { body with singletonMetadataInitVa := some va }
  onPrespec count base body := { body with prespecializationsCount := some count, prespecializationsBaseVa := some base }
  onInvertible bits body := { body with invertibleProtocolSet := some bits }
  onSingletonPointer va body := { body with singletonMetadataPointerVa := some va }

abbrev typeDescriptorBaseSize : U64 := 20

def decodeStructBody (rt : Image) (descriptorVa : U64) (flags : ContextDescriptorFlags) : Option StructBody := do
  let structOff ← checkedAdd descriptorVa typeDescriptorBaseSize
  let header ← rt.readBytes structOff 8
  let numFields ← readU32LeAt header 0
  let fieldOffsetVectorOffset ← readU32LeAt header 4
  let trailingStart ← checkedAdd structOff 8
  some (decodeValueTypeTrailers rt flags trailingStart structCallbacks
    { ValueTrailers.absent with
      numFields := numFields
      fieldOffsetVectorOffset := fieldOffsetVectorOffset })

def decodeEnumBody (rt : Image) (descriptorVa : U64) (flags : ContextDescriptorFlags) : Option EnumBody := do
  let enumOff ← checkedAdd descriptorVa typeDescriptorBaseSize
  let header ← rt.readBytes enumOff 8
  let packed ← readU32LeAt header 0
  let numEmptyCases ← readU32LeAt header 4
  let trailingStart ← checkedAdd enumOff 8
  some (decodeValueTypeTrailers rt flags trailingStart enumCallbacks
    { ValueTrailers.absent with
      numPayloadCases := packed &&& 0x00FFFFFF
      payloadSizeOffset := ((packed >>> 24) &&& 0xFF).setWidth 8
      numEmptyCases := numEmptyCases })

def ClassBody.valueTrailers (body : ClassBody) : ValueTrailers where
  genericHeaderVa := body.genericHeaderVa
  foreignMetadataInitVa := body.foreignMetadataInitVa
  singletonMetadataInitVa := body.singletonMetadataInitVa
  prespecializationsCount := body.prespecializationsCount
  prespecializationsBaseVa := body.prespecializationsBaseVa
  invertibleProtocolSet := body.invertibleProtocolSet
  singletonMetadataPointerVa := body.singletonMetadataPointerVa

structure TrailerCallbacks.Records {σ : Type} (on : TrailerCallbacks σ) (view : σ → ValueTrailers) : Prop where
  generic : ∀ va s, view (on.onGeneric va s) = { view s with genericHeaderVa := some va }
  foreign : ∀ va s, view (on.onForeign va s) = { view s with foreignMetadataInitVa := some va }
  singleton : ∀ va s, view (on.onSingleton va s) = { view s with singletonMetadataInitVa := some va }
  prespec : ∀ count base s, view (on.onPrespec count base s) =
    { view s with prespecializationsCount := some count, prespecializationsBaseVa := some base }
  invertible : ∀ bits s, view (on.onInvertible bits s) = { view s with invertibleProtocolSet := some bits }
  singletonPointer : ∀ va s, view (on.onSingletonPointer va s) = { view s with singletonMetadataPointerVa := some va }

/-- The flags of the blocks that stand behind a class only are clear. -/
structure ContextDescriptorFlags.ClassBitsClear (flags : ContextDescriptorFlags) : Prop where
  resilientSuperclass : flags.typeFlags.classHasResilientSuperclass = false
  vtable : flags.typeFlags.classHasVtable = false
  overrideTable : flags.typeFlags.classHasOverrideTable = false
  defaultOverrideTable : flags.typeFlags.classHasDefaultOverrideTable = false

/-- The value type has what the class has, and the class has no stub. -/
def SameTrailers {σ : Type} (view : σ → ValueTrailers) (body : ClassBody) (s : σ) : Prop :=
  view s = body.valueTrailers ∧ body.hasObjcStub = false

section

variable {σ τ α : Type} {R : σ → τ → Prop}

theorem addressBlock_idle {size : U64} {set : U64 → σ → σ} : Idle R (addressBlock false size set) :=
  fun _ _ _ _ => rfl

theorem headerBlock_idle {decode : U64 → Option (α × U64)} {set : α → σ → σ} : Idle R (headerBlock false decode set) :=
  fun _ _ _ _ => rfl

theorem addressBlock_inStep {size : U64} {present : Bool} {set : U64 → σ → σ} {setOther : U64 → τ → τ}
    (keeps : ∀ va s t, R s t → R (set va s) (setOther va t)) :
    InStep R (addressBlock present size set) (addressBlock present size setOther) := by
  cases present with
  | false => exact ⟨fun _ _ _ related => related, fun _ _ _ _ => rfl⟩
  | true => exact ⟨keeps, fun _ _ _ _ => rfl⟩

theorem headerBlock_inStep {decode : U64 → Option (α × U64)} {present : Bool} {set : α → σ → σ} {setOther : α → τ → τ}
    (keeps : ∀ header s t, R s t → R (set header s) (setOther header t)) :
    InStep R (headerBlock present decode set) (headerBlock present decode setOther) := by
  cases present with
  | false => exact ⟨fun _ _ _ related => related, fun _ _ _ _ => rfl⟩
  | true =>
    refine ⟨fun cursor s t related => ?_, fun cursor s t related => ?_⟩ <;> simp only [headerBlock, if_true] <;>
      cases decode cursor
    · exact related
    · exact keeps _ s t related
    · rfl
    · rfl

theorem metadataInitBlock_inStep {kind : MetadataInitializationKind} {setForeign setSingleton : U64 → σ → σ}
    {setForeignOther setSingletonOther : U64 → τ → τ}
    (foreign : ∀ va s t, R s t → R (setForeign va s) (setForeignOther va t))
    (singleton : ∀ va s t, R s t → R (setSingleton va s) (setSingletonOther va t)) :
    InStep R (metadataInitBlock kind setForeign setSingleton)
      (metadataInitBlock kind setForeignOther setSingletonOther) := by
  cases kind with
  | foreign => exact addressBlock_inStep foreign
  | singleton => exact addressBlock_inStep singleton
  | none | other => exact addressBlock_inStep fun _ _ _ related => related

theorem invertibleBlock_inStep {rt : Image} {present : Bool} {set : U16 → σ → σ} {setOther : U16 → τ → τ}
    (keeps : ∀ bits s t, R s t → R (set bits s) (setOther bits t)) :
    InStep R (invertibleBlock rt present set) (invertibleBlock rt present setOther) := by
  cases present with
  | false => exact ⟨fun _ _ _ related => related, fun _ _ _ _ => rfl⟩
  | true =>
    refine ⟨fun cursor s t related => ?_, fun cursor s t related => ?_⟩ <;> simp only [invertibleBlock, if_true] <;>
      cases readU16AtVa rt cursor
    · exact related
    · exact keeps _ s t related
    · rfl
    · rfl

theorem lastAddressBlock_keeps {size : U64} {present : Bool} {set : U64 → σ → σ} {setOther : U64 → τ → τ}
    (keeps : ∀ va s t, R s t → R (set va s) (setOther va t)) :
    Keeps R (addressBlock present size set) (lastAddressBlock present setOther) := by
  cases present with
  | false => exact fun _ _ _ related => related
  | true => exact keeps

end

theorem objcStub_idle {σ : Type} {view : σ → ValueTrailers} {set : U64 → ClassBody → ClassBody} :
    Idle (SameTrailers view) fun cursor body => addressBlock body.hasObjcStub 4 set cursor body := by
  intro cursor body s related
  change addressBlock body.hasObjcStub 4 set cursor body = _
  rw [related.2]
  rfl

theorem valueTypeBlocks_among {σ : Type} {rt : Image} {flags : ContextDescriptorFlags} {on : TrailerCallbacks σ}
    {view : σ → ValueTrailers} (records : on.Records view) (clear : flags.ClassBitsClear) :
    Among (SameTrailers view) (classBlocks rt flags) (valueTypeBlocks rt flags on) := by
  rw [classBlocks, clear.resilientSuperclass, clear.vtable, clear.overrideTable, clear.defaultOverrideTable]
  refine .both (headerBlock_inStep ?_) (.skip addressBlock_idle (.both (metadataInitBlock_inStep ?_ ?_)
    (.skip headerBlock_idle (.skip headerBlock_idle (.skip objcStub_idle (.both (headerBlock_inStep ?_)
      (.both (invertibleBlock_inStep ?_) (.last (lastAddressBlock_keeps ?_) ?_))))))))
  · intro va body s related
    exact ⟨by rw [records.generic, related.1]; rfl, related.2⟩
  · intro va body s related
    exact ⟨by rw [records.foreign, related.1]; rfl, related.2⟩
  · intro va body s related
    exact ⟨by rw [records.singleton, related.1]; rfl, related.2⟩
  · intro found body s related
    exact ⟨by rw [records.prespec, related.1]; rfl, related.2⟩
  · intro bits body s related
    exact ⟨by rw [records.invertible, related.1]; rfl, related.2⟩
  · intro va body s related
    exact ⟨by rw [records.singletonPointer, related.1]; rfl, related.2⟩
  · exact List.forall_mem_singleton.mpr headerBlock_idle

theorem structCallbacks_records : structCallbacks.Records StructBody.toValueTrailers :=
  ⟨fun _ _ => rfl, fun _ _ => rfl, fun _ _ => rfl, fun _ _ _ => rfl, fun _ _ => rfl, fun _ _ => rfl⟩

theorem enumCallbacks_records : enumCallbacks.Records EnumBody.toValueTrailers :=
  ⟨fun _ _ => rfl, fun _ _ => rfl, fun _ _ => rfl, fun _ _ _ => rfl, fun _ _ => rfl, fun _ _ => rfl⟩

theorem walks_sameTrailers {σ : Type} {rt : Image} {flags : ContextDescriptorFlags} {on : TrailerCallbacks σ}
    {view : σ → ValueTrailers} {body : ClassBody} {s : σ} (records : on.Records view) (clear : flags.ClassBitsClear)
    (related : SameTrailers view body s) (trailingStart : U64) :
    SameTrailers view (decodeClassTrailers rt flags trailingStart body)
      (decodeValueTypeTrailers rt flags trailingStart on s) :=
  (valueTypeBlocks_among records clear).walk related

/-- The two walks agree: whatever the memory holds, and wherever a read fails, a class without blocks of
    its own and a value type with the same flags report the same blocks. -/
theorem trailers_agree (rt : Image) (flags : ContextDescriptorFlags) (trailingStart : U64) (body : ClassBody)
    (clear : flags.ClassBitsClear) (stubless : body.hasObjcStub = false) (fresh : body.valueTrailers = .absent) :
    ∀ (σ : Type) (on : TrailerCallbacks σ) (view : σ → ValueTrailers) (s : σ), on.Records view → view s = .absent →
      view (decodeValueTypeTrailers rt flags trailingStart on s) =
        (decodeClassTrailers rt flags trailingStart body).valueTrailers := by
  intro σ on view s records untouched
  exact (walks_sameTrailers records clear ⟨untouched.trans fresh.symm, stubless⟩ trailingStart).1

def cutImage : Image where
  data := ⟨0, List.replicate 19 0, by decide⟩
  segments := [⟨0x1000, 0x1000, 0, 0x1000⟩]

def freshStruct : StructBody := { ValueTrailers.absent with numFields := 2, fieldOffsetVectorOffset := 0 }

def freshClass : ClassBody :=
  ⟨none, some 0, none, some 0, none, 0, 2, 0, none, none, none, none, none, none, none, none, none, none, none, none⟩

theorem trailers_agree_cut :
    (decodeValueTypeTrailers cutImage ⟨0x000800b1⟩ 0x1000 structCallbacks freshStruct).toValueTrailers =
        (decodeClassTrailers cutImage ⟨0x000800b1⟩ 0x1000 freshClass).valueTrailers ∧
      (decodeClassTrailers cutImage ⟨0x000800b1⟩ 0x1000 freshClass).valueTrailers =
        { ValueTrailers.absent with genericHeaderVa := some 0x1000 } :=
  ⟨trailers_agree cutImage ⟨0x000800b1⟩ 0x1000 freshClass ⟨by decide, by decide, by decide, by decide⟩ (by decide)
    (by decide) StructBody structCallbacks StructBody.toValueTrailers freshStruct structCallbacks_records (by decide),
    by decide +kernel⟩

section

variable {rt : Image} {flags : ContextDescriptorFlags} {descriptorVa : U64} {body : ClassBody}

theorem decodeStructBody_trailers (clear : flags.ClassBitsClear) (stubless : body.hasObjcStub = false)
    (fresh : body.valueTrailers = .absent) {found : StructBody}
    (decoded : decodeStructBody rt descriptorVa flags = some found) :
    found.toValueTrailers = (decodeClassTrailers rt flags (descriptorVa + 20 + 8) body).valueTrailers := by
  simp only [decodeStructBody, Option.bind_eq_bind, Option.bind_eq_some_iff] at decoded
  rcases decoded with ⟨structOff, base, _, -, _, -, _, -, trailingStart, header, same⟩
  cases same
  rw [← (checkedAdd_some base).1, ← (checkedAdd_some header).1]
  exact (walks_sameTrailers structCallbacks_records clear ⟨fresh.symm, stubless⟩ trailingStart).1

theorem decodeEnumBody_trailers (clear : flags.ClassBitsClear) (stubless : body.hasObjcStub = false)
    (fresh : body.valueTrailers = .absent) {found : EnumBody} (decoded : decodeEnumBody rt descriptorVa flags = some found) :
    found.toValueTrailers = (decodeClassTrailers rt flags (descriptorVa + 20 + 8) body).valueTrailers := by
  simp only [decodeEnumBody, Option.bind_eq_bind, Option.bind_eq_some_iff] at decoded
  rcases decoded with ⟨enumOff, base, _, -, _, -, _, -, trailingStart, header, same⟩
  cases same
  rw [← (checkedAdd_some base).1, ← (checkedAdd_some header).1]
  exact (walks_sameTrailers enumCallbacks_records clear ⟨fresh.symm, stubless⟩ trailingStart).1

end

end DarwinScope.Swift
