import DarwinScope.Memory
import DarwinScope.Swift.ClassTrailers

namespace DarwinScope.Swift

open Machine

structure GenericTrailer where
  instantiationCache : U32
  defaultInstantiationPattern : U32
  numKeyArguments : U16
  numExtraArguments : U16
  params : Bytes
  filler : Bytes
  requirements : List (U32 × U32 × U32)

inductive MetadataInit where
  | none
  | foreign (completion : U32)
  | singleton (cache pattern completion : U32)

structure VTableTrailer where
  offset : U32
  entries : List (U32 × U32)

/-- The content behind the fixed part of a class descriptor. The prespecializations come with their
    accessors, the invertible protocol set with the half word that pads it. -/
structure ClassTrailers where
  generic : Option GenericTrailer
  resilientSuperclass : Option U32
  metadataInit : MetadataInit
  vtable : Option VTableTrailer
  overrideTable : Option (List (U32 × U32 × U32))
  objcStub : Option U32
  prespecializations : Option (List U32 × List U32)
  invertibleProtocols : Option (U16 × U16)
  singletonPointer : Option U32
  defaultOverrides : Option (List (U32 × U32))

def half (word : U16) : Bytes := leBytes 2 word.toNat

def pairWords (row : U32 × U32) : Bytes := encodeWords [row.1, row.2]

def tripleWords (row : U32 × U32 × U32) : Bytes := encodeWords [row.1, row.2.1, row.2.2]

@[simp] theorem half_length (word : U16) : (half word).length = 2 := leBytes_length 2 _

@[simp] theorem pairWords_length (row : U32 × U32) : (pairWords row).length = 8 := encodeWords_length _

@[simp] theorem tripleWords_length (row : U32 × U32 × U32) : (tripleWords row).length = 12 := encodeWords_length _

namespace GenericTrailer

def header (g : GenericTrailer) : Bytes :=
  encodeWords [g.instantiationCache, g.defaultInstantiationPattern] ++
    (half (BitVec.ofNat 16 g.params.length) ++ (half (BitVec.ofNat 16 g.requirements.length) ++
      (half g.numKeyArguments ++ half g.numExtraArguments)))

def encode (g : GenericTrailer) : Bytes :=
  g.header ++ (g.params ++ (g.filler ++ g.requirements.flatMap tripleWords))

end GenericTrailer

namespace MetadataInit

def encode : MetadataInit → Bytes
  | none => []
  | foreign completion => encodeWords [completion]
  | singleton cache pattern completion => encodeWords [cache, pattern, completion]

def Suits : MetadataInit → MetadataInitializationKind → Prop
  | none, kind => kind = .none ∨ kind = .other
  | foreign _, kind => kind = .foreign
  | singleton _ _ _, kind => kind = .singleton

def foreignVa (va : U64) : MetadataInit → Option U64
  | foreign _ => some va
  | _ => Option.none

def singletonVa (va : U64) : MetadataInit → Option U64
  | singleton _ _ _ => some va
  | _ => Option.none

end MetadataInit

def VTableTrailer.encode (v : VTableTrailer) : Bytes :=
  encodeWords [v.offset, BitVec.ofNat 32 v.entries.length] ++ v.entries.flatMap pairWords

def encodeTable {α : Type} (encode : α → Bytes) (rows : List α) : Bytes :=
  encodeWords [BitVec.ofNat 32 rows.length] ++ rows.flatMap encode

def encodePrespecializations (p : List U32 × List U32) : Bytes :=
  encodeTable (fun word => encodeWords [word]) p.1 ++ encodeWords p.2

def optional {α : Type} (encode : α → Bytes) (o : Option α) : Bytes := (o.map encode).getD []

def behind (start : U64) (blocks : List Bytes) : U64 :=
  blocks.foldl (fun va block => va + BitVec.ofNat 64 block.length) start

namespace ClassTrailers

/-- The blocks in the order of the module documentation; of its blocks 3 and 4 a class has at most one. -/
def blocks (t : ClassTrailers) : List Bytes :=
  [optional GenericTrailer.encode t.generic,
    optional (fun word => encodeWords [word]) t.resilientSuperclass,
    t.metadataInit.encode,
    optional VTableTrailer.encode t.vtable,
    optional (encodeTable tripleWords) t.overrideTable,
    optional (fun word => encodeWords [word]) t.objcStub,
    optional encodePrespecializations t.prespecializations,
    optional (fun set => half set.1 ++ half set.2) t.invertibleProtocols,
    optional (fun word => encodeWords [word]) t.singletonPointer,
    optional (encodeTable pairWords) t.defaultOverrides]

def encode (t : ClassTrailers) : Bytes := t.blocks.flatten

def place (t : ClassTrailers) (start : U64) (i : Nat) : U64 := behind start (t.blocks.take i)

structure Matches (t : ClassTrailers) (flags : ContextDescriptorFlags) (extra : Option U32) : Prop where
  generic : t.generic.isSome = flags.isGeneric
  resilientSuperclass : t.resilientSuperclass.isSome = flags.typeFlags.classHasResilientSuperclass
  metadataInit : t.metadataInit.Suits flags.typeFlags.metadataInitialization
  vtable : t.vtable.isSome = flags.typeFlags.classHasVtable
  overrideTable : t.overrideTable.isSome = flags.typeFlags.classHasOverrideTable
  objcStub : t.objcStub.isSome = (extra.map fun f => decide (f &&& 0x1 ≠ 0)).getD false
  prespecializations : t.prespecializations.isSome = flags.typeFlags.hasCanonicalMetadataPrespecializations
  invertibleProtocols : t.invertibleProtocols.isSome = flags.hasInvertibleProtocols
  singletonPointer : t.singletonPointer.isSome = flags.typeFlags.hasSingletonMetadataPointer
  defaultOverrides : t.defaultOverrides.isSome = flags.typeFlags.classHasDefaultOverrideTable

structure Fits (t : ClassTrailers) : Prop where
  generic : ∀ g ∈ t.generic, g.params.length < 2^16 ∧ g.requirements.length < 2^16 ∧
    g.filler.length = (4 - g.params.length % 4) % 4
  vtable : ∀ v ∈ t.vtable, v.entries.length < 2^32
  overrideTable : ∀ rows ∈ t.overrideTable, rows.length < 2^32
  prespecializations : ∀ p ∈ t.prespecializations, p.1.length < 2^32 ∧ p.2.length = p.1.length
  defaultOverrides : ∀ rows ∈ t.defaultOverrides, rows.length < 2^32

def decoded (t : ClassTrailers) (start : U64) (body : ClassBody) : ClassBody :=
  { body with
    genericHeaderVa := t.generic.map fun _ => t.place start 0
    resilientSuperclassVa := t.resilientSuperclass.map fun _ => t.place start 1
    foreignMetadataInitVa := t.metadataInit.foreignVa (t.place start 2)
    singletonMetadataInitVa := t.metadataInit.singletonVa (t.place start 2)
    vtableHeader := t.vtable.map fun v => ⟨v.offset, BitVec.ofNat 32 v.entries.length, t.place start 3 + 8⟩
    overrideTableHeader := t.overrideTable.map fun rows => ⟨BitVec.ofNat 32 rows.length, t.place start 4 + 4⟩
    objcResilientClassStubVa := t.objcStub.map fun _ => t.place start 5
    prespecializationsCount := t.prespecializations.map fun p => BitVec.ofNat 32 p.1.length
    prespecializationsBaseVa := t.prespecializations.map fun _ => t.place start 6 + 4
    invertibleProtocolSet := t.invertibleProtocols.map Prod.fst
    singletonMetadataPointerVa := t.singletonPointer.map fun _ => t.place start 8
    defaultOverrideTableHeader := t.defaultOverrides.map fun rows =>
      ⟨BitVec.ofNat 32 rows.length, t.place start 9 + 4⟩ }

/-- The pieces of the walk: what each block adds to a body in which its own fields are not set. -/
def pieces (t : ClassTrailers) : List (Piece ClassBody) :=
  [⟨optional GenericTrailer.encode t.generic, fun va body =>
      { body with genericHeaderVa := (t.generic.map fun _ => va).or body.genericHeaderVa }⟩,
    ⟨optional (fun word => encodeWords [word]) t.resilientSuperclass, fun va body =>
      { body with resilientSuperclassVa := (t.resilientSuperclass.map fun _ => va).or body.resilientSuperclassVa }⟩,
    ⟨t.metadataInit.encode, fun va body =>
      { body with
        foreignMetadataInitVa := (t.metadataInit.foreignVa va).or body.foreignMetadataInitVa
        singletonMetadataInitVa := (t.metadataInit.singletonVa va).or body.singletonMetadataInitVa }⟩,
    ⟨optional VTableTrailer.encode t.vtable, fun va body =>
      { body with
        vtableHeader := (t.vtable.map fun v => ⟨v.offset, BitVec.ofNat 32 v.entries.length, va + 8⟩).or body.vtableHeader }⟩,
    ⟨optional (encodeTable tripleWords) t.overrideTable, fun va body =>
      { body with
        overrideTableHeader :=
          (t.overrideTable.map fun rows => ⟨BitVec.ofNat 32 rows.length, va + 4⟩).or body.overrideTableHeader }⟩,
    ⟨optional (fun word => encodeWords [word]) t.objcStub, fun va body =>
      { body with objcResilientClassStubVa := (t.objcStub.map fun _ => va).or body.objcResilientClassStubVa }⟩,
    ⟨optional encodePrespecializations t.prespecializations, fun va body =>
      { body with
        prespecializationsCount :=
          (t.prespecializations.map fun p => BitVec.ofNat 32 p.1.length).or body.prespecializationsCount
        prespecializationsBaseVa := (t.prespecializations.map fun _ => va + 4).or body.prespecializationsBaseVa }⟩,
    ⟨optional (fun set => half set.1 ++ half set.2) t.invertibleProtocols, fun _ body =>
      { body with invertibleProtocolSet := (t.invertibleProtocols.map Prod.fst).or body.invertibleProtocolSet }⟩,
    ⟨optional (fun word => encodeWords [word]) t.singletonPointer, fun va body =>
      { body with
        singletonMetadataPointerVa := (t.singletonPointer.map fun _ => va).or body.singletonMetadataPointerVa }⟩,
    ⟨optional (encodeTable pairWords) t.defaultOverrides, fun va body =>
      { body with
        defaultOverrideTableHeader :=
          (t.defaultOverrides.map fun rows => ⟨BitVec.ofNat 32 rows.length, va + 4⟩).or body.defaultOverrideTableHeader }⟩]

end ClassTrailers

structure ClassHeader where
  superclassMangledName : Option Str
  metadataNegativeSizeWords : Option U32
  resilientMetadataBoundsVa : Option U64
  metadataPositiveSizeWords : Option U32
  extraClassFlags : Option U32
  numImmediateMembers : U32
  numFields : U32
  fieldOffsetVectorOffset : U32

def ClassHeader.body (h : ClassHeader) : ClassBody where
  superclassMangledName := h.superclassMangledName
  metadataNegativeSizeWords := h.metadataNegativeSizeWords
  resilientMetadataBoundsVa := h.resilientMetadataBoundsVa
  metadataPositiveSizeWords := h.metadataPositiveSizeWords
  extraClassFlags := h.extraClassFlags
  numImmediateMembers := h.numImmediateMembers
  numFields := h.numFields
  fieldOffsetVectorOffset := h.fieldOffsetVectorOffset
  genericHeaderVa := none
  resilientSuperclassVa := none
  foreignMetadataInitVa := none
  singletonMetadataInitVa := none
  vtableHeader := none
  overrideTableHeader := none
  objcResilientClassStubVa := none
  prespecializationsCount := none
  prespecializationsBaseVa := none
  invertibleProtocolSet := none
  singletonMetadataPointerVa := none
  defaultOverrideTableHeader := none

theorem settle_pieces (t : ClassTrailers) (start : U64) (h : ClassHeader) :
    settle t.pieces start h.body = t.decoded start h.body := by
  simp only [ClassTrailers.pieces, settle, ClassHeader.body, Option.or_none]
  rfl

theorem layout_pieces (t : ClassTrailers) : layout t.pieces = t.encode := rfl

section

variable {rt : Image} {va : U64}

def vtableRow (va : U64) (e : U32 × U32) : VTableEntry := ⟨va, ⟨e.1⟩, relativeTarget (va + 4) e.2⟩

def overrideRow (va : U64) (e : U32 × U32 × U32) : OverrideEntry :=
  ⟨va, relativeTarget va e.1, relativeTarget (va + 4) e.2.1, relativeTarget (va + 8) e.2.2⟩

def defaultOverrideRow (va : U64) (e : U32 × U32) : DefaultOverrideEntry :=
  ⟨va, relativeTarget va e.1, relativeTarget (va + 4) e.2⟩

theorem decodeVtableEntry_of_stored {e : U32 × U32} (stored : rt.Stored va (pairWords e)) :
    decodeVtableEntry rt va = some (vtableRow va e) := by
  have room := stored.room
  rw [pairWords, encodeWords_length, List.length_cons, List.length_singleton] at room
  rcases stored.readWords (Nat.succ_pos _) with ⟨part, found, each⟩
  have read : rt.readBytes va 8 = some part := found
  have flags : readU32LeAt part 0 = some e.1 := each 0 _ rfl
  have impl : readI32LeAt part 4 = some e.2 := each 1 _ rfl
  have slot : checkedAdd va 4 = some (va + 4) := @checkedAdd_ofNat 64 va 4 (by omega)
  simp only [decodeVtableEntry, read, flags, impl, slot, Option.bind_eq_bind, Option.bind_some, vtableRow]

theorem decodeOverrideEntry_of_stored {e : U32 × U32 × U32} (stored : rt.Stored va (tripleWords e)) :
    decodeOverrideEntry rt va = some (overrideRow va e) := by
  have room := stored.room
  rw [tripleWords, encodeWords_length, List.length_cons, List.length_cons, List.length_singleton] at room
  rcases stored.readWords (Nat.succ_pos _) with ⟨part, found, each⟩
  have read : rt.readBytes va 12 = some part := found
  have parent : readI32LeAt part 0 = some e.1 := each 0 _ rfl
  have method : readI32LeAt part 4 = some e.2.1 := each 1 _ rfl
  have impl : readI32LeAt part 8 = some e.2.2 := each 2 _ rfl
  have methodSlot : checkedAdd va 4 = some (va + 4) := @checkedAdd_ofNat 64 va 4 (by omega)
  have implSlot : checkedAdd va 8 = some (va + 8) := @checkedAdd_ofNat 64 va 8 (by omega)
  simp only [decodeOverrideEntry, read, parent, method, impl, methodSlot, implSlot, Option.bind_eq_bind,
    Option.bind_some, overrideRow]

theorem decodeDefaultOverrideEntry_of_stored {e : U32 × U32} (stored : rt.Stored va (pairWords e)) :
    decodeDefaultOverrideEntry rt va = some (defaultOverrideRow va e) := by
  have room := stored.room
  rw [pairWords, encodeWords_length, List.length_cons, List.length_singleton] at room
  rcases stored.readWords (Nat.succ_pos _) with ⟨part, found, each⟩
  have read : rt.readBytes va 8 = some part := found
  have method : readI32LeAt part 0 = some e.1 := each 0 _ rfl
  have impl : readI32LeAt part 4 = some e.2 := each 1 _ rfl
  have slot : checkedAdd va 4 = some (va + 4) := @checkedAdd_ofNat 64 va 4 (by omega)
  simp only [decodeDefaultOverrideEntry, read, method, impl, slot, Option.bind_eq_bind, Option.bind_some,
    defaultOverrideRow]

theorem decodePrespecialization_of_stored {word : U32} (stored : rt.Stored va (encodeWords [word])) :
    decodePrespecialization rt va = some (relativeTarget va word) := by
  rcases stored.readWords (Nat.succ_pos _) with ⟨part, found, each⟩
  have read : rt.readBytes va 4 = some part := found
  have rel : readI32LeAt part 0 = some word := each 0 _ rfl
  simp only [decodePrespecialization, read, rel, Option.bind_eq_bind, Option.bind_some]

def tableRows {α β : Type} (row : U64 → β → α) (stride : Nat) (baseVa : U64) (items : List β) : List α :=
  items.mapIdx fun i item => row (baseVa + BitVec.ofNat 64 (stride * i)) item

theorem tableEntries_at {α β : Type} {decode : U64 → Option α} {encode : β → Bytes} {row : U64 → β → α}
    {stride : Nat} {items : List β} (sized : ∀ item, (encode item).length = stride) (some : 0 < stride)
    (each : ∀ i item, items[i]? = .some item → rt.Stored (va + BitVec.ofNat 64 (stride * i)) (encode item) →
      decode (va + BitVec.ofNat 64 (stride * i)) = .some (row (va + BitVec.ofNat 64 (stride * i)) item))
    (few : items.length < 2^32) (stored : rt.Stored va (items.flatMap encode)) :
    tableEntries decode (BitVec.ofNat 64 stride) va (BitVec.ofNat 32 items.length) = tableRows row stride va items := by
  have room := stored.room
  rw [flatMap_length fun item _ => sized item] at room
  have count : (BitVec.ofNat 32 items.length).toNat = (tableRows row stride va items).length := by
    rw [tableRows, List.length_mapIdx, toNat_ofNat_of_lt few]
  rw [tableEntries, count]
  apply rows_yield
  intro i found at?
  rw [tableRows, List.getElem?_mapIdx, Option.map_eq_some_iff] at at?
  rcases at? with ⟨item, here, rfl⟩
  have below : i < items.length := (List.getElem?_eq_some_iff.mp here).1
  rcases checkedEntry some below room with ⟨product, place⟩
  have entry := each i item here (stored.entry (fun item _ => sized item) here)
  rw [product, Option.bind_some, place, Option.bind_some, entry]

theorem tableEntries_of_stored {α β : Type} {decode : U64 → Option α} {encode : β → Bytes} {row : U64 → β → α}
    {stride : Nat} {items : List β} (sized : ∀ item, (encode item).length = stride) (some : 0 < stride)
    (each : ∀ va item, rt.Stored va (encode item) → decode va = .some (row va item)) (few : items.length < 2^32)
    (stored : rt.Stored va (items.flatMap encode)) :
    tableEntries decode (BitVec.ofNat 64 stride) va (BitVec.ofNat 32 items.length) = tableRows row stride va items :=
  tableEntries_at sized some (fun _ item _ => each _ item) few stored

theorem tableRange_eq {headerSize n stride : Nat} (few : n < 2^32) (small : stride < 2^32)
    (room : va.toNat + headerSize + stride * n < 2^64) :
    tableRange va (BitVec.ofNat 64 headerSize) (BitVec.ofNat 32 n) (BitVec.ofNat 64 stride) =
      some (va + BitVec.ofNat 64 headerSize, va + BitVec.ofNat 64 (headerSize + stride * n)) := by
  have entries := toNat_add_ofNat (by omega : va.toNat + headerSize < 2^64)
  rw [tableRange, checkedAdd_ofNat (by omega), BitVec.setWidth_ofNat_of_le_of_lt (by decide) few,
    checkedMul_ofNat (by rw [Nat.mul_comm]; omega) (by omega)
    (by omega), Nat.mul_comm n stride]
  simp only [Option.bind_eq_bind, Option.bind_some]
  rw [checkedAdd_ofNat (by omega), add_ofNat_add]
  rfl

theorem decodeVtableHeader_of_stored {v : VTableTrailer} (few : v.entries.length < 2^32) (stored : rt.Stored va v.encode) :
    decodeVtableHeader rt va = some (⟨v.offset, BitVec.ofNat 32 v.entries.length, va + 8⟩,
      va + BitVec.ofNat 64 v.encode.length) := by
  have size : v.encode.length = 8 + 8 * v.entries.length := by
    rw [VTableTrailer.encode, List.length_append, flatMap_length fun row _ => pairWords_length row, encodeWords_length]
    rfl
  have room := stored.room
  rw [size] at room
  rcases stored.left.readWords (Nat.succ_pos _) with ⟨part, found, each⟩
  have read : rt.readBytes va 8 = some part := found
  have offset : readU32LeAt part 0 = some v.offset := each 0 _ rfl
  have count : readU32LeAt part 4 = some (BitVec.ofNat 32 v.entries.length) := each 1 _ rfl
  have range : tableRange va 8 (BitVec.ofNat 32 v.entries.length) 8 = _ :=
    @tableRange_eq va 8 v.entries.length 8 few (by decide) (by omega)
  simp only [decodeVtableHeader, read, offset, count, range, Option.bind_eq_bind, Option.bind_some, size]
  rfl

theorem decodeTableHeader_of_stored {α β : Type} {encode : β → Bytes} {rows : List β} {stride : Nat} (make : U32 → U64 → α)
    (sized : ∀ row, (encode row).length = stride) (small : stride < 2^32) (few : rows.length < 2^32)
    (stored : rt.Stored va (encodeTable encode rows)) :
    decodeTableHeader rt make (BitVec.ofNat 64 stride) va =
      some (make (BitVec.ofNat 32 rows.length) (va + 4), va + BitVec.ofNat 64 (encodeTable encode rows).length) := by
  have size : (encodeTable encode rows).length = 4 + stride * rows.length := by
    rw [encodeTable, List.length_append, flatMap_length fun row _ => sized row, encodeWords_length]
    rfl
  have room := stored.room
  rw [size] at room
  rcases stored.left.readWords (Nat.succ_pos _) with ⟨part, found, each⟩
  have read : rt.readBytes va 4 = some part := found
  have count : readU32LeAt part 0 = some (BitVec.ofNat 32 rows.length) := each 0 _ rfl
  have range : tableRange va 4 (BitVec.ofNat 32 rows.length) (BitVec.ofNat 64 stride) = _ :=
    @tableRange_eq va 4 rows.length stride few small (by omega)
  simp only [decodeTableHeader, read, count, range, Option.bind_eq_bind, Option.bind_some, size]
  rfl

theorem decodePrespecializations_of_stored {p : List U32 × List U32} (few : p.1.length < 2^32)
    (paired : p.2.length = p.1.length) (stored : rt.Stored va (encodePrespecializations p)) :
    decodePrespecializations rt va = some ((BitVec.ofNat 32 p.1.length, va + 4),
      va + BitVec.ofNat 64 (encodePrespecializations p).length) := by
  have size : (encodePrespecializations p).length =
      (encodeTable (fun word => encodeWords [word]) p.1).length + 4 * p.1.length := by
    rw [encodePrespecializations, List.length_append, encodeWords_length, paired]
  have room := stored.room
  rw [size] at room
  have table : decodeTableHeader rt Prod.mk 4 va = _ :=
    decodeTableHeader_of_stored Prod.mk (fun _ => encodeWords_length _) (by decide) few stored.left
  have accessors : checkedMul (BitVec.ofNat 64 p.1.length) 4 = some (BitVec.ofNat 64 (p.1.length * 4)) :=
    @checkedMul_ofNat 64 p.1.length 4 (by omega) (by omega) (by decide)
  have after := toNat_add_ofNat (by omega :
    va.toNat + (encodeTable (fun word => encodeWords [word]) p.1).length < 2^64)
  have count : ((BitVec.ofNat 32 p.1.length).setWidth 64 : U64) = BitVec.ofNat 64 p.1.length :=
    BitVec.setWidth_ofNat_of_le_of_lt (by decide) few
  simp only [decodePrespecializations, table, count, accessors, Option.bind_eq_bind, Option.bind_some]
  rw [checkedAdd_ofNat (by omega), add_ofNat_add, size, Nat.mul_comm p.1.length 4]
  rfl

theorem padding_eq {n : Nat} (few : n < 2^16) :
    ((4 - (BitVec.ofNat 64 n &&& 0x3)) &&& 0x3 : U64) = BitVec.ofNat 64 ((4 - n % 4) % 4) := by
  have low : (BitVec.ofNat 64 n &&& 0x3).toNat = n % 4 := by
    rw [and_lowMask_toNat _ 0x3 2 rfl, toNat_ofNat_of_lt (by omega : n < 2^64)]
    rfl
  have four : (4 : U64).toNat = 4 := rfl
  apply BitVec.eq_of_toNat_eq
  rw [and_lowMask_toNat _ 0x3 2 rfl, BitVec.toNat_sub, low, four, BitVec.toNat_ofNat]
  omega

theorem decodeGenericHeader_of_stored {g : GenericTrailer} (fewParams : g.params.length < 2^16)
    (fewRequirements : g.requirements.length < 2^16) (padded : g.filler.length = (4 - g.params.length % 4) % 4)
    (stored : rt.Stored va g.encode) :
    decodeGenericHeader rt va = some (va, va + BitVec.ofNat 64 g.encode.length) := by
  have size : g.encode.length = 16 + g.params.length + g.filler.length + 12 * g.requirements.length := by
    rw [GenericTrailer.encode, List.length_append, List.length_append, List.length_append,
      flatMap_length fun row _ => tripleWords_length row, ← Nat.add_assoc, ← Nat.add_assoc]
    rfl
  have room := stored.room
  rw [size] at room
  have header : 0 < g.header.length := Nat.succ_pos _
  rcases stored.left.readBytes header with ⟨part, found, same⟩
  have read : rt.readBytes va 16 = some part := found
  have params : readU16LeAt part 8 = some (BitVec.ofNat 16 g.params.length) :=
    readAt_behind (by decide) (by decide) _ _ same
  have requirements : readU16LeAt part 10 = some (BitVec.ofNat 16 g.requirements.length) := by
    rw [GenericTrailer.header, ← List.append_assoc] at same
    exact readAt_behind (by decide) (by decide) _ _ same
  have first : checkedAdd va 16 = some (va + 16) := @checkedAdd_ofNat 64 va 16 (by omega)
  have sixteen : va + 16 = va + BitVec.ofNat 64 16 := rfl
  have product : checkedMul (BitVec.ofNat 64 g.requirements.length) 12 =
    some (BitVec.ofNat 64 (g.requirements.length * 12)) :=
    @checkedMul_ofNat 64 g.requirements.length 12 (by omega) (by omega) (by decide)
  have afterHeader := toNat_add_ofNat (by omega : va.toNat + 16 < 2^64)
  have afterParams := toNat_add_ofNat (by omega : va.toNat + (16 + g.params.length) < 2^64)
  have afterFiller := toNat_add_ofNat (by omega : va.toNat + (16 + g.params.length + g.filler.length) < 2^64)
  have paramBytes : ((BitVec.ofNat 16 g.params.length).setWidth 64 : U64) = BitVec.ofNat 64 g.params.length :=
    BitVec.setWidth_ofNat_of_le_of_lt (by decide) fewParams
  have requirementRows : ((BitVec.ofNat 16 g.requirements.length).setWidth 64 : U64) =
    BitVec.ofNat 64 g.requirements.length :=
    BitVec.setWidth_ofNat_of_le_of_lt (by decide) fewRequirements
  simp only [decodeGenericHeader, read, params, requirements, first, paramBytes, requirementRows, padding_eq fewParams,
    ← padded, product, Option.bind_eq_bind, Option.bind_some]
  rw [sixteen, checkedAdd_ofNat (by omega), add_ofNat_add, Option.bind_some, checkedAdd_ofNat (by omega), add_ofNat_add,
    Option.bind_some, checkedAdd_ofNat (by omega), add_ofNat_add, Option.bind_some, size, Nat.mul_comm 12]

end

section

variable {rt : Image} {σ α β : Type} {inv : σ → Prop} {o : Option α} {encode : α → Bytes} {present : Bool}
  {record : U64 → σ → σ}

theorem optional_some (a : α) : optional encode (some a) = encode a := rfl

theorem recovers_absent {s : σ} {cursor : U64} (same : record cursor s = s) :
    (s, some cursor) = (record cursor s, some (cursor + BitVec.ofNat 64 ([] : Bytes).length)) := by
  rw [same, List.length_nil, BitVec.add_zero]

theorem recovers_addressBlock {size : Nat} {set : U64 → σ → σ} (shown : o.isSome = present)
    (sized : ∀ a, (encode a).length = size) (kept : ∀ va s, inv s → inv (record va s))
    (absent : o = none → ∀ va s, record va s = s) (found : ∀ a, o = some a → record = set) :
    Recovers rt.Stored inv (addressBlock present (BitVec.ofNat 64 size) set) ⟨optional encode o, record⟩ := by
  intro cursor s stored holds
  refine ⟨?_, kept cursor s holds⟩
  dsimp only at stored ⊢
  rw [← shown, addressBlock]
  cases o with
  | none => exact recovers_absent (absent rfl cursor s)
  | some a =>
    have room := stored.room
    rw [optional_some, sized a] at room
    rw [Option.isSome_some, if_pos rfl, found a rfl, checkedAdd_ofNat room, optional_some, sized a]

theorem recovers_headerBlock {decode : U64 → Option (β × U64)} {set : β → σ → σ} (shown : o.isSome = present)
    (kept : ∀ va s, inv s → inv (record va s)) (absent : o = none → ∀ va s, record va s = s)
    (found : ∀ a, o = some a → ∀ va, rt.Stored va (encode a) → ∃ header,
      decode va = some (header, va + BitVec.ofNat 64 (encode a).length) ∧ record va = set header) :
    Recovers rt.Stored inv (headerBlock present decode set) ⟨optional encode o, record⟩ := by
  intro cursor s stored holds
  refine ⟨?_, kept cursor s holds⟩
  dsimp only at stored ⊢
  rw [← shown, headerBlock]
  cases o with
  | none => exact recovers_absent (absent rfl cursor s)
  | some a =>
    rcases found a rfl cursor stored with ⟨header, turn, same⟩
    rw [Option.isSome_some, if_pos rfl, turn, same, optional_some]

theorem recovers_metadataInitBlock {init : MetadataInit} {kind : MetadataInitializationKind}
    {setForeign setSingleton : U64 → σ → σ}
    (suits : init.Suits kind) (kept : ∀ va s, inv s → inv (record va s))
    (none : init = .none → ∀ va s, record va s = s) (foreign : ∀ w, init = .foreign w → record = setForeign)
    (singleton : ∀ a b c, init = .singleton a b c → record = setSingleton) :
    Recovers rt.Stored inv (metadataInitBlock kind setForeign setSingleton) ⟨init.encode, record⟩ := by
  intro cursor s stored holds
  refine ⟨?_, kept cursor s holds⟩
  have room := stored.room
  dsimp only at room ⊢
  cases init with
  | none => rcases suits with rfl | rfl <;> exact recovers_absent (none rfl cursor s)
  | foreign w =>
    rw [MetadataInit.encode, encodeWords_length] at room
    cases suits
    rw [foreign w rfl, MetadataInit.encode, encodeWords_length, ← checkedAdd_ofNat room]
    rfl
  | singleton a b c =>
    rw [MetadataInit.encode, encodeWords_length] at room
    cases suits
    rw [singleton a b c rfl, MetadataInit.encode, encodeWords_length, ← checkedAdd_ofNat room]
    rfl

theorem recovers_invertibleBlock {o : Option (U16 × U16)} {set : U16 → σ → σ} (shown : o.isSome = present)
    (kept : ∀ va s, inv s → inv (record va s)) (absent : o = none → ∀ va s, record va s = s)
    (found : ∀ a, o = some a → ∀ va, record va = set a.1) :
    Recovers rt.Stored inv (invertibleBlock rt present set) ⟨optional (fun set => half set.1 ++ half set.2) o, record⟩ := by
  intro cursor s stored holds
  refine ⟨?_, kept cursor s holds⟩
  dsimp only at stored ⊢
  rw [← shown, invertibleBlock]
  cases o with
  | none => exact recovers_absent (absent rfl cursor s)
  | some a =>
    rw [optional_some] at stored ⊢
    have room := stored.room
    have size : (half a.1 ++ half a.2).length = 4 := by rw [List.length_append, half_length, half_length]
    rw [size] at room
    rcases stored.left.readBytes (Nat.succ_pos _) with ⟨part, read, same⟩
    have bytes : rt.readBytes cursor 2 = some part := read
    have bits : readU16LeAt part 0 = some a.1 :=
      readAt_leBytes_of_holds (by decide) (by decide) (Slice.holds_of_bytes same)
    have word : readU16AtVa rt cursor = some a.1 := by
      rw [readU16AtVa, bytes, Option.bind_eq_bind, Option.bind_some, bits]
    have next : checkedAdd cursor 4 = some (cursor + 4) := @checkedAdd_ofNat 64 cursor 4 room
    rw [Option.isSome_some, if_pos rfl, word, found a rfl, size, next]
    rfl

end

section

variable {rt : Image} {t : ClassTrailers} {flags : ContextDescriptorFlags} {extra : Option U32}

theorem classBlocks_recover (matched : t.Matches flags extra) (fits : t.Fits) :
    List.Forall₂ (Recovers rt.Stored fun body => body.extraClassFlags = extra) (classBlocks rt flags) t.pieces := by
  have word : ∀ w : U32, (encodeWords [w]).length = 4 := fun w => encodeWords_length [w]
  refine .cons ?generic (.cons ?resilient (.cons ?init (.cons ?vtable (.cons ?override (.cons ?stub
    (.cons ?prespecializations (.cons ?invertible (.cons ?pointer (.cons ?defaults .nil)))))))))
  case generic =>
    apply recovers_headerBlock matched.generic
    · exact fun _ _ kept => kept
    · intro none va s
      rw [none]
      rfl
    · intro g some va stored
      rcases fits.generic g some with ⟨params, requirements, padded⟩
      refine ⟨va, decodeGenericHeader_of_stored params requirements padded stored, ?_⟩
      rw [some]
      rfl
  case resilient =>
    apply recovers_addressBlock matched.resilientSuperclass word
    · exact fun _ _ kept => kept
    · intro none va s
      rw [none]
      rfl
    · intro w some
      rw [some]
      rfl
  case init =>
    apply recovers_metadataInitBlock matched.metadataInit
    · exact fun _ _ kept => kept
    · intro none va s
      rw [none]
      rfl
    · intro w foreign
      rw [foreign]
      rfl
    · intro a b c singleton
      rw [singleton]
      rfl
  case vtable =>
    apply recovers_headerBlock matched.vtable
    · exact fun _ _ kept => kept
    · intro none va s
      rw [none]
      rfl
    · intro v some va stored
      refine ⟨_, decodeVtableHeader_of_stored (fits.vtable v some) stored, ?_⟩
      rw [some]
      rfl
  case override =>
    apply recovers_headerBlock matched.overrideTable
    · exact fun _ _ kept => kept
    · intro none va s
      rw [none]
      rfl
    · intro rows some va stored
      refine ⟨_, decodeTableHeader_of_stored OverrideTableHeader.mk tripleWords_length (by decide)
        (fits.overrideTable rows some) stored, ?_⟩
      rw [some]
      rfl
  case stub =>
    apply Recovers.agree
    · intro cursor body kept
      rw [ClassBody.hasObjcStub, kept]
    apply recovers_addressBlock matched.objcStub word
    · exact fun _ _ kept => kept
    · intro none va s
      rw [none]
      rfl
    · intro w some
      rw [some]
      rfl
  case prespecializations =>
    apply recovers_headerBlock matched.prespecializations
    · exact fun _ _ kept => kept
    · intro none va s
      rw [none]
      rfl
    · intro p some va stored
      rcases fits.prespecializations p some with ⟨few, paired⟩
      refine ⟨_, decodePrespecializations_of_stored few paired stored, ?_⟩
      rw [some]
      rfl
  case invertible =>
    apply recovers_invertibleBlock matched.invertibleProtocols
    · exact fun _ _ kept => kept
    · intro none va s
      rw [none]
      rfl
    · intro a some va
      rw [some]
      rfl
  case pointer =>
    apply recovers_addressBlock matched.singletonPointer word
    · exact fun _ _ kept => kept
    · intro none va s
      rw [none]
      rfl
    · intro w some
      rw [some]
      rfl
  case defaults =>
    apply recovers_headerBlock matched.defaultOverrides
    · exact fun _ _ kept => kept
    · intro none va s
      rw [none]
      rfl
    · intro rows some va stored
      refine ⟨_, decodeTableHeader_of_stored DefaultOverrideTableHeader.mk pairWords_length (by decide)
        (fits.defaultOverrides rows some) stored, ?_⟩
      rw [some]
      rfl

theorem decodeClassTrailers_decoded {start : U64} {h : ClassHeader} (matched : t.Matches flags h.extraClassFlags)
    (fits : t.Fits) (stored : rt.Stored start t.encode) :
    decodeClassTrailers rt flags start h.body = t.decoded start h.body := by
  rw [← layout_pieces] at stored
  rw [decodeClassTrailers, ← settle_pieces]
  exact walk_settle (fun stored => ⟨stored.left, stored.right⟩) (classBlocks_recover matched fits) stored rfl

theorem stored_at {start : U64} {blocks : List Bytes} {i : Nat} {block : Bytes} (stored : rt.Stored start blocks.flatten)
    (at? : blocks[i]? = some block) : rt.Stored (behind start (blocks.take i)) block := by
  induction blocks generalizing start i with
  | nil => cases at?
  | cons first blocks ih =>
    rw [List.flatten_cons] at stored
    cases i with
    | zero =>
      cases at?
      exact stored.left
    | succ i => exact ih stored.right at?

theorem vtable_of_stored {start : U64} {h : ClassHeader} (fits : t.Fits) (stored : rt.Stored start t.encode) :
    (t.decoded start h.body).vtable rt =
      t.vtable.map fun v => tableRows vtableRow 8 (t.place start 3 + 8) v.entries := by
  rw [ClassBody.vtable, ClassTrailers.decoded, Option.map_map]
  apply Option.map_congr
  intro v member
  have block : rt.Stored (t.place start 3) v.encode := stored_at stored (by rw [ClassTrailers.blocks, member]; rfl)
  exact tableEntries_of_stored pairWords_length (by decide) (fun _ _ => decodeVtableEntry_of_stored)
    (fits.vtable v member) block.right

theorem overrideTable_of_stored {start : U64} {h : ClassHeader} (fits : t.Fits) (stored : rt.Stored start t.encode) :
    (t.decoded start h.body).overrideTable rt =
      t.overrideTable.map fun rows => tableRows overrideRow 12 (t.place start 4 + 4) rows := by
  rw [ClassBody.overrideTable, ClassTrailers.decoded, Option.map_map]
  apply Option.map_congr
  intro rows member
  have block : rt.Stored (t.place start 4) (encodeTable tripleWords rows) :=
    stored_at stored (by rw [ClassTrailers.blocks, member]; rfl)
  exact tableEntries_of_stored tripleWords_length (by decide) (fun _ _ => decodeOverrideEntry_of_stored)
    (fits.overrideTable rows member) block.right

theorem defaultOverrideTable_of_stored {start : U64} {h : ClassHeader} (fits : t.Fits) (stored : rt.Stored start t.encode) :
    (t.decoded start h.body).defaultOverrideTable rt =
      t.defaultOverrides.map fun rows => tableRows defaultOverrideRow 8 (t.place start 9 + 4) rows := by
  rw [ClassBody.defaultOverrideTable, ClassTrailers.decoded, Option.map_map]
  apply Option.map_congr
  intro rows member
  have block : rt.Stored (t.place start 9) (encodeTable pairWords rows) :=
    stored_at stored (by rw [ClassTrailers.blocks, member]; rfl)
  exact tableEntries_of_stored pairWords_length (by decide) (fun _ _ => decodeDefaultOverrideEntry_of_stored)
    (fits.defaultOverrides rows member) block.right

theorem prespecializations_of_stored {start : U64} {h : ClassHeader} (fits : t.Fits) (stored : rt.Stored start t.encode) :
    (t.decoded start h.body).prespecializations rt =
      t.prespecializations.map fun p => tableRows relativeTarget 4 (t.place start 6 + 4) p.1 := by
  rw [ClassBody.prespecializations, ClassTrailers.decoded]
  cases member : t.prespecializations with
  | none => rfl
  | some p =>
    have block : rt.Stored (t.place start 6) (encodePrespecializations p) :=
      stored_at stored (by rw [ClassTrailers.blocks, member]; rfl)
    have entries := tableEntries_of_stored (fun word => encodeWords_length [word]) (by decide)
      (fun _ _ => decodePrespecialization_of_stored) (fits.prespecializations p member).1 block.left.right
    exact congrArg some entries

end

/-- The blocks behind a class descriptor are found where they stand, each one that its flag announces and no
    other, and the tables among them give back exactly their entries. -/
theorem class_trailers_layout (rt : Image) (flags : ContextDescriptorFlags) (start : U64) (h : ClassHeader)
    (t : ClassTrailers) (matched : t.Matches flags h.extraClassFlags) (fits : t.Fits) (stored : rt.Stored start t.encode) :
    decodeClassTrailers rt flags start h.body = t.decoded start h.body ∧
      (decodeClassTrailers rt flags start h.body).vtable rt =
        t.vtable.map (fun v => tableRows vtableRow 8 (t.place start 3 + 8) v.entries) ∧
      (decodeClassTrailers rt flags start h.body).overrideTable rt =
        t.overrideTable.map (fun rows => tableRows overrideRow 12 (t.place start 4 + 4) rows) ∧
      (decodeClassTrailers rt flags start h.body).defaultOverrideTable rt =
        t.defaultOverrides.map (fun rows => tableRows defaultOverrideRow 8 (t.place start 9 + 4) rows) ∧
      (decodeClassTrailers rt flags start h.body).prespecializations rt =
        t.prespecializations.map fun p => tableRows relativeTarget 4 (t.place start 6 + 4) p.1 := by
  have found := decodeClassTrailers_decoded matched fits stored
  rw [found]
  exact ⟨rfl, vtable_of_stored fits stored, overrideTable_of_stored fits stored, defaultOverrideTable_of_stored fits stored,
    prespecializations_of_stored fits stored⟩

/-- Every block but the two kinds of metadata initialization and the singleton pointer. -/
def fullTrailers : ClassTrailers where
  generic := some ⟨0x100, 0, 1, 0, [0x80], [0, 0, 0], [(0, 0x20, 0x30)]⟩
  resilientSuperclass := some 0x40
  metadataInit := .none
  vtable := some ⟨10, [(0x10, 0x200), (0x11, 0)]⟩
  overrideTable := some [(0x50, 0, 0xfffffff0)]
  objcStub := some 0x60
  prespecializations := some ([0x70, 0], [0x80, 0x90])
  invertibleProtocols := some (1, 0)
  singletonPointer := none
  defaultOverrides := some [(0, 0x300)]

def fullImage : Image where
  data := ⟨0, fullTrailers.encode, by decide⟩
  segments := [⟨0x1000, 0x1000, 0, 0x1000⟩]

def resilientHeader : ClassHeader where
  superclassMangledName := none
  metadataNegativeSizeWords := none
  resilientMetadataBoundsVa := some 0
  metadataPositiveSizeWords := none
  extraClassFlags := some 1
  numImmediateMembers := 2
  numFields := 0
  fieldOffsetVectorOffset := 0

theorem class_trailers_full :
    decodeClassTrailers fullImage ⟨0xe04800b0⟩ 0x1000 resilientHeader.body =
        fullTrailers.decoded 0x1000 resilientHeader.body ∧
      (decodeClassTrailers fullImage ⟨0xe04800b0⟩ 0x1000 resilientHeader.body).vtable fullImage =
        fullTrailers.vtable.map (fun v => tableRows vtableRow 8 (fullTrailers.place 0x1000 3 + 8) v.entries) ∧
      (decodeClassTrailers fullImage ⟨0xe04800b0⟩ 0x1000 resilientHeader.body).overrideTable fullImage =
        fullTrailers.overrideTable.map (fun rows => tableRows overrideRow 12 (fullTrailers.place 0x1000 4 + 4) rows) ∧
      (decodeClassTrailers fullImage ⟨0xe04800b0⟩ 0x1000 resilientHeader.body).defaultOverrideTable fullImage =
        fullTrailers.defaultOverrides.map
          (fun rows => tableRows defaultOverrideRow 8 (fullTrailers.place 0x1000 9 + 4) rows) ∧
      (decodeClassTrailers fullImage ⟨0xe04800b0⟩ 0x1000 resilientHeader.body).prespecializations fullImage =
        fullTrailers.prespecializations.map
          fun p => tableRows relativeTarget 4 (fullTrailers.place 0x1000 6 + 4) p.1 := by
  apply class_trailers_layout fullImage ⟨0xe04800b0⟩ 0x1000 resilientHeader fullTrailers
  · exact ⟨rfl, rfl, .inl rfl, rfl, rfl, rfl, rfl, rfl, rfl, rfl⟩
  · refine ⟨?_, ?_, ?_, ?_, ?_⟩ <;> intro block member <;> cases member <;> decide
  · exact Image.Stored.of_segment (by decide) (List.pairwise_singleton _ _) List.mem_cons_self (by decide) (by decide)
      (by decide) (List.prefix_refl _)

end DarwinScope.Swift
