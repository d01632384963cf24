import DarwinScope.Machine.Layout
import DarwinScope.Fixup.Header

namespace DarwinScope.Fixup

open Machine

structure LogicalImport where
  libOrdinal : Int
  weakImport : Bool
  name : Bytes
  addend : Int
deriving DecidableEq

def ChainedImport.logical (row : ChainedImport) : LogicalImport :=
  ⟨row.libOrdinal, row.weakImport, row.name.text, row.addend⟩

def importWord (ordinal : U8) (weak : Bool) (nameOff : Nat) : U32 :=
  BitVec.ofNat 32 (ordinal.toNat + 256 * weak.toNat + 512 * nameOff)

section

variable {ordinal : U8} {weak : Bool} {nameOff : Nat}

theorem importWord_toNat (fits : nameOff < 2^23) :
    (importWord ordinal weak nameOff).toNat = ordinal.toNat + 256 * weak.toNat + 512 * nameOff := by
  have low := ordinal.isLt
  have bit := weak.toNat_lt
  rw [importWord, toNat_ofNat_of_lt (by omega)]

theorem importWord_ordinal (fits : nameOff < 2^23) :
    (importWord ordinal weak nameOff &&& 0xff).setWidth 8 = ordinal := by
  have low := ordinal.isLt
  apply BitVec.eq_of_toNat_eq
  rw [BitVec.toNat_setWidth, and_lowMask_toNat _ 0xff 8 rfl, importWord_toNat fits]
  omega

theorem importWord_weak (fits : nameOff < 2^23) : decide (importWord ordinal weak nameOff &&& 0x100 ≠ 0) = weak := by
  have low := ordinal.isLt
  rw [Bool.eq_iff_iff, decide_eq_true_iff, and_bit_ne_zero _ 0x100 8 rfl, importWord_toNat fits]
  cases weak <;> simp <;> omega

theorem importWord_name (fits : nameOff < 2^23) : importWord ordinal weak nameOff >>> 9 = BitVec.ofNat 32 nameOff := by
  have low := ordinal.isLt
  have bit := weak.toNat_lt
  apply BitVec.eq_of_toNat_eq
  rw [shiftRight_toNat, importWord_toNat fits, BitVec.toNat_ofNat]
  omega

end

def encodeImport (format : ImportsFormat) (imp : LogicalImport) (nameOff : Nat) : Bytes :=
  match format with
  | .plain => leBytes 4 (importWord (BitVec.ofInt 8 imp.libOrdinal) imp.weakImport nameOff).toNat
  | .addend =>
    leBytes 4 (importWord (BitVec.ofInt 8 imp.libOrdinal) imp.weakImport nameOff).toNat ++
      leBytes 4 (BitVec.ofInt 32 imp.addend).toNat
  | .addend64 =>
    leBytes 2 (BitVec.ofInt 16 imp.libOrdinal).toNat ++ (leBytes 2 (BitVec.ofNat 16 imp.weakImport.toNat).toNat ++
      (leBytes 4 (BitVec.ofNat 32 nameOff).toNat ++ leBytes 8 (BitVec.ofInt 64 imp.addend).toNat))
  | .other _ => []

def nameLimit : ImportsFormat → Nat
  | .plain | .addend => 2^23
  | .addend64 => 2^32
  | .other _ => 0

def AddendFits : ImportsFormat → Int → Prop
  | .plain, addend => addend = 0
  | .addend, addend => -2^31 ≤ addend ∧ addend < 2^31
  | .addend64, addend => -2^63 ≤ addend ∧ addend < 2^63
  | .other _, _ => False

section

variable {imp : LogicalImport} {nameOff : Nat} {entry : Slice}

theorem signExtendI8_ofInt {ordinal : Int} (low : -3 ≤ ordinal) (high : ordinal ≤ 127) :
    signExtendI8 (BitVec.ofInt 8 ordinal) = ordinal :=
  BitVec.toInt_ofInt_eq_self (by decide) (by omega) (by omega)

theorem decodeImportPlain_encode (low : -3 ≤ imp.libOrdinal) (high : imp.libOrdinal ≤ 127)
    (zero : AddendFits .plain imp.addend) (fits : nameOff < nameLimit .plain)
    (bytes : entry.bytes = encodeImport .plain imp nameOff) :
    decodeImportPlain entry = some (imp.libOrdinal, imp.weakImport, BitVec.ofNat 32 nameOff, imp.addend) := by
  have word : readU32LeAt entry 0 = some _ := readAt_leBytes_of_holds rfl (by decide) (Slice.holds_of_bytes bytes)
  have none : imp.addend = 0 := zero
  rw [decodeImportPlain, word]
  simp only [Option.bind_eq_bind, Option.bind_some, importWord_ordinal fits, importWord_weak fits, importWord_name fits,
    signExtendI8_ofInt low high, none]

theorem decodeImportAddend_encode (low : -3 ≤ imp.libOrdinal) (high : imp.libOrdinal ≤ 127)
    (small : AddendFits .addend imp.addend) (fits : nameOff < nameLimit .addend)
    (bytes : entry.bytes = encodeImport .addend imp nameOff) :
    decodeImportAddend entry = some (imp.libOrdinal, imp.weakImport, BitVec.ofNat 32 nameOff, imp.addend) := by
  have stored := Slice.holds_of_bytes bytes
  have word : readU32LeAt entry 0 = some _ := readAt_leBytes_of_holds rfl (by decide) stored.left
  have after := stored.right
  rw [leBytes_length] at after
  have addend : readU32LeAt entry 4 = some _ := readAt_leBytes_of_holds rfl (by decide) after
  have value : (BitVec.ofInt 32 imp.addend).toInt = imp.addend :=
    BitVec.toInt_ofInt_eq_self (by decide) small.1 small.2
  rw [decodeImportAddend, word]
  simp only [Option.bind_eq_bind, Option.bind_some, addend, importWord_ordinal fits, importWord_weak fits,
    importWord_name fits, signExtendI8_ofInt low high, value]

theorem decodeImportAddend64_encode (low : -2^15 ≤ imp.libOrdinal) (high : imp.libOrdinal < 2^15)
    (small : AddendFits .addend64 imp.addend) (bytes : entry.bytes = encodeImport .addend64 imp nameOff) :
    decodeImportAddend64 entry = some (imp.libOrdinal, imp.weakImport, BitVec.ofNat 32 nameOff, imp.addend) := by
  have stored := Slice.holds_of_bytes bytes
  have ordinal : readU16LeAt entry 0 = some _ := readAt_leBytes_of_holds rfl (by decide) stored.left
  have second := stored.right
  rw [leBytes_length] at second
  have flags : readU16LeAt entry 2 = some _ := readAt_leBytes_of_holds rfl (by decide) second.left
  have third := second.right
  rw [leBytes_length] at third
  have name : readU32LeAt entry 4 = some _ := readAt_leBytes_of_holds rfl (by decide) third.left
  have fourth := third.right
  rw [leBytes_length] at fourth
  have addend : readU64LeAt entry 8 = some _ := readAt_leBytes_of_holds rfl (by decide) fourth
  have ordinalValue : (BitVec.ofInt 16 imp.libOrdinal).toInt = imp.libOrdinal :=
    BitVec.toInt_ofInt_eq_self (by decide) low high
  have addendValue : (BitVec.ofInt 64 imp.addend).toInt = imp.addend :=
    BitVec.toInt_ofInt_eq_self (by decide) small.1 small.2
  have weak : decide (BitVec.ofNat 16 imp.weakImport.toNat &&& 1 ≠ 0) = imp.weakImport := by
    cases imp.weakImport <;> decide
  rw [decodeImportAddend64, ordinal]
  simp only [Option.bind_eq_bind, Option.bind_some, flags, name, addend, ordinalValue, addendValue, weak]

end

namespace ChainedFixups

def rowPlace (cf : ChainedFixups) (stride i : Nat) : Nat := cf.base + cf.importsOffset.toNat + i * stride

def namePlace (cf : ChainedFixups) (nameOff : Nat) : Nat := cf.base + cf.symbolsOffset.toNat + nameOff

structure ImportLayout (cf : ChainedFixups) (stride : Nat) (imports : List LogicalImport) (nameOff : Nat → Nat) :
    Prop where
  size : cf.importsFormat.entrySize = some stride
  count : cf.importsCount.toNat = imports.length
  ordinals : ∀ imp ∈ imports, imp.libOrdinal ∈ [0, -1, -2, -3] ∨ 1 ≤ imp.libOrdinal ∧ imp.libOrdinal ≤ 127
  names : ∀ imp ∈ imports, validUtf8 imp.name = true ∧ 0#8 ∉ imp.name
  addends : ∀ imp ∈ imports, AddendFits cf.importsFormat imp.addend
  rows : ∀ (i : Nat) (imp : LogicalImport), imports[i]? = some imp → nameOff i < nameLimit cf.importsFormat ∧
    cf.data.Holds (cf.rowPlace stride i) (encodeImport cf.importsFormat imp (nameOff i))
  pool : ∀ (i : Nat) (imp : LogicalImport), imports[i]? = some imp →
    cf.data.Holds (cf.namePlace (nameOff i)) (imp.name ++ [0#8])

section

variable {cf : ChainedFixups} {stride i : Nat} {imports : List LogicalImport} {nameOff : Nat → Nat}
  {imp : LogicalImport}

theorem encodeImport_length {format : ImportsFormat} {off : Nat} (size : format.entrySize = some stride) :
    (encodeImport format imp off).length = stride := by
  cases format with
  | other raw => cases size
  | _ =>
    cases size
    simp [encodeImport]

theorem entrySize_pos {format : ImportsFormat} (size : format.entrySize = some stride) : 0 < stride := by
  cases format <;> cases size <;> decide

theorem nameLimit_le (format : ImportsFormat) : nameLimit format ≤ 2^32 := by
  cases format <;> simp [nameLimit]

theorem ImportLayout.importEntry (layout : cf.ImportLayout stride imports nameOff) (listed : imports[i]? = some imp) :
    ∃ row, cf.importEntry (cf.base + cf.importsOffset.toNat) (cf.base + cf.symbolsOffset.toNat) stride i = some row ∧
      row.logical = imp := by
  have member := List.mem_of_getElem? listed
  rcases layout.rows i imp listed with ⟨fits, holds⟩
  rcases layout.names imp member with ⟨valid, clean⟩
  have length := @encodeImport_length _ imp _ (nameOff i) layout.size
  have positive := entrySize_pos layout.size
  rcases Slice.get_of_holds holds (by omega) with ⟨entry, found, -, bytes⟩
  have inside := holds.inside (by omega)
  have bound := cf.data.length_lt
  have pool := (layout.pool i imp listed).inside (by simp)
  have limit := nameLimit_le cf.importsFormat
  have text := readCstrAt_of_holds valid clean (layout.pool i imp listed)
  unfold rowPlace at found inside
  unfold namePlace at pool text
  rw [length] at found inside
  have step : checkedMulUsize i stride = some (i * stride) := if_pos (by omega)
  have place : checkedAddUsize (cf.base + cf.importsOffset.toNat) (i * stride) =
      some (cf.base + cf.importsOffset.toNat + i * stride) := checkedAddUsize_of_lt (by omega)
  have stop : checkedAddUsize (cf.base + cf.importsOffset.toNat + i * stride) stride =
      some (cf.base + cf.importsOffset.toNat + i * stride + stride) := checkedAddUsize_of_lt (by omega)
  have word : (BitVec.ofNat 32 (nameOff i)).toNat = nameOff i := by
    rw [toNat_ofNat_of_lt (by omega)]
  have named : readPoolString cf.data (cf.base + cf.symbolsOffset.toNat) (BitVec.ofNat 32 (nameOff i)) =
      some ⟨some (cf.data.start + (cf.base + cf.symbolsOffset.toNat + nameOff i)), imp.name⟩ := by
    rw [readPoolString, word, checkedAddUsize_of_lt (by omega)]
    exact text
  have ordinals : -3 ≤ imp.libOrdinal ∧ imp.libOrdinal ≤ 127 := by
    have known := layout.ordinals imp member
    simp only [List.mem_cons, List.not_mem_nil, or_false] at known
    omega
  have addend := layout.addends imp member
  refine ⟨⟨imp.libOrdinal, imp.weakImport,
    ⟨some (cf.data.start + (cf.base + cf.symbolsOffset.toNat + nameOff i)), imp.name⟩, imp.addend⟩, ?_, rfl⟩
  simp only [ChainedFixups.importEntry, step, place, stop, found, Option.bind_eq_bind, Option.bind_some]
  cases format : cf.importsFormat with
  | plain =>
    rw [format] at fits bytes addend
    simp only [decodeImportPlain_encode ordinals.1 ordinals.2 addend fits bytes, Option.bind_some, named, Option.getD_some]
  | addend =>
    rw [format] at fits bytes addend
    simp only [decodeImportAddend_encode ordinals.1 ordinals.2 addend fits bytes, Option.bind_some, named, Option.getD_some]
  | addend64 =>
    rw [format] at bytes addend
    simp only [decodeImportAddend64_encode (by omega) (by omega) addend bytes, Option.bind_some, named, Option.getD_some]
  | other raw =>
    rw [format] at addend
    cases addend

end

/-- The imports table round trips in each of its formats: the rows that are read are the imports that
    were written, in order. -/
theorem imports_of_layout (cf : ChainedFixups) (stride : Nat) (imports : List LogicalImport) (nameOff : Nat → Nat)
    (layout : cf.ImportLayout stride imports nameOff) : cf.imports.map ChainedImport.logical = imports := by
  unfold ChainedFixups.imports
  rw [layout.size]
  dsimp only
  cases imports with
  | nil =>
    rw [layout.count]
    split <;> rfl
  | cons first rest =>
    have row := (layout.rows 0 first rfl).2.inside (by
      rw [encodeImport_length layout.size]
      exact entrySize_pos layout.size)
    have name := (layout.pool 0 first rfl).inside (by simp)
    have bound := cf.data.length_lt
    unfold rowPlace at row
    unfold namePlace at name
    rw [checkedAddUsize_of_lt (by omega), checkedAddUsize_of_lt (by omega), layout.count, ← rows_map]
    apply rows_yield
    intro i imp listed
    rcases layout.importEntry listed with ⟨found, entry, same⟩
    rw [importRow, entry, Row.map, same]

def pairImports : List LogicalImport := [⟨-1, true, [0x5f, 0x61], -5⟩, ⟨5, false, [], 7⟩]

def pairTable : ChainedFixups where
  data := ⟨0, encodeImport .addend ⟨-1, true, [0x5f, 0x61], -5⟩ 1 ++ encodeImport .addend ⟨5, false, [], 7⟩ 0 ++
    [0, 0x5f, 0x61, 0], by decide⟩
  base := 0
  fixupsVersion := 0
  startsOffset := 0
  importsOffset := 0
  symbolsOffset := 16
  importsCount := 2
  importsFormat := .addend
  rawImportsFormat := 2
  symbolsFormat := 0

theorem pairLayout : pairTable.ImportLayout 8 pairImports (fun i => if i = 0 then 1 else 0) where
  size := rfl
  count := rfl
  ordinals := by decide
  names := by decide
  addends imp member := by
    rcases List.mem_cons.mp member with rfl | member
    · exact ⟨by decide, by decide⟩
    · cases List.mem_singleton.mp member
      exact ⟨by decide, by decide⟩
  rows i imp listed := by
    match i, listed with
    | 0, listed => cases listed; exact ⟨by decide, by decide⟩
    | 1, listed => cases listed; exact ⟨by decide, by decide⟩
    | i + 2, listed => cases listed
  pool i imp listed := by
    match i, listed with
    | 0, listed => cases listed; decide
    | 1, listed => cases listed; decide
    | i + 2, listed => cases listed

theorem imports_of_pair : pairTable.imports.map ChainedImport.logical = pairImports :=
  imports_of_layout pairTable 8 pairImports _ pairLayout

end ChainedFixups

end DarwinScope.Fixup
