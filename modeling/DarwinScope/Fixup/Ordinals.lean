import DarwinScope.Imports
import DarwinScope.Fixup.ImportTable

namespace DarwinScope.Fixup

open Machine

namespace ChainedFixups

def storedOrdinal (cf : ChainedFixups) (k : Nat) : Option Nat :=
  match cf.importsFormat with
  | .plain => (readAt leNumber 8 1 cf.data (cf.rowPlace 4 k)).map BitVec.toNat
  | .addend => (readAt leNumber 8 1 cf.data (cf.rowPlace 8 k)).map BitVec.toNat
  | .addend64 => (readU16LeAt cf.data (cf.rowPlace 16 k)).map BitVec.toNat
  | .other _ => none

section

variable {cf : ChainedFixups} {k n : Nat} {row : ChainedImport}

theorem importRow_full (cf : ChainedFixups) (importsBase symbolsBase stride i : Nat) :
    cf.importRow importsBase symbolsBase stride i ≠ .skip := by
  intro skips
  unfold importRow at skips
  split at skips <;> cases skips

theorem imports_getElem (found : cf.imports[k]? = some row) :
    ∃ stride, cf.importsFormat.entrySize = some stride ∧
      cf.importEntry (cf.base + cf.importsOffset.toNat) (cf.base + cf.symbolsOffset.toNat) stride k = some row := by
  unfold imports at found
  split at found
  · cases found
  rename_i stride size
  split at found
  · rename_i importsBase symbolsBase first second
    rw [checkedAddUsize_some first, checkedAddUsize_some second] at found
    have turn := (rows_getElem (cf.importRow_full _ _ stride) found).2
    unfold importRow at turn
    split at turn
    · rename_i entry
      cases turn
      exact ⟨stride, size, entry⟩
    · cases turn
  · cases found

theorem importEntry_slice {importsBase symbolsBase stride : Nat}
    (read : cf.importEntry importsBase symbolsBase stride k = some row) :
    ∃ entry, cf.data.get (importsBase + k * stride) (importsBase + k * stride + stride) = some entry ∧
      ∃ weak nameOff addend, match cf.importsFormat with
        | .plain => decodeImportPlain entry = some (row.libOrdinal, weak, nameOff, addend)
        | .addend => decodeImportAddend entry = some (row.libOrdinal, weak, nameOff, addend)
        | .addend64 => decodeImportAddend64 entry = some (row.libOrdinal, weak, nameOff, addend)
        | .other _ => False := by
  simp only [importEntry, Option.bind_eq_bind, Option.bind_eq_some_iff] at read
  rcases read with ⟨step, product, first, sum, stop, past, entry, found, read⟩
  have place : step = k * stride := by
    unfold checkedMulUsize at product
    split at product <;> cases product
    rfl
  rw [checkedAddUsize_some past, checkedAddUsize_some sum, place] at found
  refine ⟨entry, found, ?_⟩
  cases format : cf.importsFormat <;> rw [format] at read
  case other raw => cases read
  all_goals
    rcases Option.bind_eq_some_iff.mp read with ⟨⟨ordinal, weak, nameOff, addend⟩, decoded, same⟩
    cases same
    exact ⟨weak, nameOff, addend, decoded⟩

theorem lowByte_ordinal {entry : Slice} {place stride : Nat} {raw : U32} (long : 4 ≤ stride)
    (found : cf.data.get place (place + stride) = some entry) (read : readU32LeAt entry 0 = some raw)
    (stored : (readAt leNumber 8 1 cf.data place).map BitVec.toNat = some n) :
    ((raw &&& 0xff).setWidth 8).toNat = n := by
  rcases Option.map_eq_some_iff.mp stored with ⟨byte, read', rfl⟩
  have window := Slice.get_window found 0 4 (by omega)
  have word := (readAt_some read).2
  have low := (readAt_some read').2
  have first : cf.data.window place 1 = (cf.data.window place 4).take 1 := by
    rw [Slice.window, Slice.window, List.take_take]
    rfl
  rw [Nat.add_zero] at window
  rw [BitVec.toNat_setWidth, and_lowMask_toNat _ 0xff 8 rfl, word, low, window, first, leNumber_take_one,
    BitVec.toNat_ofNat, BitVec.toNat_ofNat]
  omega

theorem narrow_libOrdinal (format : cf.importsFormat = .plain ∨ cf.importsFormat = .addend)
    (found : cf.imports[k]? = some row) (stored : cf.storedOrdinal k = some n) :
    n < 256 ∧ row.libOrdinal = signExtendI8 (BitVec.ofNat 8 n) := by
  rcases imports_getElem found with ⟨stride, size, read⟩
  rcases importEntry_slice read with ⟨entry, slice, weak, nameOff, addend, decoded⟩
  unfold storedOrdinal at stored
  rcases format with format | format
  · rw [format] at size stored decoded
    cases size
    simp only [decodeImportPlain, Option.bind_eq_bind, Option.bind_eq_some_iff] at decoded
    rcases decoded with ⟨raw, word, fields⟩
    simp only [Option.some.injEq, Prod.mk.injEq] at fields
    have value := lowByte_ordinal (Nat.le_refl _) slice word stored
    rw [← value, ← fields.1]
    exact ⟨BitVec.isLt _, by rw [BitVec.ofNat_toNat, BitVec.setWidth_eq]⟩
  · rw [format] at size stored decoded
    cases size
    simp only [decodeImportAddend, Option.bind_eq_bind, Option.bind_eq_some_iff] at decoded
    rcases decoded with ⟨raw, word, addend, -, fields⟩
    simp only [Option.some.injEq, Prod.mk.injEq] at fields
    have value := lowByte_ordinal (by decide) slice word stored
    rw [← value, ← fields.1]
    exact ⟨BitVec.isLt _, by rw [BitVec.ofNat_toNat, BitVec.setWidth_eq]⟩

theorem wide_libOrdinal (format : cf.importsFormat = .addend64) (found : cf.imports[k]? = some row)
    (stored : cf.storedOrdinal k = some n) : row.libOrdinal = (BitVec.ofNat 16 n).toInt := by
  rcases imports_getElem found with ⟨stride, size, read⟩
  rcases importEntry_slice read with ⟨entry, slice, weak, nameOff, addend, decoded⟩
  unfold storedOrdinal at stored
  rw [format] at size stored decoded
  cases size
  simp only [decodeImportAddend64, Option.bind_eq_bind, Option.bind_eq_some_iff] at decoded
  rcases decoded with ⟨raw, word, _, -, _, -, _, -, fields⟩
  simp only [Option.some.injEq, Prod.mk.injEq] at fields
  rcases Option.map_eq_some_iff.mp stored with ⟨half, read', rfl⟩
  have window := Slice.get_window slice 0 2 (by omega)
  rw [Nat.add_zero] at window
  have same : raw = half := by
    rw [(readAt_some word).2, (readAt_some read').2, window]
    rfl
  rw [BitVec.ofNat_toNat, BitVec.setWidth_eq, ← same, fields.1]

end

end ChainedFixups

theorem toInt_small {w n : Nat} (small : 2 * n < 2^w) : (BitVec.ofNat w n).toInt = n := by
  rw [BitVec.toInt_eq_toNat_cond, toNat_ofNat_of_lt (by omega), if_pos small]

theorem resolveImport_positive {ordinal : U32} {imports : List ChainedImport} {dylibNames : List Str}
    {row : ChainedImport} {n : Nat} {name : Str} (found : imports[ordinal.toNat]? = some row)
    (counts : row.libOrdinal = n) (positive : 1 ≤ n) (nth : dylibNames[n - 1]? = some name) :
    (resolveImport ordinal imports dylibNames).2.1 = name := by
  rw [resolveImport, found]
  dsimp only
  rw [resolveLibOrdinal, counts, if_pos (by omega), Int.toNat_natCast, nth, Option.getD_some]

structure BoundThrough (cf : ChainedFixups) (names : List Str) (n : Nat) (b : Bind) : Prop where
  bound : ∃ data locs imageBase, b ∈ buildBindIter data locs imageBase cf.imports names
  row : ∃ row, cf.imports[b.importOrdinal.toNat]? = some row
  stored : cf.storedOrdinal b.importOrdinal.toNat = some n

/-- A bind through a row whose ordinal byte is `n` gets the `n`-th dylib, as one through a wide row
    with the ordinal `n` does, exactly when the byte has a clear top bit, or the dylib has no name. -/
theorem narrow_ordinal_iff (narrow wide : ChainedFixups) (names : List Str) (n : Nat) (name : Str) (b wideBind : Bind)
    (narrowFormat : narrow.importsFormat = .plain ∨ narrow.importsFormat = .addend)
    (wideFormat : wide.importsFormat = .addend64) (few : names.length ≤ 0xf0) (positive : 1 ≤ n)
    (nth : names[n - 1]? = some name) (through : BoundThrough narrow names n b)
    (wideThrough : BoundThrough wide names n wideBind) :
    wideBind.dylib = name ∧
      (b.dylib.text = name.text ∧ b.dylib.text = wideBind.dylib.text ↔ n ≤ 127 ∨ name.text = []) := by
  rcases through with ⟨⟨_, _, _, bound⟩, ⟨row, found⟩, stored⟩
  rcases wideThrough with ⟨⟨_, _, _, wideBound⟩, ⟨wideRow, wideFound⟩, wideStored⟩
  have counted := (List.getElem?_eq_some_iff.mp nth).1
  have resolved := (buildBindIter_resolve wideBound).2
  have wideOrdinal := wide.wide_libOrdinal wideFormat wideFound wideStored
  rw [toInt_small (by omega)] at wideOrdinal
  rw [resolveImport_positive wideFound wideOrdinal positive nth] at resolved
  refine ⟨resolved, ?_⟩
  rw [resolved, and_self, (buildBindIter_resolve bound).2]
  rcases narrow.narrow_libOrdinal narrowFormat found stored with ⟨byte, ordinal⟩
  by_cases low : n ≤ 127
  · rw [signExtendI8, toInt_small (by omega)] at ordinal
    rw [resolveImport_positive found ordinal positive nth]
    exact iff_of_true rfl (Or.inl low)
  · -- the byte reads as a number below -3, which names nothing
    have negative : row.libOrdinal = (n : Int) - 256 := by
      rw [ordinal, signExtendI8, BitVec.toInt_eq_toNat_cond, toNat_ofNat_of_lt byte,
        if_neg (by omega)]
      rfl
    have nothing : (resolveImport b.importOrdinal narrow.imports names).2.1.text = [] := by
      rw [resolveImport, found]
      dsimp only
      rw [resolveLibOrdinal, if_neg (by omega), if_neg (by omega), if_neg (by omega), if_neg (by omega),
        if_neg (by omega)]
      rfl
    rw [nothing, eq_comm]
    exact ⟨Or.inr, fun given => given.resolve_left low⟩

def oneBindHead (format : Nat) : Bytes :=
  leBytes 4 0 ++ leBytes 4 28 ++ leBytes 4 60 ++ leBytes 4 76 ++ leBytes 4 1 ++ leBytes 4 format ++ leBytes 4 0 ++
    leBytes 4 1 ++ leBytes 4 8 ++
    leBytes 4 24 ++ leBytes 2 8 ++ leBytes 2 2 ++ leBytes 8 0 ++ leBytes 4 0 ++ leBytes 2 1 ++ leBytes 2 0

/-- A fixups payload with one segment of one page, a row of the imports table at 60, an empty name
    behind the row and a bind slot at 80. -/
def oneBindData (format : Nat) (row : Bytes) : Bytes :=
  oneBindHead format ++ (row ++ (leBytes 4 0 ++ leBytes 8 (2^63)))

def plainRowData : Slice := ⟨0, oneBindData 1 (leBytes 16 200), by decide⟩

def wideRowData : Slice := ⟨0, oneBindData 3 (leBytes 16 200), by decide⟩

def oneRowTable (data : Slice) (format : ImportsFormat) (raw : U32) : ChainedFixups where
  data := data
  base := 0
  fixupsVersion := 0
  startsOffset := 28
  importsOffset := 60
  symbolsOffset := 76
  importsCount := 1
  importsFormat := format
  rawImportsFormat := raw
  symbolsFormat := 0

example : ChainedFixups.parse plainRowData 0 88 = some (oneRowTable plainRowData .plain 1) := by decide +kernel

def oneBindLoc : SegmentLoc where
  chained := ⟨0, 24, 8, .ptr64, 2, 0, 0, 1, 36⟩
  vmaddr := 0x1000
  fileoff := 80
  filesize := 8

def manyNames : List Str := List.replicate 240 ⟨some 0, [0x61]⟩

def oneBind (dylib : Str) : Bind := ⟨0, 0, 0x1000, 0, 0, ⟨some 76, []⟩, dylib, false, none, .ptr64, 2^63⟩

theorem plainRow_through : BoundThrough (oneRowTable plainRowData .plain 1) manyNames 200 (oneBind (Str.literal "")) where
  bound := ⟨plainRowData, [oneBindLoc], 0, by decide +kernel⟩
  row := ⟨⟨-56, false, ⟨some 76, []⟩, 0⟩, by decide +kernel⟩
  stored := by decide +kernel

theorem wideRow_through : BoundThrough (oneRowTable wideRowData .addend64 3) manyNames 200 (oneBind ⟨some 0, [0x61]⟩) where
  bound := ⟨wideRowData, [oneBindLoc], 0, by decide +kernel⟩
  row := ⟨⟨200, false, ⟨some 76, []⟩, 0⟩, by decide +kernel⟩
  stored := by decide +kernel

theorem narrow_ordinal_200 :
    ¬ ((oneBind (Str.literal "")).dylib.text = [0x61] ∧
      (oneBind (Str.literal "")).dylib.text = (oneBind ⟨some 0, [0x61]⟩).dylib.text) := by
  have decided := (narrow_ordinal_iff (oneRowTable plainRowData .plain 1) (oneRowTable wideRowData .addend64 3) manyNames
    200 ⟨some 0, [0x61]⟩ _ _ (Or.inl rfl) rfl (by decide +kernel) (by decide) (by decide +kernel) plainRow_through
      wideRow_through).2
  rw [decided]
  decide

theorem high_ordinal_lost :
    ¬ ∀ (narrow wide : ChainedFixups) (names : List Str) (n : Nat) (name : Str) (b wideBind : Bind),
      (narrow.importsFormat = .plain ∨ narrow.importsFormat = .addend) → wide.importsFormat = .addend64 →
      names.length ≤ 0xf0 → 1 ≤ n → names[n - 1]? = some name → BoundThrough narrow names n b →
      BoundThrough wide names n wideBind → b.dylib.text = name.text ∧ b.dylib.text = wideBind.dylib.text := by
  intro resolves
  have lost := (resolves (oneRowTable plainRowData .plain 1) (oneRowTable wideRowData .addend64 3) manyNames 200
    ⟨some 0, [0x61]⟩ _ _ (Or.inl rfl) rfl (by decide +kernel) (by decide) (by decide +kernel) plainRow_through
      wideRow_through).1
  exact absurd lost (by decide +kernel)

end DarwinScope.Fixup
