import DarwinScope.Fixup.Ordinals

namespace DarwinScope.Fixup

open Machine

def decodeImport (format : ImportsFormat) (entry : Slice) : Option (Int × Bool × U32 × Int) :=
  match format with
  | .plain => decodeImportPlain entry
  | .addend => decodeImportAddend entry
  | .addend64 => decodeImportAddend64 entry
  | .other _ => none

def textAt (data : Slice) (off : Nat) : Bytes := (data.bytes.drop off).takeWhile (· ≠ 0#8)

namespace ChainedFixups

/-- The name is empty, or the range of the payload that starts at the offset in an uncompressed pool. -/
def NameInside (cf : ChainedFixups) (payload : Slice) (nameOff : U32) (name : Str) : Prop :=
  name.text = [] ∨ cf.symbolsFormat = 0 ∧ name.Inside payload ∧
    name.origin = some (payload.start + (cf.symbolsOffset.toNat + nameOff.toNat))

def RowInside (cf : ChainedFixups) (payload : Slice) (stride i : Nat) (row : ChainedImport) : Prop :=
  ∃ entry nameOff, payload.get (cf.importsOffset.toNat + i * stride) (cf.importsOffset.toNat + i * stride + stride) =
    some entry ∧
    decodeImport cf.importsFormat entry = some (row.libOrdinal, row.weakImport, nameOff, row.addend) ∧
    cf.NameInside payload nameOff row.name

def TableFits (cf : ChainedFixups) (size stride : Nat) : Prop :=
  cf.importsOffset.toNat + cf.importsCount.toNat * stride ≤ size

/-- Nothing is yielded unless the table fits in the payload, and then all of it lies there. -/
def Contained (cf : ChainedFixups) (payload : Slice) : Prop :=
  ∀ stride, cf.importsFormat.entrySize = some stride →
    (¬ cf.TableFits payload.length stride → cf.imports = []) ∧
    (cf.TableFits payload.length stride →
      ∀ i row, cf.imports[i]? = some row → cf.RowInside payload stride i row)

def NameConfined (cf : ChainedFixups) (payload : Slice) (stride i : Nat) : Prop :=
  ∀ entry libOrdinal weak nameOff addend,
    cf.data.get (cf.rowPlace stride i) (cf.rowPlace stride i + stride) = some entry →
    decodeImport cf.importsFormat entry = some (libOrdinal, weak, nameOff, addend) →
    validUtf8 (textAt cf.data (cf.namePlace nameOff.toNat)) = true → textAt cf.data (cf.namePlace nameOff.toNat) ≠ [] →
      cf.symbolsFormat = 0 ∧
        cf.symbolsOffset.toNat + nameOff.toNat + (textAt cf.data (cf.namePlace nameOff.toNat)).length ≤ payload.length

/-- A table that does not fit in the payload has no first row in the file either; and where it fits, no
    name runs out of the payload. -/
def Confined (cf : ChainedFixups) (payload : Slice) : Prop :=
  ∀ stride, cf.importsFormat.entrySize = some stride →
    (¬ cf.TableFits payload.length stride → cf.data.length < cf.rowPlace stride 0 + stride) ∧
    (cf.TableFits payload.length stride → ∀ i < cf.importsCount.toNat, cf.NameConfined payload stride i)

end ChainedFixups

theorem readCstrAt_eq (data : Slice) (off : Nat) :
    readCstrAt data off =
      if off ≤ data.length ∧ validUtf8 (textAt data off) = true then some ⟨some (data.start + off), textAt data off⟩
      else none := by
  unfold readCstrAt Slice.from?
  by_cases inside : off ≤ data.length
  · rcases Slice.get_of_le inside (Nat.le_refl _) with ⟨tail, found, start, bytes⟩
    have whole : tail.bytes = data.bytes.drop off := by
      rw [bytes, Slice.window, List.take_of_length_le]
      rw [List.length_drop]
      rfl
    have text : tail.bytes.takeWhile (· ≠ 0#8) = textAt data off := by rw [whole, textAt]
    simp only [found, Option.bind_eq_bind, Option.bind_some, text, start, inside, true_and]
  · have none : data.get off data.length = none := if_neg (by omega)
    rw [none, if_neg (fun both => inside both.1)]
    rfl

theorem textAt_window {data : Slice} {off : Nat} : data.window off (textAt data off).length = textAt data off := by
  rw [Slice.window]
  exact (List.prefix_iff_eq_take.mp (List.takeWhile_prefix _)).symm

theorem decodeImport_isSome {format : ImportsFormat} {stride : Nat} {entry : Slice}
    (size : format.entrySize = some stride) (length : entry.length = stride) :
    (decodeImport format entry).isSome = true := by
  have word : ∀ off, off + 4 ≤ stride → ∃ w, readU32LeAt entry off = some w := by
    intro off inside
    exact Option.isSome_iff_exists.mp (readAt_isSome.mpr (by omega))
  cases format with
  | plain =>
    cases size
    rcases word 0 (by decide) with ⟨raw, read⟩
    simp only [decodeImport, decodeImportPlain, read, Option.bind_eq_bind, Option.bind_some, Option.isSome_some]
  | addend =>
    cases size
    rcases word 0 (by decide) with ⟨raw, read⟩
    rcases word 4 (by decide) with ⟨addend, read'⟩
    simp only [decodeImport, decodeImportAddend, read, read', Option.bind_eq_bind, Option.bind_some, Option.isSome_some]
  | addend64 =>
    cases size
    have half : ∀ off, off + 2 ≤ 16 → ∃ w, readU16LeAt entry off = some w := by
      intro off inside
      exact Option.isSome_iff_exists.mp (readAt_isSome.mpr (by omega))
    rcases half 0 (by decide) with ⟨ordinal, first⟩
    rcases half 2 (by decide) with ⟨flags, second⟩
    rcases word 4 (by decide) with ⟨name, third⟩
    have fourth : ∃ w, readU64LeAt entry 8 = some w := Option.isSome_iff_exists.mp (readAt_isSome.mpr (by omega))
    rcases fourth with ⟨addend, fourth⟩
    simp only [decodeImport, decodeImportAddend64, first, second, third, fourth, Option.bind_eq_bind, Option.bind_some,
      Option.isSome_some]
  | other raw => cases size

namespace ChainedFixups

section

variable {payload : Slice} {stride i : Nat} {cf : ChainedFixups}

structure Window (cf : ChainedFixups) (payload : Slice) : Prop where
  cut : cf.data.get cf.base (cf.base + payload.length) = some payload
  imports : cf.importsOffset.toNat ≤ payload.length
  symbols : cf.symbolsOffset.toNat ≤ payload.length

theorem Window.importEntry (window : cf.Window payload) (size : cf.importsFormat.entrySize = some stride)
    (before : i < cf.importsCount.toNat) :
    cf.importEntry (cf.base + cf.importsOffset.toNat) (cf.base + cf.symbolsOffset.toNat) stride i =
      (cf.data.get (cf.rowPlace stride i) (cf.rowPlace stride i + stride)).bind fun entry =>
        (decodeImport cf.importsFormat entry).map fun fields => {
          libOrdinal := fields.1
          weakImport := fields.2.1
          name := (readCstrAt cf.data (cf.namePlace fields.2.2.1.toNat)).getD (Str.literal "")
          addend := fields.2.2.2
        } := by
  have bound := cf.data.length_lt
  rcases Slice.get_some window.cut with ⟨-, inside, -⟩
  have imports := window.imports
  have symbols := window.symbols
  have count := cf.importsCount.isLt
  have narrow : stride ≤ 16 := by
    cases format : cf.importsFormat <;> rw [format] at size <;> cases size <;> decide
  have product : i * stride ≤ i * 16 := Nat.mul_le_mul_left i narrow
  have step : checkedMulUsize i stride = some (i * stride) := if_pos (by omega)
  have place : checkedAddUsize (cf.base + cf.importsOffset.toNat) (i * stride) = some (cf.rowPlace stride i) :=
    checkedAddUsize_of_lt (by omega)
  have stop : checkedAddUsize (cf.rowPlace stride i) stride = some (cf.rowPlace stride i + stride) := by
    unfold rowPlace
    exact checkedAddUsize_of_lt (by omega)
  have name : ∀ nameOff : U32, readPoolString cf.data (cf.base + cf.symbolsOffset.toNat) nameOff =
      readCstrAt cf.data (cf.namePlace nameOff.toNat) := by
    intro nameOff
    have small := nameOff.isLt
    rw [readPoolString, checkedAddUsize_of_lt (by omega)]
    rfl
  simp only [ChainedFixups.importEntry, step, place, stop, Option.bind_eq_bind, Option.bind_some, name]
  cases cf.data.get (cf.rowPlace stride i) (cf.rowPlace stride i + stride) with
  | none => rfl
  | some entry =>
    simp only [Option.bind_some, decodeImport]
    cases cf.importsFormat with
    | other raw => rfl
    | plain => rw [Option.map_eq_bind]; rfl
    | addend => rw [Option.map_eq_bind]; rfl
    | addend64 => rw [Option.map_eq_bind]; rfl

theorem Window.imports_eq (window : cf.Window payload) (size : cf.importsFormat.entrySize = some stride) :
    cf.imports = rows (cf.importRow (cf.base + cf.importsOffset.toNat) (cf.base + cf.symbolsOffset.toNat) stride)
      cf.importsCount.toNat := by
  have bound := cf.data.length_lt
  rcases Slice.get_some window.cut with ⟨-, inside, -⟩
  have imports := window.imports
  have symbols := window.symbols
  rw [ChainedFixups.imports, size, checkedAddUsize_of_lt (by omega), checkedAddUsize_of_lt (by omega)]

theorem Window.overrun_iff (window : cf.Window payload) (size : cf.importsFormat.entrySize = some stride)
    (overrun : ¬ cf.TableFits payload.length stride) :
    cf.imports = [] ↔ cf.data.length < cf.rowPlace stride 0 + stride := by
  have some? : 0 < cf.importsCount.toNat := by
    by_contra none
    have imports := window.imports
    apply overrun
    rw [TableFits, show cf.importsCount.toNat = 0 by omega, Nat.zero_mul]
    exact imports
  have first := window.importEntry size some?
  rw [window.imports_eq size]
  obtain ⟨count, same⟩ : ∃ count, cf.importsCount.toNat = count + 1 := ⟨cf.importsCount.toNat - 1, by omega⟩
  rw [same, rows, rowsFrom, importRow, first]
  by_cases past : cf.data.length < cf.rowPlace stride 0 + stride
  · rw [Slice.get_of_lt past]
    exact iff_of_true rfl past
  · rcases Slice.get_of_le (Nat.le_add_right _ _) (Nat.not_lt.mp past) with ⟨entry, found, -⟩
    have length := Slice.get_length found
    have decoded := decodeImport_isSome size (by omega : entry.length = stride)
    rcases Option.isSome_iff_exists.mp decoded with ⟨fields, decoded⟩
    rw [found, Option.bind_some, decoded, Option.map_some]
    exact iff_of_false (List.cons_ne_nil _ _) past

theorem Window.turn (window : cf.Window payload) (size : cf.importsFormat.entrySize = some stride)
    (fits : cf.TableFits payload.length stride) (before : i < cf.importsCount.toNat) :
    ∃ entry libOrdinal weak nameOff addend,
      cf.data.get (cf.rowPlace stride i) (cf.rowPlace stride i + stride) = some entry ∧
      payload.get (cf.importsOffset.toNat + i * stride) (cf.importsOffset.toNat + i * stride + stride) = some entry ∧
      decodeImport cf.importsFormat entry = some (libOrdinal, weak, nameOff, addend) ∧
      cf.importRow (cf.base + cf.importsOffset.toNat) (cf.base + cf.symbolsOffset.toNat) stride i =
        .yield ⟨libOrdinal, weak, (readCstrAt cf.data (cf.namePlace nameOff.toNat)).getD (Str.literal ""), addend⟩ := by
  rcases Slice.get_some window.cut with ⟨-, inside, -⟩
  have row : (i + 1) * stride ≤ cf.importsCount.toNat * stride := Nat.mul_le_mul_right stride before
  rw [Nat.add_mul, Nat.one_mul] at row
  unfold TableFits at fits
  have last : cf.rowPlace stride i + stride ≤ cf.data.length := by
    unfold rowPlace
    omega
  rcases Slice.get_of_le (Nat.le_add_right _ _) last with ⟨entry, found, -⟩
  have length := Slice.get_length found
  rcases Option.isSome_iff_exists.mp (decodeImport_isSome size (by omega : entry.length = stride)) with
    ⟨⟨libOrdinal, weak, nameOff, addend⟩, decoded⟩
  refine ⟨entry, libOrdinal, weak, nameOff, addend, found, ?_, decoded, ?_⟩
  · rw [Slice.get_get window.cut (by omega), ← found, rowPlace]
    congr 1 <;> omega
  · rw [importRow, window.importEntry size before, found, Option.bind_some, decoded]
    rfl

theorem Window.name_iff (window : cf.Window payload) (nameOff : U32) :
    cf.NameInside payload nameOff ((readCstrAt cf.data (cf.namePlace nameOff.toNat)).getD (Str.literal "")) ↔
      (validUtf8 (textAt cf.data (cf.namePlace nameOff.toNat)) = true →
        textAt cf.data (cf.namePlace nameOff.toNat) ≠ [] → cf.symbolsFormat = 0 ∧
        cf.symbolsOffset.toNat + nameOff.toNat + (textAt cf.data (cf.namePlace nameOff.toNat)).length ≤ payload.length) := by
  rcases Slice.get_some window.cut with ⟨-, -, start, -⟩
  have blank : (Str.literal "").text = [] := rfl
  rw [readCstrAt_eq]
  by_cases read : cf.namePlace nameOff.toNat ≤ cf.data.length ∧
      validUtf8 (textAt cf.data (cf.namePlace nameOff.toNat)) = true
  · rw [if_pos read, Option.getD_some]
    constructor
    · intro inside _ text
      rcases inside with empty | ⟨raw, ⟨off, origin, fits, -⟩, place⟩
      · exact absurd empty text
      · rw [place, Option.some.injEq] at origin
        dsimp only at fits
        exact ⟨raw, by omega⟩
    · intro confined
      by_cases text : textAt cf.data (cf.namePlace nameOff.toNat) = []
      · exact Or.inl text
      rcases confined read.2 text with ⟨raw, fits⟩
      have place : cf.data.start + cf.namePlace nameOff.toNat =
          payload.start + (cf.symbolsOffset.toNat + nameOff.toNat) := by
        unfold namePlace
        omega
      refine Or.inr ⟨raw, ⟨cf.symbolsOffset.toNat + nameOff.toNat, congrArg some place, fits, ?_, read.2⟩,
        congrArg some place⟩
      dsimp only
      rw [Slice.get_window window.cut _ _ (by omega), ← Nat.add_assoc]
      exact textAt_window
  · rw [if_neg read, Option.getD_none]
    constructor
    · intro _ valid text
      have past : ¬ cf.namePlace nameOff.toNat ≤ cf.data.length := fun inside => read ⟨inside, valid⟩
      have empty : textAt cf.data (cf.namePlace nameOff.toNat) = [] := by
        have length : cf.data.length = cf.data.bytes.length := rfl
        rw [textAt, List.drop_eq_nil_of_le (by omega)]
        rfl
      exact absurd empty text
    · intro _
      exact Or.inl blank

end

/-- The rows and the names that are yielded lie in the payload exactly when a table too long for the
    payload is also cut before its first row by the end of the file, and no name of one that fits runs
    out of an uncompressed pool. -/
theorem imports_contained_iff (data payload : Slice) (base size : Nat) (cf : ChainedFixups)
    (parsed : parse data base size = some cf) (cut : data.get base (base + size) = some payload) :
    cf.Contained payload ↔ cf.Confined payload := by
  rcases parse_window parsed with ⟨rfl, rfl, imports, symbols, -⟩
  have length := Slice.get_length cut
  have window : cf.Window payload := ⟨by rw [length, Nat.add_sub_cancel_left]; exact cut, by omega, by omega⟩
  apply forall_congr'
  intro stride
  apply imp_congr_right
  intro size
  apply and_congr
  · exact imp_congr_right fun overrun => window.overrun_iff size overrun
  · apply imp_congr_right
    intro fits
    have turns : ∀ i < cf.importsCount.toNat, ∃ row,
        cf.importRow (cf.base + cf.importsOffset.toNat) (cf.base + cf.symbolsOffset.toNat) stride i = .yield row := by
      intro i before
      rcases window.turn size fits before with ⟨_, _, _, _, _, -, -, -, turn⟩
      exact ⟨_, turn⟩
    rw [window.imports_eq size]
    constructor
    · intro inside i before entry libOrdinal weak nameOff addend found decoded
      rcases window.turn size fits before with ⟨entry', libOrdinal', weak', nameOff', addend', found', placed,
        decoded', turn⟩
      rcases inside i _ (rows_at turns before turn) with ⟨entry'', nameOff'', placed', decoded'', name⟩
      rw [found] at found'
      cases found'
      rw [placed] at placed'
      cases placed'
      rw [decoded] at decoded' decoded''
      cases decoded'
      cases decoded''
      exact (window.name_iff nameOff).mp name
    · intro confined i row listed
      rcases rows_getElem (cf.importRow_full _ _ stride) listed with ⟨before, yields⟩
      rcases window.turn size fits before with ⟨entry, libOrdinal, weak, nameOff, addend, found, placed, decoded, turn⟩
      rw [turn] at yields
      cases yields
      exact ⟨entry, nameOff, placed, decoded,
        (window.name_iff nameOff).mpr (confined i before entry libOrdinal weak nameOff addend found decoded)⟩

/-- A payload of 76 bytes whose one row names the text that stands behind it. -/
def pastPoolData : Slice := ⟨0, oneBindHead 1 ++ (leBytes 16 1 ++ [0x61, 0]), by decide⟩

def pastPoolPayload : Slice := ⟨0, pastPoolData.bytes.take 76, by decide⟩

theorem pastPool_contained_iff :
    (oneRowTable pastPoolData .plain 1).Contained pastPoolPayload ↔
      (oneRowTable pastPoolData .plain 1).Confined pastPoolPayload :=
  imports_contained_iff pastPoolData pastPoolPayload 0 76 _ (by decide +kernel) (by decide +kernel)

theorem name_past_payload :
    ¬ ∀ (data payload : Slice) (base size : Nat) (cf : ChainedFixups), parse data base size = some cf →
      data.get base (base + size) = some payload → cf.Contained payload := by
  intro contained
  have row : (oneRowTable pastPoolData .plain 1).imports[0]? = some ⟨1, false, ⟨some 76, [0x61]⟩, 0⟩ := by decide +kernel
  have length : pastPoolPayload.length = 76 := by decide
  have fits : (oneRowTable pastPoolData .plain 1).TableFits pastPoolPayload.length 4 := by
    rw [length]
    exact show 60 + 1 * 4 ≤ 76 by decide
  have inside := (contained pastPoolData pastPoolPayload 0 76 (oneRowTable pastPoolData .plain 1) (by decide +kernel)
    (by decide +kernel) 4 rfl).2 fits 0 _ row
  rcases inside with ⟨entry, nameOff, -, -, empty | ⟨-, ⟨off, origin, ends, -⟩, -⟩⟩
  · exact absurd empty (by decide)
  · have place : 76 = 0 + off := Option.some.inj origin
    have text : off + 1 ≤ pastPoolPayload.length := ends
    omega

end ChainedFixups

end DarwinScope.Fixup
