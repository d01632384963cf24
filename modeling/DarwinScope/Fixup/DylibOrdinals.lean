import DarwinScope.Machine.Places
import DarwinScope.Fixup.Ordinals
import DarwinScope.Fixup.Partition

namespace DarwinScope.Fixup

open Machine

/-- The name of each command of the dylib family in load-command order, `none` where it is unreadable. -/
def commandNames (data : Slice) (commands : List LoadCommand) : List (Option Str) :=
  commands.filterMap fun command =>
    match command with
    | .dylib _ offset cmdsize name _ _ _ => some (resolveDylibName data offset cmdsize name)
    | _ => none

def commandName (data : Slice) (commands : List LoadCommand) (n : Nat) : Bytes :=
  (((commandNames data commands)[n - 1]?.join).map Str.text).getD []

/-- No name that stands behind an unreadable one has a text, unless no ordinal counts so far. -/
def NamesInPlace (names : List (Option Str)) : Prop :=
  ∀ p name, names[p]? = some (some name) → name.text ≠ [] → none ∉ names.take p ∨ 2^15 - 1 ≤ rank names p

theorem dylibs_names (data : Slice) (commands : List LoadCommand) :
    (dylibs data commands).map Dylib.name = (commandNames data commands).reduceOption := by
  unfold dylibs commandNames
  induction commands with
  | nil => rfl
  | cons command commands ih =>
    cases command with
    | dylib kind offset cmdsize name timestamp currentVersion compatibilityVersion =>
      cases read : resolveDylibName data offset cmdsize name with
      | none =>
        simp only [List.filterMap_cons, read, Option.map_none, List.reduceOption_cons_of_none]
        exact ih
      | some text =>
        simp only [List.filterMap_cons, read, Option.map_some, List.map_cons, List.reduceOption_cons_of_some]
        exact congrArg (text :: ·) ih
    | dyldChainedFixups dataoff datasize => exact ih
    | other => exact ih

theorem resolveLibOrdinal_text (n : Nat) (dylibNames : List Str) :
    (resolveLibOrdinal (n + 1 : Nat) dylibNames).text = ((dylibNames[n]?).map Str.text).getD [] := by
  rw [resolveLibOrdinal, if_pos (by omega), Int.toNat_natCast, Nat.add_sub_cancel]
  cases dylibNames[n]? <;> rfl

theorem libOrdinal_lt {cf : ChainedFixups} {k : Nat} {row : ChainedImport} (found : cf.imports[k]? = some row) :
    row.libOrdinal < 2^15 := by
  rcases cf.imports_getElem found with ⟨stride, size, read⟩
  rcases cf.importEntry_slice read with ⟨entry, slice, weak, nameOff, addend, decoded⟩
  cases format : cf.importsFormat <;> rw [format] at decoded
  case other raw => exact absurd decoded id
  case plain =>
    simp only [decodeImportPlain, Option.bind_eq_bind, Option.bind_eq_some_iff] at decoded
    rcases decoded with ⟨raw, -, fields⟩
    simp only [Option.some.injEq, Prod.mk.injEq] at fields
    have bound := BitVec.toInt_lt (x := (raw &&& 0xff).setWidth 8)
    rw [← fields.1, signExtendI8]
    omega
  case addend =>
    simp only [decodeImportAddend, Option.bind_eq_bind, Option.bind_eq_some_iff] at decoded
    rcases decoded with ⟨raw, -, _, -, fields⟩
    simp only [Option.some.injEq, Prod.mk.injEq] at fields
    have bound := BitVec.toInt_lt (x := (raw &&& 0xff).setWidth 8)
    rw [← fields.1, signExtendI8]
    omega
  case addend64 =>
    simp only [decodeImportAddend64, Option.bind_eq_bind, Option.bind_eq_some_iff] at decoded
    rcases decoded with ⟨raw, -, _, -, _, -, _, -, fields⟩
    simp only [Option.some.injEq, Prod.mk.injEq] at fields
    have bound := BitVec.toInt_lt (x := raw)
    rw [← fields.1]
    exact bound

section

variable {n : Nat}

def ordinalRow (n : Nat) : Bytes := encodeImport .addend64 ⟨n, false, [], 0⟩ 0

def ordinalData (n : Nat) : Slice where
  start := 0
  bytes := oneBindData 3 (ordinalRow n)
  bound := by simp [oneBindData, oneBindHead, ordinalRow, encodeImport]

theorem ordinalData_holds : (ordinalData n).Holds 60 (ordinalRow n) := by
  have head : (oneBindHead 3).length = 60 := by simp [oneBindHead]
  have bytes : (ordinalData n).bytes = oneBindHead 3 ++ (ordinalRow n ++ (leBytes 4 0 ++ leBytes 8 (2^63))) := rfl
  rw [Slice.Holds, bytes, List.drop_left' head]
  exact List.prefix_append _ _

theorem ordinalRow_listed (small : n < 2^15) :
    ∃ row, (oneRowTable (ordinalData n) .addend64 3).imports[0]? = some row ∧ row.libOrdinal = (n : Int) := by
  rcases Slice.get_of_holds ordinalData_holds (by simp [ordinalRow, encodeImport]) with ⟨entry, found, -, bytes⟩
  have length : (ordinalRow n).length = 16 := by simp [ordinalRow, encodeImport]
  rw [length] at found
  have decoded := @decodeImportAddend64_encode ⟨n, false, [], 0⟩ 0 entry (by dsimp only; omega) (by dsimp only; omega)
    ⟨by dsimp only; omega, by dsimp only; omega⟩ bytes
  have read : (oneRowTable (ordinalData n) .addend64 3).importEntry 60 76 16 0 =
      some ⟨n, false, (readPoolString (ordinalData n) 76 0).getD (Str.literal ""), 0⟩ := by
    have step : checkedMulUsize 0 16 = some 0 := rfl
    have first : checkedAddUsize 60 0 = some 60 := rfl
    have stop : checkedAddUsize 60 16 = some (60 + 16) := rfl
    simp only [ChainedFixups.importEntry, step, first, stop, oneRowTable, found, decoded, Option.bind_eq_bind,
      Option.bind_some]
    rfl
  have listed : (oneRowTable (ordinalData n) .addend64 3).imports =
      rows ((oneRowTable (ordinalData n) .addend64 3).importRow 60 76 16) 1 := rfl
  refine ⟨⟨n, false, (readPoolString (ordinalData n) 76 0).getD (Str.literal ""), 0⟩, ?_, rfl⟩
  rw [listed, rows, rowsFrom, ChainedFixups.importRow, read]
  rfl

theorem oneBind_listed (imports : List ChainedImport) (dylibNames : List Str) :
    ∃ b ∈ buildBindIter wideRowData [oneBindLoc] 0 imports dylibNames, b.importOrdinal = 0 := by
  have sites := binds_visits wideRowData [oneBindLoc] 0 imports dylibNames
  have one : ((visits wideRowData [oneBindLoc]).filter Visit.isBind).map Visit.site = [⟨0, 0, 0x1000, 2^63⟩] := by
    decide +kernel
  rw [one] at sites
  rcases List.map_eq_singleton_iff.mp sites with ⟨b, listed, site⟩
  have member : b ∈ buildBindIter wideRowData [oneBindLoc] 0 imports dylibNames := by
    rw [listed]
    exact List.mem_singleton_self b
  refine ⟨b, member, ?_⟩
  rcases mem_buildBindIter member with ⟨loc, used, slot, ctx, next, decoded, -⟩
  rw [List.mem_singleton.mp used] at decoded
  have raw : b.rawSlot = 2^63 := congrArg Site.rawSlot site
  have fields : b.rawSlot = slot ∧ b.importOrdinal = (slot &&& 0x00ff_ffff).setWidth 32 := by
    have ptr64 : decodePtr64Slot slot .ptr64 ctx = some (.bind b, next) := decoded
    unfold decodePtr64Slot at ptr64
    by_cases rebase : (slot >>> 63) &&& 1 = 0
    · simp only [rebase, if_true] at ptr64
      cases ptr64
    · simp only [rebase, if_false] at ptr64
      cases ptr64
      exact ⟨rfl, rfl⟩
  rw [fields.2, ← fields.1, raw]
  decide +kernel

end

/-- Every chained bind gets the dylib that its ordinal counts to, whatever the chains and the imports table
    are, exactly when no dylib command with a name stands behind one whose name cannot be read. -/
theorem chained_dylib_iff (data : Slice) (commands : List LoadCommand) :
    (∀ (cf : ChainedFixups) (chains : Slice) (locs : List SegmentLoc) (imageBase : U64) (b : Bind) (row : ChainedImport),
      b ∈ buildBindIter chains locs imageBase cf.imports ((dylibs data commands).map Dylib.name) →
      cf.imports[b.importOrdinal.toNat]? = some row → 0 < row.libOrdinal →
        b.dylib.text = commandName data commands row.libOrdinal.toNat) ↔
      NamesInPlace (commandNames data commands) := by
  have inPlace : NamesInPlace (commandNames data commands) ↔ ∀ i < 2^15 - 1,
      (((commandNames data commands).reduceOption[i]?).map Str.text).getD [] =
        (((commandNames data commands)[i]?.join).map Str.text).getD [] := by
    rw [compacted_iff]
    apply forall_congr'
    intro p
    apply forall_congr'
    intro name
    apply imp_congr_right
    intro listed
    have inside := (List.getElem?_eq_some_iff.mp listed).1
    have lower := rank_le (commandNames data commands) p
    rw [← rank_lt_iff (by omega)]
    apply imp_congr_right
    intro _
    omega
  rw [inPlace]
  constructor
  · intro counts i small
    rcases @ordinalRow_listed (i + 1) (by omega) with ⟨row, found, ordinal⟩
    rcases oneBind_listed (oneRowTable (ordinalData (i + 1)) .addend64 3).imports
      ((dylibs data commands).map Dylib.name) with ⟨b, member, zero⟩
    have first : b.importOrdinal.toNat = 0 := by rw [zero]; rfl
    rw [← first] at found
    have same := counts _ _ _ _ b row member found (by omega)
    rw [(buildBindIter_resolve member).2, resolveImport, found] at same
    dsimp only at same
    rw [ordinal, resolveLibOrdinal_text, dylibs_names, commandName, Int.toNat_natCast, Nat.add_sub_cancel] at same
    exact same
  · intro kept cf chains locs imageBase b row member found positive
    have bound := libOrdinal_lt found
    obtain ⟨i, counts⟩ : ∃ i : Nat, row.libOrdinal = (i + 1 : Nat) := ⟨row.libOrdinal.toNat - 1, by omega⟩
    have small : i < 2^15 - 1 := by omega
    rw [(buildBindIter_resolve member).2, resolveImport, found]
    dsimp only
    rw [counts, resolveLibOrdinal_text, dylibs_names, commandName, Int.toNat_natCast, Nat.add_sub_cancel]
    exact kept i small

/-- Two dylib commands, the first with a name offset past its end, and a bind through ordinal 1. -/
def shiftedBin : MachoBinary where
  data := ⟨0, oneBindData 3 (ordinalRow 1) ++
    (leBytes 4 0xc ++ leBytes 4 24 ++ leBytes 4 25 ++ leBytes 12 0) ++
    (leBytes 4 0xc ++ leBytes 4 32 ++ leBytes 4 24 ++ leBytes 12 0 ++ [0x62] ++ leBytes 7 0), by
      simp [oneBindData, oneBindHead, ordinalRow, encodeImport]⟩
  is64 := true
  loadCommands := [.dylib .load 88 24 25 0 0 0, .dylib .load 112 32 24 0 0 0, .dyldChainedFixups 0 88]
  segments := [⟨0x1000, 0x1000, 80, 8, []⟩]
  legacyImports := some []
  borrowed := by simp

theorem unreadable_name_shifts :
    ¬ ∀ (bin : MachoBinary) (cf : ChainedFixups) (b : Bind) (row : ChainedImport), bin.chainedFixups = some cf →
      b ∈ bin.chainedBinds → cf.imports[b.importOrdinal.toNat]? = some row → 0 < row.libOrdinal →
        b.dylib.text = commandName bin.data bin.loadCommands row.libOrdinal.toNat := by
  intro counts
  have table : shiftedBin.chainedFixups = some (oneRowTable shiftedBin.data .addend64 3) := by decide +kernel
  have binds : shiftedBin.chainedBinds = [oneBind ⟨some 136, [0x62]⟩] := by decide +kernel
  have row : (oneRowTable shiftedBin.data .addend64 3).imports[(oneBind ⟨some 136, [0x62]⟩).importOrdinal.toNat]? =
      some ⟨1, false, ⟨some 76, []⟩, 0⟩ := by decide +kernel
  have same := counts shiftedBin _ _ _ table (by rw [binds]; exact List.mem_singleton_self _) row (by decide)
  exact absurd same (by decide +kernel)

end DarwinScope.Fixup
