import DarwinScope.Image
import DarwinScope.Fixup.Sites

namespace DarwinScope

open Machine

open Fixup

theorem literal_sound (text : String) (data : Slice) : (Str.literal text).Sound data := Or.inl rfl

theorem takeWhile_inside {data part : Slice} {lo hi : Nat} {p : U8 → Bool} (found : data.get lo hi = some part)
    (valid : validUtf8 (part.bytes.takeWhile p) = true) :
    Str.Inside ⟨some part.start, part.bytes.takeWhile p⟩ data := by
  rcases Slice.get_some found with ⟨ordered, inside, start, -⟩
  have cut := List.takeWhile_prefix (l := part.bytes) p
  have short : (part.bytes.takeWhile p).length ≤ hi - lo := by
    have whole := Slice.get_length found
    have fewer := cut.length_le
    unfold Slice.length at whole
    omega
  refine ⟨lo, congrArg some start, by dsimp only; omega, ?_, valid⟩
  have window := Slice.get_window found 0 (part.bytes.takeWhile p).length (by omega)
  rw [Nat.add_zero] at window
  rw [← window, Slice.window, List.drop_zero]
  exact (List.prefix_iff_eq_take.mp cut).symm

theorem readCstrAt_inside {data : Slice} {off : Nat} {s : Str} (read : readCstrAt data off = some s) :
    s.Inside data := by
  simp only [readCstrAt, Option.bind_eq_bind, Option.bind_eq_some_iff] at read
  rcases read with ⟨tail, found, read⟩
  split at read
  · rename_i valid
    cases read
    exact takeWhile_inside found valid
  · cases read

theorem readLcStr_inside {data : Slice} {off stop : Nat} {s : Str} (read : readLcStr data off stop = some s) :
    s.Inside data := by
  simp only [readLcStr, Option.bind_eq_bind, Option.bind_eq_some_iff] at read
  rcases read with ⟨part, found, read⟩
  split at read
  · rename_i valid
    cases read
    exact takeWhile_inside found valid
  · cases read

theorem dylibNames_inside (bin : MachoBinary) : ∀ name ∈ bin.dylibNames, name.Inside bin.data := by
  intro name member
  rcases List.mem_map.mp member with ⟨dylib, listed, rfl⟩
  rcases List.mem_filterMap.mp listed with ⟨command, -, found⟩
  cases command with
  | dylib kind offset cmdsize nameOff timestamp currentVersion compatibilityVersion =>
    rcases Option.map_eq_some_iff.mp found with ⟨name, resolved, rfl⟩
    simp only [resolveDylibName, Option.bind_eq_bind, Option.bind_eq_some_iff] at resolved
    rcases resolved with ⟨_, -, _, -, read⟩
    exact readLcStr_inside read
  | dyldChainedFixups dataoff datasize => cases found
  | other => cases found

theorem readPoolString_sound (data : Slice) (poolBase : Nat) (nameOff : U32) :
    ((readPoolString data poolBase nameOff).getD (Str.literal "")).Sound data := by
  cases read : readPoolString data poolBase nameOff with
  | none => exact literal_sound "" data
  | some s =>
    simp only [readPoolString, Option.bind_eq_bind, Option.bind_eq_some_iff] at read
    rcases read with ⟨_, -, read⟩
    exact Or.inr (readCstrAt_inside read)

theorem importEntry_sound {cf : ChainedFixups} {importsBase symbolsBase stride i : Nat} {row : ChainedImport}
    (read : cf.importEntry importsBase symbolsBase stride i = some row) : row.name.Sound cf.data := by
  simp only [ChainedFixups.importEntry, Option.bind_eq_bind, Option.bind_eq_some_iff] at read
  rcases read with ⟨_, -, _, -, _, -, _, -, read⟩
  have name : ∃ nameOff, row.name = (readPoolString cf.data symbolsBase nameOff).getD (Str.literal "") := by
    split at read
    all_goals
      rcases Option.bind_eq_some_iff.mp read with ⟨fields, -, same⟩
      cases same
      exact ⟨fields.2.2.1, rfl⟩
  rcases name with ⟨nameOff, same⟩
  rw [same]
  exact readPoolString_sound _ _ _

theorem chainedImport_sound (cf : ChainedFixups) : ∀ row ∈ cf.imports, row.name.Sound cf.data := by
  intro row member
  unfold ChainedFixups.imports at member
  split at member
  · cases member
  split at member
  · rcases mem_rows member with ⟨i, -, turn⟩
    unfold ChainedFixups.importRow at turn
    split at turn
    · rename_i decoded
      cases turn
      exact importEntry_sound decoded
    · cases turn
  · cases member

theorem parse_window {data : Slice} {base size : Nat} {cf : ChainedFixups}
    (parsed : ChainedFixups.parse data base size = some cf) :
    cf.data = data ∧ cf.base = base ∧ cf.importsOffset.toNat ≤ size ∧ cf.symbolsOffset.toNat ≤ size ∧
      ∃ payload, data.get base (base + size) = some payload := by
  rw [ChainedFixups.parse] at parsed
  rcases Option.bind_eq_some_iff.mp parsed with ⟨stop, sum, parsed⟩
  rcases Option.bind_eq_some_iff.mp parsed with ⟨payload, found, parsed⟩
  rw [checkedAddUsize_some sum] at found
  have length := Slice.get_length found
  split at parsed
  · cases parsed
  -- the seven words of the header
  rcases Option.bind_eq_some_iff.mp parsed with ⟨_, -, parsed⟩
  rcases Option.bind_eq_some_iff.mp parsed with ⟨_, -, parsed⟩
  rcases Option.bind_eq_some_iff.mp parsed with ⟨_, -, parsed⟩
  rcases Option.bind_eq_some_iff.mp parsed with ⟨_, -, parsed⟩
  rcases Option.bind_eq_some_iff.mp parsed with ⟨_, -, parsed⟩
  rcases Option.bind_eq_some_iff.mp parsed with ⟨_, -, parsed⟩
  rcases Option.bind_eq_some_iff.mp parsed with ⟨_, -, parsed⟩
  split at parsed
  · cases parsed
  split at parsed
  · cases parsed
  · rename_i offsets
    cases parsed
    dsimp only
    exact ⟨rfl, rfl, by omega, by omega, payload, found⟩

theorem parse_data {data : Slice} {base size : Nat} {cf : ChainedFixups}
    (parsed : ChainedFixups.parse data base size = some cf) : cf.data = data := (parse_window parsed).1

theorem resolveLibOrdinal_cases (ordinal : Int) (dylibNames : List Str) :
    (0 < ordinal ∧ ∃ name, dylibNames[ordinal.toNat - 1]? = some name ∧ resolveLibOrdinal ordinal dylibNames = name) ∨
      (¬ (0 < ordinal ∧ ordinal.toNat ≤ dylibNames.length) ∧
        (resolveLibOrdinal ordinal dylibNames).origin = none) := by
  unfold resolveLibOrdinal
  by_cases positive : 0 < ordinal
  · rw [if_pos positive]
    cases found : dylibNames[ordinal.toNat - 1]? with
    | some name => exact Or.inl ⟨positive, name, rfl, rfl⟩
    | none =>
      have past := List.getElem?_eq_none_iff.mp found
      exact Or.inr ⟨by omega, rfl⟩
  · rw [if_neg positive]
    refine Or.inr ⟨fun both => positive both.1, ?_⟩
    split
    · rfl
    split
    · rfl
    split
    · rfl
    split <;> rfl

theorem resolveLibOrdinal_sound {ordinal : Int} {dylibNames : List Str} {data : Slice}
    (names : ∀ name ∈ dylibNames, name.Inside data) : (resolveLibOrdinal ordinal dylibNames).Sound data := by
  rcases resolveLibOrdinal_cases ordinal dylibNames with ⟨-, name, found, same⟩ | ⟨-, constant⟩
  · rw [same]
    exact Or.inr (names name (List.mem_of_getElem? found))
  · exact Or.inl constant

theorem resolveLibOrdinal_inside {ordinal : Int} {dylibNames : List Str} {data : Slice}
    (names : ∀ name ∈ dylibNames, name.Inside data) :
    (resolveLibOrdinal ordinal dylibNames).Inside data ↔ 0 < ordinal ∧ ordinal.toNat ≤ dylibNames.length := by
  rcases resolveLibOrdinal_cases ordinal dylibNames with ⟨positive, name, found, same⟩ | ⟨outside, constant⟩
  · have bound := (List.getElem?_eq_some_iff.mp found).1
    rw [same]
    exact ⟨fun _ => ⟨positive, by omega⟩, fun _ => names name (List.mem_of_getElem? found)⟩
  · constructor
    · intro given
      rcases given with ⟨off, origin, -⟩
      rw [constant] at origin
      cases origin
    · intro inside
      exact absurd inside outside

theorem decodePtr64Slot_bind {slot : U64} {format : PointerFormat} {ctx : SlotCtx} {b : Bind} {next : U64}
    (decoded : decodePtr64Slot slot format ctx = some (.bind b, next)) :
    b.name = (resolveImport b.importOrdinal ctx.imports ctx.dylibNames).1 ∧
      b.dylib = (resolveImport b.importOrdinal ctx.imports ctx.dylibNames).2.1 := by
  unfold decodePtr64Slot at decoded
  by_cases rebase : (slot >>> 63) &&& 1 = 0
  · simp only [rebase, if_true] at decoded
    cases decoded
  · simp only [rebase, if_false] at decoded
    cases decoded
    exact ⟨rfl, rfl⟩

theorem decodeArm64eSlot_bind {slot : U64} {format : PointerFormat} {ctx : SlotCtx} {b : Bind} {next : U64}
    (decoded : decodeArm64eSlot slot format ctx = some (.bind b, next)) :
    b.name = (resolveImport b.importOrdinal ctx.imports ctx.dylibNames).1 ∧
      b.dylib = (resolveImport b.importOrdinal ctx.imports ctx.dylibNames).2.1 := by
  unfold decodeArm64eSlot at decoded
  by_cases rebase : (slot >>> 62) &&& 1 = 0
  · simp only [rebase, if_true] at decoded
    cases decoded
  · simp only [rebase, if_false] at decoded
    cases decoded
    exact ⟨rfl, rfl⟩

theorem decodeChainEntry_bind {slot : U64} {format : PointerFormat} {ctx : SlotCtx} {b : Bind} {next : U64}
    (decoded : decodeChainEntry slot format ctx = some (.bind b, next)) :
    b.name = (resolveImport b.importOrdinal ctx.imports ctx.dylibNames).1 ∧
      b.dylib = (resolveImport b.importOrdinal ctx.imports ctx.dylibNames).2.1 := by
  unfold decodeChainEntry at decoded
  split at decoded
  case h_8 => cases decoded
  case h_1 | h_2 => exact decodePtr64Slot_bind decoded
  all_goals exact decodeArm64eSlot_bind decoded

theorem resolveImport_sound {ordinal : U32} {imports : List ChainedImport} {dylibNames : List Str} {data : Slice}
    (rows : ∀ row ∈ imports, row.name.Sound data) (names : ∀ name ∈ dylibNames, name.Inside data) :
    (resolveImport ordinal imports dylibNames).1.Sound data ∧
      (resolveImport ordinal imports dylibNames).2.1.Sound data := by
  unfold resolveImport
  cases found : imports[ordinal.toNat]? with
  | none => exact ⟨literal_sound "" data, literal_sound "" data⟩
  | some row => exact ⟨rows row (List.mem_of_getElem? found), resolveLibOrdinal_sound names⟩

theorem mem_buildBindIter {data : Slice} {locs : List SegmentLoc} {imageBase : U64} {imports : List ChainedImport}
    {dylibNames : List Str} {b : Bind} (member : b ∈ buildBindIter data locs imageBase imports dylibNames) :
    ∃ loc ∈ locs, ∃ slot ctx next, decodeChainEntry slot loc.chained.pointerFormat ctx = some (.bind b, next) ∧
      ctx.imports = imports ∧ ctx.dylibNames = dylibNames := by
  rw [MachoBinary.buildBindIter_eq] at member
  rcases List.mem_filterMap.mp member with ⟨entry, listed, bound⟩
  rcases List.mem_flatMap.mp listed with ⟨loc, used, inside⟩
  rcases mem_segmentEntries inside with ⟨page, off, turn, taken, rfl⟩
  rcases chainTurn_decoded taken with ⟨slot, slotCtx, next, decoded, sameImports, sameNames⟩
  have kind : turn.1 = .bind b := by
    cases entry : turn.1 with
    | rebase r =>
      rw [entry] at bound
      cases bound
    | bind b' =>
      rw [entry] at bound
      cases bound
      rfl
  rw [kind] at decoded
  exact ⟨loc, used, slot, slotCtx, next, decoded, sameImports, sameNames⟩

theorem buildBindIter_resolve {data : Slice} {locs : List SegmentLoc} {imageBase : U64} {imports : List ChainedImport}
    {dylibNames : List Str} {b : Bind} (member : b ∈ buildBindIter data locs imageBase imports dylibNames) :
    b.name = (resolveImport b.importOrdinal imports dylibNames).1 ∧
      b.dylib = (resolveImport b.importOrdinal imports dylibNames).2.1 := by
  rcases mem_buildBindIter member with ⟨_, -, _, ctx, _, decoded, sameImports, sameNames⟩
  rcases decodeChainEntry_bind decoded with ⟨name, dylib⟩
  rw [sameImports, sameNames] at name dylib
  exact ⟨name, dylib⟩

theorem chainedBinds_resolve {bin : MachoBinary} {b : Bind} (member : b ∈ bin.chainedBinds) :
    ∃ cf, bin.chainedFixups = some cf ∧ b.name = (resolveImport b.importOrdinal cf.imports bin.dylibNames).1 ∧
      b.dylib = (resolveImport b.importOrdinal cf.imports bin.dylibNames).2.1 := by
  unfold MachoBinary.chainedBinds at member
  cases parsed : bin.chainedFixups with
  | none =>
    rw [parsed] at member
    cases member
  | some cf =>
    rw [parsed] at member
    dsimp only at member
    split at member
    · cases member
    exact ⟨cf, rfl, buildBindIter_resolve member⟩

theorem chainedFixups_data {bin : MachoBinary} {cf : ChainedFixups} (parsed : bin.chainedFixups = some cf) :
    cf.data = bin.data := by
  simp only [MachoBinary.chainedFixups, Option.bind_eq_bind, Option.bind_eq_some_iff] at parsed
  rcases parsed with ⟨_, -, parsed⟩
  exact parse_data parsed

theorem chainedBinds_sound {bin : MachoBinary} {b : Bind} (member : b ∈ bin.chainedBinds) :
    b.name.Sound bin.data ∧ b.dylib.Sound bin.data := by
  rcases chainedBinds_resolve member with ⟨cf, parsed, name, dylib⟩
  have rows := chainedImport_sound cf
  rw [chainedFixups_data parsed] at rows
  rw [name, dylib]
  exact resolveImport_sound rows (dylibNames_inside bin)

/-- The dylib of a chained bind stands in the image exactly when the library ordinal of its import row
    counts to a dylib: not for the image itself, the main executable, the flat namespace, a weak
    lookup or an ordinal past the dylibs. -/
theorem chainedBind_dylib_inside {bin : MachoBinary} {b : Bind} (member : b ∈ bin.chainedBinds) :
    b.dylib.Inside bin.data ↔
      ∃ cf row, bin.chainedFixups = some cf ∧ cf.imports[b.importOrdinal.toNat]? = some row ∧
        0 < row.libOrdinal ∧ row.libOrdinal.toNat ≤ bin.dylibNames.length := by
  rcases chainedBinds_resolve member with ⟨cf, parsed, -, dylib⟩
  rw [dylib]
  unfold resolveImport
  cases found : cf.imports[b.importOrdinal.toNat]? with
  | none =>
    constructor
    · intro given
      rcases given with ⟨off, origin, -⟩
      cases origin
    · intro given
      rcases given with ⟨cf', row, parsed', found', -⟩
      rw [parsed] at parsed'
      cases parsed'
      rw [found] at found'
      cases found'
  | some row =>
    dsimp only
    rw [resolveLibOrdinal_inside (dylibNames_inside bin)]
    constructor
    · intro given
      rcases given with ⟨positive, bound⟩
      exact ⟨cf, row, parsed, found, positive, bound⟩
    · intro given
      rcases given with ⟨cf', row', parsed', found', positive, bound⟩
      rw [parsed] at parsed'
      cases parsed'
      rw [found] at found'
      cases found'
      exact ⟨positive, bound⟩

/-- The strings of every import row are ranges of the image or constants of the program. -/
theorem imports_sound (bin : MachoBinary) :
    ∀ imp ∈ bin.imports, imp.name.Sound bin.data ∧ imp.dylib.Sound bin.data := by
  intro imp member
  rcases List.mem_append.mp member with legacy | chained
  · exact bin.borrowed imp legacy
  · rcases List.mem_map.mp chained with ⟨b, listed, rfl⟩
    exact chainedBinds_sound listed

theorem reborrow_inside {data : Slice} {s : Str} (inside : s.Inside data) : reborrowIntoData data s = some s := by
  rcases inside with ⟨off, origin, fits, window, valid⟩
  rcases Slice.get_of_le (Nat.le_add_right off s.text.length) fits with ⟨part, found, start, bytes⟩
  rw [Nat.add_sub_cancel_left, window] at bytes
  simp only [reborrowIntoData, origin, Option.bind_eq_bind, Option.bind_some]
  rw [if_neg (by omega), if_neg (by omega), Nat.add_sub_cancel_left, found, Option.bind_some, bytes, valid, if_pos rfl,
    start, ← origin]

theorem inside_of_reborrow {data : Slice} {s found : Str} (sound : s.Sound data)
    (same : reborrowIntoData data s = some found) : s.Inside data := by
  rcases sound with constant | inside
  · simp [reborrowIntoData, constant] at same
  · exact inside

end DarwinScope
