import DarwinScope.Imports
import DarwinScope.Objc.Runtime
import DarwinScope.Swift.Runtime
import DarwinScope.Block.Literals

namespace DarwinScope

open Machine

/-- The address of a row is a key of the index, under the name of the row unless a later row has the
    address too. -/
def InIndex (index : Map U64 (Str × Str)) (row : Import) (after : List Import) : Prop :=
  ∃ name dylib, index row.address = some (name, dylib) ∧
    ((∀ later ∈ after, later.address ≠ row.address) → name.text = row.name.text)

/-- Some row at the address of `row` is kept, and the last that is kept has its name unless a later
    row than `row` has the address too. -/
def Kept (keeps : Import → Prop) (rows : List Import) (row : Import) (after : List Import) : Prop :=
  ∃ before kept rest, rows = before ++ kept :: rest ∧ kept.address = row.address ∧ keeps kept ∧
    (∀ later ∈ rest, later.address = row.address → ¬ keeps later) ∧
    ((∀ later ∈ after, later.address ≠ row.address) → kept.name.text = row.name.text)

def InImage (data : Slice) (row : Import) : Prop := row.name.Inside data ∧ row.dylib.Inside data

def InImageOrEmpty (data : Slice) (row : Import) : Prop :=
  (row.name.text = [] ∨ row.name.Inside data) ∧ (row.dylib.text = [] ∨ row.dylib.Inside data)

theorem exists_last {α : Type} {p : α → Prop} {items : List α} (some? : ∃ x ∈ items, p x) :
    ∃ first x rest, items = first ++ x :: rest ∧ p x ∧ ∀ y ∈ rest, ¬ p y := by
  induction items with
  | nil =>
    obtain ⟨x, member, -⟩ := some?
    cases member
  | cons head items ih =>
    by_cases later : ∃ x ∈ items, p x
    · obtain ⟨first, x, rest, same, holds, last⟩ := ih later
      exact ⟨head :: first, x, rest, by rw [same, List.cons_append], holds, last⟩
    · obtain ⟨x, member, holds⟩ := some?
      rcases List.mem_cons.mp member with rfl | member
      · exact ⟨[], x, items, rfl, holds, fun y inside holds => later ⟨y, inside, holds⟩⟩
      · exact absurd ⟨x, member, holds⟩ later

section

variable {keeps : Import → Prop} {entry : Import → Option (U64 × Str × Str)} {rows : List Import}

theorem inIndex_iff
    (kept : ∀ row ∈ rows, keeps row → ∃ name dylib, entry row = some (row.address, name, dylib) ∧ name.text = row.name.text)
    (only : ∀ row ∈ rows, ∀ e, entry row = some e → keeps row ∧ e.1 = row.address)
    (row : Import) (after : List Import) :
    InIndex (Map.ofRows (rows.filterMap entry)) row after ↔ Kept keeps rows row after := by
  constructor
  · intro given
    rcases given with ⟨name, dylib, found, named⟩
    obtain ⟨before, last, rest, same, entered, hidden⟩ := Map.ofRows_filterMap.mp found
    have listed : last ∈ rows := by rw [same]; simp
    obtain ⟨keep, address⟩ := only last listed _ entered
    obtain ⟨name', dylib', entered', text⟩ := kept last listed keep
    rw [entered', Option.some.injEq, Prod.mk.injEq, Prod.mk.injEq] at entered
    obtain ⟨-, sameName, -⟩ := entered
    rw [sameName] at text
    refine ⟨before, last, rest, same, address.symm, keep, ?_, fun unique => by rw [← text, named unique]⟩
    intro later member sameAddress keepLater
    have listedLater : later ∈ rows := by rw [same]; simp [member]
    obtain ⟨name'', dylib'', enteredLater, -⟩ := kept later listedLater keepLater
    rw [sameAddress] at enteredLater
    exact hidden later member _ enteredLater
  · intro given
    rcases given with ⟨before, last, rest, same, address, keep, hidden, named⟩
    have listed : last ∈ rows := by rw [same]; simp
    obtain ⟨name, dylib, entered, text⟩ := kept last listed keep
    rw [address] at entered
    refine ⟨name, dylib, ?_, fun unique => by rw [text, named unique]⟩
    refine Map.ofRows_filterMap.mpr ⟨before, last, rest, same, entered, ?_⟩
    intro later member other enteredLater
    have listedLater : later ∈ rows := by rw [same]; simp [member]
    obtain ⟨keepLater, addressLater⟩ := only later listedLater _ enteredLater
    exact hidden later member addressLater.symm keepLater

theorem kept_of_keeps {before after : List Import} {row : Import} (listed : rows = before ++ row :: after)
    (keep : keeps row) : Kept keeps rows row after := by
  by_cases hidden : ∃ later ∈ after, later.address = row.address ∧ keeps later
  · obtain ⟨first, last, rest, same, ⟨address, keepLast⟩, none?⟩ := exists_last hidden
    refine ⟨before ++ row :: first, last, rest, ?_, address, keepLast, fun later member address' keep' =>
      none? later member ⟨address', keep'⟩, ?_⟩
    · rw [listed, same, List.append_assoc, List.cons_append]
    · intro unique
      exact absurd address (unique last (by rw [same]; simp))
  · refine ⟨before, row, after, listed, rfl, keep, ?_, fun _ => rfl⟩
    intro later member address keepLater
    exact hidden ⟨later, member, address, keepLater⟩

end

theorem objc_bindsByVa {bin : MachoBinary} {rt : Objc.ObjcRuntime} (built : Objc.ObjcRuntime.build bin = some rt) :
    rt.bindsByVa = Map.ofRows (bin.imports.filterMap (Objc.bindEntry bin.data)) := by
  unfold Objc.ObjcRuntime.build at built
  split at built
  · cases built
  simp only [Option.bind_eq_bind, Option.bind_eq_some_iff] at built
  obtain ⟨_, -, _, -, same⟩ := built
  cases same
  rfl

theorem swift_bindsByVa {bin : MachoBinary} {rt : Swift.SwiftRuntime} (built : Swift.SwiftRuntime.build bin = some rt) :
    rt.bindsByVa = Map.ofRows (bin.imports.filterMap (Swift.bindEntry bin.data)) := by
  unfold Swift.SwiftRuntime.build at built
  split at built
  · cases built
  dsimp only at built
  split at built
  · cases built
  · cases built
    rfl

theorem objc_inIndex_iff {bin : MachoBinary} {rt : Objc.ObjcRuntime} (built : Objc.ObjcRuntime.build bin = some rt)
    (row : Import) (after : List Import) :
    InIndex rt.bindsByVa row after ↔ Kept (InImage bin.data) bin.imports row after := by
  rw [objc_bindsByVa built]
  apply inIndex_iff
  · rintro imp - ⟨name, dylib⟩
    refine ⟨imp.name, imp.dylib, ?_, rfl⟩
    simp [Objc.bindEntry, reborrow_inside name, reborrow_inside dylib]
  · intro imp member e entered
    simp only [Objc.bindEntry, Option.bind_eq_bind, Option.bind_eq_some_iff] at entered
    obtain ⟨name, foundName, dylib, foundDylib, same⟩ := entered
    obtain ⟨soundName, soundDylib⟩ := imports_sound bin imp member
    cases same
    exact ⟨⟨inside_of_reborrow soundName foundName, inside_of_reborrow soundDylib foundDylib⟩, rfl⟩

theorem swift_reborrow {data : Slice} {s : Str} (kept : s.text = [] ∨ s.Inside data) :
    ∃ found, Swift.reborrowIntoData data s = some found ∧ found.text = s.text := by
  unfold Swift.reborrowIntoData
  by_cases empty : s.text = []
  · rw [if_pos empty]
    exact ⟨Str.literal "", rfl, empty.symm⟩
  · rw [if_neg empty]
    exact ⟨s, reborrow_inside (kept.resolve_left empty), rfl⟩

theorem of_swift_reborrow {data : Slice} {s found : Str} (sound : s.Sound data)
    (same : Swift.reborrowIntoData data s = some found) : s.text = [] ∨ s.Inside data := by
  unfold Swift.reborrowIntoData at same
  by_cases empty : s.text = []
  · exact Or.inl empty
  · rw [if_neg empty] at same
    exact Or.inr (inside_of_reborrow sound same)

theorem swift_inIndex_iff {bin : MachoBinary} {rt : Swift.SwiftRuntime}
    (built : Swift.SwiftRuntime.build bin = some rt) (row : Import) (after : List Import) :
    InIndex rt.bindsByVa row after ↔ Kept (InImageOrEmpty bin.data) bin.imports row after := by
  rw [swift_bindsByVa built]
  apply inIndex_iff
  · rintro imp - ⟨name, dylib⟩
    obtain ⟨foundName, sameName, text⟩ := swift_reborrow name
    obtain ⟨foundDylib, sameDylib, -⟩ := swift_reborrow dylib
    refine ⟨foundName, foundDylib, ?_, text⟩
    simp [Swift.bindEntry, sameName, sameDylib]
  · intro imp member e entered
    simp only [Swift.bindEntry, Option.bind_eq_bind, Option.bind_eq_some_iff] at entered
    obtain ⟨name, foundName, dylib, foundDylib, same⟩ := entered
    obtain ⟨soundName, soundDylib⟩ := imports_sound bin imp member
    cases same
    exact ⟨⟨of_swift_reborrow soundName foundName, of_swift_reborrow soundDylib foundDylib⟩, rfl⟩

def Referenced (bin : MachoBinary) (row : Import) (kind : Block.BlockIsa) : Prop :=
  ∃ rt, Block.BlockRuntime.build bin = some rt ∧
    ∃ site ∈ rt.references, site.kind = kind ∧ site.slotAddress = row.address ∧ site.dylib.text = row.dylib.text

theorem blockSite_some {bin : MachoBinary} {imp : Import} {site : Block.BlockReference} (listed : imp ∈ bin.imports) :
    Block.blockSite bin.data imp = some site ↔
      InImage bin.data imp ∧ Block.isaOf imp.name.text = some site.kind ∧ site.slotAddress = imp.address ∧
        site.dylib = imp.dylib := by
  obtain ⟨soundName, soundDylib⟩ := imports_sound bin imp listed
  constructor
  · intro found
    simp only [Block.blockSite, Option.bind_eq_bind, Option.bind_eq_some_iff] at found
    obtain ⟨name, foundName, dylib, foundDylib, kind, isa, same⟩ := found
    have insideName := inside_of_reborrow soundName foundName
    have insideDylib := inside_of_reborrow soundDylib foundDylib
    rw [reborrow_inside insideName] at foundName
    rw [reborrow_inside insideDylib] at foundDylib
    cases foundName
    cases foundDylib
    cases same
    exact ⟨⟨insideName, insideDylib⟩, isa, rfl, rfl⟩
  · intro given
    rcases given with ⟨⟨name, dylib⟩, isa, address, same⟩
    obtain ⟨kind, slotAddress, dylib'⟩ := site
    dsimp only at isa address same
    simp [Block.blockSite, reborrow_inside name, reborrow_inside dylib, isa, address, same]

theorem mem_kinds {site : Block.BlockReference} {sites : List Block.BlockReference} :
    site ∈ (sites.filter fun s => s.kind = .global) ++ (sites.filter fun s => s.kind = .stack) ↔ site ∈ sites := by
  rw [List.mem_append, List.mem_filter, List.mem_filter]
  cases kind : site.kind <;> simp

theorem mem_references {bin : MachoBinary} (wide : bin.is64 = true) (site : Block.BlockReference) :
    (∃ rt, Block.BlockRuntime.build bin = some rt ∧ site ∈ rt.references) ↔
      site ∈ bin.imports.filterMap (Block.blockSite bin.data) := by
  unfold Block.BlockRuntime.build
  rw [wide, if_neg (by decide)]
  dsimp only
  split
  · rename_i none?
    rw [Bool.and_eq_true, List.isEmpty_iff, List.isEmpty_iff] at none?
    constructor
    · intro given
      rcases given with ⟨rt, built, -⟩
      cases built
    · intro member
      rw [← mem_kinds, none?.1, none?.2] at member
      cases member
  · constructor
    · intro given
      rcases given with ⟨rt, built, member⟩
      cases built
      exact mem_kinds.mp member
    · intro member
      exact ⟨_, rfl, mem_kinds.mpr member⟩

theorem referenced_iff {bin : MachoBinary} (wide : bin.is64 = true) (row : Import) (kind : Block.BlockIsa) :
    Referenced bin row kind ↔
      ∃ kept ∈ bin.imports, InImage bin.data kept ∧ Block.isaOf kept.name.text = some kind ∧
        kept.address = row.address ∧ kept.dylib.text = row.dylib.text := by
  constructor
  · intro given
    rcases given with ⟨rt, built, site, member, sameKind, address, dylib⟩
    have found := (mem_references wide site).mp ⟨rt, built, member⟩
    obtain ⟨kept, listed, entry⟩ := List.mem_filterMap.mp found
    obtain ⟨inImage, isa, address', dylib'⟩ := (blockSite_some listed).mp entry
    exact ⟨kept, listed, inImage, by rw [isa, sameKind], by rw [← address', address], by rw [← dylib', dylib]⟩
  · intro given
    rcases given with ⟨kept, listed, inImage, isa, address, dylib⟩
    have entry : Block.blockSite bin.data kept = some ⟨kind, kept.address, kept.dylib⟩ :=
      (blockSite_some listed).mpr ⟨inImage, isa, rfl, rfl⟩
    obtain ⟨rt, built, member⟩ := (mem_references wide _).mpr (List.mem_filterMap.mpr ⟨kept, listed, entry⟩)
    exact ⟨rt, built, _, member, rfl, address, dylib⟩

/-- When the indexes keep a bind. A row is in the index of the Obj-C walker, under its name, exactly
    when a row at its address is kept that has both strings in the image and is the row itself or
    stands in for it. The Swift walker also keeps empty strings, and the block walker lists the row
    when some such row shows the same dylib. A chained bind has its dylib in the image exactly when the ordinal of
    its import counts to one. -/
theorem bind_indexed_iff {bin : MachoBinary} (wide : bin.is64 = true) (row : Import) (after : List Import) :
    (∀ rt, Objc.ObjcRuntime.build bin = some rt →
      (InIndex rt.bindsByVa row after ↔ Kept (InImage bin.data) bin.imports row after)) ∧
    (∀ rt, Swift.SwiftRuntime.build bin = some rt →
      (InIndex rt.bindsByVa row after ↔ Kept (InImageOrEmpty bin.data) bin.imports row after)) ∧
    (∀ kind, Block.isaOf row.name.text = some kind →
      (Referenced bin row kind ↔ ∃ kept ∈ bin.imports, InImage bin.data kept ∧
        Block.isaOf kept.name.text = some kind ∧ kept.address = row.address ∧
          kept.dylib.text = row.dylib.text)) ∧
    ∀ b ∈ bin.chainedBinds, b.dylib.Inside bin.data ↔ ∃ cf entry, bin.chainedFixups = some cf ∧
      cf.imports[b.importOrdinal.toNat]? = some entry ∧
        0 < entry.libOrdinal ∧ entry.libOrdinal.toNat ≤ bin.dylibNames.length := by
  refine ⟨fun rt built => objc_inIndex_iff built row after, fun rt built => swift_inIndex_iff built row after, ?_,
    fun b member => chainedBind_dylib_inside member⟩
  intro kind _
  exact referenced_iff wide row kind

/-- One chained bind of `_NSConcreteGlobalBlock` through a library ordinal, with one dylib command behind it. -/
def boundImage (ordinal : Nat) : MachoBinary where
  data := ⟨0, leBytes 4 0 ++ leBytes 4 28 ++ leBytes 4 60 ++ leBytes 4 64 ++ leBytes 4 1 ++ leBytes 4 1 ++ leBytes 4 0 ++
    leBytes 4 1 ++ leBytes 4 8 ++
    leBytes 4 24 ++ leBytes 2 0x1000 ++ leBytes 2 6 ++ leBytes 8 0 ++ leBytes 4 0 ++ leBytes 2 1 ++ leBytes 2 0 ++
    leBytes 4 ordinal ++ lit "_NSConcreteGlobalBlock" ++ [0] ++ leBytes 8 (2^63) ++
    leBytes 4 0xc ++ leBytes 4 56 ++ leBytes 4 24 ++ leBytes 4 0 ++ leBytes 4 0 ++ leBytes 4 0 ++
    lit "/usr/lib/libobjc.A.dylib" ++ leBytes 8 0, by
      simp only [List.length_append, leBytes_length]
      decide⟩
  is64 := true
  loadCommands := [.dylib .load 95 56 24 0 0 0, .dyldChainedFixups 0 87]
  segments := [⟨0x1000, 0x1000, 87, 8, [
    some (Objc.bareImageInfo 0x1000),
    some ⟨lit "__TEXT", lit "__swift5_types", 0x1000, 0, Slice.empty⟩]⟩]
  legacyImports := some []
  borrowed := by simp

def boundRow (dylib : Str) : Import where
  name := ⟨some 64, lit "_NSConcreteGlobalBlock"⟩
  dylib := dylib
  isLazy := false
  isWeak := false
  offset := 87
  size := 8
  address := 0x1000
  addend := 0
  bindOffset := 0

theorem ordinary_bind_indexed :
    ∃ row, (boundImage 1).imports = [row] ∧
      (∀ rt, Objc.ObjcRuntime.build (boundImage 1) = some rt → InIndex rt.bindsByVa row []) ∧
      (∀ rt, Swift.SwiftRuntime.build (boundImage 1) = some rt → InIndex rt.bindsByVa row []) ∧
      Referenced (boundImage 1) row .global := by
  let row := boundRow ⟨some 119, lit "/usr/lib/libobjc.A.dylib"⟩
  have imports : (boundImage 1).imports = [row] := by decide +kernel
  have name : row.name.Inside (boundImage 1).data :=
    ⟨64, rfl, by decide +kernel, by decide +kernel, by decide +kernel⟩
  have dylib : row.dylib.Inside (boundImage 1).data :=
    ⟨119, rfl, by decide +kernel, by decide +kernel, by decide +kernel⟩
  have listed : (boundImage 1).imports = [] ++ row :: [] := imports
  obtain ⟨objc, swift, block, -⟩ := @bind_indexed_iff (boundImage 1) rfl row []
  refine ⟨row, imports, ?_, ?_, ?_⟩
  · intro rt built
    exact (objc rt built).mpr (kept_of_keeps listed ⟨name, dylib⟩)
  · intro rt built
    exact (swift rt built).mpr (kept_of_keeps listed ⟨Or.inr name, Or.inr dylib⟩)
  · exact (block .global (by decide +kernel)).mpr ⟨row, by simp [imports], ⟨name, dylib⟩, by decide +kernel, rfl, rfl⟩

theorem flat_namespace_bind_lost :
    ∃ row, (boundImage 254).imports = [row] ∧ row.name.Inside (boundImage 254).data ∧
      (¬ ∀ rt, Objc.ObjcRuntime.build (boundImage 254) = some rt → InIndex rt.bindsByVa row []) ∧
      (¬ ∀ rt, Swift.SwiftRuntime.build (boundImage 254) = some rt → InIndex rt.bindsByVa row []) ∧
      Block.isaOf row.name.text = some .global ∧ ¬ Referenced (boundImage 254) row .global := by
  let row := boundRow (Str.literal "flat-namespace")
  have objc : (Objc.ObjcRuntime.build (boundImage 254)).map (fun rt => rt.bindsByVa 0x1000) = some none := by
    decide +kernel
  have swift : (Swift.SwiftRuntime.build (boundImage 254)).map (fun rt => rt.bindsByVa 0x1000) = some none := by
    decide +kernel
  have block : (Block.BlockRuntime.build (boundImage 254)).isNone = true := by
    decide +kernel
  refine ⟨row, by decide +kernel, ⟨64, rfl, by decide +kernel, by decide +kernel, by decide +kernel⟩, ?_, ?_,
    by decide +kernel, ?_⟩
  · intro indexed
    obtain ⟨rt, built, missing⟩ := Option.map_eq_some_iff.mp objc
    obtain ⟨name, dylib, found, -⟩ := indexed rt built
    exact absurd (missing.symm.trans found) (by simp)
  · intro indexed
    obtain ⟨rt, built, missing⟩ := Option.map_eq_some_iff.mp swift
    obtain ⟨name, dylib, found, -⟩ := indexed rt built
    exact absurd (missing.symm.trans found) (by simp)
  · intro given
    rcases given with ⟨rt, built, -⟩
    rw [built] at block
    cases block

end DarwinScope
