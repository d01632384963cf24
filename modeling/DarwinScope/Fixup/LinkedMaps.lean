import DarwinScope.BindIndex
import DarwinScope.Fixup.CommandLayout
import DarwinScope.Fixup.SegmentBounds
import DarwinScope.FixupMaps

namespace DarwinScope.Fixup

open Machine

def texts (row : Str × Str) : Bytes × Bytes := (row.1.text, row.2.text)

/-- The bind is of an import that is looked up in a dylib of the image. -/
def FixupTable.Imported (table : FixupTable) (bin : MachoBinary) (b : Bind) (imp : LogicalImport) (dylib : Str) : Prop :=
  table.imports[b.importOrdinal.toNat]? = some imp ∧ 0 < imp.libOrdinal ∧
    bin.dylibNames[imp.libOrdinal.toNat - 1]? = some dylib

section

variable {bin : MachoBinary} {table : FixupTable} {base size : U32} {b : Bind} {r : Rebase}

namespace CommandStored

variable (stored : CommandStored bin table base size)
include stored

theorem placedImport_inside {i : Nat} {imp : LogicalImport} (listed : table.imports[i]? = some imp) :
    ((table.parsed bin.data base.toNat).placedImport imp (table.nameOff i)).name.Inside bin.data := by
  rcases stored.imports with ⟨stride, layout⟩
  rcases layout.names imp (List.mem_of_getElem? listed) with ⟨valid, clean⟩
  exact readCstrAt_inside (readCstrAt_of_holds valid clean (layout.pool i imp listed))

theorem bind_names {imp : LogicalImport} {dylib : Str} (member : Entry.bind b ∈ table.rows bin base.toNat)
    (imported : table.Imported bin b imp dylib) :
    b ∈ bin.chainedBinds ∧ b.name.Inside bin.data ∧ b.dylib.Inside bin.data ∧ b.name.text = imp.name ∧ b.dylib = dylib := by
  have listed : b ∈ bin.chainedBinds := by
    rw [stored.chainedBinds_eq]
    exact mem_binds.mpr member
  rcases imported with ⟨found, positive, counted⟩
  rcases chainedBinds_resolve listed with ⟨cf, parsed, name, source⟩
  rw [stored.chainedFixups] at parsed
  cases parsed
  have row : (table.importRows bin.data base.toNat)[b.importOrdinal.toNat]? =
      some ((table.parsed bin.data base.toNat).placedImport imp (table.nameOff b.importOrdinal.toNat)) := by
    rw [FixupTable.importRows, List.getElem?_map, List.getElem?_zipIdx, found, Option.map_some, Option.map_some,
      Nat.zero_add]
  rw [resolveImport, stored.imports_eq, row] at name source
  have ordinal : ((table.parsed bin.data base.toNat).placedImport imp (table.nameOff b.importOrdinal.toNat)).libOrdinal =
      imp.libOrdinal := rfl
  dsimp only at name source
  rw [ordinal, resolveLibOrdinal, if_pos positive, counted, Option.getD_some] at source
  rw [name, source]
  exact ⟨listed, stored.placedImport_inside found, dylibNames_inside bin dylib (List.mem_of_getElem? counted), rfl, rfl⟩

theorem rebasesByVa_iff (mapped : bin.Mapped) (va target : U64) :
    rebasesByVa bin va = some target ↔
      ∃ r, Entry.rebase r ∈ table.rows bin base.toNat ∧ r.vmAddress = va ∧ r.targetVmaddr = target := by
  have agree := MachoBinary.rebaseRows_agree mapped
  rw [rebasesByVa]
  refine (Map.ofRows_of_agrees agree).trans ?_
  rw [MachoBinary.rebaseRows, stored.chainedRebases_eq, List.mem_map]
  apply exists_congr
  intro r
  rw [mem_rebases, Prod.mk.injEq]

end CommandStored

/-- The row of a chained bind decides what is known of its address, whatever the legacy rows say. -/
theorem bound_at (mapped : bin.Mapped) {entry : Slice → Import → Option (U64 × Str × Str)}
    (keyed : MachoBinary.KeyedByAddress (entry bin.data)) (member : b ∈ bin.chainedBinds) {name dylib : Str}
    (found : entry bin.data (bin.chainedImport b) = some (b.vmAddress, name, dylib)) :
    Map.ofRows (bin.imports.filterMap (entry bin.data)) b.vmAddress = some (name, dylib) := by
  have row : (b.vmAddress, name, dylib) ∈ bin.bindRows entry bin.chainedBinds :=
    List.mem_filterMap.mpr ⟨_, List.mem_map_of_mem member, found⟩
  rw [MachoBinary.bindsByVa_parts, (Map.ofRows_of_agrees (MachoBinary.bindRows_agree mapped keyed)).mpr row]
  rfl

theorem objc_rebasesByVa {rt : Objc.ObjcRuntime} (built : Objc.ObjcRuntime.build bin = some rt) :
    rt.rebasesByVa = rebasesByVa bin := by
  unfold Objc.ObjcRuntime.build at built
  split at built
  · cases built
  simp only [Option.bind_eq_bind, Option.bind_eq_some_iff] at built
  rcases built with ⟨_, -, _, -, same⟩
  cases same
  rfl

theorem objc_bound (mapped : bin.Mapped) {rt : Objc.ObjcRuntime} (built : Objc.ObjcRuntime.build bin = some rt)
    (member : b ∈ bin.chainedBinds) (name : b.name.Inside bin.data) (dylib : b.dylib.Inside bin.data) :
    (rt.bindsByVa b.vmAddress).map texts = some (b.name.text, b.dylib.text) := by
  have found : Objc.bindEntry bin.data (bin.chainedImport b) = some (b.vmAddress, b.name, b.dylib) := by
    simp [Objc.bindEntry, MachoBinary.chainedImport, reborrow_inside name, reborrow_inside dylib]
  rw [objc_bindsByVa built, bound_at mapped (MachoBinary.objc_keyed bin.data) member found]
  rfl

theorem swift_bound (mapped : bin.Mapped) {rt : Swift.SwiftRuntime} (built : Swift.SwiftRuntime.build bin = some rt)
    (member : b ∈ bin.chainedBinds) (name : b.name.Inside bin.data) (dylib : b.dylib.Inside bin.data) :
    (rt.bindsByVa b.vmAddress).map texts = some (b.name.text, b.dylib.text) := by
  rcases swift_reborrow (.inr name) with ⟨name, nameRead, nameText⟩
  rcases swift_reborrow (.inr dylib) with ⟨dylib, dylibRead, dylibText⟩
  have found : Swift.bindEntry bin.data (bin.chainedImport b) = some (b.vmAddress, name, dylib) := by
    simp [Swift.bindEntry, MachoBinary.chainedImport, nameRead, dylibRead]
  rw [swift_bindsByVa built, bound_at mapped (MachoBinary.swift_keyed bin.data) member found, ← nameText, ← dylibText]
  rfl

end

/-- The runtimes know of a mapped image exactly what was linked into it: a slot is a rebase with a target where one was
    stored and nowhere else, a pointer resolves to that target, and a bind of a dylib's symbol has both of its names. -/
theorem linked_slots_by_va (bin : MachoBinary) (table : FixupTable) (base size : U32)
    (stored : CommandStored bin table base size) (mapped : bin.Mapped) :
    (∀ va target, rebasesByVa bin va = some target ↔
      ∃ r, Entry.rebase r ∈ table.rows bin base.toNat ∧ r.vmAddress = va ∧ r.targetVmaddr = target) ∧
    (∀ rt, Objc.ObjcRuntime.build bin = some rt →
      (∀ r, Entry.rebase r ∈ table.rows bin base.toNat → rt.resolvePointer r.vmAddress = some r.targetVmaddr) ∧
      ∀ b imp dylib, Entry.bind b ∈ table.rows bin base.toNat → table.Imported bin b imp dylib →
        (rt.bindsByVa b.vmAddress).map texts = some (imp.name, dylib.text)) ∧
    ∀ rt, Swift.SwiftRuntime.build bin = some rt →
      ∀ b imp dylib, Entry.bind b ∈ table.rows bin base.toNat → table.Imported bin b imp dylib →
        (rt.bindsByVa b.vmAddress).map texts = some (imp.name, dylib.text) := by
  have exact := stored.rebasesByVa_iff mapped
  refine ⟨exact, ?_, ?_⟩
  · intro rt built
    constructor
    · intro r member
      have known : rt.rebasesByVa r.vmAddress = some r.targetVmaddr := by
        rw [objc_rebasesByVa built]
        exact (exact r.vmAddress r.targetVmaddr).mpr ⟨r, member, rfl, rfl⟩
      rw [Objc.ObjcRuntime.resolvePointer, known]
    · intro b imp dylib member imported
      rcases stored.bind_names member imported with ⟨listed, name, inside, text, source⟩
      rw [objc_bound mapped built listed name inside, text, source]
  · intro rt built b imp dylib member imported
    rcases stored.bind_names member imported with ⟨listed, name, inside, text, source⟩
    rw [swift_bound mapped built listed name inside, text, source]

theorem sample_mapped : sampleBin.Mapped where
  apart := List.pairwise_singleton _ _
  backed := by decide
  whole := by decide

theorem linked_slots_by_va_sample :
    ∃ rt, Objc.ObjcRuntime.build sampleBin = some rt ∧ rt.resolvePointer 0x1000 = some 0x1020 ∧
      (rt.bindsByVa 0x1008).map texts = some (lit "_a", lit "/B") := by
  rcases linked_slots_by_va sampleBin sampleTable 0 72 sample_stored sample_mapped with ⟨-, objc, -⟩
  have some? : (Objc.ObjcRuntime.build sampleBin).isSome = true := by decide +kernel
  rcases Option.isSome_iff_exists.mp some? with ⟨rt, built⟩
  rcases objc rt built with ⟨rebases, binds⟩
  have rebase : Entry.rebase ⟨0, 0, 0x1000, 0x1020, 2 * 2^51 + 0x20, none, some 0, .ptr64Offset⟩ ∈
      sampleTable.rows sampleBin 0 := by
    decide +kernel
  have bind : Entry.bind ⟨0, 8, 0x1008, 0, 5, ⟨some 64, lit "_a"⟩, ⟨some 88, lit "/B"⟩, false, none, .ptr64Offset,
      2^63 + 5 * 2^24⟩ ∈ sampleTable.rows sampleBin 0 := by decide +kernel
  have imported : sampleTable.Imported sampleBin ⟨0, 8, 0x1008, 0, 5, ⟨some 64, lit "_a"⟩, ⟨some 88, lit "/B"⟩, false, none,
      .ptr64Offset, 2^63 + 5 * 2^24⟩ ⟨1, false, lit "_a", 0⟩ ⟨some 88, lit "/B"⟩ :=
    ⟨rfl, by decide, by decide +kernel⟩
  exact ⟨rt, built, rebases _ rebase, binds _ _ _ bind imported⟩

end DarwinScope.Fixup
