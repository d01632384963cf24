import DarwinScope.Machine.Counting
import DarwinScope.Machine.Iteration
import DarwinScope.Machine.Layout
import DarwinScope.Swift.Runtime

namespace DarwinScope.Swift

open Machine

abbrev captureHeaderSize : Nat := 12
abbrev captureTypeRecordSize : U64 := 4
abbrev metadataSourceRecordSize : U64 := 8

structure CaptureDescriptor where
  address : U64
  numCaptureTypes : U32
  numMetadataSources : U32
  numBindings : U32
deriving DecidableEq

namespace CaptureDescriptor

def captureTypesAddress (d : CaptureDescriptor) : U64 := d.address + BitVec.ofNat 64 captureHeaderSize

def metadataSourcesAddress (d : CaptureDescriptor) : U64 :=
  d.captureTypesAddress + d.numCaptureTypes.setWidth 64 * captureTypeRecordSize

def bindingsAddress (d : CaptureDescriptor) : U64 :=
  d.metadataSourcesAddress + d.numMetadataSources.setWidth 64 * metadataSourceRecordSize

end CaptureDescriptor

def captureSize (numCaptureTypes numMetadataSources : U32) : Option U64 := do
  let captures ← checkedMul (numCaptureTypes.setWidth 64) captureTypeRecordSize
  let afterCaptures ← checkedAdd captures (BitVec.ofNat 64 captureHeaderSize)
  let sources ← checkedMul (numMetadataSources.setWidth 64) metadataSourceRecordSize
  checkedAdd sources afterCaptures

/-- The descriptor at an offset of the section body, and the offset behind its records: the end of the body when they
    run past it, or when bindings follow, which have no known size. -/
def captureIterNext (rt : SwiftRuntime) (cursor : Nat) : Option (CaptureDescriptor × Nat) := do
  let sec ← rt.capture
  let headerEnd ← checkedAddUsize cursor captureHeaderSize
  if sec.body.length < headerEnd then none
  else do
    let header ← sec.body.get cursor headerEnd
    let numCaptureTypes ← readU32LeAt header 0
    let numMetadataSources ← readU32LeAt header 4
    let numBindings ← readU32LeAt header 8
    let afterSources ← captureSize numCaptureTypes numMetadataSources
    let nextOff ← checkedAddUsize cursor afterSources.toNat
    some ({
      address := sec.vmaddr + BitVec.ofNat 64 cursor
      numCaptureTypes := numCaptureTypes
      numMetadataSources := numMetadataSources
      numBindings := numBindings
    }, if numBindings ≠ 0 then sec.body.length else if sec.body.length < nextOff then sec.body.length else nextOff)

def captureDescriptors (rt : SwiftRuntime) (fuel : Nat) : Option (List CaptureDescriptor) :=
  collect (captureIterNext rt) fuel 0

structure CaptureData where
  types : U32
  sources : U32
  bindings : U32
  records : Bytes
  bound : Bytes
  sized : records.length = 4 * types.toNat + 8 * sources.toNat
  unbound : bindings = 0 → bound = []

namespace CaptureData

def size (d : CaptureData) : Nat := 12 + 4 * d.types.toNat + 8 * d.sources.toNat

def encode (d : CaptureData) : Bytes := encodeWords [d.types, d.sources, d.bindings] ++ d.records ++ d.bound

def row (va : U64) (d : CaptureData) : CaptureDescriptor := ⟨va, d.types, d.sources, d.bindings⟩

end CaptureData

def captureOffset (ds : List CaptureData) (i : Nat) : Nat := ((ds.take i).map CaptureData.size).sum

def captureRows (va : U64) (ds : List CaptureData) : List CaptureDescriptor :=
  ds.mapIdx fun i d => d.row (va + BitVec.ofNat 64 (captureOffset ds i))

structure HeaderAt (sec : MappedSection) (off : Nat) (row : CaptureDescriptor) : Prop where
  inside : off + captureHeaderSize ≤ sec.body.length
  address : row.address = sec.vmaddr + BitVec.ofNat 64 off
  types : readU32LeAt sec.body off = some row.numCaptureTypes
  sources : readU32LeAt sec.body (off + 4) = some row.numMetadataSources
  bindings : readU32LeAt sec.body (off + 8) = some row.numBindings

section

variable {rt : SwiftRuntime} {sec : MappedSection} {cursor next : Nat} {row : CaptureDescriptor}

theorem captureSize_value (types sources : U32) :
    ∃ size, captureSize types sources = some size ∧ size.toNat = 12 + 4 * types.toNat + 8 * sources.toNat := by
  have manyTypes := types.isLt
  have manySources := sources.isLt
  have wideTypes : (types.setWidth 64 : U64).toNat = types.toNat := by
    rw [BitVec.toNat_setWidth, Nat.mod_eq_of_lt (by omega)]
  have wideSources : (sources.setWidth 64 : U64).toNat = sources.toNat := by
    rw [BitVec.toNat_setWidth, Nat.mod_eq_of_lt (by omega)]
  have four : captureTypeRecordSize.toNat = 4 := rfl
  have eight : metadataSourceRecordSize.toNat = 8 := rfl
  have twelve : (BitVec.ofNat 64 captureHeaderSize : U64).toNat = 12 := rfl
  have room : (types.setWidth 64 : U64).toNat * captureTypeRecordSize.toNat < 2^64 := by
    rw [wideTypes, four]
    omega
  rcases checkedMul_value room with ⟨captures, product, capturesSize⟩
  rw [wideTypes, four] at capturesSize
  have room' : captures.toNat + (BitVec.ofNat 64 captureHeaderSize).toNat < 2^64 := by
    rw [capturesSize, twelve]
    omega
  rcases checkedAdd_value room' with ⟨afterCaptures, behind, afterSize⟩
  have room'' : (sources.setWidth 64 : U64).toNat * metadataSourceRecordSize.toNat < 2^64 := by
    rw [wideSources, eight]
    omega
  rcases checkedMul_value room'' with ⟨sourcesSize, product', sourceBytes⟩
  rw [wideSources, eight] at sourceBytes
  rcases checkedAdd_value (by omega : sourcesSize.toNat + afterCaptures.toNat < 2^64) with ⟨afterSources, sum, total⟩
  refine ⟨afterSources, ?_, by omega⟩
  simp only [captureSize, product, behind, product', sum, Option.bind_eq_bind, Option.bind_some]

/-- A row takes its header from where the cursor stands and moves the cursor over it, within the body. -/
theorem captureIterNext_some (found : rt.capture = some sec) (turn : captureIterNext rt cursor = some (row, next)) :
    HeaderAt sec cursor row ∧ cursor + captureHeaderSize ≤ next ∧ next ≤ sec.body.length := by
  rw [captureIterNext, found, Option.bind_eq_bind, Option.bind_some] at turn
  rcases Option.bind_eq_some_iff.mp turn with ⟨headerEnd, stop, turn⟩
  have size := checkedAddUsize_some stop
  split at turn
  · cases turn
  rename_i short
  rcases Option.bind_eq_some_iff.mp turn with ⟨header, taken, turn⟩
  rcases Option.bind_eq_some_iff.mp turn with ⟨types, typesRead, turn⟩
  rcases Option.bind_eq_some_iff.mp turn with ⟨sources, sourcesRead, turn⟩
  rcases Option.bind_eq_some_iff.mp turn with ⟨bindings, bindingsRead, turn⟩
  rcases Option.bind_eq_some_iff.mp turn with ⟨afterSources, sum, turn⟩
  rcases Option.bind_eq_some_iff.mp turn with ⟨nextOff, last, same⟩
  cases same
  rw [size] at taken
  have read (off : Nat) (inside : off + 4 ≤ captureHeaderSize) :
      readU32LeAt sec.body (cursor + off) = readU32LeAt header off :=
    (readAt_part taken inside).symm
  refine ⟨⟨by omega, rfl, ?_, ?_, ?_⟩, ?_⟩
  · exact (read 0 (by decide)).trans typesRead
  · exact (read 4 (by decide)).trans sourcesRead
  · exact (read 8 (by decide)).trans bindingsRead
  · rcases captureSize_value types sources with ⟨total, value, count⟩
    rw [sum] at value
    cases value
    have stopped := checkedAddUsize_some last
    have twelve : captureHeaderSize = 12 := rfl
    split
    · omega
    · split <;> omega

theorem captureIterNext_of_holds (found : rt.capture = some sec) {d : CaptureData}
    (holds : sec.body.Holds cursor (encodeWords [d.types, d.sources, d.bindings] ++ d.records)) :
    captureIterNext rt cursor = some (d.row (sec.vmaddr + BitVec.ofNat 64 cursor),
      if d.bindings ≠ 0 then sec.body.length else cursor + d.size) := by
  have bound := sec.body.length_lt
  have filled : 0 < (encodeWords [d.types, d.sources, d.bindings] ++ d.records).length := by
    rw [List.length_append, encodeWords_length]
    exact Nat.lt_of_lt_of_le (by decide) (Nat.le_add_right 12 _)
  have few := holds.inside filled
  rw [List.length_append, encodeWords_length, d.sized] at few
  simp only [List.length_cons, List.length_nil] at few
  have size : d.size = 12 + 4 * d.types.toNat + 8 * d.sources.toNat := rfl
  rcases Slice.get_of_holds holds.left (by rw [encodeWords_length]; exact Nat.succ_pos _) with ⟨header, taken, -, bytes⟩
  rw [encodeWords_length] at taken
  have words : header.bytes = [] ++ (encodeWords [d.types, d.sources, d.bindings] ++ []) := by
    rw [List.append_nil]
    exact bytes
  have types : readU32LeAt header 0 = some d.types := readAt_words (i := 0) _ _ words rfl
  have sources : readU32LeAt header 4 = some d.sources := readAt_words (i := 1) _ _ words rfl
  have bindings : readU32LeAt header 8 = some d.bindings := readAt_words (i := 2) _ _ words rfl
  rcases captureSize_value d.types d.sources with ⟨afterSources, sum, total⟩
  have headerEnd : checkedAddUsize cursor captureHeaderSize = some (cursor + 12) :=
    checkedAddUsize_of_lt (by change cursor + 12 < _; omega)
  have nextOff : checkedAddUsize cursor afterSources.toNat = some (cursor + d.size) := by
    rw [total, size]
    exact checkedAddUsize_of_lt (by omega)
  have inside : ¬ sec.body.length < cursor + 12 := by omega
  have inside' : ¬ sec.body.length < cursor + d.size := by omega
  change sec.body.get cursor (cursor + 12) = some header at taken
  simp only [captureIterNext, found, headerEnd, if_neg inside, taken, types, sources, bindings, sum, nextOff, if_neg inside',
    Option.bind_eq_bind, Option.bind_some]
  rfl

theorem captureIterNext_end (found : rt.capture = some sec) : captureIterNext rt sec.body.length = none := by
  have bound := sec.body.length_lt
  have headerEnd : checkedAddUsize sec.body.length captureHeaderSize = some (sec.body.length + 12) :=
    checkedAddUsize_of_lt (by change sec.body.length + 12 < _; omega)
  have past : sec.body.length < sec.body.length + 12 := by omega
  rw [captureIterNext, found, Option.bind_eq_bind, Option.bind_some, headerEnd, Option.bind_eq_bind, Option.bind_some,
    if_pos past]

theorem captureOffset_succ {ds : List CaptureData} {i : Nat} {d : CaptureData} (at? : ds[i]? = some d) :
    captureOffset ds (i + 1) = captureOffset ds i + d.size := by
  rw [captureOffset, List.take_add_one, at?, Option.toList_some, List.map_append, List.sum_append, captureOffset,
    List.map_singleton, List.sum_singleton]

theorem captureOffset_mono (ds : List CaptureData) {i j : Nat} (before : i ≤ j) :
    captureOffset ds i ≤ captureOffset ds j := by
  induction before with
  | refl => exact Nat.le_refl _
  | step _ ih =>
    refine Nat.le_trans ih ?_
    rw [captureOffset, captureOffset, List.take_add_one, List.map_append, List.sum_append]
    exact Nat.le_add_right _ _

theorem bindingsAddress_row {ds : List CaptureData} {i : Nat} {d : CaptureData} (at? : ds[i]? = some d) (va : U64) :
    (d.row (va + BitVec.ofNat 64 (captureOffset ds i))).bindingsAddress =
      va + BitVec.ofNat 64 (captureOffset ds (i + 1)) := by
  have types : d.types.setWidth 64 * captureTypeRecordSize = BitVec.ofNat 64 (d.types.toNat * 4) := by
    rw [← BitVec.ofNat_toNat, BitVec.ofNat_mul]
    rfl
  have sources : d.sources.setWidth 64 * metadataSourceRecordSize = BitVec.ofNat 64 (d.sources.toNat * 8) := by
    rw [← BitVec.ofNat_toNat, BitVec.ofNat_mul]
    rfl
  simp only [CaptureDescriptor.bindingsAddress, CaptureDescriptor.metadataSourcesAddress,
    CaptureDescriptor.captureTypesAddress, CaptureData.row, types, sources, add_ofNat_add]
  have size : captureOffset ds i + captureHeaderSize + d.types.toNat * 4 + d.sources.toNat * 8 =
      captureOffset ds (i + 1) := by
    rw [captureOffset_succ at?, CaptureData.size, captureHeaderSize]
    omega
  rw [size]

theorem CaptureData.encode_length (d : CaptureData) (plain : d.bindings = 0) : d.encode.length = d.size := by
  rw [encode, d.unbound plain, List.append_nil, List.length_append, encodeWords_length, d.sized, size]
  simp only [List.length_cons, List.length_nil]
  omega

theorem encode_before {ds : List CaptureData} {i : Nat} (plain : ∀ d ∈ ds.take i, d.bindings = 0) :
    ((ds.take i).flatMap CaptureData.encode).length = captureOffset ds i := by
  rw [List.length_flatMap, captureOffset]
  exact congrArg List.sum (List.map_congr_left fun d member => d.encode_length (plain d member))

theorem captureIterNext_at (found : rt.capture = some sec) {ds : List CaptureData}
    (body : sec.body.bytes = ds.flatMap CaptureData.encode) {i : Nat} {d : CaptureData} (at? : ds[i]? = some d)
    (plain : ∀ e ∈ ds.take i, e.bindings = 0) :
    captureIterNext rt (captureOffset ds i) = some (d.row (sec.vmaddr + BitVec.ofNat 64 (captureOffset ds i)),
      if d.bindings ≠ 0 then sec.body.length else captureOffset ds (i + 1)) := by
  have whole : sec.body.Holds 0 (ds.flatMap CaptureData.encode) := Slice.holds_of_bytes body
  have stands := whole.item at?
  rw [Nat.zero_add, encode_before plain] at stands
  rw [captureIterNext_of_holds found stands.left, captureOffset_succ at?]

theorem captureRows_getElem? {va : U64} {ds : List CaptureData} {i : Nat} {row : CaptureDescriptor}
    (at? : (captureRows va ds)[i]? = some row) :
    ∃ d, ds[i]? = some d ∧ row = d.row (va + BitVec.ofNat 64 (captureOffset ds i)) := by
  rw [captureRows, List.getElem?_mapIdx, Option.map_eq_some_iff] at at?
  rcases at? with ⟨d, given, rfl⟩
  exact ⟨d, given, rfl⟩

theorem captureRows_length (va : U64) (ds : List CaptureData) : (captureRows va ds).length = ds.length := by
  rw [captureRows, List.length_mapIdx]

theorem captureRows_take {va : U64} {ds : List CaptureData} {i m : Nat} (at? : (captureRows va (ds.take m))[i]? = some row) :
    ∃ d, i < m ∧ ds[i]? = some d ∧ row = d.row (va + BitVec.ofNat 64 (captureOffset ds i)) := by
  rcases captureRows_getElem? at? with ⟨d, given, same⟩
  have inside := (List.getElem?_eq_some_iff.mp given).1
  rw [List.length_take] at inside
  have early : i < m := by omega
  rw [List.getElem?_take_of_lt early] at given
  have place : captureOffset (ds.take m) i = captureOffset ds i := by
    rw [captureOffset, List.take_take, Nat.min_eq_left (Nat.le_of_lt early), captureOffset]
  rw [place] at same
  exact ⟨d, early, given, same⟩

theorem captureDescriptors_plain (found : rt.capture = some sec) {ds : List CaptureData}
    (body : sec.body.bytes = ds.flatMap CaptureData.encode) (plain : ∀ d ∈ ds, d.bindings = 0) {fuel : Nat}
    (enough : ds.length < fuel) : captureDescriptors rt fuel = some (captureRows sec.vmaddr ds) := by
  have before (i : Nat) : ∀ d ∈ ds.take i, d.bindings = 0 := fun d member => plain d (List.mem_of_mem_take member)
  have long : sec.body.length = captureOffset ds ds.length := by
    have size := encode_before (before ds.length)
    rw [List.take_length] at size
    exact (congrArg List.length body).trans size
  have stop := captureIterNext_end found
  rw [long, ← captureRows_length sec.vmaddr ds] at stop
  have enough' : (captureRows sec.vmaddr ds).length < fuel := by rwa [captureRows_length]
  have all := @collect_yields _ _ (captureIterNext rt) _ id _ (captureOffset ds) ?_ stop fuel enough'
  · rwa [List.map_id_fun, Option.map_id_fun] at all
  · intro i row at?
    rcases captureRows_getElem? at? with ⟨d, given, rfl⟩
    have turn := captureIterNext_at found body given (before i)
    rw [if_neg (not_not_intro (plain d (List.mem_of_getElem? given)))] at turn
    exact ⟨_, turn, rfl⟩

/-- At the first descriptor with bindings the cursor jumps to the end of the body, whatever stands there. -/
theorem captureDescriptors_bound (found : rt.capture = some sec) {ds : List CaptureData}
    (body : sec.body.bytes = ds.flatMap CaptureData.encode) {k : Nat} {d : CaptureData} (at? : ds[k]? = some d)
    (bound : d.bindings ≠ 0) (plain : ∀ e ∈ ds.take k, e.bindings = 0) {fuel : Nat} (enough : k + 1 < fuel) :
    captureDescriptors rt fuel = some (captureRows sec.vmaddr (ds.take (k + 1))) := by
  have below : k < ds.length := (List.getElem?_eq_some_iff.mp at?).1
  have count : (captureRows sec.vmaddr (ds.take (k + 1))).length = k + 1 := by
    rw [captureRows_length, List.length_take]
    omega
  have stop := captureIterNext_end found
  let state (i : Nat) : Nat := if i ≤ k then captureOffset ds i else sec.body.length
  have last : state (captureRows sec.vmaddr (ds.take (k + 1))).length = sec.body.length := by
    rw [count]
    exact if_neg (by omega)
  rw [← last] at stop
  have enough' : (captureRows sec.vmaddr (ds.take (k + 1))).length < fuel := by rwa [count]
  have all := @collect_yields _ _ (captureIterNext rt) _ id _ state ?_ stop fuel enough'
  · rwa [List.map_id_fun, Option.map_id_fun] at all
  · intro i row here
    rcases captureRows_take here with ⟨e, early, given, rfl⟩
    have before : ∀ e ∈ ds.take i, e.bindings = 0 := fun e member =>
      plain e (List.take_subset_take_left ds (by omega : i ≤ k) member)
    have turn := captureIterNext_at found body given before
    have start : state i = captureOffset ds i := if_pos (by omega)
    rw [start]
    refine ⟨_, turn.trans ?_, rfl⟩
    by_cases final : i = k
    · subst final
      rw [at?] at given
      cases given
      have jumped : state (i + 1) = sec.body.length := if_neg (by omega)
      rw [if_pos bound, jumped]
      rfl
    · have member : e ∈ ds.take k := List.mem_iff_getElem?.mpr ⟨i, by rwa [List.getElem?_take_of_lt (by omega)]⟩
      have none : e.bindings = 0 := plain e member
      have moved : state (i + 1) = captureOffset ds (i + 1) := if_pos (by omega)
      rw [if_neg (not_not_intro none), moved]
      rfl

theorem captureHeader_before (found : rt.capture = some sec) {ds : List CaptureData}
    (body : sec.body.bytes = ds.flatMap CaptureData.encode) {k i : Nat} (plain : ∀ e ∈ ds.take k, e.bindings = 0)
    (at? : (captureRows sec.vmaddr (ds.take (k + 1)))[i]? = some row) :
    HeaderAt sec (captureOffset ds i) row ∧ captureOffset ds i + captureHeaderSize ≤ captureOffset ds (k + 1) := by
  rcases captureRows_take at? with ⟨d, early, given, rfl⟩
  have turn := captureIterNext_at found body given fun e member =>
    plain e (List.take_subset_take_left ds (by omega : i ≤ k) member)
  have last := captureOffset_mono ds (by omega : i + 1 ≤ k + 1)
  have size : d.size = captureHeaderSize + 4 * d.types.toNat + 8 * d.sources.toNat := rfl
  rw [captureOffset_succ given] at last
  exact ⟨(captureIterNext_some found turn).1, by omega⟩

/-- The rows come from headers that stand one behind the other, from the cursor on. -/
theorem captureHeaders (found : rt.capture = some sec) {fuel : Nat} {rows : List CaptureDescriptor}
    (done : collect (captureIterNext rt) fuel cursor = some rows) :
    ∃ offs : List Nat, List.Forall₂ (HeaderAt sec) offs rows ∧ Spaced captureHeaderSize offs ∧
      ∀ off ∈ offs, cursor ≤ off := by
  induction fuel generalizing cursor rows with
  | zero => cases done
  | succ fuel ih =>
    cases turn : captureIterNext rt cursor with
    | none =>
      rw [collect_stop turn] at done
      cases done
      exact ⟨[], .nil, .nil, fun off member => nomatch member⟩
    | some pair =>
      rcases pair with ⟨row, next⟩
      rw [collect_step turn] at done
      rcases Option.map_eq_some_iff.mp done with ⟨rest, later, rfl⟩
      rcases captureIterNext_some found turn with ⟨header, forward, -⟩
      rcases ih later with ⟨offs, stand, apart, behind⟩
      refine ⟨cursor :: offs, .cons header stand, List.pairwise_cons.mpr ⟨fun off member => ?_, apart⟩, ?_⟩
      · exact Nat.le_trans forward (behind off member)
      · intro off member
        rcases List.mem_cons.mp member with rfl | member
        · exact Nat.le_refl _
        · exact Nat.le_trans (Nat.le_trans (Nat.le_add_right _ _) forward) (behind off member)

theorem captureDescriptors_returns (rt : SwiftRuntime) (found : rt.capture = some sec) :
    Returns (captureDescriptors rt) := by
  refine @cursor_returns _ (captureIterNext rt) sec.body.length ?_ 0
  intro cursor row next turn
  rcases captureIterNext_some found turn with ⟨-, forward, within⟩
  exact ⟨Nat.lt_of_lt_of_le (Nat.lt_add_of_pos_right (by decide)) forward, within⟩

end

/-- Descriptors laid back to back over the section are listed one by one up to the first with bindings, of which nothing is
    read, and the tables of each end where the next one starts; and whatever the body is, the walk ends, and its rows come
    from headers that do not meet. -/
theorem captureDescriptors_tile (rt : SwiftRuntime) (sec : MappedSection) (found : rt.capture = some sec) :
    (∀ ds : List CaptureData, sec.body.bytes = ds.flatMap CaptureData.encode →
      ((∀ d ∈ ds, d.bindings = 0) →
        ∀ fuel, ds.length < fuel → captureDescriptors rt fuel = some (captureRows sec.vmaddr ds)) ∧
      (∀ k d, ds[k]? = some d → d.bindings ≠ 0 → (∀ e ∈ ds.take k, e.bindings = 0) →
        (∀ fuel, k + 1 < fuel → captureDescriptors rt fuel = some (captureRows sec.vmaddr (ds.take (k + 1)))) ∧
        ∀ i row, (captureRows sec.vmaddr (ds.take (k + 1)))[i]? = some row →
          HeaderAt sec (captureOffset ds i) row ∧ captureOffset ds i + captureHeaderSize ≤ captureOffset ds (k + 1)) ∧
      ∀ i row, (captureRows sec.vmaddr ds)[i]? = some row →
        row.bindingsAddress = sec.vmaddr + BitVec.ofNat 64 (captureOffset ds (i + 1))) ∧
    Returns (captureDescriptors rt) ∧
    ∀ fuel rows, captureDescriptors rt fuel = some rows →
      ∃ offs : List Nat, List.Forall₂ (HeaderAt sec) offs rows ∧ Spaced captureHeaderSize offs := by
  refine ⟨fun ds body => ⟨?_, ?_, ?_⟩, captureDescriptors_returns rt found, ?_⟩
  · intro plain fuel enough
    exact captureDescriptors_plain found body plain enough
  · intro k d at? bound plain
    refine ⟨fun fuel enough => captureDescriptors_bound found body at? bound plain enough, fun i row yielded => ?_⟩
    exact captureHeader_before found body plain yielded
  · intro i row at?
    rcases captureRows_getElem? at? with ⟨d, given, rfl⟩
    exact bindingsAddress_row given sec.vmaddr
  · intro fuel rows done
    rcases captureHeaders found done with ⟨offs, stand, apart, -⟩
    exact ⟨offs, stand, apart⟩

/-- A closure that captures one value, and one with a binding, of four bytes, that no row is taken from. -/
def sampleCaptures : List CaptureData :=
  [⟨1, 0, 0, [1, 2, 3, 4], [], by decide, by decide⟩, ⟨0, 0, 1, [], [5, 6, 7, 8], by decide, by decide⟩]

def sampleCaptureSection : MappedSection := ⟨⟨0, sampleCaptures.flatMap CaptureData.encode, by decide⟩, 0x1000⟩

def sampleCaptureRuntime : SwiftRuntime :=
  ⟨⟨sampleCaptureSection.body, []⟩, none, none, none, none, none, none, some sampleCaptureSection, none, none, none, none,
    none, none, none, fun _ => none, fun _ => none⟩

theorem captureDescriptors_tile_sample :
    captureDescriptors sampleCaptureRuntime 3 = some [⟨0x1000, 1, 0, 0⟩, ⟨0x1010, 0, 0, 1⟩] :=
  (((captureDescriptors_tile sampleCaptureRuntime sampleCaptureSection rfl).1 sampleCaptures rfl).2.1 1
    ⟨0, 0, 1, [], [5, 6, 7, 8], by decide, by decide⟩ rfl (by decide) (by decide)).1 3 (by decide)

end DarwinScope.Swift
