import DarwinScope.Machine.Layout
import DarwinScope.Swift.Fields

namespace DarwinScope.Swift

open Machine

structure DynamicReplacementScope where
  address : U64
  scopeVa : U64
  flags : U32
deriving DecidableEq

/-- The state of the walk over `__swift5_replac`. The header is read in the first turn. -/
structure ReplacementIter where
  cursor : Nat
  total : U32
  consumed : U32
  headerDone : Bool

namespace ReplacementIter

def new : ReplacementIter := ⟨0, 0, 0, false⟩

def readHeader (body : Slice) (it : ReplacementIter) : Option ReplacementIter :=
  if it.headerDone then some it
  else do
    let header ← body.get 0 8
    let numScopes ← readU32LeAt header 4
    some { it with total := numScopes, cursor := 8, headerDone := true }

def next (rt : SwiftRuntime) (it : ReplacementIter) : Option (DynamicReplacementScope × ReplacementIter) := do
  let sec ← rt.replac
  let it ← it.readHeader sec.body
  if it.total ≤ it.consumed then none
  else do
    let entryEnd ← checkedAddUsize it.cursor 8
    if sec.body.length < entryEnd then none
    else do
      let bytes ← sec.body.get it.cursor entryEnd
      let scopeRel ← readI32LeAt bytes 0
      let flags ← readU32LeAt bytes 4
      let consumed ← checkedAdd it.consumed 1
      let entryVa := sec.vmaddr + BitVec.ofNat 64 it.cursor
      some (⟨entryVa, relativeTarget entryVa scopeRel, flags⟩, { it with cursor := entryEnd, consumed := consumed })

def behind (total : U32) (i : Nat) : ReplacementIter := ⟨8 + 8 * i, total, BitVec.ofNat 32 i, true⟩

end ReplacementIter

def scopeAt (sec : MappedSection) (i : Nat) : Option DynamicReplacementScope := do
  let scopeRel ← readI32LeAt sec.body (8 + 8 * i)
  let flags ← readU32LeAt sec.body (8 + 8 * i + 4)
  let entryVa := sec.vmaddr + BitVec.ofNat 64 (8 + 8 * i)
  some ⟨entryVa, relativeTarget entryVa scopeRel, flags⟩

/-- The number of entries that the header announces, as far as whole entries are there. -/
def scopeCount (sec : MappedSection) : Nat :=
  min ((readU32LeAt sec.body 4).map BitVec.toNat |>.getD 0) ((sec.body.length - 8) / 8)

section

variable {rt : SwiftRuntime} {sec : MappedSection} {total : U32} {i : Nat}

theorem word_at {data : Slice} {off : Nat} (inside : off + 4 ≤ data.length) : ∃ word, readU32LeAt data off = some word :=
  Option.isSome_iff_exists.mp (readAt_isSome.mpr inside)

theorem scopeAt_of_inside (inside : 8 + 8 * i + 8 ≤ sec.body.length) : ∃ row, scopeAt sec i = some row := by
  rcases @word_at sec.body (8 + 8 * i) (by omega) with ⟨rel, first⟩
  rcases @word_at sec.body (8 + 8 * i + 4) (by omega) with ⟨flags, second⟩
  have offset : readI32LeAt sec.body (8 + 8 * i) = some rel := first
  simp [scopeAt, offset, second]

theorem next_step (found : rt.replac = some sec) (early : i < total.toNat) (inside : 8 + 8 * i + 8 ≤ sec.body.length) :
    ∃ row, scopeAt sec i = some row ∧
      ReplacementIter.next rt (.behind total i) = some (row, .behind total (i + 1)) := by
  have bound := sec.body.length_lt
  have small := total.isLt
  rcases scopeAt_of_inside inside with ⟨row, here⟩
  refine ⟨row, here, ?_⟩
  have more : ¬total ≤ BitVec.ofNat 32 i := by
    rw [BitVec.le_def, toNat_ofNat_of_lt (by omega)]
    omega
  have stop : checkedAddUsize (8 + 8 * i) 8 = some (8 + 8 * (i + 1)) := by
    rw [checkedAddUsize_of_lt (by omega), Nat.mul_succ, Nat.add_assoc]
  have count : checkedAdd (BitVec.ofNat 32 i) 1 = some (BitVec.ofNat 32 (i + 1)) := by
    rw [BitVec.ofNat_add]
    exact @checkedAdd_ofNat 32 (BitVec.ofNat 32 i) 1 (by rw [toNat_ofNat_of_lt (by omega)]; omega)
  have within : ¬sec.body.length < 8 + 8 * (i + 1) := by omega
  rcases Option.isSome_iff_exists.mp (Slice.get_isSome.mpr (by omega : 8 + 8 * i ≤ 8 + 8 * i + 8 ∧
    8 + 8 * i + 8 ≤ sec.body.length)) with ⟨bytes, taken⟩
  have rel : readI32LeAt bytes 0 = readI32LeAt sec.body (8 + 8 * i) := readAt_part taken (by decide)
  have flags : readU32LeAt bytes 4 = readU32LeAt sec.body (8 + 8 * i + 4) := readAt_part taken (by decide)
  rw [Nat.add_assoc, ← Nat.mul_succ] at taken
  unfold scopeAt at here
  simp only [Option.bind_eq_bind, Option.bind_eq_some_iff] at here
  rcases here with ⟨scopeRel, first, flagsRaw, second, same⟩
  cases same
  simp only [ReplacementIter.next, found, ReplacementIter.readHeader, ReplacementIter.behind, if_true, if_neg more, stop,
    if_neg within, taken, rel, first, flags, second, count, Option.bind_eq_bind, Option.bind_some]

theorem next_end (found : rt.replac = some sec) (past : i = total.toNat ∨ sec.body.length < 8 + 8 * i + 8) :
    ReplacementIter.next rt (.behind total i) = none := by
  have small := total.isLt
  simp only [ReplacementIter.next, found, ReplacementIter.readHeader, ReplacementIter.behind, if_true, Option.bind_eq_bind,
    Option.bind_some]
  split
  · rfl
  rcases past with last | short
  · rename_i more
    rw [last, BitVec.ofNat_toNat, BitVec.setWidth_eq] at more
    exact absurd (BitVec.le_refl total) more
  · cases stop : checkedAddUsize (8 + 8 * i) 8 with
    | none => rfl
    | some entryEnd =>
      rw [checkedAddUsize_some stop, Option.bind_some, if_pos short]

theorem next_new (found : rt.replac = some sec) :
    ReplacementIter.next rt .new = if sec.body.length < 8 then none
      else ReplacementIter.next rt (.behind ((readU32LeAt sec.body 4).getD 0) 0) := by
  split
  · rename_i short
    simp only [ReplacementIter.next, found, ReplacementIter.readHeader, ReplacementIter.new, Slice.get_of_lt short,
      Bool.false_eq_true, if_false, Option.bind_eq_bind, Option.bind_some, Option.bind_none]
  · rename_i long
    rcases @word_at sec.body 4 (by omega) with ⟨numScopes, word⟩
    rcases Option.isSome_iff_exists.mp (Slice.get_isSome.mpr (by omega : 0 ≤ 8 ∧ 8 ≤ sec.body.length)) with ⟨header, taken⟩
    have read : readU32LeAt header 4 = readU32LeAt sec.body (0 + 4) :=
      @readAt_part _ 32 4 sec.body header 0 8 4 taken (by decide)
    rw [Nat.zero_add] at read
    simp only [ReplacementIter.next, found, ReplacementIter.readHeader, ReplacementIter.new, ReplacementIter.behind,
      taken, read, word, Bool.false_eq_true, if_false, if_true, Option.getD_some, Option.bind_eq_bind, Option.bind_some]
    rfl

end

/-- The walk over the dynamic replacements hands out one row for each entry that the header announces and the section
    has room for, in order, and then ends: neither a lying count nor a cut section changes the rows before. -/
theorem replacements_exact (rt : SwiftRuntime) :
    ∃ rows, rows.length = (rt.replac.map scopeCount).getD 0 ∧
      (∀ sec ∈ rt.replac, ∀ i < rows.length, rows[i]? = scopeAt sec i) ∧
      ∀ fuel, rows.length < fuel → collect (ReplacementIter.next rt) fuel .new = some rows := by
  cases found : rt.replac with
  | none =>
    refine ⟨[], rfl, ?_, fun fuel enough => ?_⟩
    · intro sec absent
      cases absent
    obtain ⟨fuel, rfl⟩ : ∃ n, fuel = n + 1 := ⟨fuel - 1, by simp at enough; omega⟩
    exact collect_stop (by simp only [ReplacementIter.next, found, Option.bind_eq_bind, Option.bind_none]) fuel
  | some sec =>
    let total := (readU32LeAt sec.body 4).getD 0
    let rows := (List.range (scopeCount sec)).map fun i => (scopeAt sec i).getD ⟨0, 0, 0⟩
    have length : rows.length = scopeCount sec := by simp [rows]
    have announced : scopeCount sec ≤ total.toNat := by
      have least := Nat.min_le_left ((readU32LeAt sec.body 4).map BitVec.toNat |>.getD 0) ((sec.body.length - 8) / 8)
      refine least.trans (Nat.le_of_eq ?_)
      unfold total
      cases readU32LeAt sec.body 4 <;> rfl
    have fitting : scopeCount sec ≤ (sec.body.length - 8) / 8 := Nat.min_le_right _ _
    have each : ∀ i < scopeCount sec, ∃ row, rows[i]? = some row ∧ scopeAt sec i = some row := by
      intro i early
      rcases @scopeAt_of_inside sec i (by omega) with ⟨row, here⟩
      exact ⟨row, by simp [rows, early, here], here⟩
    refine ⟨rows, length, ?_, ?_⟩
    · intro other same i early
      cases same
      rcases each i (by omega) with ⟨row, listed, here⟩
      rw [listed, here]
    · intro fuel enough
      by_cases short : sec.body.length < 8
      · have none : scopeCount sec = 0 := by omega
        obtain ⟨fuel, rfl⟩ : ∃ n, fuel = n + 1 := ⟨fuel - 1, by omega⟩
        rw [List.length_eq_zero_iff.mp (length.trans none)]
        exact collect_stop (by rw [next_new found, if_pos short]) fuel
      · rw [collect_congr ((next_new found).trans (if_neg short))]
        have walk := @collect_yields _ _ (ReplacementIter.next rt) _ id rows (ReplacementIter.behind total) ?_ ?_ fuel enough
        · rwa [List.map_id_fun, Option.map_id_fun] at walk
        · intro i row listed
          have early : i < scopeCount sec := length ▸ (List.getElem?_eq_some_iff.mp listed).1
          rcases @next_step rt sec total i found (by omega) (by omega) with ⟨found, here, turn⟩
          rcases each i early with ⟨same, given, there⟩
          rw [listed] at given
          rw [there] at here
          cases given
          cases here
          exact ⟨_, turn, rfl⟩
        · rw [length]
          apply next_end found
          unfold total scopeCount
          rcases @word_at sec.body 4 (by omega) with ⟨numScopes, word⟩
          rw [word]
          simp only [Option.map_some, Option.getD_some]
          omega

end DarwinScope.Swift
