import Mathlib.Algebra.GroupWithZero.Nat
import Mathlib.Data.List.Nodup
import Mathlib.Data.List.Perm.Subperm
import Mathlib.Data.Nat.Basic

namespace Machine

def cells (size stride : Nat) : Nat := (size + stride - 1) / stride

/-- Each number is at least `stride` larger than every one before it. -/
def Spaced (stride : Nat) (offsets : List Nat) : Prop := offsets.Pairwise fun a b => a + stride ≤ b

variable {stride size : Nat} {offsets : List Nat}

theorem Spaced.ascending (positive : 0 < stride) (spaced : Spaced stride offsets) : offsets.Pairwise (· < ·) :=
  List.Pairwise.imp (fun {a b} apart => by omega) spaced

theorem Spaced.cells_ascending (positive : 0 < stride) (spaced : Spaced stride offsets) :
    offsets.Pairwise fun a b => a / stride < b / stride := by
  refine List.Pairwise.imp ?_ spaced
  intro a b apart
  calc a / stride < a / stride + 1 := Nat.lt_succ_self _
    _ = (a + stride) / stride := (Nat.add_div_right a positive).symm
    _ ≤ b / stride := Nat.div_le_div_right apart

theorem cell_lt (positive : 0 < stride) {off : Nat} (inside : off < size) : off / stride < cells size stride := by
  unfold cells
  rw [Nat.div_lt_iff_lt_mul positive]
  have whole := Nat.lt_div_mul_add (a := size + stride - 1) positive
  omega

theorem length_le_cells (positive : 0 < stride) (inside : ∀ off ∈ offsets, off < size)
    (ascending : offsets.Pairwise fun a b => a / stride < b / stride) : offsets.length ≤ cells size stride := by
  have distinct : (offsets.map (· / stride)).Nodup := by
    rw [List.nodup_iff_pairwise_ne, List.pairwise_map]
    exact List.Pairwise.imp (fun less => Nat.ne_of_lt less) ascending
  have below : offsets.map (· / stride) ⊆ List.range (cells size stride) := by
    intro cell member
    obtain ⟨off, found, rfl⟩ := List.mem_map.mp member
    exact List.mem_range.mpr (cell_lt positive (inside off found))
  have count := (List.subperm_of_subset distinct below).length_le
  rwa [List.length_map, List.length_range] at count

theorem cell_lt_of_block {a b limit : Nat} (positive : 0 < stride) (whole : stride ∣ limit) (before : a < limit)
    (after : limit ≤ b) : a / stride < b / stride := by
  obtain ⟨count, rfl⟩ := whole
  have low : a / stride < count := Nat.div_lt_of_lt_mul before
  have high : count ≤ b / stride := (Nat.le_div_iff_mul_le positive).mpr (by rwa [Nat.mul_comm])
  exact Nat.lt_of_lt_of_le low high

theorem countP_flatMap_key {α β κ : Type} [DecidableEq κ] {blocks : List α} {block : α → List β} {key : α → κ}
    {keyOf : β → κ} (keyed : ∀ a, ∀ b ∈ block a, keyOf b = key a)
    (distinct : blocks.Pairwise fun a later => key a ≠ key later) {a : α} (member : a ∈ blocks) :
    (blocks.flatMap block).countP (fun b => keyOf b = key a) = (block a).length := by
  have whole : ∀ x, key x = key a → (block x).countP (fun b => keyOf b = key a) = (block x).length := by
    intro x same
    rw [List.countP_eq_length]
    intro b inside
    exact decide_eq_true ((keyed x b inside).trans same)
  have none : ∀ x, key x ≠ key a → (block x).countP (fun b => keyOf b = key a) = 0 := by
    intro x other
    rw [List.countP_eq_zero]
    intro b inside same
    exact other ((keyed x b inside).symm.trans (of_decide_eq_true same))
  induction blocks with
  | nil => cases member
  | cons first blocks ih =>
    obtain ⟨apart, later⟩ := List.pairwise_cons.mp distinct
    rw [List.flatMap_cons, List.countP_append]
    rcases List.mem_cons.mp member with rfl | member
    · have rest : (blocks.flatMap block).countP (fun b => keyOf b = key a) = 0 := by
        rw [List.countP_eq_zero]
        intro b inside same
        obtain ⟨x, found, inside⟩ := List.mem_flatMap.mp inside
        exact apart x found ((of_decide_eq_true same).symm.trans (keyed x b inside))
      rw [whole a rfl, rest, Nat.add_zero]
    · rw [none first (apart a member), ih later member, Nat.zero_add]

theorem row_fits_iff {start stop : Nat} (positive : 0 < stride) (i : Nat) :
    start + (i + 1) * stride ≤ stop ↔ i < (stop - start) / stride := by
  have some : 0 < (i + 1) * stride := Nat.mul_pos (Nat.succ_pos i) positive
  rw [Nat.lt_iff_add_one_le, Nat.le_div_iff_mul_le positive]
  omega

theorem forall_lt_min_iff {n a b : Nat} : (∀ i < n, i < a → i < b) ↔ min n a ≤ b := by
  constructor
  · intro each
    refine Nat.le_of_not_lt fun more => ?_
    have last := each b (by omega) (by omega)
    omega
  · intro few i low high
    omega

/-- Numbers that are spaced and all lie in some window are no more than the windows have cells. -/
theorem length_le_windows (positive : 0 < stride) {windows : List (Nat × Nat)} (spaced : Spaced stride offsets)
    (inside : ∀ off ∈ offsets, ∃ w ∈ windows, w.1 ≤ off ∧ off < w.1 + w.2) :
    offsets.length ≤ (windows.map fun w => cells w.2 stride).sum := by
  induction windows generalizing offsets with
  | nil =>
    have none : offsets = [] := by
      apply List.eq_nil_iff_forall_not_mem.mpr
      intro off member
      rcases inside off member with ⟨w, listed, -⟩
      cases listed
    rw [none]
    exact Nat.zero_le _
  | cons w windows ih =>
    let here (off : Nat) : Bool := decide (w.1 ≤ off ∧ off < w.1 + w.2)
    have others : (offsets.filter fun off => !here off).length ≤ (windows.map fun w => cells w.2 stride).sum := by
      apply ih (List.Pairwise.filter _ spaced)
      intro off member
      rcases List.mem_filter.mp member with ⟨listed, outside⟩
      rcases inside off listed with ⟨v, found, low, high⟩
      rcases List.mem_cons.mp found with rfl | found
      · simp [here, low, high] at outside
      · exact ⟨v, found, low, high⟩
    have first : (offsets.filter here).length ≤ cells w.2 stride := by
      have apart : Spaced stride ((offsets.filter here).map (· - w.1)) := by
        rw [Spaced, List.pairwise_map]
        refine List.Pairwise.imp_of_mem ?_ (List.Pairwise.filter here spaced)
        intro a b first second gap
        have low := (of_decide_eq_true (List.mem_filter.mp first).2).1
        omega
      have within : ∀ off ∈ (offsets.filter here).map (· - w.1), off < w.2 := by
        intro off member
        rcases List.mem_map.mp member with ⟨a, listed, rfl⟩
        have both := of_decide_eq_true (List.mem_filter.mp listed).2
        omega
      have count := length_le_cells positive within (apart.cells_ascending positive)
      rwa [List.length_map] at count
    have split := List.length_eq_length_filter_add here (l := offsets)
    rw [List.map_cons, List.sum_cons]
    omega

end Machine
