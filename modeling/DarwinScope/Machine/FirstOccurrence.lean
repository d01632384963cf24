import Mathlib.Data.List.Nodup

namespace Machine

theorem find?_narrower {β : Type} {wide narrow : β → Bool} {items : List β} {b : β} (found : items.find? wide = some b)
    (narrower : ∀ other ∈ items, narrow other = true → wide other = true) (passes : narrow b = true) :
    items.find? narrow = some b := by
  rcases List.find?_eq_some_iff_append.mp found with ⟨-, before, after, cut, missed⟩
  refine List.find?_eq_some_iff_append.mpr ⟨passes, before, after, cut, ?_⟩
  intro other early
  have missed := missed other early
  by_contra caught
  have wide := narrower other (by rw [cut]; exact List.mem_append_left _ early) (by simpa using caught)
  simp [wide] at missed

variable {α : Type} [DecidableEq α]

theorem nodup_eraseDups : (l : List α) → l.eraseDups.Nodup
  | [] => List.nodup_nil
  | a :: l => by
    have fresh : a ∉ (l.filter fun b => !b == a).eraseDups := by
      rw [List.mem_eraseDups, List.mem_filter]
      simp
    rw [List.eraseDups_cons]
    exact List.nodup_cons.mpr ⟨fresh, nodup_eraseDups (l.filter fun b => !b == a)⟩
termination_by l => l.length
decreasing_by exact Nat.lt_succ_of_le (List.length_filter_le _ _)

theorem eraseDups_filter (p : α → Bool) : (l : List α) → (l.filter p).eraseDups = l.eraseDups.filter p
  | [] => rfl
  | a :: l => by
    rw [List.eraseDups_cons, List.filter_cons, List.filter_cons, ← eraseDups_filter p (l.filter fun b => !b == a)]
    split
    · rw [List.eraseDups_cons, List.filter_comm]
    · rename_i out
      congr 1
      rw [List.filter_filter]
      apply List.filter_congr
      intro b _
      by_cases same : b = a
      · rw [same]
        simp [out]
      · simp [same]
termination_by l => l.length
decreasing_by exact Nat.lt_succ_of_le (List.length_filter_le _ _)

/-- Going through a list and taking what is new to the end of what is there gives the first occurrences in order. -/
theorem foldl_append_new (l seen : List α) :
    l.foldl (fun seen a => if a ∈ seen then seen else seen ++ [a]) seen = seen ++ (l.filter (· ∉ seen)).eraseDups := by
  induction l generalizing seen with
  | nil => simp
  | cons a l ih =>
    rw [List.foldl_cons, ih]
    by_cases known : a ∈ seen
    · rw [if_pos known, List.filter_cons_of_neg (by simpa using known)]
    · rw [if_neg known, List.filter_cons_of_pos (by simpa using known), List.eraseDups_cons, List.append_assoc,
        List.singleton_append, List.filter_filter]
      congr 3
      apply List.filter_congr
      intro b _
      by_cases same : b = a
      · rw [same]
        simp
      · simp [same]

end Machine
