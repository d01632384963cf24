import Mathlib.Data.List.Basic
import DarwinScope.Machine.Text

namespace Machine

section

variable {α : Type} {separator : α} {x y u v : List α}

theorem split_at (clean : separator ∉ x) (clean' : separator ∉ y) (begins : ∀ a ∈ u.head?, a = separator)
    (begins' : ∀ a ∈ v.head?, a = separator) (same : x ++ u = y ++ v) : x = y ∧ u = v := by
  induction x generalizing y with
  | nil =>
    cases y with
    | nil => exact ⟨rfl, same⟩
    | cons b y =>
      rw [List.nil_append] at same
      have first := begins b (by rw [same]; rfl)
      exact absurd (by rw [first]; exact List.mem_cons_self ..) clean'
  | cons a x ih =>
    cases y with
    | nil =>
      rw [List.nil_append] at same
      have first := begins' a (by rw [← same]; rfl)
      exact absurd (by rw [first]; exact List.mem_cons_self ..) clean
    | cons b y =>
      rw [List.cons_append, List.cons_append, List.cons.injEq] at same
      rcases ih (fun member => clean (List.mem_cons_of_mem _ member)) (fun member => clean' (List.mem_cons_of_mem _ member))
        same.2 with ⟨rfl, rest⟩
      exact ⟨by rw [same.1], rest⟩

theorem separated_head (separator : α) (fields : List (List α)) :
    ∀ a ∈ (fields.flatMap (separator :: ·)).head?, a = separator := by
  intro a head
  cases fields with
  | nil => cases head
  | cons field fields =>
    cases head
    rfl

theorem separated_inj {fields fields' : List (List α)} (clean : ∀ field ∈ fields, separator ∉ field)
    (clean' : ∀ field ∈ fields', separator ∉ field)
    (same : fields.flatMap (separator :: ·) = fields'.flatMap (separator :: ·)) : fields = fields' := by
  induction fields generalizing fields' with
  | nil =>
    cases fields' with
    | nil => rfl
    | cons field fields' => cases same
  | cons field fields ih =>
    cases fields' with
    | nil => cases same
    | cons field' fields' =>
      rw [List.flatMap_cons, List.flatMap_cons, List.cons_append, List.cons_append, List.cons.injEq] at same
      rcases split_at (clean field (List.mem_cons_self ..)) (clean' field' (List.mem_cons_self ..))
        (separated_head separator fields) (separated_head separator fields') same.2 with ⟨rfl, rest⟩
      rw [ih (fun f member => clean f (List.mem_cons_of_mem _ member))
        (fun f member => clean' f (List.mem_cons_of_mem _ member)) rest]

end

theorem digit_char {n : Nat} {c : Char} (digit : c ∈ Nat.toDigits 10 n) : 48 ≤ c.toNat ∧ c.toNat ≤ 57 :=
  Char.isDigit_iff_toNat.mp (Nat.isDigit_of_mem_toDigits (by decide) (Nat.le_refl 10) digit)

theorem decimal_digit {n : Nat} {byte : U8} (member : byte ∈ decimal n) : 48 ≤ byte.toNat ∧ byte.toNat ≤ 57 := by
  rw [decimal, List.mem_map] at member
  rcases member with ⟨c, digit, rfl⟩
  have range := digit_char digit
  rw [BitVec.toNat_ofNat]
  omega

theorem decimal_injective : Function.Injective decimal := by
  intro m n same
  have digits : ∀ k, (decimal k).map (fun byte => Char.ofNat byte.toNat) = Nat.toDigits 10 k := by
    intro k
    rw [decimal, List.map_map]
    refine (List.map_congr_left fun c digit => ?_).trans (List.map_id _)
    have range := digit_char digit
    rw [Function.comp_apply, toNat_ofNat_of_lt (by omega), Char.ofNat_toNat]
    rfl
  have digits' : Nat.toDigits 10 m = Nat.toDigits 10 n := by rw [← digits, ← digits, same]
  rw [← @Nat.ofDigitChars_ten_toDigits m, digits', Nat.ofDigitChars_ten_toDigits]

end Machine
