import DarwinScope.Codesign.DerKeys

namespace DarwinScope.Codesign

open Machine

namespace DerEntitlementValue

mutual

def nodes : DerEntitlementValue → Nat
  | array items => 1 + nodesOf items
  | _ => 1

def nodesOf : List DerEntitlementValue → Nat
  | [] => 0
  | item :: items => item.nodes + nodesOf items

end

mutual

def nesting : DerEntitlementValue → Nat
  | array items => nestingOf items
  | _ => 0

def nestingOf : List DerEntitlementValue → Nat
  | [] => 0
  | item :: items => max (item.nesting + 1) (nestingOf items)

end

mutual

def widest : DerEntitlementValue → Nat
  | array items => max items.length (widestOf items)
  | _ => 0

def widestOf : List DerEntitlementValue → Nat
  | [] => 0
  | item :: items => max item.widest (widestOf items)

end

variable {items : List DerEntitlementValue} {bound : Nat}

theorem nodesOf_take_le (items : List DerEntitlementValue) (count : Nat) : nodesOf (items.take count) ≤ nodesOf items := by
  induction items generalizing count with
  | nil => rw [List.take_nil]
  | cons item items ih =>
    cases count with
    | zero => exact Nat.zero_le _
    | succ count =>
      rw [List.take_succ_cons, nodesOf, nodesOf]
      exact Nat.add_le_add_left (ih count) _

theorem nestingOf_le (each : ∀ item ∈ items, item.nesting + 1 ≤ bound) : nestingOf items ≤ bound := by
  induction items with
  | nil => exact Nat.zero_le _
  | cons item items ih =>
    rw [nestingOf]
    exact Nat.max_le.mpr ⟨each item (List.mem_cons_self ..), ih fun i member => each i (List.mem_cons_of_mem _ member)⟩

theorem widestOf_le (each : ∀ item ∈ items, item.widest ≤ bound) : widestOf items ≤ bound := by
  induction items with
  | nil => exact Nat.zero_le _
  | cons item items ih =>
    rw [widestOf]
    exact Nat.max_le.mpr ⟨each item (List.mem_cons_self ..), ih fun i member => each i (List.mem_cons_of_mem _ member)⟩

theorem nodesOf_filterMap_le {α : Type} {pieces : List α} {size : α → Nat} {read : α → Option DerEntitlementValue}
    (each : ∀ piece ∈ pieces, ∀ v, read piece = some v → 2 * v.nodes ≤ size piece) :
    2 * nodesOf (pieces.filterMap read) ≤ (pieces.map size).sum := by
  induction pieces with
  | nil => exact Nat.zero_le _
  | cons piece pieces ih =>
    have rest := ih fun p member => each p (List.mem_cons_of_mem _ member)
    rw [List.filterMap_cons, List.map_cons, List.sum_cons]
    cases found : read piece with
    | none =>
      dsimp only
      omega
    | some v =>
      have here := each piece (List.mem_cons_self ..) v found
      rw [nodesOf]
      omega

def Leaf (v : DerEntitlementValue) : Prop := v.nodes = 1 ∧ v.nesting = 0 ∧ v.widest = 0

/-- A value that takes no more than half of the bytes it is read from, and keeps to the two limits. -/
structure Bounded (v : DerEntitlementValue) (length levels : Nat) : Prop where
  nodes : 2 * v.nodes ≤ length
  nesting : v.nesting ≤ levels
  widest : v.widest ≤ maxDerArrayItems

theorem Leaf.bounded {v : DerEntitlementValue} {length levels : Nat} (leaf : v.Leaf) (some : 2 ≤ length) :
    v.Bounded length levels := by
  rcases leaf with ⟨nodes, nesting, widest⟩
  exact ⟨by rw [nodes]; exact some, by rw [nesting]; exact Nat.zero_le _, by rw [widest]; exact Nat.zero_le _⟩

end DerEntitlementValue

open DerEntitlementValue

section

variable {buf : Bytes} {item : DerItem}

theorem derItems_sum (buf : Bytes) : ((derItems buf).map fun item => item.whole.length).sum ≤ buf.length := by
  fun_induction derItems buf with
  | case1 => exact Nat.zero_le _
  | case2 => exact Nat.zero_le _
  | case3 buf hdr header inside ih =>
    rw [List.length_drop] at ih
    rw [List.map_cons, List.sum_cons, List.length_take]
    omega

theorem derItems_header (member : item ∈ derItems buf) : item.body.length + 2 ≤ item.whole.length := by
  fun_induction derItems buf with
  | case1 => cases member
  | case2 => cases member
  | case3 buf hdr header inside ih =>
    have passed := derReadHeader_pos header
    rcases List.mem_cons.mp member with rfl | later
    · simp only [List.length_take, List.length_drop, DerHeader.size] at inside ⊢
      omega
    · exact ih later

/-- What a value can be: the mark below the depth limit, a leaf, or the first items of a container. -/
theorem derDecodeValue_cases {depth : Nat} {v : DerEntitlementValue} (decoded : derDecodeValue buf depth = some v) :
    (maxDerValueDepth < depth ∧ v.Leaf) ∨
      depth ≤ maxDerValueDepth ∧ ∃ body : Bytes, body.length + 2 ≤ buf.length ∧
        (v.Leaf ∨
          v = .array (((derItems body).filterMap fun item => derDecodeValue item.whole (depth + 1)).take
            maxDerArrayItems)) := by
  rw [derDecodeValue] at decoded
  split at decoded
  · rename_i deep
    cases decoded
    exact .inl ⟨deep, rfl, rfl, rfl⟩
  · rename_i shallow
    right
    simp only [Option.bind_eq_bind, Option.bind_eq_some_iff] at decoded
    rcases decoded with ⟨hdr, header, body, cut, value⟩
    have passed := derReadHeader_pos header
    have length := derRange_length cut
    have bounds := derRange_some cut
    refine ⟨Nat.le_of_not_lt shallow, body, by omega, ?_⟩
    split at value
    · cases value
      exact .inl ⟨rfl, rfl, rfl⟩
    split at value
    · cases value
      exact .inl ⟨rfl, rfl, rfl⟩
    split at value
    · cases value
      exact .inl ⟨rfl, rfl, rfl⟩
    split at value
    · cases value
      exact .inr rfl
    · cases value
      exact .inl ⟨rfl, rfl, rfl⟩

theorem derDecodeValue_bounded {depth levels : Nat} {v : DerEntitlementValue} (decoded : derDecodeValue buf depth = some v)
    (some : 2 ≤ buf.length) (room : maxDerValueDepth < depth + levels) : v.Bounded buf.length levels := by
  induction levels generalizing buf depth v with
  | zero =>
    rcases derDecodeValue_cases decoded with ⟨-, leaf⟩ | ⟨shallow, -⟩
    · exact leaf.bounded some
    · omega
  | succ levels ih =>
    rcases derDecodeValue_cases decoded with ⟨-, leaf⟩ | ⟨-, body, header, leaf | rfl⟩
    · exact leaf.bounded some
    · exact leaf.bounded some
    · have each : ∀ item ∈ derItems body, ∀ w, derDecodeValue item.whole (depth + 1) = .some w →
          w.Bounded item.whole.length levels := by
        intro item member w found
        have header := derItems_header member
        exact ih found (by omega) (by omega)
      have items : ∀ w ∈ ((derItems body).filterMap fun item => derDecodeValue item.whole (depth + 1)).take maxDerArrayItems,
          ∃ length, w.Bounded length levels := by
        intro w member
        rcases List.mem_filterMap.mp (List.mem_of_mem_take member) with ⟨item, listed, found⟩
        exact ⟨_, each item listed w found⟩
      refine ⟨?_, ?_, ?_⟩
      · have total := nodesOf_filterMap_le fun item member w found => (each item member w found).nodes
        have inside := derItems_sum body
        have first := nodesOf_take_le ((derItems body).filterMap fun item => derDecodeValue item.whole (depth + 1))
          maxDerArrayItems
        rw [nodes]
        omega
      · rw [nesting]
        apply nestingOf_le
        intro w member
        rcases items w member with ⟨length, bounded⟩
        exact Nat.succ_le_succ bounded.nesting
      · rw [widest]
        refine Nat.max_le.mpr ⟨List.length_take_le _ _, widestOf_le fun w member => ?_⟩
        rcases items w member with ⟨length, bounded⟩
        exact bounded.widest

theorem derEntryPair_bounded {seqBody key : Bytes} {v : DerEntitlementValue} (read : derEntryPair seqBody = some (key, v)) :
    v.Bounded seqBody.length (maxDerValueDepth + 1) := by
  simp only [derEntryPair, Option.bind_eq_bind, Option.bind_eq_some_iff] at read
  rcases read with ⟨khdr, header, read⟩
  have passed := derReadHeader_pos header
  split at read
  · cases read
  simp only [Option.bind_eq_some_iff] at read
  rcases read with ⟨kbytes, cut, read⟩
  have bounds := derRange_some cut
  have size : khdr.size = khdr.headerLen + khdr.length := rfl
  split at read
  · cases read
    cases found : (derRange seqBody khdr.size seqBody.length).bind fun rest => derDecodeValue rest 0 with
    | none => exact Leaf.bounded ⟨rfl, rfl, rfl⟩ (by omega)
    | some v =>
      rcases Option.bind_eq_some_iff.mp found with ⟨rest, tail, decoded⟩
      have length := derRange_length tail
      have whole : 2 ≤ rest.length := by
        rcases derDecodeValue_cases decoded with ⟨deep, -⟩ | ⟨-, body, header, -⟩
        · exact absurd deep (by decide)
        · omega
      have bounded := @derDecodeValue_bounded rest 0 (maxDerValueDepth + 1) v decoded whole (by decide)
      have nodes := bounded.nodes
      exact ⟨by rw [Option.getD_some]; omega, bounded.nesting, bounded.widest⟩
  · cases read

end

/-- The values of all pairs together take no more than half of the bytes of the payload, and each keeps to the limits on
    items and on nesting. -/
theorem der_pairs_bounded (e : DerEntitlements) :
    2 * nodesOf (e.pairs.map Prod.snd) ≤ e.payload.length ∧
      ∀ pair ∈ e.pairs, pair.2.widest ≤ maxDerArrayItems ∧ pair.2.nesting ≤ maxDerValueDepth + 1 := by
  have each : ∀ item ∈ derItems (derEntries e.payload.bytes), ∀ pair,
      (if item.tag = 0x30 then derEntryPair item.body else none) = some pair →
        pair.2.Bounded item.whole.length (maxDerValueDepth + 1) := by
    intro item member pair read
    have header := derItems_header member
    split at read
    · have bounded := derEntryPair_bounded read
      have nodes := bounded.nodes
      exact ⟨by omega, bounded.nesting, bounded.widest⟩
    · cases read
  constructor
  · have total := @nodesOf_filterMap_le _ (derItems (derEntries e.payload.bytes)) (fun item => item.whole.length)
      (fun item => (if item.tag = 0x30 then derEntryPair item.body else none).map Prod.snd) (by
        intro item member v read
        rcases Option.map_eq_some_iff.mp read with ⟨pair, found, rfl⟩
        exact (each item member pair found).nodes)
    have inside := derItems_sum (derEntries e.payload.bytes)
    have shorter := derEntries_length e.payload.bytes
    have same : e.pairs.map Prod.snd = (derItems (derEntries e.payload.bytes)).filterMap fun item =>
        (if item.tag = 0x30 then derEntryPair item.body else none).map Prod.snd := List.map_filterMap ..
    rw [same]
    exact Nat.le_trans total (Nat.le_trans inside shorter)
  · intro pair member
    rcases List.mem_filterMap.mp member with ⟨item, listed, found⟩
    have bounded := each item listed pair found
    exact ⟨bounded.widest, bounded.nesting⟩

end DarwinScope.Codesign
