import DarwinScope.Codesign.Der

namespace DarwinScope.Codesign

open Machine

section

variable {buf body part : Bytes} {lo hi : Nat} {α : Type}

theorem derRange_some (cut : derRange buf lo hi = some part) :
    lo ≤ hi ∧ hi ≤ buf.length ∧ part = (buf.drop lo).take (hi - lo) := by
  unfold derRange at cut
  split at cut
  · rename_i inside
    cases cut
    exact ⟨inside.1, inside.2, rfl⟩
  · cases cut

theorem derRange_length (cut : derRange buf lo hi = some part) : part.length = hi - lo := by
  rcases derRange_some cut with ⟨ordered, inside, rfl⟩
  rw [List.length_take, List.length_drop]
  omega

theorem derInner_length (found : derInner buf = some part) : part.length ≤ buf.length := by
  fun_induction derInner buf with
  | case1 => cases found
  | case2 => cases found
  | case3 remaining hdr read integer inside ih =>
    have rest := ih found
    rw [List.length_drop] at rest
    omega
  | case4 remaining hdr read integer listed =>
    have length := derRange_length found
    have bounds := derRange_some found
    omega
  | case5 => cases found

theorem derLocateEntries_length (found : derLocateEntries buf = some part) : part.length ≤ buf.length := by
  simp only [derLocateEntries, Option.bind_eq_bind, Option.bind_eq_some_iff] at found
  rcases found with ⟨outer, -, outerBody, cut, inner⟩
  have length := derRange_length cut
  have bounds := derRange_some cut
  have shorter := derInner_length inner
  omega

theorem derItems_of_none (none : derReadHeader buf = none) : derItems buf = [] := by
  rw [derItems]
  split
  · rfl
  · rename_i hdr found
    rw [none] at found
    cases found

theorem derItems_of_past {hdr : DerHeader} (header : derReadHeader buf = some hdr) (past : buf.length < hdr.size) :
    derItems buf = [] := by
  rw [derItems]
  split
  · rfl
  · rename_i hdr' found
    rw [header] at found
    cases found
    exact dif_pos past

theorem derItems_of_inside {hdr : DerHeader} (header : derReadHeader buf = some hdr) (inside : hdr.size ≤ buf.length) :
    derItems buf =
      ⟨hdr.tag, (buf.drop hdr.headerLen).take hdr.length, buf.take hdr.size⟩ :: derItems (buf.drop hdr.size) := by
  rw [derItems]
  split
  · rename_i none
    rw [header] at none
    cases none
  · rename_i hdr' found
    rw [header] at found
    cases found
    exact dif_neg (Nat.not_lt.mpr inside)

def derEntries (payload : Bytes) : Bytes := (derLocateEntries payload).getD payload

def entryPairs (items : List DerItem) : List (Bytes × DerEntitlementValue) :=
  items.filterMap fun item => if item.tag = 0x30 then derEntryPair item.body else none

def DerEntitlements.items (e : DerEntitlements) : List DerItem := derItems (derEntries e.payload.bytes)

theorem derEntries_length (payload : Bytes) : (derEntries payload).length ≤ payload.length := by
  unfold derEntries
  cases found : derLocateEntries payload with
  | none => exact Nat.le_refl _
  | some entries => exact derLocateEntries_length found

theorem entryPairs_append (before after : List DerItem) :
    entryPairs (before ++ after) = entryPairs before ++ entryPairs after := List.filterMap_append ..

theorem DerEntitlements.pairs_eq (e : DerEntitlements) : e.pairs = entryPairs e.items := rfl

def derWalk (read : Bytes → Option α) (entries : Bytes) (cursor : Nat) : List α :=
  if cursor < entries.length then
    match _read : derReadHeader (entries.drop cursor) with
    | none => []
    | some hdr =>
      match _start : checkedAddUsize cursor hdr.headerLen with
      | none => []
      | some bodyStart =>
        match _stop : checkedAddUsize bodyStart hdr.length with
        | none => []
        | some bodyEnd =>
          if _over : entries.length < bodyEnd then []
          else
            let found := if hdr.tag = 0x30 then (derRange entries bodyStart bodyEnd).bind read else none
            found.toList ++ derWalk read entries bodyEnd
  else []
termination_by entries.length - cursor
decreasing_by
  have passed := derReadHeader_pos _read
  have start := checkedAddUsize_some _start
  have stop := checkedAddUsize_some _stop
  omega

/-- The items behind the cursor, read where they are entries. -/
theorem derWalk_eq (read : Bytes → Option α) (entries : Bytes) (cursor : Nat) (bound : entries.length < 2^63) :
    derWalk read entries cursor =
      (derItems (entries.drop cursor)).filterMap fun item => if item.tag = 0x30 then read item.body else none := by
  fun_induction derWalk read entries cursor with
  | case1 cursor inside none =>
    rw [derItems_of_none none]
    rfl
  | case2 cursor inside hdr header none =>
    have long := checkedAddUsize_none none
    rw [derItems_of_past header (by rw [List.length_drop, DerHeader.size]; omega)]
    rfl
  | case3 cursor inside hdr header bodyStart start none =>
    have place := checkedAddUsize_some start
    have long := checkedAddUsize_none none
    rw [derItems_of_past header (by rw [List.length_drop, DerHeader.size]; omega)]
    rfl
  | case4 cursor inside hdr header bodyStart start bodyEnd stop past =>
    have place := checkedAddUsize_some start
    have place' := checkedAddUsize_some stop
    rw [derItems_of_past header (by rw [List.length_drop, DerHeader.size]; omega)]
    rfl
  | case5 cursor inside hdr header bodyStart start bodyEnd stop inside found ih =>
    have place := checkedAddUsize_some start
    have place' := checkedAddUsize_some stop
    have rest : (entries.drop cursor).drop hdr.size = entries.drop bodyEnd := by
      rw [List.drop_drop, DerHeader.size]
      congr 1
      omega
    have cut : derRange entries bodyStart bodyEnd = some (((entries.drop cursor).drop hdr.headerLen).take hdr.length) := by
      rw [derRange, if_pos (by omega), List.drop_drop, ← place]
      congr 2
      omega
    rw [derItems_of_inside header (by rw [List.length_drop, DerHeader.size]; omega), List.filterMap_cons, ih, rest]
    by_cases entry : hdr.tag = 0x30
    · have hit : found = read (((entries.drop cursor).drop hdr.headerLen).take hdr.length) := by
        simp only [found, dif_pos entry, cut, Option.bind_some]
      simp only [hit, entry, if_true]
      cases read (((entries.drop cursor).drop hdr.headerLen).take hdr.length) <;> rfl
    · have miss : found = none := dif_neg entry
      simp only [miss, entry, if_false]
      rfl
  | case6 cursor past =>
    rw [List.drop_eq_nil_of_le (Nat.le_of_not_lt past), derItems_of_none rfl]
    rfl

theorem derCollect_eq (read : Bytes → Option α) (payload : Bytes) (bound : payload.length < 2^63) :
    derCollect read payload = derWalk read (derEntries payload) 0 := by
  have shorter := derEntries_length payload
  rw [derWalk_eq read _ 0 (by omega), List.drop_zero]
  rfl

/-- The key reader accepts what the pair reader accepts, whatever becomes of the value. -/
theorem derFirstUtf8String_eq (seqBody : Bytes) : derFirstUtf8String seqBody = (derEntryPair seqBody).map Prod.fst := by
  unfold derFirstUtf8String derEntryPair
  cases derReadHeader seqBody with
  | none => rfl
  | some hdr =>
    simp only [Option.bind_eq_bind, Option.bind_some]
    split
    · rfl
    · cases derRange seqBody hdr.headerLen hdr.size with
      | none => rfl
      | some key =>
        simp only [Option.bind_some]
        split <;> rfl

theorem derCollectKeys_eq (payload : Bytes) : derCollectKeys payload = (derCollectPairs payload).map Prod.fst := by
  unfold derCollectKeys derCollectPairs derCollect
  rw [List.map_filterMap]
  congr 1
  funext item
  split
  · exact derFirstUtf8String_eq item.body
  · rfl

end

theorem sorted_distinct (keys : List Bytes) :
    ((keys.insertionSort (· ≤ ·)).destutter (· ≠ ·)).Pairwise (· < ·) ∧
      ∀ key, key ∈ (keys.insertionSort (· ≤ ·)).destutter (· ≠ ·) ↔ key ∈ keys := by
  have sorted := List.pairwise_insertionSort (· ≤ ·) keys
  rw [sorted.destutter_eq_dedup]
  constructor
  · have ascending := List.Pairwise.sublist (List.dedup_sublist _) sorted
    have distinct := List.nodup_dedup (keys.insertionSort (· ≤ ·))
    apply List.Pairwise.imp₂ _ ascending distinct
    intro a b le ne
    exact Std.lt_of_le_of_ne le ne
  · intro key
    rw [List.mem_dedup, List.mem_insertionSort]

/-- `keys()` is the strictly ascending list of the keys in `pairs()`, and the two walkers stop at the same entries. -/
theorem der_keys_of_pairs (e : DerEntitlements) :
    e.keys.Pairwise (· < ·) ∧ (∀ key, key ∈ e.keys ↔ key ∈ e.pairs.map Prod.fst) ∧
      derWalk derFirstUtf8String (derEntries e.payload.bytes) 0 =
        (derWalk derEntryPair (derEntries e.payload.bytes) 0).map Prod.fst := by
  rcases sorted_distinct (derCollectKeys e.payload.bytes) with ⟨ascending, members⟩
  refine ⟨ascending, ?_, ?_⟩
  · intro key
    rw [DerEntitlements.keys, members, derCollectKeys_eq, DerEntitlements.pairs]
  · rw [← derCollect_eq _ _ e.payload.bound, ← derCollect_eq _ _ e.payload.bound]
    exact derCollectKeys_eq e.payload.bytes

/-- An entry `k` with a boolean, a second `k` whose value runs past its entry, and an `a` without a value. -/
def repeatedKeys : DerEntitlements where
  payload := ⟨0, [0x70, 0x19, 0x02, 0x01, 0x01, 0xb0, 0x14,
    0x30, 0x06, 0x0c, 0x01, 0x6b, 0x01, 0x01, 0xff,
    0x30, 0x05, 0x0c, 0x01, 0x6b, 0x01, 0x05,
    0x30, 0x03, 0x0c, 0x01, 0x61], by decide⟩

theorem keys_of_repeatedKeys :
    repeatedKeys.pairs.map Prod.fst = [[0x6b], [0x6b], [0x61]] ∧
      repeatedKeys.keys = [[0x61], [0x6b]] ∧ repeatedKeys.keys.Pairwise (· < ·) ∧
        ∀ key, key ∈ repeatedKeys.keys ↔ key ∈ [[0x6b], [0x6b], [0x61]] := by
  have pairs : repeatedKeys.pairs.map Prod.fst = [[0x6b], [0x6b], [0x61]] := by decide +kernel
  obtain ⟨ascending, members, -⟩ := der_keys_of_pairs repeatedKeys
  rw [pairs] at members
  exact ⟨pairs, by decide +kernel, ascending, members⟩

end DarwinScope.Codesign
