import DarwinScope.Machine.Iteration
import DarwinScope.Machine.Text
import DarwinScope.Leb128

namespace DarwinScope

open Machine

structure FunctionStartIter where
  stream : Slice
  cursor : Nat
  running : U64
  done : Bool

namespace FunctionStartIter

def empty : FunctionStartIter := ⟨.empty, 0, 0, true⟩

def next (it : FunctionStartIter) : Option U64 × FunctionStartIter :=
  if it.done then (none, it)
  else
    match it.stream.from? it.cursor with
    | none => (none, it)
    | some remaining =>
      match readUleb128 remaining.bytes with
      | none => (none, it)
      | some (delta, used) =>
        if delta = 0 then (none, { it with done := true })
        else
          match checkedAddUsize it.cursor used, checkedAdd it.running delta with
          | some newCursor, some newRunning => (some newRunning, { it with cursor := newCursor, running := newRunning })
          | _, _ => (none, it)

def advance (it : FunctionStartIter) : Option (U64 × FunctionStartIter) :=
  match it.next with
  | (some start, after) => some (start, after)
  | (none, _) => none

end FunctionStartIter

structure NamedSegment where
  segname : Bytes
  vmaddr : U64
  named : segname.length = 16

structure StartsImage where
  data : Slice
  functionStartsCmd : Option (U32 × U32)
  segments : List NamedSegment

namespace StartsImage

def textVmaddr (bin : StartsImage) : Option U64 :=
  (bin.segments.find? fun seg => seg.segname.take 7 = lit "__TEXT" ++ [0]).map NamedSegment.vmaddr

def functionStarts (bin : StartsImage) : FunctionStartIter :=
  match bin.functionStartsCmd with
  | none => .empty
  | some (dataoff, datasize) =>
    match checkedAddUsize dataoff.toNat datasize.toNat with
    | none => .empty
    | some stop =>
      match bin.data.get dataoff.toNat stop with
      | none => .empty
      | some stream =>
        match bin.textVmaddr with
        | none => .empty
        | some vmaddr => ⟨stream, 0, vmaddr, false⟩

def saturateU32 (count : Nat) : U32 := if count < 2^32 then BitVec.ofNat 32 count else BitVec.allOnes 32

/-- The number that is taken when the image is parsed, with fuel for the walk. -/
def functionStartsCount (bin : StartsImage) (fuel : Nat) : Option (Option U32) :=
  match bin.functionStartsCmd with
  | none => some none
  | some _ => (countFrom FunctionStartIter.advance fuel 0 bin.functionStarts).map fun count => some (saturateU32 count)

end StartsImage

def encodeDeltas (running : U64) : List U64 → Bytes
  | [] => []
  | start :: starts => uleb128 (start.toNat - running.toNat) ++ encodeDeltas start starts

namespace FunctionStartIter

variable {it after : FunctionStartIter} {start : U64}

theorem next_some (found : it.advance = some (start, after)) :
    it.running < start ∧ after.running = start ∧ it.cursor < after.cursor ∧ after.cursor ≤ it.stream.length ∧
      after.stream = it.stream := by
  have turn : it.next = (some start, after) := by
    unfold advance at found
    split at found
    · rename_i same
      cases found
      exact same
    · cases found
  rw [next] at turn
  split at turn
  · cases turn
  split at turn
  · cases turn
  split at turn
  · cases turn
  split at turn
  · cases turn
  split at turn
  · rename_i remaining tail _ delta used read more _ _ newCursor newRunning cursor running
    cases turn
    have bounds := readUleb128_used read
    have place := checkedAddUsize_some cursor
    have sum := (checkedAdd_some running).2
    have length := Slice.get_length tail
    have inside := (Slice.get_some tail).1
    have positive : 0 < delta.toNat := Nat.pos_of_ne_zero fun zero => more (BitVec.eq_of_toNat_eq zero)
    refine ⟨?_, rfl, ?_, ?_, rfl⟩
    · rw [BitVec.lt_def, sum]
      omega
    · dsimp only
      omega
    · rw [Slice.length] at length
      dsimp only
      omega
  · cases turn

theorem from_cursor {rest : Bytes} (inside : it.cursor ≤ it.stream.length)
    (behind : it.stream.bytes.drop it.cursor = rest) :
    ∃ remaining, it.stream.from? it.cursor = some remaining ∧ remaining.bytes = rest := by
  rcases Slice.get_of_le inside (Nat.le_refl _) with ⟨remaining, found, -, bytes⟩
  refine ⟨remaining, found, ?_⟩
  rw [bytes, Slice.window, behind, ← behind, Slice.length, ← List.length_drop, List.take_length]

theorem advance_delta {rest : Bytes} (unfinished : it.done = false) (inside : it.cursor ≤ it.stream.length)
    (above : it.running < start)
    (behind : it.stream.bytes.drop it.cursor = uleb128 (start.toNat - it.running.toNat) ++ rest) :
    it.advance = some (start, { it with
      cursor := it.cursor + (uleb128 (start.toNat - it.running.toNat)).length, running := start }) := by
  rcases from_cursor inside behind with ⟨remaining, found, bytes⟩
  have high := start.isLt
  have order : it.running.toNat < start.toNat := above
  have read := @readUleb128_encode (start.toNat - it.running.toNat) (by omega) rest
  have delta : (BitVec.ofNat 64 (start.toNat - it.running.toNat)).toNat = start.toNat - it.running.toNat := by
    rw [toNat_ofNat_of_lt (by omega)]
  have more : BitVec.ofNat 64 (start.toNat - it.running.toNat) ≠ 0 := by
    intro zero
    rw [zero] at delta
    have zero' : (0 : U64).toNat = 0 := rfl
    omega
  have length := congrArg List.length behind
  have bound := it.stream.bound
  have within : it.cursor ≤ it.stream.bytes.length := inside
  rw [List.length_drop, List.length_append] at length
  have cursor := @checkedAddUsize_of_lt it.cursor (uleb128 (start.toNat - it.running.toNat)).length (by omega)
  have running : checkedAdd it.running (BitVec.ofNat 64 (start.toNat - it.running.toNat)) = some start := by
    rw [checkedAdd_of_lt (by rw [delta]; omega)]
    congr 1
    apply BitVec.eq_of_toNat_eq
    rw [BitVec.toNat_add, delta, Nat.mod_eq_of_lt (by omega)]
    omega
  have turn : it.next = (some start, { it with
      cursor := it.cursor + (uleb128 (start.toNat - it.running.toNat)).length, running := start }) := by
    rw [next, unfinished, found]
    simp only [Bool.false_eq_true, if_false, bytes, read, if_neg more, cursor, running]
  rw [advance, turn]

theorem advance_terminator {padding : Bytes} (inside : it.cursor ≤ it.stream.length)
    (behind : it.stream.bytes.drop it.cursor = 0 :: padding) : it.advance = none := by
  rcases from_cursor inside behind with ⟨remaining, found, bytes⟩
  have read : readUleb128 (0 :: padding) = some (0, 1) := rfl
  rw [advance, next]
  cases it.done with
  | true => rfl
  | false => simp only [Bool.false_eq_true, if_false, found, bytes, read, if_true]

theorem collect_deltas {starts : List U64} {padding : Bytes} (unfinished : it.done = false)
    (inside : it.cursor ≤ it.stream.length) (ascending : (it.running :: starts).Pairwise (· < ·))
    (behind : it.stream.bytes.drop it.cursor = encodeDeltas it.running starts ++ 0 :: padding) {fuel : Nat}
    (enough : starts.length < fuel) : collect advance fuel it = some starts := by
  induction starts generalizing it fuel with
  | nil =>
    obtain ⟨fuel, rfl⟩ : ∃ m, fuel = m + 1 := ⟨fuel - 1, by omega⟩
    exact collect_stop (advance_terminator inside behind) fuel
  | cons start starts ih =>
    rw [List.length_cons] at enough
    obtain ⟨fuel, rfl⟩ : ∃ m, fuel = m + 1 := ⟨fuel - 1, by omega⟩
    rw [encodeDeltas, List.append_assoc] at behind
    have above : it.running < start := (List.pairwise_cons.mp ascending).1 start (List.mem_cons_self ..)
    have length := congrArg List.length behind
    rw [List.length_drop, List.length_append] at length
    have step := advance_delta unfinished inside above behind
    rw [collect_step step, ih]
    · rfl
    · exact unfinished
    · unfold Slice.length at inside ⊢
      dsimp only
      omega
    · exact (List.pairwise_cons.mp ascending).2
    · dsimp only
      rw [← List.drop_drop, behind, List.drop_left]
    · omega

end FunctionStartIter

open FunctionStartIter

namespace StartsImage

variable {bin : StartsImage} {stream : Slice} {vmaddr : U64} {dataoff datasize : U32}

theorem functionStarts_eq (cmd : bin.functionStartsCmd = some (dataoff, datasize))
    (found : bin.data.get dataoff.toNat (dataoff.toNat + datasize.toNat) = some stream)
    (text : bin.textVmaddr = some vmaddr) : bin.functionStarts = ⟨stream, 0, vmaddr, false⟩ := by
  have first := dataoff.isLt
  have second := datasize.isLt
  have stop := @checkedAddUsize_of_lt dataoff.toNat datasize.toNat (by omega)
  rw [functionStarts, cmd]
  simp only [stop, found, text]

theorem functionStarts_cases (bin : StartsImage) :
    bin.functionStarts = .empty ∨ bin.textVmaddr = some bin.functionStarts.running ∧
      bin.functionStarts.stream.length ≤ bin.data.length := by
  unfold functionStarts
  split
  · exact .inl rfl
  split
  · exact .inl rfl
  split
  · exact .inl rfl
  rename_i found
  split
  · exact .inl rfl
  rename_i text
  have length := Slice.get_length found
  have bounds := Slice.get_some found
  exact .inr ⟨text, by dsimp only; omega⟩

theorem functionStartsCount_eq {fuel : Nat} {starts : List U64}
    (walked : collect advance fuel bin.functionStarts = some starts) :
    bin.functionStartsCount fuel = some (bin.functionStartsCmd.map fun _ => saturateU32 starts.length) := by
  unfold functionStartsCount
  split
  · rename_i none
    rw [none]
    rfl
  · rename_i cmd
    rw [countFrom_eq, walked, cmd, Option.map_some, Option.map_some, Option.map_some, Nat.zero_add]

theorem walk_ends (bin : StartsImage) :
    ∃ starts, ∀ fuel, bin.data.length < fuel → collect advance fuel bin.functionStarts = some starts := by
  have decreases : ∀ (it : FunctionStartIter) (start : U64) (after : FunctionStartIter), it.advance = some (start, after) →
      after.stream.length - after.cursor < it.stream.length - it.cursor := by
    intro it start after found
    rcases next_some found with ⟨-, -, forward, inside, same⟩
    rw [same]
    omega
  rcases measure_returns decreases bin.functionStarts with ⟨starts, -, done⟩
  refine ⟨starts, fun fuel enough => done fuel ?_⟩
  rcases bin.functionStarts_cases with none | ⟨-, inside⟩
  · rw [none]
    exact Nat.lt_of_le_of_lt (Nat.zero_le _) enough
  · omega

theorem walk_ascending {fuel : Nat} {starts : List U64} (walked : collect advance fuel bin.functionStarts = some starts) :
    (bin.functionStarts.running :: starts).Pairwise (· < ·) :=
  collect_pairwise (fun _ _ _ found => ⟨(next_some found).1, (next_some found).2.1⟩) walked

end StartsImage

/-- The walk over the function starts of any image ends. Its addresses ascend from the address of the text segment, and
    the count taken at parsing is their number. Addresses encoded as deltas are the addresses it yields. -/
theorem function_starts_exact (bin : StartsImage) :
    (∃ starts, (∀ fuel, bin.data.length < fuel → collect advance fuel bin.functionStarts = some starts ∧
          bin.functionStartsCount fuel = some (bin.functionStartsCmd.map fun _ => StartsImage.saturateU32 starts.length)) ∧
        starts.Pairwise (· < ·) ∧ ∀ start ∈ starts, ∃ vmaddr, bin.textVmaddr = some vmaddr ∧ vmaddr < start) ∧
      ∀ (dataoff datasize : U32) (stream : Slice) (vmaddr : U64) (starts : List U64) (padding : Bytes),
        bin.functionStartsCmd = some (dataoff, datasize) →
        bin.data.get dataoff.toNat (dataoff.toNat + datasize.toNat) = some stream →
        bin.textVmaddr = some vmaddr → (vmaddr :: starts).Pairwise (· < ·) →
        stream.bytes = encodeDeltas vmaddr starts ++ 0 :: padding →
        ∀ fuel, bin.data.length < fuel → collect advance fuel bin.functionStarts = some starts := by
  rcases bin.walk_ends with ⟨walked, done⟩
  constructor
  · refine ⟨walked, fun fuel enough => ⟨done fuel enough, StartsImage.functionStartsCount_eq (done fuel enough)⟩, ?_⟩
    have ascending := StartsImage.walk_ascending (done _ (Nat.lt_succ_self _))
    refine ⟨(List.pairwise_cons.mp ascending).2, fun start member => ?_⟩
    rcases bin.functionStarts_cases with none | ⟨text, -⟩
    · have nothing := done _ (Nat.lt_succ_self _)
      rw [none, collect_stop rfl] at nothing
      cases nothing
      cases member
    · exact ⟨_, text, (List.pairwise_cons.mp ascending).1 start member⟩
  · intro dataoff datasize stream vmaddr starts padding cmd found text ascending bytes fuel enough
    have origin := StartsImage.functionStarts_eq cmd found text
    have all : collect advance (max fuel (starts.length + 1)) bin.functionStarts = some starts := by
      rw [origin]
      exact @collect_deltas ⟨stream, 0, vmaddr, false⟩ starts padding rfl (Nat.zero_le _) ascending bytes _ (by omega)
    rw [done _ (by omega)] at all
    rw [done fuel enough, all]

def twoFunctions : StartsImage where
  data := ⟨0, [0xe0, 0x08, 0xa0, 0x01, 0, 0], by decide⟩
  functionStartsCmd := some (0, 6)
  segments := [⟨lit "__TEXT" ++ List.replicate 10 0, 0x100000000, rfl⟩]

theorem function_starts_exact_two :
    collect advance 7 twoFunctions.functionStarts = some [0x100000460, 0x100000500] ∧
      twoFunctions.functionStartsCount 7 = some (some 2) := by
  rcases function_starts_exact twoFunctions with ⟨⟨starts, walked, -, -⟩, exact⟩
  have found := exact 0 6 twoFunctions.data 0x100000000 [0x100000460, 0x100000500] [0] rfl (by decide) (by decide)
    (by decide)
    (by decide +kernel) 7 (by decide)
  rcases walked 7 (by decide) with ⟨same, count⟩
  rw [found, Option.some.injEq] at same
  rw [← same] at count
  exact ⟨found, count⟩

end DarwinScope
