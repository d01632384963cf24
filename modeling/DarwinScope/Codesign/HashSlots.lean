import DarwinScope.Codesign.Signature

namespace DarwinScope.Codesign

open Machine

namespace CodeDirectory

def specialHashRow (cd : CodeDirectory) (cursor : Nat) : Row (Int × Slice) :=
  let row : Option (Int × Slice) := do
    let i ← checkedAdd (BitVec.ofNat 32 cursor) 1
    -- slot -i is at hash_offset - i * hash_size
    let offBack ← checkedMulUsize i.toNat cd.hashSize.toNat
    let off ← if offBack ≤ cd.hashOffset.toNat then some (cd.hashOffset.toNat - offBack) else none
    let stop ← checkedAddUsize off cd.hashSize.toNat
    let bytes ← cd.blob.get off stop
    if i.toNat < 2^31 then some (-(i.toNat : Int), bytes) else none
  match row with
  | some hash => .yield hash
  | none => .stop

def specialHashes (cd : CodeDirectory) : List (Int × Slice) := rows cd.specialHashRow cd.nSpecialSlots.toNat

def codeHashRow (cd : CodeDirectory) (i : Nat) : Row Slice :=
  let row : Option Slice := do
    let offFwd ← checkedMulUsize i cd.hashSize.toNat
    let off ← checkedAddUsize cd.hashOffset.toNat offFwd
    let stop ← checkedAddUsize off cd.hashSize.toNat
    cd.blob.get off stop
  match row with
  | some hash => .yield hash
  | none => .stop

def codeHashes (cd : CodeDirectory) : List Slice := rows cd.codeHashRow cd.nCodeSlots.toNat

def hashArea (cd : CodeDirectory) : Nat := cd.hashOffset.toNat - cd.nSpecialSlots.toNat * cd.hashSize.toNat

/-- All hash slots lie in the blob, and each special slot has a number. -/
structure SlotsFit (cd : CodeDirectory) : Prop where
  special : cd.nSpecialSlots.toNat * cd.hashSize.toNat ≤ cd.hashOffset.toNat
  code : cd.hashOffset.toNat + cd.nCodeSlots.toNat * cd.hashSize.toNat ≤ cd.blob.length
  numbered : cd.nSpecialSlots.toNat < 2^31

def chunk (cd : CodeDirectory) (k : Nat) : Option Slice :=
  cd.blob.get (cd.hashArea + k * cd.hashSize.toNat) (cd.hashArea + k * cd.hashSize.toNat + cd.hashSize.toNat)

section

variable {cd : CodeDirectory} {i k : Nat}

theorem SlotsFit.chunk_end (fit : cd.SlotsFit) (below : k < cd.nSpecialSlots.toNat + cd.nCodeSlots.toNat) :
    cd.hashArea + k * cd.hashSize.toNat + cd.hashSize.toNat ≤ cd.blob.length := by
  have special := fit.special
  have code := fit.code
  have product : (k + 1) * cd.hashSize.toNat ≤ (cd.nSpecialSlots.toNat + cd.nCodeSlots.toNat) * cd.hashSize.toNat :=
    Nat.mul_le_mul_right _ below
  rw [Nat.add_mul, Nat.add_mul, Nat.one_mul] at product
  unfold hashArea
  omega

theorem SlotsFit.chunk_some (fit : cd.SlotsFit) (below : k < cd.nSpecialSlots.toNat + cd.nCodeSlots.toNat) :
    ∃ part, cd.chunk k = some part ∧
      part.bytes = cd.blob.window (cd.hashArea + k * cd.hashSize.toNat) cd.hashSize.toNat := by
  rcases Slice.get_of_le (Nat.le_add_right _ _) (fit.chunk_end below) with ⟨part, found, -, bytes⟩
  rw [Nat.add_sub_cancel_left] at bytes
  exact ⟨part, found, bytes⟩

theorem SlotsFit.special_turn (fit : cd.SlotsFit) (below : i < cd.nSpecialSlots.toNat) :
    ∃ part, cd.chunk (cd.nSpecialSlots.toNat - 1 - i) = some part ∧
      cd.specialHashRow i = .yield (-((i + 1 : Nat) : Int), part) := by
  have special := fit.special
  have numbered := fit.numbered
  have bound := cd.blob.length_lt
  have wide := cd.hashSize.isLt
  have last := @SlotsFit.chunk_end cd (cd.nSpecialSlots.toNat - 1 - i) fit (by omega)
  rcases @SlotsFit.chunk_some cd (cd.nSpecialSlots.toNat - 1 - i) fit (by omega) with ⟨part, found, -⟩
  refine ⟨part, found, ?_⟩
  have next : checkedAdd (BitVec.ofNat 32 i) 1 = some (BitVec.ofNat 32 (i + 1)) := by
    have one : (1 : U32) = BitVec.ofNat 32 1 := rfl
    rw [one, checkedAdd_ofNat (by rw [BitVec.toNat_ofNat]; omega), ← BitVec.ofNat_add]
  have number : (BitVec.ofNat 32 (i + 1)).toNat = i + 1 := by rw [toNat_ofNat_of_lt (by omega)]
  have split : (i + 1) * cd.hashSize.toNat + (cd.nSpecialSlots.toNat - 1 - i) * cd.hashSize.toNat =
      cd.nSpecialSlots.toNat * cd.hashSize.toNat := by
    rw [← Nat.add_mul]
    congr 1
    omega
  have back : checkedMulUsize (i + 1) cd.hashSize.toNat = some ((i + 1) * cd.hashSize.toNat) :=
    if_pos (by have := cd.hashOffset.isLt; omega)
  have off : cd.hashOffset.toNat - (i + 1) * cd.hashSize.toNat =
      cd.hashArea + (cd.nSpecialSlots.toNat - 1 - i) * cd.hashSize.toNat := by
    unfold hashArea
    omega
  have stop := @checkedAddUsize_of_lt (cd.hashArea + (cd.nSpecialSlots.toNat - 1 - i) * cd.hashSize.toNat) cd.hashSize.toNat
    (by omega)
  rw [chunk] at found
  simp only [specialHashRow, next, number, back, if_pos (show (i + 1) * cd.hashSize.toNat ≤ cd.hashOffset.toNat by omega),
    off, stop, found, if_pos (show i + 1 < 2^31 by omega), Option.bind_eq_bind, Option.bind_some]

theorem SlotsFit.code_turn (fit : cd.SlotsFit) (below : i < cd.nCodeSlots.toNat) :
    ∃ part, cd.chunk (cd.nSpecialSlots.toNat + i) = some part ∧ cd.codeHashRow i = .yield part := by
  have special := fit.special
  have bound := cd.blob.length_lt
  have last := @SlotsFit.chunk_end cd (cd.nSpecialSlots.toNat + i) fit (by omega)
  rcases @SlotsFit.chunk_some cd (cd.nSpecialSlots.toNat + i) fit (by omega) with ⟨part, found, -⟩
  refine ⟨part, found, ?_⟩
  have place : cd.hashOffset.toNat + i * cd.hashSize.toNat =
      cd.hashArea + (cd.nSpecialSlots.toNat + i) * cd.hashSize.toNat := by
    rw [Nat.add_mul]
    unfold hashArea
    omega
  have fwd : checkedMulUsize i cd.hashSize.toNat = some (i * cd.hashSize.toNat) := if_pos (by omega)
  have off : checkedAddUsize cd.hashOffset.toNat (i * cd.hashSize.toNat) =
      some (cd.hashArea + (cd.nSpecialSlots.toNat + i) * cd.hashSize.toNat) := by
    rw [checkedAddUsize_of_lt (by omega), place]
  have stop := @checkedAddUsize_of_lt (cd.hashArea + (cd.nSpecialSlots.toNat + i) * cd.hashSize.toNat) cd.hashSize.toNat
    (by omega)
  rw [chunk] at found
  simp only [codeHashRow, fwd, off, stop, found, Option.bind_eq_bind, Option.bind_some]

def chunkAt (cd : CodeDirectory) (k : Nat) : Slice := (cd.chunk k).getD .empty

theorem SlotsFit.specialHashes_eq (fit : cd.SlotsFit) :
    cd.specialHashes = (List.range cd.nSpecialSlots.toNat).map fun i =>
      (-((i + 1 : Nat) : Int), cd.chunkAt (cd.nSpecialSlots.toNat - 1 - i)) := by
  apply rows_range
  intro i below
  rcases fit.special_turn below with ⟨part, found, turn⟩
  rw [turn, chunkAt, found, Option.getD_some]

theorem SlotsFit.codeHashes_eq (fit : cd.SlotsFit) :
    cd.codeHashes = (List.range cd.nCodeSlots.toNat).map fun i => cd.chunkAt (cd.nSpecialSlots.toNat + i) := by
  apply rows_range
  intro i below
  rcases fit.code_turn below with ⟨part, found, turn⟩
  rw [turn, chunkAt, found, Option.getD_some]

theorem reverse_range_map {α : Type} (f : Nat → α) (n : Nat) :
    ((List.range n).map fun i => f (n - 1 - i)).reverse = (List.range n).map f := by
  apply List.ext_getElem
  · simp
  · intro i first second
    simp only [List.length_map, List.length_range, List.length_reverse] at first
    simp only [List.getElem_reverse, List.getElem_map, List.getElem_range, List.length_map, List.length_range]
    congr 1
    omega

/-- The special hashes from the last to the first and then the code hashes are the chunks of the area. -/
theorem SlotsFit.chunks (fit : cd.SlotsFit) :
    (cd.specialHashes.map Prod.snd).reverse ++ cd.codeHashes =
      (List.range (cd.nSpecialSlots.toNat + cd.nCodeSlots.toNat)).map cd.chunkAt := by
  rw [fit.specialHashes_eq, fit.codeHashes_eq, List.map_map, List.range_add, List.map_append, List.map_map]
  exact congrArg (· ++ _) (reverse_range_map cd.chunkAt cd.nSpecialSlots.toNat)

end

end CodeDirectory

/-- The hash slots tile the hash area. The special slots are numbered downwards from -1, and read from the
    last one up, with the code slots behind them, they are the chunks of the area, one behind the other. -/
theorem hash_slots_tile (cd : CodeDirectory) (fit : cd.SlotsFit) :
    cd.specialHashes.map Prod.fst = (List.range cd.nSpecialSlots.toNat).map (fun i => -((i + 1 : Nat) : Int)) ∧
      cd.codeHashes.length = cd.nCodeSlots.toNat ∧
      ((cd.specialHashes.map Prod.snd).reverse ++ cd.codeHashes).map some =
        (List.range (cd.nSpecialSlots.toNat + cd.nCodeSlots.toNat)).map cd.chunk ∧
      ((cd.specialHashes.map Prod.snd).reverse ++ cd.codeHashes).flatMap Slice.bytes =
        cd.blob.window cd.hashArea ((cd.nSpecialSlots.toNat + cd.nCodeSlots.toNat) * cd.hashSize.toNat) := by
  refine ⟨?_, ?_, ?_, ?_⟩
  · rw [fit.specialHashes_eq, List.map_map]
    rfl
  · rw [fit.codeHashes_eq, List.length_map, List.length_range]
  · rw [fit.chunks, List.map_map]
    apply List.map_congr_left
    intro k listed
    rcases fit.chunk_some (List.mem_range.mp listed) with ⟨part, found, -⟩
    rw [Function.comp_apply, CodeDirectory.chunkAt, found, Option.getD_some]
  · rw [fit.chunks, List.flatMap_map, ← Slice.window_tiles]
    apply List.flatMap_congr
    intro k listed
    rcases fit.chunk_some (List.mem_range.mp listed) with ⟨part, found, bytes⟩
    rw [CodeDirectory.chunkAt, found, Option.getD_some, bytes]

def threeSlots : CodeDirectory where
  blob := ⟨0, [9, 9, 1, 2, 3, 4, 5, 6, 9], by decide⟩
  version := 0
  flags := 0
  hashOffset := 6
  identOffset := 0
  nSpecialSlots := 2
  nCodeSlots := 1
  codeLimit := 0
  hashSize := 2
  hashTypeRaw := 0
  platform := 0
  pageSizeLog2 := 0
  teamOffset := 0

theorem hash_slots_tile_three :
    threeSlots.specialHashes.map Prod.fst = [-1, -2] ∧ threeSlots.codeHashes.length = 1 ∧
      ((threeSlots.specialHashes.map Prod.snd).reverse ++ threeSlots.codeHashes).flatMap Slice.bytes =
        [1, 2, 3, 4, 5, 6] := by
  rcases hash_slots_tile threeSlots ⟨by decide, by decide, by decide⟩ with ⟨numbers, count, -, bytes⟩
  exact ⟨numbers, count, bytes.trans (by decide)⟩

end DarwinScope.Codesign
