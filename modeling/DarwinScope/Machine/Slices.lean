import Mathlib.Data.List.Basic
import DarwinScope.Machine.Words

namespace Machine

abbrev Bytes := List U8

/-- A borrowed range of bytes. `start` is the address of its first byte, so that a part of a
    slice remembers where it came from; no slice is longer than `isize::MAX`. -/
structure Slice where
  start : Nat
  bytes : Bytes
  bound : bytes.length < 2^63
deriving DecidableEq

namespace Slice

def empty : Slice := ⟨0, [], by decide⟩

def length (s : Slice) : Nat := s.bytes.length

def window (s : Slice) (off len : Nat) : Bytes := (s.bytes.drop off).take len

def get (s : Slice) (lo hi : Nat) : Option Slice :=
  if lo ≤ hi ∧ hi ≤ s.length then
    some ⟨s.start + lo, s.window lo (hi - lo), by
      have bound := s.bound
      simp only [window, List.length_take, List.length_drop]
      omega⟩
  else none

def from? (s : Slice) (lo : Nat) : Option Slice := s.get lo s.length

@[ext] theorem ext {s t : Slice} (start : s.start = t.start) (bytes : s.bytes = t.bytes) : s = t := by
  cases s
  cases t
  simp_all

theorem length_lt (s : Slice) : s.length < 2^63 := s.bound

theorem window_length {s : Slice} {off len : Nat} (inside : off + len ≤ s.length) :
    (s.window off len).length = len := by
  simp only [window, List.length_take, List.length_drop]
  unfold length at inside
  omega

theorem get_isSome {s : Slice} {lo hi : Nat} : (s.get lo hi).isSome ↔ lo ≤ hi ∧ hi ≤ s.length := by
  unfold get
  split <;> simp_all

theorem get_some {s part : Slice} {lo hi : Nat} (found : s.get lo hi = some part) :
    lo ≤ hi ∧ hi ≤ s.length ∧ part.start = s.start + lo ∧ part.bytes = s.window lo (hi - lo) := by
  unfold get at found
  split at found
  · rename_i inside
    cases found
    exact ⟨inside.1, inside.2, rfl, rfl⟩
  · cases found

theorem get_length {s part : Slice} {lo hi : Nat} (found : s.get lo hi = some part) :
    part.length = hi - lo := by
  obtain ⟨ordered, inside, -, bytes⟩ := get_some found
  rw [length, bytes, window_length (by omega)]

theorem get_of_le {s : Slice} {lo hi : Nat} (ordered : lo ≤ hi) (inside : hi ≤ s.length) :
    ∃ part, s.get lo hi = some part ∧ part.start = s.start + lo ∧
      part.bytes = s.window lo (hi - lo) := by
  refine ⟨_, if_pos ⟨ordered, inside⟩, rfl, rfl⟩

theorem get_of_lt {s : Slice} {lo hi : Nat} (past : s.length < hi) : s.get lo hi = none :=
  if_neg (by omega)

theorem get_window {s part : Slice} {lo hi : Nat} (found : s.get lo hi = some part) (off len : Nat)
    (inside : off + len ≤ hi - lo) : part.window off len = s.window (lo + off) len := by
  obtain ⟨ordered, within, -, bytes⟩ := get_some found
  simp only [window] at bytes ⊢
  rw [bytes, List.drop_take, List.drop_drop, List.take_take]
  congr 1
  omega

theorem get_get {s part : Slice} {base len lo hi : Nat} (found : s.get base (base + len) = some part) (inside : hi ≤ len) :
    part.get lo hi = s.get (base + lo) (base + hi) := by
  have length := get_length found
  obtain ⟨-, within, start, -⟩ := get_some found
  by_cases ordered : lo ≤ hi
  · obtain ⟨first, found', start', bytes'⟩ := get_of_le ordered (by omega : hi ≤ part.length)
    obtain ⟨second, found'', start'', bytes''⟩ :=
      get_of_le (by omega : base + lo ≤ base + hi) (by omega : base + hi ≤ s.length)
    have window := get_window found lo (hi - lo) (by omega)
    rw [found', found'']
    congr 1
    apply Slice.ext
    · omega
    · rw [bytes', bytes'', window]
      congr 1
      omega
  · rw [get, get, if_neg (by omega), if_neg (by omega)]

theorem window_eq_of_agree {s t : Slice} {off len : Nat}
    (agree : ∀ i, i < len → s.bytes[off + i]? = t.bytes[off + i]?) : s.window off len = t.window off len := by
  apply List.ext_getElem?
  intro i
  simp only [window, List.getElem?_take, List.getElem?_drop]
  split
  · rename_i inside
    exact agree i inside
  · rfl

theorem window_tiles (s : Slice) (start width count : Nat) :
    ((List.range count).flatMap fun i => s.window (start + i * width) width) = s.window start (count * width) := by
  induction count with
  | zero => simp [window]
  | succ count ih =>
    rw [List.range_succ, List.flatMap_append, ih, List.flatMap_singleton, window, window, window, Nat.add_mul, Nat.one_mul,
      List.take_add, List.drop_drop]

def Holds (s : Slice) (off : Nat) (bytes : Bytes) : Prop := bytes <+: s.bytes.drop off

theorem Holds.inside {s : Slice} {off : Nat} {bytes : Bytes} (holds : s.Holds off bytes)
    (some : 0 < bytes.length) : off + bytes.length ≤ s.length := by
  have fits := holds.length_le
  rw [List.length_drop] at fits
  unfold length
  omega

theorem Holds.window {s : Slice} {off : Nat} {bytes : Bytes} (holds : s.Holds off bytes) :
    s.window off bytes.length = bytes := (List.prefix_iff_eq_take.mp holds).symm

theorem Holds.left {s : Slice} {off : Nat} {first second : Bytes} (holds : s.Holds off (first ++ second)) :
    s.Holds off first := (List.prefix_append first second).trans holds

theorem Holds.right {s : Slice} {off : Nat} {first second : Bytes} (holds : s.Holds off (first ++ second)) :
    s.Holds (off + first.length) second := by
  obtain ⟨tail, found⟩ := holds
  refine ⟨tail, ?_⟩
  rw [← List.drop_drop, ← found, List.append_assoc, List.drop_left]

theorem Holds.drop {s : Slice} {off : Nat} {bytes : Bytes} (holds : s.Holds off bytes) (n : Nat) :
    s.Holds (off + n) (bytes.drop n) := by
  obtain ⟨tail, found⟩ := holds
  rw [Holds, ← List.drop_drop, ← found]
  by_cases inside : n ≤ bytes.length
  · rw [List.drop_append_of_le_length inside]
    exact List.prefix_append _ _
  · rw [List.drop_eq_nil_of_le (by omega : bytes.length ≤ n)]
    exact List.nil_prefix

end Slice

def leNumber (bytes : Bytes) : Nat := bytes.foldr (fun byte rest => byte.toNat + 256 * rest) 0

def beNumber (bytes : Bytes) : Nat := leNumber bytes.reverse

def leBytes : Nat → Nat → Bytes
  | 0, _ => []
  | count + 1, value => BitVec.ofNat 8 value :: leBytes count (value / 256)

def beBytes (count value : Nat) : Bytes := (leBytes count value).reverse

@[simp] theorem leNumber_nil : leNumber [] = 0 := rfl

@[simp] theorem leNumber_cons (byte : U8) (bytes : Bytes) :
    leNumber (byte :: bytes) = byte.toNat + 256 * leNumber bytes := rfl

@[simp] theorem leBytes_length (count value : Nat) : (leBytes count value).length = count := by
  induction count generalizing value with
  | zero => rfl
  | succ count ih => simp [leBytes, ih]

@[simp] theorem beBytes_length (count value : Nat) : (beBytes count value).length = count := by
  simp [beBytes]

theorem leNumber_leBytes (count value : Nat) (fits : value < 256 ^ count) :
    leNumber (leBytes count value) = value := by
  induction count generalizing value with
  | zero =>
    have zero : value = 0 := by simpa using fits
    rw [zero]
    rfl
  | succ count ih =>
    have smaller : value / 256 < 256 ^ count := by
      rw [Nat.pow_succ] at fits
      omega
    rw [leBytes, leNumber_cons, ih _ smaller, BitVec.toNat_ofNat]
    omega

theorem leNumber_take_one (bytes : Bytes) : leNumber (bytes.take 1) = leNumber bytes % 256 := by
  cases bytes with
  | nil => rfl
  | cons byte rest =>
    have bound := byte.isLt
    rw [List.take_succ_cons, List.take_zero, leNumber_cons, leNumber_cons, leNumber_nil]
    omega

theorem beNumber_beBytes (count value : Nat) (fits : value < 256 ^ count) :
    beNumber (beBytes count value) = value := by
  rw [beNumber, beBytes, List.reverse_reverse, leNumber_leBytes count value fits]

def readAt (order : Bytes → Nat) (w count : Nat) (data : Slice) (off : Nat) : Option (BitVec w) := do
  let stop ← checkedAddUsize off count
  let bytes ← data.get off stop
  some (BitVec.ofNat w (order bytes.bytes))

theorem readAt_of_le {order : Bytes → Nat} {w count : Nat} {data : Slice} {off : Nat}
    (inside : off + count ≤ data.length) :
    readAt order w count data off = some (BitVec.ofNat w (order (data.window off count))) := by
  have bound := data.length_lt
  obtain ⟨part, found, -, bytes⟩ := Slice.get_of_le (Nat.le_add_right off count) inside
  rw [Nat.add_sub_cancel_left] at bytes
  simp [readAt, checkedAddUsize_of_lt (show off + count < 2^64 by omega), found, bytes]

theorem readAt_of_lt {order : Bytes → Nat} {w count : Nat} {data : Slice} {off : Nat}
    (past : data.length < off + count) : readAt order w count data off = none := by
  simp only [readAt, checkedAddUsize]
  split
  · simp [Slice.get_of_lt past]
  · rfl

theorem readAt_isSome {order : Bytes → Nat} {w count : Nat} {data : Slice} {off : Nat} :
    (readAt order w count data off).isSome ↔ off + count ≤ data.length := by
  by_cases inside : off + count ≤ data.length
  · simp [readAt_of_le inside, inside]
  · simp [readAt_of_lt (by omega : data.length < off + count), inside]

theorem readAt_some {order : Bytes → Nat} {w count : Nat} {data : Slice} {off : Nat} {word : BitVec w}
    (read : readAt order w count data off = some word) :
    off + count ≤ data.length ∧ word = BitVec.ofNat w (order (data.window off count)) := by
  have inside : off + count ≤ data.length := readAt_isSome.mp (by rw [read]; rfl)
  rw [readAt_of_le inside] at read
  cases read
  exact ⟨inside, rfl⟩

theorem readAt_part {order : Bytes → Nat} {w count : Nat} {data part : Slice} {base len off : Nat}
    (found : data.get base (base + len) = some part) (inside : off + count ≤ len) :
    readAt order w count part off = readAt order w count data (base + off) := by
  have length := Slice.get_length found
  obtain ⟨-, within, -⟩ := Slice.get_some found
  rw [readAt_of_le (by omega), readAt_of_le (by omega), Slice.get_window found off count (by omega)]

theorem readAt_beBytes {w count : Nat} {data : Slice} {off : Nat} {value : BitVec w}
    (fits : 2^w = 256 ^ count) (inside : off + count ≤ data.length)
    (stored : data.window off count = beBytes count value.toNat) :
    readAt beNumber w count data off = some value := by
  have bound := value.isLt
  rw [readAt_of_le inside, stored, beNumber_beBytes count _ (by omega), BitVec.ofNat_toNat,
    BitVec.setWidth_eq]

theorem readAt_beBytes_of_holds {w count : Nat} {data : Slice} {off : Nat} {value : BitVec w}
    (fits : 2^w = 256 ^ count) (some : 0 < count) (holds : data.Holds off (beBytes count value.toNat)) :
    readAt beNumber w count data off = .some value := by
  have inside := holds.inside (by simpa using some)
  have window := holds.window
  rw [beBytes_length] at inside window
  exact readAt_beBytes fits inside window

end Machine
