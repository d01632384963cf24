import DarwinScope.Objc.Runtime
import DarwinScope.Util

namespace DarwinScope

open Machine

namespace SegmentRange

def place (seg : SegmentRange) (va : Nat) : Nat := seg.fileoff.toNat + (va - seg.vmaddr.toNat)

/-- The segment maps `k` addresses and file bytes back them, no earlier segment of the table takes one of them, and no
    segment up to this one overflows. -/
def Carries (seg : SegmentRange) (table : List SegmentRange) (va k : Nat) : Prop :=
  ∃ before after, table = before ++ seg :: after ∧ (∀ s ∈ before ++ [seg], s.Whole) ∧
    (∀ s ∈ before, 0 < s.filesize.toNat → Disjoint s.span (Set.Ico va (va + k))) ∧
    seg.vmaddr.toNat ≤ va ∧ va + k ≤ seg.vmaddr.toNat + min seg.vmsize.toNat seg.filesize.toNat

variable {seg other head : SegmentRange} {table rest : List SegmentRange} {va k : Nat}

theorem Carries.part {i n : Nat} (carries : seg.Carries table va k) (inside : i + n ≤ k) : seg.Carries table (va + i) n := by
  rcases carries with ⟨before, after, split, whole, free, low, high⟩
  refine ⟨before, after, split, whole, ?_, by omega, by omega⟩
  intro s member backed
  apply (free s member backed).mono_right
  exact Set.Ico_subset_Ico (by omega) (by omega)

theorem Carries.place_add (carries : seg.Carries table va k) (i : Nat) : seg.place (va + i) = seg.place va + i := by
  rcases carries with ⟨_, _, -, -, -, low, -⟩
  rw [place, place]
  omega

theorem Carries.below (carries : seg.Carries table va 1) : va < 2^64 := by
  rcases carries with ⟨_, _, -, whole, -, -, high⟩
  have small : seg.vmaddr.toNat + seg.vmsize.toNat < 2^64 := whole seg (by simp)
  omega

theorem disjoint_one : Disjoint seg.span (Set.Ico va (va + 1)) ↔ va ∉ seg.span := by
  rw [Set.disjoint_right]
  constructor
  · intro apart
    exact apart ⟨Nat.le_refl _, Nat.lt_succ_self _⟩
  · rintro outside n ⟨low, high⟩
    rwa [Nat.le_antisymm (Nat.le_of_lt_succ high) low]

/-- The first segment of a table takes an address, or leaves it to the others. -/
theorem carries_cons (whole : head.Whole) : seg.Carries (head :: rest) va 1 ↔
    if va ∈ head.span ∧ 0 < head.filesize.toNat then seg = head ∧ va - head.vmaddr.toNat < head.filesize.toNat
    else seg.Carries rest va 1 := by
  by_cases takes : va ∈ head.span ∧ 0 < head.filesize.toNat
  · rw [if_pos takes]
    have low : head.vmaddr.toNat ≤ va := takes.1.1
    have high : va < head.vmaddr.toNat + head.vmsize.toNat := takes.1.2
    constructor
    · rintro ⟨_ | ⟨first, before⟩, after, split, -, free, -, top⟩
      · cases split
        exact ⟨rfl, by omega⟩
      · cases split
        exact absurd takes.1 (disjoint_one.mp (free head List.mem_cons_self takes.2))
    · rintro ⟨rfl, backed⟩
      exact ⟨[], rest, rfl, by simpa using whole, by simp, low, by omega⟩
  · rw [if_neg takes]
    constructor
    · rintro ⟨_ | ⟨first, before⟩, after, split, all, free, low, top⟩
      · cases split
        exact absurd ⟨⟨low, by omega⟩, by omega⟩ takes
      · cases split
        refine ⟨before, after, rfl, ?_, ?_, low, top⟩
        · exact fun s member => all s (List.mem_cons_of_mem _ member)
        · exact fun s member => free s (List.mem_cons_of_mem _ member)
    · rintro ⟨before, after, rfl, all, free, low, top⟩
      refine ⟨head :: before, after, rfl, ?_, ?_, low, top⟩
      · exact List.forall_mem_cons.mpr ⟨whole, all⟩
      · refine List.forall_mem_cons.mpr ⟨?_, free⟩
        exact fun backed => disjoint_one.mpr fun mapped => takes ⟨mapped, backed⟩

theorem not_carries_overflow (past : ¬ head.Whole) : ¬ seg.Carries (head :: rest) va k := by
  rintro ⟨_ | ⟨first, before⟩, after, split, all, -⟩
  · cases split
    exact past (all _ (by simp))
  · cases split
    exact past (all _ (by simp))

theorem Carries.unique (here : seg.Carries table va 1) (there : other.Carries table va 1) : seg = other := by
  induction table with
  | nil =>
    rcases here with ⟨before, after, split, -⟩
    simp at split
  | cons head rest ih =>
    by_cases whole : head.Whole
    · rw [carries_cons whole] at here there
      by_cases takes : va ∈ head.span ∧ 0 < head.filesize.toNat
      · rw [if_pos takes] at here there
        rw [here.1, there.1]
      · rw [if_neg takes] at here there
        exact ih here there
    · exact absurd here (not_carries_overflow whole)

end SegmentRange

theorem vmToFileOffsetIn_eq_some {table : List SegmentRange} {va off : U64} :
    vmToFileOffsetIn table va = some off ↔
      ∃ seg, SegmentRange.Carries seg table va.toNat 1 ∧ off.toNat = seg.place va.toNat := by
  induction table with
  | nil =>
    constructor
    · intro found
      cases found
    · rintro ⟨seg, ⟨before, after, split, -⟩, -⟩
      simp at split
  | cons head rest ih =>
    by_cases whole : head.Whole
    · rw [vmToFileOffsetIn_cons whole]
      simp only [SegmentRange.carries_cons whole]
      by_cases takes : va.toNat ∈ head.span ∧ 0 < head.filesize.toNat
      · simp only [if_pos takes]
        by_cases backed : va.toNat - head.vmaddr.toNat < head.filesize.toNat
        · rw [if_pos backed, checkedAdd_places takes.1 backed]
          constructor
          · rintro ⟨-, -, value⟩
            exact ⟨head, ⟨rfl, backed⟩, value⟩
          · rintro ⟨seg, ⟨rfl, -⟩, value⟩
            exact ⟨takes.1, backed, value⟩
        · rw [if_neg backed]
          constructor
          · intro found
            cases found
          · rintro ⟨seg, ⟨-, inside⟩, -⟩
            exact absurd inside backed
      · simp only [if_neg takes]
        exact ih
    · rw [vmToFileOffsetIn_overflow whole]
      constructor
      · intro found
        cases found
      · rintro ⟨seg, carries, -⟩
        exact absurd carries (SegmentRange.not_carries_overflow whole)

/-- A range of addresses in pieces, each carried by one segment and as long as that segment carries it, and each at a
    place in the file that suits the offset which the pieces before it have reached. -/
inductive Tiled (table : List SegmentRange) (suits : Nat → Nat → Nat → Prop) : Nat → Nat → Nat → Prop
  | done {va off : Nat} : Tiled table suits va off 0
  | piece {seg : SegmentRange} {va off k len : Nat} (positive : 0 < k) (carried : seg.Carries table va k)
      (longest : len = 0 ∨ ¬ seg.Carries table va (k + 1)) (suited : suits (seg.place va) off k)
      (others : Tiled table suits (va + k) (off + k) len) : Tiled table suits va off (k + len)

theorem tiled_iff {table : List SegmentRange} {suits : Nat → Nat → Nat → Prop}
    (each : ∀ place off k, 0 < k → (suits place off k ↔ ∀ i < k, suits (place + i) (off + i) 1)) {va off len : Nat} :
    Tiled table suits va off len ↔
      ∀ i < len, ∃ seg, SegmentRange.Carries seg table (va + i) 1 ∧ suits (seg.place (va + i)) (off + i) 1 := by
  constructor
  · intro tiled
    induction tiled with
    | done => exact fun i below => absurd below (Nat.not_lt_zero i)
    | @piece seg va off k len nonempty carried _ suited _ ih =>
      intro i below
      by_cases here : i < k
      · refine ⟨seg, carried.part here, ?_⟩
        rw [carried.place_add]
        exact (each _ _ _ nonempty).mp suited i here
      · rcases ih (i - k) (by omega) with ⟨later, carries, fits⟩
        have along : va + k + (i - k) = va + i := by omega
        have behind : off + k + (i - k) = off + i := by omega
        rw [along] at carries fits
        rw [behind] at fits
        exact ⟨later, carries, fits⟩
  · intro pointwise
    induction len using Nat.strong_induction_on generalizing va off with
    | _ len ih =>
      rcases Nat.eq_zero_or_pos len with rfl | positive
      · exact .done
      classical
      rcases pointwise 0 positive with ⟨seg, carries, -⟩
      -- the longest piece that the segment of the first address carries
      let k := Nat.findGreatest (fun n => seg.Carries table va n) len
      have first : 0 < k := Nat.findGreatest_pos.mpr ⟨1, Nat.one_pos, positive, carries⟩
      have short : k ≤ len := Nat.findGreatest_le len
      have carried : seg.Carries table va k := Nat.findGreatest_of_ne_zero rfl first.ne'
      have longest : len - k = 0 ∨ ¬ seg.Carries table va (k + 1) := by
        rcases Nat.eq_or_lt_of_le short with all | less
        · exact .inl (by omega)
        · exact .inr (Nat.findGreatest_is_greatest (Nat.lt_succ_self k) less)
      have suited : suits (seg.place va) off k := by
        apply (each _ _ _ first).mpr
        intro i below
        rcases pointwise i (by omega) with ⟨own, takes, fits⟩
        have same : own = seg := takes.unique (carried.part below)
        rwa [same, carried.place_add] at fits
      have others : Tiled table suits (va + k) (off + k) (len - k) := by
        apply ih (len - k) (by omega)
        intro i below
        rw [Nat.add_assoc, Nat.add_assoc]
        exact pointwise (k + i) (by omega)
      have sum : len = k + (len - k) := by omega
      rw [sum]
      exact .piece first carried longest suited others

namespace Image

def byteAt (image : Image) (va : U64) : Option U8 := do
  let off ← image.vmToFileOffset va
  image.data.bytes[off.toNat]?

/-- Each byte that a read returns is the byte that its own address reads as. -/
def Coherent (image : Image) (va : U64) (len : Nat) : Prop :=
  ∀ found, image.readBytes va len = some found → ∀ i < len, ∃ next byte,
    checkedAdd va (BitVec.ofNat 64 i) = some next ∧ found.bytes[i]? = some byte ∧
      (image.readBytes next 1).map Slice.bytes = some [byte]

def SameBytes (data : Slice) (place off k : Nat) : Prop := place + k ≤ data.length ∧ data.window place k = data.window off k

/-- The range is in pieces that are carried by segments of the table, and where two of these are not next to each other in
    the file, it holds the same bytes at the place of the later one as behind the earlier one. -/
def MapsBytes (image : Image) (va : U64) (len : Nat) : Prop :=
  ∀ seg, SegmentRange.Carries seg image.segments va.toNat 1 → seg.place va.toNat + len ≤ image.data.length →
    Tiled image.segments (SameBytes image.data) va.toNat (seg.place va.toNat) len

/-- The range is in pieces that are carried by segments of the table which are next to each other in the file as well. -/
def MapsRange (image : Image) (va : U64) (len : Nat) : Prop :=
  ∀ seg, SegmentRange.Carries seg image.segments va.toNat 1 → seg.place va.toNat + len ≤ image.data.length →
    Tiled image.segments (fun place off _ => place = off) va.toNat (seg.place va.toNat) len

def Finds (image : Image) (va : U64) (len : Nat) (suits : Nat → Nat → Prop) : Prop :=
  ∀ off, image.vmToFileOffset va = some off → off.toNat + len ≤ image.data.length → ∀ i < len, ∃ next place,
    checkedAdd va (BitVec.ofNat 64 i) = some next ∧ image.vmToFileOffset next = some place ∧
      suits place.toNat (off.toNat + i)

def FindsBytes (image : Image) (va : U64) (len : Nat) : Prop :=
  image.Finds va len fun place off => place < image.data.length ∧ image.data.bytes[place]? = image.data.bytes[off]?

def FindsRange (image : Image) (va : U64) (len : Nat) : Prop := image.Finds va len fun place off => place = off

variable {image : Image} {va : U64} {len : Nat}

theorem readBytes_eq {off : U64} (place : image.vmToFileOffset va = some off)
    (inside : off.toNat + len ≤ image.data.length) :
    ∃ part, image.readBytes va len = some part ∧ part.start = image.data.start + off.toNat ∧
      part.bytes = image.data.window off.toNat len := by
  have small := image.data.length_lt
  rcases Slice.get_of_le (Nat.le_add_right off.toNat len) inside with ⟨part, found, start, bytes⟩
  rw [Nat.add_sub_cancel_left] at bytes
  refine ⟨part, ?_, start, bytes⟩
  rw [readBytes, place, Option.bind_eq_bind, Option.bind_some, checkedAddUsize_of_lt (by omega)]
  exact found

theorem readBytes_some {part : Slice} (found : image.readBytes va len = some part) :
    ∃ off, image.vmToFileOffset va = some off ∧ off.toNat + len ≤ image.data.length := by
  rw [readBytes] at found
  rcases Option.bind_eq_some_iff.mp found with ⟨off, place, found⟩
  rcases Option.bind_eq_some_iff.mp found with ⟨stop, sum, found⟩
  have total := checkedAddUsize_some sum
  have inside := (Slice.get_some found).2.1
  exact ⟨off, place, by omega⟩

theorem readAt_eq_readBytes (w count : Nat) (va : U64) :
    ((image.vmToFileOffset va).bind fun off => readAt leNumber w count image.data off.toNat) =
      (image.readBytes va count).map fun part => BitVec.ofNat w (leNumber part.bytes) := by
  simp only [readBytes, readAt, Option.bind_eq_bind, Option.map_bind]
  congr 1
  funext off
  simp only [Function.comp, Option.map_bind]
  congr 1
  funext stop
  cases image.data.get off.toNat stop <;> rfl

theorem readBytes_one (va : U64) : (image.readBytes va 1).map Slice.bytes = (image.byteAt va).map fun byte => [byte] := by
  rw [byteAt]
  cases place : image.vmToFileOffset va with
  | none => rw [readBytes, place]; rfl
  | some off =>
    rw [Option.bind_eq_bind, Option.bind_some]
    by_cases inside : off.toNat < image.data.length
    · have fits : off.toNat + 1 ≤ image.data.length := inside
      rcases readBytes_eq place fits with ⟨part, found, -, bytes⟩
      rw [found, Option.map_some, bytes, Slice.window, List.drop_eq_getElem_cons inside, List.take_succ_cons,
        List.take_zero, List.getElem?_eq_getElem inside, Option.map_some]
    · have none : image.readBytes va 1 = none := by
        apply Option.eq_none_iff_forall_ne_some.mpr
        intro part found
        rcases readBytes_some found with ⟨again, same, fits⟩
        rw [place, Option.some.injEq] at same
        subst same
        omega
      rw [none, List.getElem?_eq_none (Nat.le_of_not_lt inside)]
      rfl

theorem coherent_iff_findsBytes (image : Image) (va : U64) (len : Nat) :
    image.Coherent va len ↔ image.FindsBytes va len := by
  constructor
  · intro coherent off place inside i below
    rcases readBytes_eq place inside with ⟨part, found, -, bytes⟩
    rcases coherent part found i below with ⟨next, byte, sum, read, one⟩
    rw [readBytes_one, Option.map_eq_some_iff] at one
    rcases one with ⟨again, held, same⟩
    cases same
    rcases Option.bind_eq_some_iff.mp held with ⟨spot, mapped, held⟩
    rcases List.getElem?_eq_some_iff.mp held with ⟨short, -⟩
    refine ⟨next, spot, sum, mapped, short, ?_⟩
    rw [held, ← read, bytes, Slice.window, List.getElem?_take_of_lt below, List.getElem?_drop]
  · intro maps part found i below
    rcases readBytes_some found with ⟨off, place, inside⟩
    rcases maps off place inside i below with ⟨next, spot, sum, mapped, short, same⟩
    rcases readBytes_eq place inside with ⟨again, read, -, bytes⟩
    rw [found, Option.some.injEq] at read
    subst read
    refine ⟨next, image.data.bytes.get ⟨spot.toNat, short⟩, sum, ?_, ?_⟩
    · rw [bytes, Slice.window, List.getElem?_take_of_lt below, List.getElem?_drop, ← same]
      exact List.getElem?_eq_getElem short
    · rw [readBytes_one, byteAt, mapped, Option.bind_eq_bind, Option.bind_some, List.getElem?_eq_getElem short]
      rfl

theorem findsBytes_of_findsRange (maps : image.FindsRange va len) : image.FindsBytes va len := by
  intro off place inside i below
  rcases maps off place inside i below with ⟨next, spot, sum, mapped, along⟩
  exact ⟨next, spot, sum, mapped, by omega, by rw [along]⟩

def marked (length place : Nat) (bound : length < 2^63) : Slice where
  start := 0
  bytes := (List.replicate length 0).set place 1
  bound := by simpa using bound

theorem marked_length {length place : Nat} (bound : length < 2^63) : (marked length place bound).length = length := by
  simp [marked, Slice.length]

/-- What the segments alone decide: whatever the file holds, the bytes are the right ones when the
    range is taken to a range of the file, and only then. -/
theorem coherent_forall_iff (image : Image) (va : U64) (len : Nat) :
    (∀ data : Slice, data.length = image.data.length → Coherent ⟨data, image.segments⟩ va len) ↔
      image.FindsRange va len := by
  constructor
  · intro coherent off place inside i below
    have bound := image.data.length_lt
    have size := @marked_length image.data.length (off.toNat + i) bound
    have maps := (coherent_iff_findsBytes _ va len).mp (coherent (marked image.data.length (off.toNat + i) bound) size)
    rcases maps off place (by rw [size]; exact inside) i below with ⟨next, spot, sum, mapped, short, same⟩
    refine ⟨next, spot, sum, mapped, ?_⟩
    dsimp only at short same
    rw [size] at short
    by_contra other
    rw [marked, List.getElem?_set_ne (Ne.symm other), List.getElem?_set_self (by rw [List.length_replicate]; omega),
      List.getElem?_replicate_of_lt short] at same
    cases same
  · intro maps data size
    apply (coherent_iff_findsBytes _ va len).mpr
    apply findsBytes_of_findsRange
    intro off place inside
    dsimp only at inside
    exact maps off place (by omega)

theorem window_eq_iff {data : Slice} {place off k : Nat} :
    data.window place k = data.window off k ↔ ∀ i < k, data.bytes[place + i]? = data.bytes[off + i]? := by
  have at? (start i : Nat) : (data.window start k)[i]? = if i < k then data.bytes[start + i]? else none := by
    rw [Slice.window, List.getElem?_take, List.getElem?_drop]
  constructor
  · intro same i below
    have byte := congrArg (fun part => part[i]?) same
    simpa only [at?, if_pos below] using byte
  · intro same
    ext1 i
    rw [at?, at?]
    by_cases below : i < k
    · rw [if_pos below, if_pos below, same i below]
    · rw [if_neg below, if_neg below]

theorem sameBytes_one {data : Slice} {place off : Nat} :
    SameBytes data place off 1 ↔ place < data.length ∧ data.bytes[place]? = data.bytes[off]? := by
  have first (P : Nat → Prop) : (∀ i < 1, P i) ↔ P 0 := by simp only [Nat.lt_one_iff, forall_eq]
  rw [SameBytes, window_eq_iff, first]
  exact Iff.rfl

theorem sameBytes_each {data : Slice} (place off k : Nat) (positive : 0 < k) :
    SameBytes data place off k ↔ ∀ i < k, SameBytes data (place + i) (off + i) 1 := by
  simp only [sameBytes_one]
  rw [SameBytes, window_eq_iff]
  constructor
  · intro both i below
    exact ⟨by omega, both.2 i below⟩
  · intro each
    have last := (each (k - 1) (by omega)).1
    exact ⟨by omega, fun i below => (each i below).2⟩

theorem place_each (place off k : Nat) (positive : 0 < k) : place = off ↔ ∀ i < k, place + i = off + i := by
  constructor
  · intro same i _
    rw [same]
  · intro each
    simpa using each 0 positive

theorem translated_iff {P : Nat → Prop} {i : Nat} (small : i < 2^64) (inside : ∀ place, P place → place < 2^64) :
    (∃ next place, checkedAdd va (BitVec.ofNat 64 i) = some next ∧ image.vmToFileOffset next = some place ∧ P place.toNat) ↔
      ∃ seg, SegmentRange.Carries seg image.segments (va.toNat + i) 1 ∧ P (seg.place (va.toNat + i)) := by
  have number : (BitVec.ofNat 64 i).toNat = i := by rw [BitVec.toNat_ofNat, Nat.mod_eq_of_lt small]
  constructor
  · rintro ⟨next, place, sum, found, suits⟩
    rcases checkedAdd_some sum with ⟨-, value⟩
    rcases vmToFileOffsetIn_eq_some.mp found with ⟨seg, carries, spot⟩
    rw [value, number] at carries spot
    rw [spot] at suits
    exact ⟨seg, carries, suits⟩
  · rintro ⟨seg, carries, suits⟩
    have fits : va.toNat + (BitVec.ofNat 64 i).toNat < 2^64 := by
      rw [number]
      exact carries.below
    have value := toNat_add_of_lt fits
    have spot : (BitVec.ofNat 64 (seg.place (va.toNat + i))).toNat = seg.place (va.toNat + i) := by
      rw [BitVec.toNat_ofNat, Nat.mod_eq_of_lt (inside _ suits)]
    refine ⟨va + BitVec.ofNat 64 i, BitVec.ofNat 64 (seg.place (va.toNat + i)), checkedAdd_of_lt fits, ?_, ?_⟩
    · apply vmToFileOffsetIn_eq_some.mpr
      rw [value, number]
      exact ⟨seg, carries, spot⟩
    · rwa [spot]

/-- Addresses that are translated one by one are carried in pieces. -/
theorem finds_iff {suits : Nat → Nat → Prop} {suit : Nat → Nat → Nat → Prop}
    (one : ∀ place off, suit place off 1 ↔ suits place off)
    (each : ∀ place off k, 0 < k → (suit place off k ↔ ∀ i < k, suit (place + i) (off + i) 1))
    (inside : ∀ place off, off ≤ image.data.length → suits place off → place ≤ image.data.length) :
    image.Finds va len suits ↔ ∀ seg, SegmentRange.Carries seg image.segments va.toNat 1 →
      seg.place va.toNat + len ≤ image.data.length → Tiled image.segments suit va.toNat (seg.place va.toNat) len := by
  have bound := image.data.length_lt
  have pieces (seg : SegmentRange) (short : seg.place va.toNat + len ≤ image.data.length) :
      Tiled image.segments suit va.toNat (seg.place va.toNat) len ↔ ∀ i < len, ∃ next place,
        checkedAdd va (BitVec.ofNat 64 i) = some next ∧ image.vmToFileOffset next = some place ∧
          suits place.toNat (seg.place va.toNat + i) := by
    rw [tiled_iff each]
    apply forall₂_congr
    intro i below
    simp only [one]
    refine (translated_iff (P := fun place => suits place (seg.place va.toNat + i)) (by omega) ?_).symm
    intro place suited
    have low := inside place _ (by omega) suited
    omega
  constructor
  · intro finds seg carries short
    have spot : (BitVec.ofNat 64 (seg.place va.toNat)).toNat = seg.place va.toNat := by
      rw [BitVec.toNat_ofNat, Nat.mod_eq_of_lt (by omega)]
    have found : image.vmToFileOffset va = some (BitVec.ofNat 64 (seg.place va.toNat)) :=
      vmToFileOffsetIn_eq_some.mpr ⟨seg, carries, spot⟩
    have addresses := finds _ found
    rw [spot] at addresses
    exact (pieces seg short).mpr (addresses short)
  · intro tiled off found short
    rcases vmToFileOffsetIn_eq_some.mp found with ⟨seg, carries, spot⟩
    rw [spot] at short ⊢
    exact (pieces seg short).mp (tiled seg carries short)

theorem findsBytes_iff : image.FindsBytes va len ↔ image.MapsBytes va len :=
  finds_iff (fun _ _ => sameBytes_one) sameBytes_each fun _ _ _ suited => Nat.le_of_lt suited.1

theorem findsRange_iff : image.FindsRange va len ↔ image.MapsRange va len :=
  finds_iff (fun _ _ => Iff.rfl) place_each fun _ _ inside same => same ▸ inside

/-- A read through an address is coherent exactly when the segments carry the range in pieces that hold the bytes which
    the file holds behind the first piece; the segment table alone ensures this exactly when the pieces are next to each
    other in the file. A word is that of the bytes of its range. -/
theorem readBytes_coherent_iff (image : Image) (va : U64) (len : Nat) :
    (image.Coherent va len ↔ image.MapsBytes va len) ∧
      ((∀ data : Slice, data.length = image.data.length → Coherent ⟨data, image.segments⟩ va len) ↔
        image.MapsRange va len) ∧
      image.readU32 va = (image.readBytes va 4).map (fun part => BitVec.ofNat 32 (leNumber part.bytes)) ∧
      image.readU64 va = (image.readBytes va 8).map fun part => BitVec.ofNat 64 (leNumber part.bytes) := by
  refine ⟨?_, ?_, readAt_eq_readBytes 32 4 va, readAt_eq_readBytes 64 8 va⟩
  · rw [coherent_iff_findsBytes, findsBytes_iff]
  · rw [coherent_forall_iff, findsRange_iff]

/-- Two segments with zero-fill tails, next to each other in the file and apart in memory. -/
def splitImage : Image where
  data := ⟨0, [1, 2, 3, 4, 5, 6, 7, 8, 9, 10, 11, 12, 13, 14, 15, 16], by decide⟩
  segments := [⟨0x1000, 0x1000, 0, 8⟩, ⟨0x4000, 0x1000, 8, 8⟩]

theorem split_range_incoherent : ¬ ∀ (image : Image) (va : U64) (len : Nat), image.Coherent va len := by
  intro coherent
  have read : splitImage.readBytes 0x1004 8 = some ⟨4, [5, 6, 7, 8, 9, 10, 11, 12], by decide⟩ := by decide +kernel
  rcases coherent splitImage 0x1004 8 _ read 4 (by decide) with ⟨next, byte, sum, -, one⟩
  have unmapped : splitImage.readBytes 0x1008 1 = none := by decide +kernel
  have address : next = 0x1008 := by
    cases sum
    rfl
  rw [address, unmapped] at one
  cases one

end Image

end DarwinScope
