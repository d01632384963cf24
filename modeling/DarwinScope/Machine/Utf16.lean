import DarwinScope.Machine.Layout

namespace Machine

/-- The characters of a sequence of UTF-16 units; `none` when a surrogate stands alone. -/
def fromUtf16 : List U16 → Option (List Char)
  | [] => some []
  | unit :: units =>
    if unit.toNat < 0xd800 ∨ 0xdfff < unit.toNat then (fromUtf16 units).map (Char.ofNat unit.toNat :: ·)
    else if 0xdc00 ≤ unit.toNat then none
    else
      match units with
      | [] => none
      | low :: units =>
        if low.toNat < 0xdc00 ∨ 0xdfff < low.toNat then none
        else
          (fromUtf16 units).map
            (Char.ofNat (0x10000 + (0x400 * (unit.toNat - 0xd800) + (low.toNat - 0xdc00))) :: ·)

def encodeChar (c : Char) : List U16 :=
  if c.toNat < 0x10000 then [BitVec.ofNat 16 c.toNat]
  else
    [BitVec.ofNat 16 (0xd800 + (c.toNat - 0x10000) / 0x400), BitVec.ofNat 16 (0xdc00 + (c.toNat - 0x10000) % 0x400)]

def toUtf16 (text : List Char) : List U16 := text.flatMap encodeChar

/-- The units of a run of bytes, the low byte first; an odd byte at the end is left out. -/
def unitsLe : Bytes → List U16
  | low :: high :: bytes => BitVec.ofNat 16 (leNumber [low, high]) :: unitsLe bytes
  | _ => []

def unitBytes (units : List U16) : Bytes := units.flatMap fun unit => leBytes 2 unit.toNat

theorem char_range (c : Char) : c.toNat < 0xd800 ∨ 0xdfff < c.toNat ∧ c.toNat < 0x110000 := c.valid

theorem fromUtf16_plain {unit : U16} {units : List U16} (plain : unit.toNat < 0xd800 ∨ 0xdfff < unit.toNat) :
    fromUtf16 (unit :: units) = (fromUtf16 units).map (Char.ofNat unit.toNat :: ·) := by
  rw [fromUtf16.eq_def]
  exact if_pos plain

theorem fromUtf16_pair {high low : U16} {units : List U16} (first : 0xd800 ≤ high.toNat ∧ high.toNat < 0xdc00)
    (second : 0xdc00 ≤ low.toNat ∧ low.toNat ≤ 0xdfff) :
    fromUtf16 (high :: low :: units) = (fromUtf16 units).map
      (Char.ofNat (0x10000 + (0x400 * (high.toNat - 0xd800) + (low.toNat - 0xdc00))) :: ·) := by
  rw [fromUtf16.eq_def]
  dsimp only
  rw [if_neg (by omega), if_neg (by omega), if_neg (by omega)]

theorem fromUtf16_encodeChar (c : Char) (units : List U16) :
    fromUtf16 (encodeChar c ++ units) = (fromUtf16 units).map (c :: ·) := by
  have range := char_range c
  unfold encodeChar
  split
  · rename_i plane
    have unit : (BitVec.ofNat 16 c.toNat).toNat = c.toNat := by rw [toNat_ofNat_of_lt plane]
    rw [List.singleton_append, fromUtf16_plain (by omega), unit, Char.ofNat_toNat]
  · rename_i plane
    have high : (BitVec.ofNat 16 (0xd800 + (c.toNat - 0x10000) / 0x400)).toNat = 0xd800 + (c.toNat - 0x10000) / 0x400 := by
      rw [toNat_ofNat_of_lt (by omega)]
    have low : (BitVec.ofNat 16 (0xdc00 + (c.toNat - 0x10000) % 0x400)).toNat = 0xdc00 + (c.toNat - 0x10000) % 0x400 := by
      rw [toNat_ofNat_of_lt (by omega)]
    have whole : 0x10000 + (0x400 * (0xd800 + (c.toNat - 0x10000) / 0x400 - 0xd800) +
        (0xdc00 + (c.toNat - 0x10000) % 0x400 - 0xdc00)) = c.toNat := by
      omega
    rw [List.cons_append, List.singleton_append, fromUtf16_pair (by omega) (by omega), high, low, whole, Char.ofNat_toNat]

theorem fromUtf16_toUtf16 (text : List Char) : fromUtf16 (toUtf16 text) = some text := by
  induction text with
  | nil => rfl
  | cons c text ih =>
    rw [toUtf16, List.flatMap_cons, fromUtf16_encodeChar]
    rw [toUtf16] at ih
    rw [ih, Option.map_some]

theorem unitsLe_unitBytes (units : List U16) : unitsLe (unitBytes units) = units := by
  induction units with
  | nil => rfl
  | cons unit units ih =>
    have bound := unit.isLt
    have value := leNumber_leBytes 2 unit.toNat (by omega)
    have bytes : leBytes 2 unit.toNat = [BitVec.ofNat 8 unit.toNat, BitVec.ofNat 8 (unit.toNat / 256)] := rfl
    rw [bytes] at value
    rw [unitBytes, List.flatMap_cons, bytes, List.cons_append, List.singleton_append, unitsLe, value, BitVec.ofNat_toNat,
      BitVec.setWidth_eq]
    exact congrArg (unit :: ·) ih

theorem unitBytes_length (units : List U16) : (unitBytes units).length = 2 * units.length :=
  flatMap_length fun _ _ => leBytes_length 2 _

end Machine
