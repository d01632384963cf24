import DarwinScope.Machine.Slices

namespace Machine

/-- Where a UTF-8 decoder stands: between characters, or waiting for `more` continuation bytes
    after one in `[low, high]`. -/
inductive Utf8State where
  | start
  | continuation (low high : U8) (more : Nat)
deriving DecidableEq

def Utf8State.step : Utf8State → U8 → Option Utf8State
  | .start, byte =>
    if byte ≤ 0x7f#8 then some .start
    else if 0xc2#8 ≤ byte ∧ byte ≤ 0xdf#8 then some (.continuation 0x80 0xbf 0)
    else if byte = 0xe0#8 then some (.continuation 0xa0 0xbf 1)
    else if 0xe1#8 ≤ byte ∧ byte ≤ 0xec#8 then some (.continuation 0x80 0xbf 1)
    else if byte = 0xed#8 then some (.continuation 0x80 0x9f 1)
    else if 0xee#8 ≤ byte ∧ byte ≤ 0xef#8 then some (.continuation 0x80 0xbf 1)
    else if byte = 0xf0#8 then some (.continuation 0x90 0xbf 2)
    else if 0xf1#8 ≤ byte ∧ byte ≤ 0xf3#8 then some (.continuation 0x80 0xbf 2)
    else if byte = 0xf4#8 then some (.continuation 0x80 0x8f 2)
    else none
  | .continuation low high more, byte =>
    if low ≤ byte ∧ byte ≤ high then
      match more with
      | 0 => some .start
      | more + 1 => some (.continuation 0x80 0xbf more)
    else none

def utf8From : Utf8State → Bytes → Bool
  | state, [] => state = .start
  | state, byte :: rest =>
    match state.step byte with
    | some next => utf8From next rest
    | none => false

def validUtf8 (bytes : Bytes) : Bool := utf8From .start bytes

def replacementCharacter : Bytes := [0xef#8, 0xbf#8, 0xbd#8]

/-- `String::from_utf8_lossy`: each maximal ill-formed prefix becomes one replacement character.
    `pending` holds the bytes of the character being read. -/
def lossyFrom (pending : Bytes) (state : Utf8State) : Bytes → Bytes
  | [] => if pending = [] then [] else replacementCharacter
  | byte :: rest =>
    match state.step byte with
    | some .start => pending ++ byte :: lossyFrom [] .start rest
    | some next => lossyFrom (pending ++ [byte]) next rest
    | none =>
      -- the byte that broke a character is read again as the start of the next one
      if pending = [] then replacementCharacter ++ lossyFrom [] .start rest
      else match Utf8State.start.step byte with
        | some .start => replacementCharacter ++ byte :: lossyFrom [] .start rest
        | some next => replacementCharacter ++ lossyFrom [byte] next rest
        | none => replacementCharacter ++ replacementCharacter ++ lossyFrom [] .start rest

def utf8Lossy (bytes : Bytes) : Bytes := lossyFrom [] .start bytes

def lit (text : String) : Bytes :=
  text.toList.flatMap fun c => (String.utf8EncodeChar c).map UInt8.toBitVec

def decimal (n : Nat) : Bytes := (Nat.toDigits 10 n).map fun c => BitVec.ofNat 8 c.toNat

def decimalInt (n : Int) : Bytes :=
  if n < 0 then lit "-" ++ decimal n.natAbs else decimal n.natAbs

def hexDigit (n : Nat) : U8 := BitVec.ofNat 8 (if n < 10 then 48 + n else 87 + n)

def hexBytes (bytes : Bytes) : Bytes :=
  bytes.flatMap fun byte => [hexDigit (byte.toNat / 16), hexDigit (byte.toNat % 16)]

/-- A borrowed string. `origin` is the address of its first byte inside the image, and `none` for
    a string constant of the program, which no image contains. -/
structure Str where
  origin : Option Nat
  text : Bytes
deriving DecidableEq

def Str.literal (text : String) : Str := ⟨none, lit text⟩

def Str.unplaced (s : Str) : Str := ⟨none, s.text⟩

def Str.Inside (s : Str) (data : Slice) : Prop :=
  ∃ off, s.origin = some (data.start + off) ∧ off + s.text.length ≤ data.length ∧
    data.window off s.text.length = s.text ∧ validUtf8 s.text = true

def Str.Sound (s : Str) (data : Slice) : Prop := s.origin = none ∨ s.Inside data

def stripPrefix? (start text : Bytes) : Option Bytes :=
  if start.isPrefixOf text then some (text.drop start.length) else none

def Str.dropBytes (s : Str) (n : Nat) : Str := ⟨s.origin.map (· + n), s.text.drop n⟩

/-- A place between two characters: an end of the text, or a place before a byte that continues none. -/
def isCharBoundary (text : Bytes) (i : Nat) : Bool :=
  match text[i]? with
  | none => i = text.length
  | some byte => i = 0 || byte < 0x80#8 || 0xc0#8 ≤ byte

/-- The part of a string between two byte indices; `none` where they are out of order or cut a character. -/
def Str.get? (s : Str) (lo hi : Nat) : Option Str :=
  if lo ≤ hi ∧ isCharBoundary s.text lo = true ∧ isCharBoundary s.text hi = true then
    some ⟨s.origin.map (· + lo), (s.text.drop lo).take (hi - lo)⟩
  else none

theorem first_of_step : ∀ byte : U8, (Utf8State.start.step byte).isSome = true → byte < 0x80#8 ∨ 0xc0#8 ≤ byte := by
  decide +kernel

theorem isCharBoundary_length (text : Bytes) : isCharBoundary text text.length = true := by
  rw [isCharBoundary, List.getElem?_eq_none (Nat.le_refl _)]
  exact decide_eq_true rfl

/-- A valid part of a text starts between two characters when what stands behind it does. -/
theorem isCharBoundary_of_valid {before valid rest : Bytes} (ok : validUtf8 valid = true)
    (behind : isCharBoundary (before ++ valid ++ rest) (before ++ valid).length = true) :
    isCharBoundary (before ++ valid ++ rest) before.length = true := by
  cases valid with
  | nil => rwa [List.append_nil] at behind ⊢
  | cons byte valid =>
    have some : (Utf8State.start.step byte).isSome = true := by
      rw [validUtf8, utf8From] at ok
      cases step : Utf8State.start.step byte with
      | none =>
        rw [step] at ok
        cases ok
      | some next => rfl
    have here : (before ++ byte :: valid ++ rest)[before.length]? = .some byte := by
      rw [List.append_assoc, List.getElem?_append_right (Nat.le_refl _), Nat.sub_self]
      rfl
    rw [isCharBoundary, here]
    rcases first_of_step byte some with low | high
    · simp [low]
    · simp [high]

theorem utf8Lossy_ascii {bytes : Bytes} (ascii : ∀ byte ∈ bytes, byte ≤ 0x7f#8) :
    utf8Lossy bytes = bytes := by
  unfold utf8Lossy
  induction bytes with
  | nil => rfl
  | cons byte rest ih =>
    have head : byte ≤ 0x7f#8 := ascii byte (List.mem_cons_self ..)
    simp only [lossyFrom, Utf8State.step, head, ↓reduceIte, List.nil_append]
    rw [ih fun b member => ascii b (List.mem_cons_of_mem _ member)]

theorem lossyFrom_of_valid {pending : Bytes} {state : Utf8State} {rest : Bytes} (between : state = .start → pending = [])
    (valid : utf8From state rest = true) : lossyFrom pending state rest = pending ++ rest := by
  induction rest generalizing pending state with
  | nil =>
    have stops : state = .start := of_decide_eq_true valid
    rw [between stops]
    rfl
  | cons byte rest ih =>
    simp only [utf8From] at valid
    cases step : state.step byte with
    | none =>
      rw [step] at valid
      cases valid
    | some next =>
      rw [step] at valid
      cases next with
      | start =>
        simp only [lossyFrom, step]
        rw [ih (fun _ => rfl) valid, List.nil_append]
      | continuation low high more =>
        simp only [lossyFrom, step]
        rw [ih (fun same => by cases same) valid, List.append_assoc, List.singleton_append]

theorem utf8Lossy_of_valid {bytes : Bytes} (valid : validUtf8 bytes = true) : utf8Lossy bytes = bytes :=
  lossyFrom_of_valid (fun _ => rfl) valid

end Machine
