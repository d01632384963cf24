import DarwinScope.Machine.Base128
import DarwinScope.Machine.Decimals
import DarwinScope.Codesign.Expressions

namespace DarwinScope.Codesign

open Machine

/-- An object identifier. The second arc stays under forty unless the first is two. -/
structure Oid where
  first : Nat
  second : Nat
  rest : List Nat
  top : first ≤ 2
  low : first < 2 → second < 40
deriving DecidableEq

def dotted : List Nat → Bytes
  | [] => []
  | arc :: arcs => decimal arc ++ arcs.flatMap fun arc => 0x2e#8 :: decimal arc

def encodeSubidentifier (n : Nat) : Bytes := continued (groups n).reverse

namespace Oid

def arcs (o : Oid) : List Nat := o.first :: o.second :: o.rest

def text (o : Oid) : Bytes := dotted o.arcs

def subidentifiers (o : Oid) : List Nat := (40 * o.first + o.second) :: o.rest

def encode (o : Oid) : Bytes := o.subidentifiers.flatMap encodeSubidentifier

def wrapped (o : Oid) : List Nat := o.subidentifiers.map (· % 2^32)

def Narrow (o : Oid) : Prop := ∀ n ∈ o.subidentifiers, n < 2^32

instance (o : Oid) : Decidable o.Narrow := inferInstanceAs (Decidable (∀ n ∈ _, _))

end Oid

def splitFirst : List Nat → List Nat
  | [] => []
  | first :: rest => min (first / 40) 2 :: (first - min (first / 40) 2 * 40) :: rest

theorem splitFirst_injective : Function.Injective splitFirst := by
  intro s s' same
  cases s with
  | nil =>
    cases s' with
    | nil => rfl
    | cons first rest => cases same
  | cons first rest =>
    cases s' with
    | nil => cases same
    | cons first' rest' =>
      simp only [splitFirst, List.cons.injEq] at same
      rcases same with ⟨quotient, remainder, rest⟩
      rw [rest, List.cons.injEq]
      refine ⟨?_, rfl⟩
      omega

theorem Oid.splitFirst_subidentifiers (o : Oid) : splitFirst o.subidentifiers = o.arcs := by
  have top := o.top
  have low := o.low
  simp only [subidentifiers, splitFirst, arcs, List.cons.injEq, and_true]
  by_cases last : o.first < 2
  · have below := low last
    omega
  · omega

theorem decimal_clean {byte : U8} (other : ¬ (48 ≤ byte.toNat ∧ byte.toNat ≤ 57)) (n : Nat) : byte ∉ decimal n :=
  fun member => other (decimal_digit member)

theorem dots_eq (arcs : List Nat) :
    (arcs.flatMap fun arc => 0x2e#8 :: decimal arc) = (arcs.map decimal).flatMap (0x2e#8 :: ·) := by rw [List.flatMap_map]

theorem dots_head (arcs : List Nat) : ∀ byte ∈ (arcs.flatMap fun arc => 0x2e#8 :: decimal arc).head?, byte = 0x2e#8 := by
  rw [dots_eq]
  exact separated_head _ _

theorem dotted_inj {arc arc' : Nat} {arcs arcs' : List Nat} (same : dotted (arc :: arcs) = dotted (arc' :: arcs')) :
    arc :: arcs = arc' :: arcs' := by
  have clean := @decimal_clean 0x2e#8 (by decide)
  rcases split_at (clean arc) (clean arc') (dots_head arcs) (dots_head arcs') same with ⟨first, rest⟩
  rw [dots_eq, dots_eq] at rest
  have cleanAll : ∀ (arcs : List Nat), ∀ field ∈ arcs.map decimal, 0x2e#8 ∉ field := by
    intro arcs field member
    rcases List.mem_map.mp member with ⟨arc, -, rfl⟩
    exact clean arc
  have fields := separated_inj (cleanAll arcs) (cleanAll arcs') rest
  rw [decimal_injective first, List.map_injective_iff.mpr decimal_injective fields]

theorem dotted_bytes {byte : U8} {arcs : List Nat} (member : byte ∈ dotted arcs) :
    byte = 0x2e#8 ∨ 48 ≤ byte.toNat ∧ byte.toNat ≤ 57 := by
  cases arcs with
  | nil => cases member
  | cons arc arcs =>
    rw [dotted, List.mem_append, List.mem_flatMap] at member
    rcases member with digit | ⟨arc, -, field⟩
    · exact .inr (decimal_digit digit)
    · rcases List.mem_cons.mp field with rfl | digit
      · exact .inl rfl
      · exact .inr (decimal_digit digit)

theorem accumulate (number : Nat) {byte : U8} {group : Nat} (low : (byte &&& 0x7f).toNat = group) :
    BitVec.ofNat 32 number * 128 + (byte &&& 0x7f).setWidth 32 = BitVec.ofNat 32 (number * 128 + group) := by
  have wide : (byte &&& 0x7f).setWidth 32 = BitVec.ofNat 32 group := by
    apply BitVec.eq_of_toNat_eq
    rw [BitVec.toNat_setWidth, BitVec.toNat_ofNat, low]
  rw [wide, BitVec.ofNat_add, BitVec.ofNat_mul]
  rfl

/-- A run of groups is folded into a 32-bit word, which keeps the low bits. -/
theorem oidComponent_continued {digits : List Nat} (small : ∀ group ∈ digits, group < 128) (some : digits ≠ [])
    (number : Nat) (rest : Bytes) :
    oidComponent (BitVec.ofNat 32 number) (continued digits ++ rest) =
      .some (BitVec.ofNat 32 (digits.foldl (fun number group => number * 128 + group) number), rest) := by
  induction digits generalizing number with
  | nil => exact absurd rfl some
  | cons group digits ih =>
    have here := small group (List.mem_cons_self ..)
    cases digits with
    | nil =>
      have bits := last_group_bits group here
      simp only [continued, List.cons_append, List.nil_append, oidComponent, if_pos bits.1, accumulate _ bits.2,
        List.foldl_cons, List.foldl_nil]
    | cons next digits =>
      have bits := more_group_bits group here
      have later := ih (fun g member => small g (List.mem_cons_of_mem _ member)) (List.cons_ne_nil _ _)
      rw [continued_cons group (List.cons_ne_nil _ _), List.cons_append, oidComponent]
      simp only [if_neg bits.1, accumulate _ bits.2]
      rw [later]
      rfl

theorem oidComponent_subidentifier (n : Nat) (rest : Bytes) :
    oidComponent 0 (encodeSubidentifier n ++ rest) = some (BitVec.ofNat 32 n, rest) := by
  have read := @oidComponent_continued (groups n).reverse (fun _ member => groups_lt (List.mem_reverse.mp member))
    (List.reverse_ne_nil_iff.mpr (groups_ne_nil n)) 0 rest
  rwa [foldl_groups] at read

theorem oidTail_encode (ns : List Nat) :
    oidTail (ns.flatMap encodeSubidentifier) = (ns.map (· % 2^32)).flatMap fun arc => 0x2e#8 :: decimal arc := by
  induction ns with
  | nil =>
    rw [oidTail]
    rfl
  | cons n ns ih =>
    rw [oidTail]
    have read := oidComponent_subidentifier n (ns.flatMap encodeSubidentifier)
    rw [← List.flatMap_cons] at read
    split
    · rename_i none
      rw [read] at none
      cases none
    · rename_i value rest found
      rw [read] at found
      cases found
      rw [ih, BitVec.toNat_ofNat, List.map_cons, List.flatMap_cons]
      rfl

namespace Oid

theorem decodeOid_encode (o : Oid) : decodeOid o.encode = dotted (splitFirst o.wrapped) := by
  have read := oidComponent_subidentifier (40 * o.first + o.second) (o.rest.flatMap encodeSubidentifier)
  rw [encode, subidentifiers, List.flatMap_cons, decodeOid, read]
  simp only [wrapped, subidentifiers, List.map_cons, splitFirst, dotted, List.flatMap_cons, oidTail_encode,
    BitVec.toNat_ofNat, show lit "." = [0x2e#8] from rfl, List.append_assoc, List.cons_append, List.nil_append]

theorem wrapped_eq_iff (o : Oid) : o.wrapped = o.subidentifiers ↔ o.Narrow := by
  constructor
  · intro same n listed
    rw [← same, wrapped, List.mem_map] at listed
    rcases listed with ⟨m, -, rfl⟩
    exact Nat.mod_lt m (by decide)
  · intro narrow
    exact (List.map_congr_left fun n listed => Nat.mod_eq_of_lt (narrow n listed)).trans (List.map_id _)

theorem decodeOid_inj {o o' : Oid} (same : decodeOid o.encode = decodeOid o'.encode) : o.wrapped = o'.wrapped := by
  rw [decodeOid_encode, decodeOid_encode] at same
  exact splitFirst_injective (dotted_inj same)

theorem decodeOid_text_iff (o : Oid) : decodeOid o.encode = o.text ↔ o.Narrow := by
  rw [← wrapped_eq_iff, decodeOid_encode, text, ← splitFirst_subidentifiers]
  exact ⟨fun same => splitFirst_injective (dotted_inj same), fun same => by rw [same]⟩

end Oid

def certOid (policy : Bool) (slot : U32) (oid : Bytes) (suffix : MatchSuffix) : ReqExpr :=
  if policy then .certPolicy slot oid suffix else .certGeneric slot oid suffix

def oidField (policy : Bool) : Bytes := if policy then lit "policy." else lit "field."

theorem certOid_known (policy : Bool) (slot : U32) (oid : Bytes) (suffix : MatchSuffix) :
    (certOid policy slot oid suffix).Known := by
  cases policy <;> exact trivial

theorem certOid_formed (policy : Bool) (slot : U32) {oid : Bytes} {suffix : MatchSuffix} (fits : Fits oid)
    (encodable : suffix.Encodable) : (certOid policy slot oid suffix).WellFormed := by
  cases policy <;> exact ⟨fits, encodable⟩

theorem certOid_height (policy : Bool) (slot : U32) (oid : Bytes) (suffix : MatchSuffix) :
    (certOid policy slot oid suffix).height = 0 := by
  cases policy <;> rfl

theorem certOid_render (policy : Bool) (slot : U32) (oid : Bytes) (suffix : MatchSuffix) (level : Nat) :
    (certOid policy slot oid suffix).render level =
      lit "certificate " ++
        (certSlotText slot ++ 0x5b#8 :: (oidField policy ++ (decodeOid oid ++ 0x5d#8 :: suffix.render))) := by
  cases policy <;> simp [certOid, ReqExpr.render, oidField, lit, String.utf8EncodeChar]

theorem certSlotText_clean (slot : U32) : 0x5b#8 ∉ certSlotText slot := by
  have digits := @decimal_clean 0x5b#8 (by decide)
  unfold certSlotText
  split
  · decide
  · split
    · decide
    · unfold decimalInt
      split
      · rw [List.mem_append, not_or]
        exact ⟨by decide, digits _⟩
      · exact digits _

theorem oid_clean (o : Oid) : 0x5d#8 ∉ decodeOid o.encode := by
  rw [o.decodeOid_encode]
  intro member
  rcases dotted_bytes member with same | range
  · exact absurd same (by decide)
  · exact absurd range (by decide)

theorem certOid_render_inj {policy policy' : Bool} {slot slot' : U32} {suffix suffix' : MatchSuffix} {o o' : Oid}
    {level : Nat}
    (same : (certOid policy slot o.encode suffix).render level = (certOid policy' slot' o'.encode suffix').render level) :
    o.wrapped = o'.wrapped := by
  rw [certOid_render, certOid_render] at same
  have slots := split_at (certSlotText_clean slot) (certSlotText_clean slot') (by simp) (by simp)
    (List.append_cancel_left same)
  have fields := (List.cons.inj slots.2).2
  have texts : decodeOid o.encode ++ 0x5d#8 :: suffix.render = decodeOid o'.encode ++ 0x5d#8 :: suffix'.render := by
    cases policy <;> cases policy'
    · exact List.append_cancel_left fields
    · cases fields
    · cases fields
    · exact List.append_cancel_left fields
  exact Oid.decodeOid_inj (split_at (oid_clean o) (oid_clean o') (by simp) (by simp) texts).1

theorem certOid_text {policy : Bool} {slot : U32} {oid : Bytes} {suffix : MatchSuffix} {level depth : Nat}
    {cursor : ReqCursor}
    {tail : Bytes} (fits : Fits oid) (encodable : suffix.Encodable) (shallow : depth ≤ maxRequirementDepth)
    (found : cursor.rest = (certOid policy slot oid suffix).encode ++ tail) :
    (evalExpression level depth cursor).map Prod.fst = some ((certOid policy slot oid suffix).render level) := by
  rw [reads_leaf level depth (certOid_height ..) (certOid_known ..) (certOid_formed policy slot fits encodable) shallow
    cursor tail found]
  rfl

/-- No two certificate requirements render the two identifiers alike, whatever is around them. -/
def Apart (o o' : Oid) : Prop :=
  ∀ (policy policy' : Bool) (slot slot' : U32) (suffix suffix' : MatchSuffix) (level depth : Nat)
    (cursor cursor' : ReqCursor)
    (tail tail' : Bytes), suffix.Encodable → suffix'.Encodable → depth ≤ maxRequirementDepth →
    cursor.rest = (certOid policy slot o.encode suffix).encode ++ tail →
    cursor'.rest = (certOid policy' slot' o'.encode suffix').encode ++ tail' →
    (evalExpression level depth cursor).map Prod.fst = (evalExpression level depth cursor').map Prod.fst → o = o'

theorem certOid_cursor (o : Oid) (fits : Fits o.encode) :
    ∃ cursor : ReqCursor, cursor.rest = (certOid false 0 o.encode .exists).encode ++ [] := by
  have fits' : o.encode.length < 2^32 := fits
  have bound : (certOid false 0 o.encode .exists).encode.length < 2^63 := by
    simp only [certOid, ReqExpr.encode, MatchSuffix.encode, List.length_append, encodeWord_length, encodeData_length,
      Bool.false_eq_true, if_false]
    omega
  exact ⟨⟨⟨0, _, bound⟩, 0⟩, (List.append_nil _).symm⟩

theorem apart_iff {o o' : Oid} (fits : Fits o.encode) (fits' : Fits o'.encode) :
    Apart o o' ↔ (o.wrapped = o'.wrapped → o = o') := by
  constructor
  · intro apart same
    rcases certOid_cursor o fits with ⟨cursor, found⟩
    rcases certOid_cursor o' fits' with ⟨cursor', found'⟩
    have plain : MatchSuffix.exists.Encodable := trivial
    apply apart false false 0 0 .exists .exists slTop 0 cursor cursor' [] [] plain plain (Nat.zero_le _) found found'
    rw [certOid_text fits plain (Nat.zero_le _) found, certOid_text fits' plain (Nat.zero_le _) found', certOid_render,
      certOid_render, o.decodeOid_encode, o'.decodeOid_encode, same]
  · intro told policy policy' slot slot' suffix suffix' level depth cursor cursor' tail tail' encodable encodable'
      shallow found
      found' same
    rw [certOid_text fits encodable shallow found, certOid_text fits' encodable' shallow found', Option.some.injEq] at same
    exact told (certOid_render_inj same)

/-- The text of an object identifier is exact when every subidentifier fits a word of 32 bits, and two identifiers are told
    apart unless all their subidentifiers agree in the low 32 bits. -/
theorem oid_text_iff (o : Oid) :
    (decodeOid o.encode = o.text ↔ o.Narrow) ∧
      ∀ o' : Oid, Fits o.encode → Fits o'.encode → (Apart o o' ↔ (o.wrapped = o'.wrapped → o = o')) :=
  ⟨o.decodeOid_text_iff, fun _ fits fits' => apart_iff fits fits'⟩

def appleArc : Oid := ⟨1, 2, [840, 113635, 100], by decide, by decide⟩

def commonName : Oid := ⟨2, 5, [4, 3], by decide, by decide⟩

theorem oid_text_iff_apple : decodeOid appleArc.encode = lit "1.2.840.113635.100" ∧ Apart appleArc commonName := by
  rcases oid_text_iff appleArc with ⟨exact, told⟩
  refine ⟨(exact.mpr (by decide)).trans (by decide), ?_⟩
  exact (told commonName (by decide +kernel) (by decide +kernel)).mpr fun same => absurd same (by decide)

/-- An arc of 33 bits, and the arc that its low 32 bits are. -/
def wideArc : Oid := ⟨2, 25, [2^32], by decide, by decide⟩

def zeroArc : Oid := ⟨2, 25, [0], by decide, by decide⟩

theorem wide_arc_wraps : decodeOid wideArc.encode = lit "2.25.0" ∧ decodeOid wideArc.encode ≠ wideArc.text ∧
    ¬ Apart wideArc zeroArc := by
  have text : decodeOid wideArc.encode = lit "2.25.0" := by decide +kernel
  refine ⟨text, by rw [text]; decide +kernel, ?_⟩
  rw [apart_iff (by decide +kernel) (by decide +kernel)]
  exact fun told => absurd (told (by decide +kernel)) (by decide)

end DarwinScope.Codesign
