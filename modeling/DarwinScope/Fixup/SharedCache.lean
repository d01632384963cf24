import DarwinScope.Fixup.SlotLayout
import DarwinScope.Fixup.RoundTrip
import DarwinScope.Fixup.Sites

namespace DarwinScope.Fixup

open Machine

/-- A slot of the shared-cache format, as its documented layout has it. -/
inductive SharedCacheSlot where
  | plain (runtimeOffset : BitVec 34) (high8 : U8)
  | auth (runtimeOffset : BitVec 34) (diversity : U16) (addrDiv keyIsData : Bool)

namespace SharedCacheSlot

def runtimeOffset : SharedCacheSlot → BitVec 34
  | plain runtimeOffset _ | auth runtimeOffset _ _ _ => runtimeOffset

def isAuth : SharedCacheSlot → Bool
  | plain _ _ => false
  | auth _ _ _ _ => true

def keyIsData : SharedCacheSlot → Bool
  | plain _ _ => false
  | auth _ _ _ keyIsData => keyIsData

def payload : SharedCacheSlot → List BitField
  | plain runtimeOffset high8 => [⟨34, runtimeOffset⟩, ⟨8, high8⟩, ⟨10, 0⟩]
  | auth runtimeOffset diversity addrDiv keyIsData =>
    [⟨34, runtimeOffset⟩, ⟨16, diversity⟩, ⟨1, BitVec.ofBool addrDiv⟩, ⟨1, BitVec.ofBool keyIsData⟩]

def word (slot : SharedCacheSlot) (next : BitVec 11) : U64 :=
  packed (slot.payload ++ [⟨11, next⟩, ⟨1, BitVec.ofBool slot.isAuth⟩])

def row (ctx : SlotCtx) (word : U64) : SharedCacheSlot → Entry
  | plain runtimeOffset high8 =>
    rebaseRow ctx .arm64eSharedCache word (ctx.imageBase + runtimeOffset.setWidth 64) none (some high8)
  | auth runtimeOffset diversity addrDiv keyIsData =>
    rebaseRow ctx .arm64eSharedCache word (ctx.imageBase + runtimeOffset.setWidth 64)
      (some ⟨diversity, addrDiv, if keyIsData then .da else .ia⟩) none

/-- Nothing of the slot stands in the bits that the arm64e decoder takes for other fields. -/
def Shared (next : BitVec 11) : SharedCacheSlot → Prop
  | plain _ high8 => next = 0 ∧ high8 = 0
  | auth runtimeOffset diversity addrDiv keyIsData =>
    next = 0 ∧ keyIsData = false ∧ runtimeOffset.toNat < 2^32 ∧ diversity = 0 ∧ addrDiv = false

end SharedCacheSlot

section

variable (runtimeOffset : BitVec 34) (high8 : U8) (diversity : U16) (addrDiv keyIsData : Bool) (next : BitVec 11)

theorem plain_word_toNat :
    ((SharedCacheSlot.plain runtimeOffset high8).word next).toNat =
      runtimeOffset.toNat + 2^34 * high8.toNat + 2^52 * next.toNat := by
  rw [SharedCacheSlot.word, packed_toNat rfl]
  simp [SharedCacheSlot.payload, SharedCacheSlot.isAuth, pack]
  omega

theorem auth_word_toNat :
    ((SharedCacheSlot.auth runtimeOffset diversity addrDiv keyIsData).word next).toNat =
      runtimeOffset.toNat + 2^34 * diversity.toNat + 2^50 * addrDiv.toNat + 2^51 * keyIsData.toNat +
        2^52 * next.toNat + 2^63 := by
  rw [SharedCacheSlot.word, packed_toNat rfl]
  simp [SharedCacheSlot.payload, SharedCacheSlot.isAuth, pack]
  omega

end

section

variable {ctx : SlotCtx} {slot : U64}

theorem decodeShared_rebase (kind : (slot >>> 62) &&& 1 = 0) :
    decodeChainEntry slot .arm64eSharedCache ctx =
      some (rebaseRow ctx .arm64eSharedCache slot
        (if (slot >>> 63) &&& 1 ≠ 0 then saturatingAdd ctx.imageBase (slot &&& 0xffff_ffff)
          else saturatingAdd ctx.imageBase (slot &&& 0x0000_07ff_ffff_ffff))
        (if (slot >>> 63) &&& 1 ≠ 0 then
          some ⟨((slot >>> 32) &&& 0xffff).setWidth 16, decide ((slot >>> 48) &&& 1 ≠ 0),
            PacKey.fromBits (((slot >>> 49) &&& 3).setWidth 8)⟩
          else none)
        (if (slot >>> 63) &&& 1 = 0 then some (((slot >>> 43) &&& 0xff).setWidth 8) else none),
        (slot >>> 51) &&& 0x07ff) := by
  simp only [decodeChainEntry, decodeArm64eSlot, kind, if_true, rebaseRow]

theorem decodeShared_bind (kind : (slot >>> 62) &&& 1 ≠ 0) (target : U64) (auth : Option PtrAuth) (high8 : Option U8)
    (next : U64) :
    decodeChainEntry slot .arm64eSharedCache ctx ≠
      some (rebaseRow ctx .arm64eSharedCache slot target auth high8, next) := by
  intro same
  simp only [decodeChainEntry, decodeArm64eSlot, kind, if_false, rebaseRow] at same
  cases same

theorem rebaseRow_eq {format : PointerFormat} {target target' : U64} {auth auth' : Option PtrAuth}
    {high8 high8' : Option U8} :
    rebaseRow ctx format slot target auth high8 = rebaseRow ctx format slot target' auth' high8' ↔
      target = target' ∧ auth = auth' ∧ high8 = high8' := by
  simp [rebaseRow]

theorem field_eq_zero (slot mask : U64) (n k : Nat) (low : mask.toNat = 2^k - 1) :
    (slot >>> n) &&& mask = 0 ↔ slot.toNat / 2^n % 2^k = 0 := by
  rw [← field_toNat slot mask n k low]
  exact BitVec.toNat_inj.symm

theorem field_eq {w : Nat} {v : BitVec w} (mask : U64) (n k : Nat) (low : mask.toNat = 2^k - 1) (narrow : w ≤ 64) :
    (slot >>> n) &&& mask = v.setWidth 64 ↔ slot.toNat / 2^n % 2^k = v.toNat := by
  have wide : (v.setWidth 64).toNat = v.toNat := BitVec.toNat_setWidth_of_le narrow
  rw [← field_toNat slot mask n k low, ← wide, BitVec.toNat_inj]

/-- Unauthenticated slots come back right exactly without a high byte and at the end of a chain. -/
theorem decodeShared_plain {runtimeOffset : BitVec 34} (fits : ctx.imageBase.toNat + runtimeOffset.toNat < 2^64)
    (high8 : U8) (next : BitVec 11) :
    decodeChainEntry ((SharedCacheSlot.plain runtimeOffset high8).word next) .arm64eSharedCache ctx =
        some ((SharedCacheSlot.plain runtimeOffset high8).row ctx
          ((SharedCacheSlot.plain runtimeOffset high8).word next), next.setWidth 64) ↔
      next = 0 ∧ high8 = 0 := by
  have value := plain_word_toNat runtimeOffset high8 next
  generalize (SharedCacheSlot.plain runtimeOffset high8).word next = slot at *
  have offset := runtimeOffset.isLt
  have high := high8.isLt
  have link := next.isLt
  have above51 : slot.toNat / 2^51 = 2 * next.toNat := by omega
  have above62 : slot.toNat / 2^62 = next.toNat / 2^10 := by omega
  have above43 : slot.toNat / 2^43 = 2^9 * next.toNat := by omega
  have unsigned : (slot >>> 63) &&& 1 = 0 := by
    rw [field_eq_zero slot 1 63 1 rfl]
    omega
  rw [SharedCacheSlot.row]
  constructor
  · intro decoded
    by_cases kind : (slot >>> 62) &&& 1 = 0
    · rw [decodeShared_rebase kind, Option.some.injEq, Prod.mk.injEq, rebaseRow_eq, field_eq 0x07ff 51 11 rfl (by decide)]
        at decoded
      rcases decoded with ⟨⟨-, -, byte⟩, step⟩
      rw [field_eq_zero slot 1 62 1 rfl, above62] at kind
      rw [above51] at step
      rw [if_pos unsigned, Option.some.injEq] at byte
      have byte := congrArg BitVec.toNat byte
      rw [BitVec.toNat_setWidth, field_toNat slot 0xff 43 8 rfl, above43] at byte
      have last : next.toNat = 0 := by omega
      rw [last] at byte
      exact ⟨BitVec.eq_of_toNat_eq last, BitVec.eq_of_toNat_eq byte.symm⟩
    · exact absurd decoded (decodeShared_bind kind _ _ _ _)
  · rintro ⟨rfl, rfl⟩
    have value : slot.toNat = runtimeOffset.toNat := value
    have kind : (slot >>> 62) &&& 1 = 0 := (field_eq_zero slot 1 62 1 rfl).mpr (by omega)
    have link : (slot >>> 51) &&& 0x07ff = 0 := (field_eq_zero slot 0x07ff 51 11 rfl).mpr (by omega)
    have byte : (slot >>> 43) &&& 0xff = 0 := (field_eq_zero slot 0xff 43 8 rfl).mpr (by omega)
    have target : slot &&& 0x0000_07ff_ffff_ffff = runtimeOffset.setWidth 64 := by
      apply BitVec.eq_of_toNat_eq
      rw [and_lowMask_toNat _ _ 43 rfl, BitVec.toNat_setWidth_of_le (by decide)]
      omega
    have wide : ctx.imageBase.toNat + (runtimeOffset.setWidth 64).toNat < 2^64 := by
      rwa [BitVec.toNat_setWidth_of_le (by decide)]
    rw [decodeShared_rebase kind, link, byte, target, unsigned, saturatingAdd_of_lt wide]
    rfl

/-- Where the fields of an authenticated slot come to stand under the shifts of the arm64e decoder. -/
theorem auth_shifts {word offset salt place code next : Nat} (offset34 : offset < 2^34) (salt16 : salt < 2^16)
    (bit : place < 2) (bit' : code < 2) (small : next < 2^11)
    (value : word = offset + 2^34 * salt + 2^50 * place + 2^51 * code + 2^52 * next + 2^63) :
    word / 2^63 = 1 ∧ word / 2^62 = (code + 2 * next + 2^12) / 2^11 ∧ word / 2^51 = code + 2 * next + 2^12 ∧
      word / 2^48 = salt / 2^14 + 2 * (2 * (word / 2^50)) ∧
      word / 2^32 = offset / 2^32 + 4 * salt + 2^16 * (4 * (word / 2^50)) ∧ word % 2^32 = offset % 2^32 := by
  refine ⟨?_, ?_, ?_, ?_, ?_, ?_⟩ <;> omega

theorem link_fixed {code next : Nat} (small : next < 2^11) (bit : code < 2)
    (kind : (code + 2 * next + 2^12) / 2^11 % 2 = 0) (step : (code + 2 * next + 2^12) % 2^11 = next) :
    next = 0 ∧ code = 0 := by
  omega

theorem offset_fixed {base offset : Nat} (sum : min (base + offset % 2^32) (2^64 - 1) = base + offset) :
    offset < 2^32 := by
  omega

theorem salt_fixed {offset salt : Nat} (near : offset < 2^32) (salted : (offset / 2^32 + 4 * salt) % 2^16 = salt) :
    salt = 0 := by
  rw [Nat.div_eq_of_lt near, Nat.zero_add] at salted
  have small : salt < 2^16 := salted ▸ Nat.mod_lt _ (by decide)
  have division := Nat.div_add_mod (4 * salt) (2^16)
  rw [salted] at division
  -- 3 * salt is a multiple of 2^16
  generalize 4 * salt / 2^16 = count at division
  clear salted
  omega

theorem decodeShared_auth {runtimeOffset : BitVec 34} (fits : ctx.imageBase.toNat + runtimeOffset.toNat < 2^64)
    (diversity : U16) (addrDiv keyIsData : Bool) (next : BitVec 11) :
    decodeChainEntry ((SharedCacheSlot.auth runtimeOffset diversity addrDiv keyIsData).word next) .arm64eSharedCache ctx =
        some ((SharedCacheSlot.auth runtimeOffset diversity addrDiv keyIsData).row ctx
          ((SharedCacheSlot.auth runtimeOffset diversity addrDiv keyIsData).word next), next.setWidth 64) ↔
      next = 0 ∧ keyIsData = false ∧ runtimeOffset.toNat < 2^32 ∧ diversity = 0 ∧ addrDiv = false := by
  have value := auth_word_toNat runtimeOffset diversity addrDiv keyIsData next
  generalize (SharedCacheSlot.auth runtimeOffset diversity addrDiv keyIsData).word next = slot at *
  rcases auth_shifts runtimeOffset.isLt diversity.isLt addrDiv.toNat_lt keyIsData.toNat_lt next.isLt value with
    ⟨above63, above62, above51, above48, above32, low32⟩
  have signed : (slot >>> 63) &&& 1 ≠ 0 := by
    rw [Ne, field_eq_zero slot 1 63 1 rfl, above63]
    decide
  rw [SharedCacheSlot.row]
  constructor
  · intro decoded
    by_cases kind : (slot >>> 62) &&& 1 = 0
    · rw [decodeShared_rebase kind, Option.some.injEq, Prod.mk.injEq, rebaseRow_eq, field_eq 0x07ff 51 11 rfl (by decide)]
        at decoded
      rcases decoded with ⟨⟨target, pa, -⟩, step⟩
      rw [field_eq_zero slot 1 62 1 rfl, above62] at kind
      rw [above51] at step
      rcases link_fixed next.isLt keyIsData.toNat_lt kind step with ⟨last, code⟩
      have code : keyIsData = false := Bool.toNat_eq_zero.mp code
      have wide : (runtimeOffset.setWidth 64).toNat = runtimeOffset.toNat := BitVec.toNat_setWidth_of_le (by decide)
      have sum := congrArg BitVec.toNat target
      rw [if_pos signed, saturatingAdd_toNat, and_lowMask_toNat _ _ 32 rfl, low32, toNat_add_of_lt (by rwa [wide]), wide]
        at sum
      have near := offset_fixed sum
      rw [if_pos signed, Option.some.injEq, PtrAuth.mk.injEq, code] at pa
      rcases pa with ⟨salted, divided, -⟩
      have salted := congrArg BitVec.toNat salted
      rw [BitVec.toNat_setWidth, field_toNat slot 0xffff 32 16 rfl, above32, Nat.mod_mod, Nat.add_mul_mod_self_left]
        at salted
      have plain := salt_fixed near salted
      have even : (slot >>> 48) &&& 1 = 0 := by
        rw [field_eq_zero slot 1 48 1 rfl, above48, plain, Nat.pow_one, Nat.add_mul_mod_self_left, Nat.zero_div]
      rw [even] at divided
      exact ⟨BitVec.eq_of_toNat_eq last, code, near, BitVec.eq_of_toNat_eq plain, divided.symm⟩
    · exact absurd decoded (decodeShared_bind kind _ _ _ _)
  · rintro ⟨rfl, rfl, small, rfl, rfl⟩
    have value : slot.toNat = runtimeOffset.toNat + 2^63 := value
    have kind : (slot >>> 62) &&& 1 = 0 := (field_eq_zero slot 1 62 1 rfl).mpr (by omega)
    have link : (slot >>> 51) &&& 0x07ff = 0 := (field_eq_zero slot 0x07ff 51 11 rfl).mpr (by omega)
    have salted : (slot >>> 32) &&& 0xffff = 0 := (field_eq_zero slot 0xffff 32 16 rfl).mpr (by omega)
    have divided : (slot >>> 48) &&& 1 = 0 := (field_eq_zero slot 1 48 1 rfl).mpr (by omega)
    have key : (slot >>> 49) &&& 3 = 0 := (field_eq_zero slot 3 49 2 rfl).mpr (by omega)
    have target : slot &&& 0xffff_ffff = runtimeOffset.setWidth 64 := by
      apply BitVec.eq_of_toNat_eq
      rw [and_lowMask_toNat _ _ 32 rfl, BitVec.toNat_setWidth_of_le (by decide)]
      omega
    have wide : ctx.imageBase.toNat + (runtimeOffset.setWidth 64).toNat < 2^64 := by
      rwa [BitVec.toNat_setWidth_of_le (by decide)]
    rw [decodeShared_rebase kind, link, salted, divided, key, target, if_pos signed, if_pos signed, if_neg signed,
      saturatingAdd_of_lt wide]
    rfl

end

/-- The arm64e decoder reads the link one bit too low: it takes a bit of the payload in and loses the top
    bit. -/
theorem nextField_word (slot : SharedCacheSlot) (next : BitVec 11) :
    nextField .arm64eSharedCache (slot.word next) = (slot.keyIsData.toNat + 2 * next.toNat) % 2^11 := by
  cases slot with
  | plain runtimeOffset high8 =>
    have value := plain_word_toNat runtimeOffset high8 next
    have offset := runtimeOffset.isLt
    have high := high8.isLt
    show _ / 2^51 % 2^11 = (0 + 2 * next.toNat) % 2^11
    omega
  | auth runtimeOffset diversity addrDiv keyIsData =>
    have value := auth_word_toNat runtimeOffset diversity addrDiv keyIsData next
    rcases auth_shifts runtimeOffset.isLt diversity.isLt addrDiv.toNat_lt keyIsData.toNat_lt next.isLt value with
      ⟨-, -, above51, -⟩
    show _ / 2^51 % 2^11 = (keyIsData.toNat + 2 * next.toNat) % 2^11
    rw [above51]
    omega

def SharedChain (data : Slice) (loc : SegmentLoc) (page : Nat) : List (Nat × SharedCacheSlot) → Prop
  | [] => True
  | [(off, slot)] => data.Holds (loc.fileoff.toNat + segOffset loc page off) (leBytes 8 (slot.word 0).toNat)
  | (off, slot) :: (next, later) :: rest =>
    off < next ∧ 8 ∣ next - off ∧ (next - off) / 8 < 2^11 ∧
      data.Holds (loc.fileoff.toNat + segOffset loc page off)
        (leBytes 8 (slot.word (BitVec.ofNat 11 ((next - off) / 8))).toNat) ∧
      SharedChain data loc page ((next, later) :: rest)

/-- Every slot but the last has the one link that the decoder reads right, and nothing is read behind a
    last slot whose key bit looks like a link. -/
def ChainFollowed (data : Slice) (loc : SegmentLoc) (page : Nat) : List (Nat × SharedCacheSlot) → Prop
  | [] => True
  | [(off, slot)] =>
    slot.keyIsData = false ∨ loc.filesize.toNat ≤ segOffset loc page off + 8 ∨
      data.length < loc.fileoff.toNat + (segOffset loc page off + 8) + 8
  | (off, slot) :: (next, later) :: rest =>
    slot.keyIsData = true ∧ next - off = 8 * 2047 ∧ ChainFollowed data loc page ((next, later) :: rest)

section

variable {ctx : WalkCtx} {loc : SegmentLoc} {page : Nat}

theorem walkChain_shape (ctx : WalkCtx) (loc : SegmentLoc) (page : Nat) (chainOff : U64) :
    walkChain ctx loc page chainOff = [] ∨
      ∃ entry rest, walkChain ctx loc page chainOff = entry :: rest ∧
        entry.site.segmentOffset.toNat = turnOffset loc page chainOff := by
  cases turn : chainTurn ctx loc page chainOff with
  | none => exact Or.inl (walkChain_none turn)
  | some taken =>
    have place := (turn_offset turn).1
    rcases taken with ⟨entry, _ | next⟩
    · exact Or.inr ⟨entry, [], walkChain_last turn, place⟩
    · exact Or.inr ⟨entry, _, walkChain_next turn, place⟩

theorem walkChain_starts {target : U64} {next : Nat} {sites : List Site} (room : segOffset loc page next < 2^64)
    (same : (walkChain ctx loc page target).map Entry.site = siteAt ctx.data loc page next :: sites) :
    turnOffset loc page target = segOffset loc page next := by
  rcases walkChain_shape ctx loc page target with empty | ⟨entry, others, nonempty, position⟩
  · rw [empty] at same
    cases same
  · rw [nonempty, List.map_cons, List.cons.injEq] at same
    rwa [same.1, siteAt, toNat_ofNat_of_lt room, eq_comm] at position

theorem turnOffset_inj {target : U64} {next : Nat} (small : page < 2^64)
    (place : turnOffset loc page target = segOffset loc page next) : target = BitVec.ofNat 64 next := by
  have bound := target.isLt
  apply BitVec.eq_of_toNat_eq
  rw [turnOffset, segOffset, toNat_ofNat_of_lt small] at place
  rw [toNat_ofNat_of_lt (by omega)]
  omega

theorem walkChain_empty (supported : loc.chained.pointerFormat.isSupported = true) {chainOff : U64} :
    walkChain ctx loc page chainOff = [] ↔ slotAt ctx.data loc (turnOffset loc page chainOff) = none := by
  constructor
  · intro empty
    cases found : slotAt ctx.data loc (turnOffset loc page chainOff) with
    | none => rfl
    | some slot =>
      rcases chainTurn_some supported found with ⟨entry, turn, -⟩
      cases advance : chainNext loc chainOff slot with
      | none =>
        rw [advance] at turn
        rw [walkChain_last turn] at empty
        cases empty
      | some next =>
        rw [advance] at turn
        rw [walkChain_next turn] at empty
        cases empty
  · intro nothing
    exact walkChain_none (chainTurn_none nothing)

theorem slotAt_eq_none {data : Slice} {segOff : Nat} :
    slotAt data loc segOff = none ↔ loc.filesize.toNat ≤ segOff ∨ data.length < loc.fileoff.toNat + segOff + 8 := by
  unfold slotAt
  split
  · rename_i inside
    have read := @readAt_isSome leNumber 64 8 data (loc.fileoff.toNat + segOff)
    rw [← Option.not_isSome_iff_eq_none, readU64LeAt, read]
    omega
  · rename_i past
    exact iff_of_true rfl (Or.inl (by omega))

theorem storedWord_of_holds {data : Slice} {segOff : Nat} {word : U64}
    (holds : data.Holds (loc.fileoff.toNat + segOff) (leBytes 8 word.toNat)) : storedWord data loc segOff = word := by
  have window := holds.window
  rw [leBytes_length] at window
  rw [storedWord, window, leNumber_leBytes 8 word.toNat word.isLt, BitVec.ofNat_toNat, BitVec.setWidth_eq]

theorem chainTurn_shared {off : Nat} {slot : SharedCacheSlot} {next : BitVec 11}
    (shared : loc.chained.pointerFormat = .arm64eSharedCache) (addresses : loc.vmaddr.toNat + loc.filesize.toNat < 2^64)
    (small : page < 2^16) (before : segOffset loc page off + 8 ≤ loc.filesize.toNat)
    (holds : ctx.data.Holds (loc.fileoff.toNat + segOffset loc page off) (leBytes 8 (slot.word next).toNat)) :
    ∃ entry, entry.site = siteAt ctx.data loc page off ∧
      ((slot.keyIsData.toNat + 2 * next.toNat) % 2^11 = 0 →
        walkChain ctx loc page (BitVec.ofNat 64 off) = [entry]) ∧
      ((slot.keyIsData.toNat + 2 * next.toNat) % 2^11 ≠ 0 →
        ∃ target, walkChain ctx loc page (BitVec.ofNat 64 off) = entry :: walkChain ctx loc page target ∧
          turnOffset loc page target = segOffset loc page off + 8 * ((slot.keyIsData.toNat + 2 * next.toNat) % 2^11)) := by
  have supported : loc.chained.pointerFormat.isSupported = true := by rw [shared]; rfl
  have fits := holds.inside (by rw [leBytes_length]; decide)
  rw [leBytes_length] at fits
  rcases chainTurn_stored supported addresses small before fits with ⟨entry, turn, mark⟩
  rw [storedWord_of_holds holds] at turn
  have link : nextField loc.chained.pointerFormat (slot.word next) = (slot.keyIsData.toNat + 2 * next.toNat) % 2^11 := by
    rw [shared, nextField_word]
  refine ⟨entry, congrArg Prod.fst mark, ?_, ?_⟩
  · intro last
    rw [chainNext, link, if_pos last] at turn
    exact walkChain_last turn
  · intro more
    rw [← link] at more
    rcases @chainNext_some loc (BitVec.ofNat 64 off) _ supported more with ⟨target, advance⟩
    rw [advance] at turn
    refine ⟨target, walkChain_next turn, ?_⟩
    have value := (chainNext_toNat advance).1
    have stride : strideOf loc = 8 := by rw [strideOf, shared]; rfl
    have filesize := loc.filesize.isLt
    have place : (BitVec.ofNat 64 page).toNat = page := by rw [toNat_ofNat_of_lt (by omega)]
    have length := ctx.data.length_lt
    unfold segOffset at before fits ⊢
    rw [gapOf, link, stride, toNat_ofNat_of_lt (by omega : off < 2^64)] at value
    have few := Nat.mod_lt (slot.keyIsData.toNat + 2 * next.toNat) (by decide : 0 < 2^11)
    rw [turnOffset, place, value]
    omega

theorem link_read {code next : Nat} (small : next < 2^11) (bit : code < 2) (more : 0 < next)
    (step : (code + 2 * next) % 2^11 = next) : code = 1 ∧ next = 2047 := by
  omega

theorem walkChain_end (shared : loc.chained.pointerFormat = .arm64eSharedCache)
    (addresses : loc.vmaddr.toNat + loc.filesize.toNat < 2^64) (small : page < 2^16) {off : Nat} {slot : SharedCacheSlot}
    (inside : segOffset loc page off + 8 ≤ loc.filesize.toNat) (chain : SharedChain ctx.data loc page [(off, slot)]) :
    (walkChain ctx loc page (BitVec.ofNat 64 off)).map Entry.site = [siteAt ctx.data loc page off] ↔
      ChainFollowed ctx.data loc page [(off, slot)] := by
  have supported : loc.chained.pointerFormat.isSupported = true := by rw [shared]; rfl
  rcases chainTurn_shared shared addresses small inside chain with ⟨entry, site, last, more⟩
  unfold ChainFollowed
  cases code : slot.keyIsData with
  | false =>
    rw [code] at last
    rw [last rfl, List.map_singleton, site]
    exact iff_of_true rfl (Or.inl rfl)
  | true =>
    rw [code] at more
    rcases more (by decide) with ⟨target, walk, place⟩
    have place : turnOffset loc page target = segOffset loc page off + 8 := place
    rw [walk, List.map_cons, site, List.cons.injEq, List.map_eq_nil_iff, walkChain_empty supported, place, slotAt_eq_none]
    simp

/-- The walk of a page visits the slots of its chain and no others exactly when the chain is one that the
    decoder follows. -/
theorem walkChain_followed (shared : loc.chained.pointerFormat = .arm64eSharedCache)
    (addresses : loc.vmaddr.toNat + loc.filesize.toNat < 2^64) (small : page < 2^16) {off : Nat} {slot : SharedCacheSlot}
    {rest : List (Nat × SharedCacheSlot)}
    (inside : ∀ link ∈ (off, slot) :: rest, segOffset loc page link.1 + 8 ≤ loc.filesize.toNat)
    (chain : SharedChain ctx.data loc page ((off, slot) :: rest)) :
    (walkChain ctx loc page (BitVec.ofNat 64 off)).map Entry.site =
        ((off, slot) :: rest).map (fun link => siteAt ctx.data loc page link.1) ↔
      ChainFollowed ctx.data loc page ((off, slot) :: rest) := by
  induction rest generalizing off slot with
  | nil => exact walkChain_end shared addresses small (inside (off, slot) List.mem_cons_self) chain
  | cons following rest ih =>
    rcases following with ⟨next, later⟩
    rcases chain with ⟨above, eights, few, holds, tail⟩
    rcases chainTurn_shared shared addresses small (inside (off, slot) List.mem_cons_self) holds with
      ⟨entry, site, last, more⟩
    have tail := ih (fun link member => inside link (List.mem_cons_of_mem _ member)) tail
    have index : (BitVec.ofNat 11 ((next - off) / 8)).toNat = (next - off) / 8 := by
      rw [toNat_ofNat_of_lt few]
    rw [index] at last more
    have gap : 8 * ((next - off) / 8) = next - off := Nat.mul_div_cancel' eights
    unfold ChainFollowed
    by_cases step : (slot.keyIsData.toNat + 2 * ((next - off) / 8)) % 2^11 = (next - off) / 8
    · rcases link_read few slot.keyIsData.toNat_lt (by omega) step with ⟨code, top⟩
      rcases more (by omega) with ⟨target, walk, place⟩
      clear more last
      have lands : turnOffset loc page target = segOffset loc page next := by
        rw [place, step, gap, segOffset, segOffset]
        omega
      rw [walk, turnOffset_inj (by omega) lands, List.map_cons, List.map_cons, site, List.cons.injEq, and_iff_right rfl]
      refine tail.trans ?_
      constructor
      · intro followed
        exact ⟨Bool.toNat_eq_one.mp code, by omega, followed⟩
      · intro given
        exact given.2.2
    · have wrong : ¬ (slot.keyIsData = true ∧ next - off = 8 * 2047) := by
        rintro ⟨code, far⟩
        rw [code, far] at step
        exact step (by decide)
      refine iff_of_false ?_ fun followed => wrong ⟨followed.1, followed.2.1⟩
      intro same
      by_cases stops : (slot.keyIsData.toNat + 2 * ((next - off) / 8)) % 2^11 = 0
      · rw [last stops] at same
        exact absurd (congrArg List.length same) (by simp)
      · rcases more stops with ⟨target, walk, place⟩
        clear more last
        have inside := inside (next, later) (by simp)
        have filesize := loc.filesize.isLt
        rw [walk, List.map_cons, List.map_cons, List.map_cons, List.cons.injEq] at same
        have lands := walkChain_starts (by omega) same.2
        rw [place, segOffset, segOffset] at lands
        omega

end

structure SharedCacheLayout (data : Slice) (loc : SegmentLoc) (pages : List (List (Nat × SharedCacheSlot))) : Prop where
  format : loc.chained.pointerFormat = .arm64eSharedCache
  count : pages.length = loc.chained.pageCount.toNat
  addresses : loc.vmaddr.toNat + loc.filesize.toNat < 2^64
  starts : ∀ (page : Nat) (chain : List (Nat × SharedCacheSlot)), pages[page]? = some chain →
    readU16LeAt data (loc.chained.startsOffset + sizeofStartsInSegmentHeader + 2 * page) =
      some (pageStart (chain.map Prod.fst))
  small : ∀ chain ∈ pages, ∀ link ∈ chain.head?, link.1 < 2^15
  inside : ∀ (page : Nat) (chain : List (Nat × SharedCacheSlot)), pages[page]? = some chain → ∀ link ∈ chain,
    segOffset loc page link.1 + 8 ≤ loc.filesize.toNat
  chained : ∀ (page : Nat) (chain : List (Nat × SharedCacheSlot)), pages[page]? = some chain →
    SharedChain data loc page chain

def sharedWalk (ctx : WalkCtx) (loc : SegmentLoc) (page : Nat) (chain : List (Nat × SharedCacheSlot)) : List Entry :=
  pageEntries ctx loc page (chain.map Prod.fst)

theorem segmentEntries_shared {ctx : WalkCtx} {loc : SegmentLoc} {pages : List (List (Nat × SharedCacheSlot))}
    (layout : SharedCacheLayout ctx.data loc pages) :
    segmentEntries ctx loc = pages.zipIdx.flatMap fun page => sharedWalk ctx loc page.2 page.1 := by
  have supported : loc.chained.pointerFormat.isSupported = true := by rw [layout.format]; rfl
  rw [@segmentEntries_pages ctx loc (pages.map (List.map Prod.fst)) supported, List.zipIdx_map, List.flatMap_map]
  · rfl
  · rw [List.length_map, layout.count]
  · intro page offsets found
    rw [List.getElem?_map] at found
    rcases Option.map_eq_some_iff.mp found with ⟨chain, listed, rfl⟩
    exact layout.starts page chain listed
  · intro offsets member first head
    rcases List.mem_map.mp member with ⟨chain, listed, rfl⟩
    rw [List.head?_map] at head
    rcases Option.map_eq_some_iff.mp head with ⟨link, top, rfl⟩
    exact layout.small chain listed link top

theorem sharedWalk_followed {ctx : WalkCtx} {loc : SegmentLoc} {pages : List (List (Nat × SharedCacheSlot))}
    (layout : SharedCacheLayout ctx.data loc pages) {page : Nat} {chain : List (Nat × SharedCacheSlot)}
    (found : pages[page]? = some chain) :
    (sharedWalk ctx loc page chain).map Entry.site = chain.map (fun link => siteAt ctx.data loc page link.1) ↔
      ChainFollowed ctx.data loc page chain := by
  cases chain with
  | nil => exact iff_of_true rfl True.intro
  | cons link rest =>
    have small : page < 2^16 := by
      have bound := (List.getElem?_eq_some_iff.mp found).1
      have count := loc.chained.pageCount.isLt
      have same := layout.count
      omega
    exact walkChain_followed layout.format layout.addresses small (layout.inside page _ found) (layout.chained page _ found)

/-- A shared-cache slot comes back right exactly when nothing stands where the arm64e decoder looks for
    something else, and the slots of a page are visited exactly when its links are read right. -/
theorem sharedCache_decoded (slotCtx : SlotCtx) (slot : SharedCacheSlot) (next : BitVec 11) (ctx : WalkCtx)
    (loc : SegmentLoc) (pages : List (List (Nat × SharedCacheSlot))) :
    (slotCtx.imageBase.toNat + slot.runtimeOffset.toNat < 2^64 →
      (decodeChainEntry (slot.word next) .arm64eSharedCache slotCtx =
          some (slot.row slotCtx (slot.word next), next.setWidth 64) ↔ slot.Shared next)) ∧
    (SharedCacheLayout ctx.data loc pages →
      (∀ rebasesOut bindsOut,
        decodeSegmentChains ctx.data loc ctx.imageBase rebasesOut bindsOut ctx.imports ctx.dylibNames =
          (rebasesOut ++ (pages.zipIdx.flatMap fun page => sharedWalk ctx loc page.2 page.1).filterMap Entry.rebase?,
            bindsOut ++ (pages.zipIdx.flatMap fun page => sharedWalk ctx loc page.2 page.1).filterMap Entry.bind?)) ∧
      ∀ (page : Nat) (chain : List (Nat × SharedCacheSlot)), pages[page]? = some chain →
        ((sharedWalk ctx loc page chain).map Entry.site = chain.map (fun link => siteAt ctx.data loc page link.1) ↔
          ChainFollowed ctx.data loc page chain)) := by
  constructor
  · intro fits
    cases slot with
    | plain runtimeOffset high8 => exact decodeShared_plain fits high8 next
    | auth runtimeOffset diversity addrDiv keyIsData => exact decodeShared_auth fits diversity addrDiv keyIsData next
  · intro layout
    refine ⟨?_, fun page chain found => sharedWalk_followed layout found⟩
    intro rebasesOut bindsOut
    rw [decodeSegmentChains, ← segmentEntries_shared layout]

def sharedPage : List (Nat × SharedCacheSlot) := [(0, .plain 0x20 0), (16, .plain 0x30 0)]

def sharedPageData : Slice :=
  ⟨0, List.replicate 22 0 ++ leBytes 2 0 ++ List.replicate 8 0 ++
    leBytes 8 ((SharedCacheSlot.plain 0x20 0).word 2).toNat ++ List.replicate 8 0 ++
    leBytes 8 ((SharedCacheSlot.plain 0x30 0).word 0).toNat, by decide⟩

def sharedPageLoc : SegmentLoc where
  chained := ⟨0, 24, 0x1000, .arm64eSharedCache, 13, 0, 0, 1, 0⟩
  vmaddr := 0x1000
  fileoff := 32
  filesize := 24

theorem sharedPage_layout : SharedCacheLayout sharedPageData sharedPageLoc [sharedPage] where
  format := rfl
  count := rfl
  addresses := by decide
  starts page chain found := by
    match page, found with
    | 0, found => cases found; decide
    | page + 1, found => cases found
  small := by decide
  inside page chain found := by
    match page, found with
    | 0, found => cases found; decide
    | page + 1, found => cases found
  chained page chain found := by
    match page, found with
    | 0, found => cases found; exact ⟨by decide, by decide, by decide, by decide,
        show sharedPageData.Holds (32 + segOffset sharedPageLoc 0 16)
          (leBytes 8 ((SharedCacheSlot.plain 0x30 0).word 0).toNat) by decide⟩
    | page + 1, found => cases found

theorem sharedCache_decoded_page :
    decodeChainEntry ((SharedCacheSlot.plain 0x30 0).word 0) .arm64eSharedCache bareSlotCtx =
        some ((SharedCacheSlot.plain 0x30 0).row bareSlotCtx ((SharedCacheSlot.plain 0x30 0).word 0), 0) ∧
      (sharedWalk (bareCtx sharedPageData) sharedPageLoc 0 sharedPage).map Entry.site ≠
        sharedPage.map fun link => siteAt sharedPageData sharedPageLoc 0 link.1 := by
  rcases sharedCache_decoded bareSlotCtx (.plain 0x30 0) 0 (bareCtx sharedPageData) sharedPageLoc [sharedPage] with
    ⟨slots, pages⟩
  refine ⟨(slots (by decide)).mpr ⟨rfl, rfl⟩, ?_⟩
  intro visited
  have followed := ((pages sharedPage_layout).2 0 sharedPage rfl).mp visited
  exact absurd followed.1 (by decide)

theorem sharedCache_link_doubled :
    ¬ ∀ (ctx : SlotCtx) (slot : SharedCacheSlot) (next : BitVec 11),
      ctx.imageBase.toNat + slot.runtimeOffset.toNat < 2^64 →
        decodeChainEntry (slot.word next) .arm64eSharedCache ctx =
          some (slot.row ctx (slot.word next), next.setWidth 64) := by
  intro decoded
  have same := decoded bareSlotCtx (.plain 0x20 0) 2 (by decide)
  exact absurd (congrArg (Option.map Prod.snd) same) (by decide)

end DarwinScope.Fixup
