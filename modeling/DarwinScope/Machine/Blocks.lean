import DarwinScope.Machine.Slices

namespace Machine

variable {σ : Type}

/-- A block of a structure, present or not. It records what it finds at the cursor and moves the cursor
    behind itself; without a cursor the walk ends there. -/
abbrev Block (σ : Type) := U64 → σ → σ × Option U64

def walk : List (Block σ) → U64 → σ → σ
  | [], _, s => s
  | block :: blocks, cursor, s =>
    match block cursor s with
    | (after, none) => after
    | (after, some next) => walk blocks next after

/-- A block as it was laid out: its bytes, none when it is absent, and what a walk has to record of it. -/
structure Piece (σ : Type) where
  bytes : Bytes
  record : U64 → σ → σ

def settle : List (Piece σ) → U64 → σ → σ
  | [], _, s => s
  | piece :: pieces, cursor, s =>
    settle pieces (cursor + BitVec.ofNat 64 piece.bytes.length) (piece.record cursor s)

def layout (pieces : List (Piece σ)) : Bytes := pieces.flatMap Piece.bytes

/-- A block reads a piece back from wherever the piece stands in memory. -/
def Recovers (mem : U64 → Bytes → Prop) (inv : σ → Prop) (block : Block σ) (piece : Piece σ) : Prop :=
  ∀ cursor s, mem cursor piece.bytes → inv s →
    block cursor s = (piece.record cursor s, some (cursor + BitVec.ofNat 64 piece.bytes.length)) ∧
      inv (piece.record cursor s)

theorem Recovers.agree {mem : U64 → Bytes → Prop} {inv : σ → Prop} {block other : Block σ} {piece : Piece σ}
    (same : ∀ cursor s, inv s → block cursor s = other cursor s) (reads : Recovers mem inv other piece) :
    Recovers mem inv block piece := by
  intro cursor s stored kept
  rw [same cursor s kept]
  exact reads cursor s stored kept

theorem walk_settle {mem : U64 → Bytes → Prop} {inv : σ → Prop}
    (split : ∀ {cursor first second}, mem cursor (first ++ second) →
      mem cursor first ∧ mem (cursor + BitVec.ofNat 64 first.length) second)
    {blocks : List (Block σ)} {pieces : List (Piece σ)} (reads : List.Forall₂ (Recovers mem inv) blocks pieces)
    {cursor : U64} {s : σ} (stored : mem cursor (layout pieces)) (kept : inv s) :
    walk blocks cursor s = settle pieces cursor s := by
  induction reads generalizing cursor s with
  | nil => rfl
  | cons head _ ih =>
    rcases split stored with ⟨here, behind⟩
    rcases head cursor s here kept with ⟨turn, still⟩
    rw [walk, turn, settle]
    exact ih behind still

theorem walk_keeps {inv : σ → Prop} {blocks : List (Block σ)}
    (kept : ∀ block ∈ blocks, ∀ cursor s, inv s → inv (block cursor s).1)
    {cursor : U64} {s : σ} (start : inv s) : inv (walk blocks cursor s) := by
  induction blocks generalizing cursor s with
  | nil => exact start
  | cons block blocks ih =>
    have after := kept block List.mem_cons_self cursor s start
    rw [walk]
    generalize block cursor s = turn at after ⊢
    rcases turn with ⟨now, stop⟩
    cases stop with
    | none => exact after
    | some next => exact ih (fun other member => kept other (List.mem_cons_of_mem _ member)) after

section

variable {τ : Type} {R : σ → τ → Prop}

def Keeps (R : σ → τ → Prop) (block : Block σ) (other : Block τ) : Prop :=
  ∀ cursor s t, R s t → R (block cursor s).1 (other cursor t).1

/-- Two blocks that keep the relation and move the cursor alike. -/
def InStep (R : σ → τ → Prop) (block : Block σ) (other : Block τ) : Prop :=
  Keeps R block other ∧ ∀ cursor s t, R s t → (block cursor s).2 = (other cursor t).2

def Idle (R : σ → τ → Prop) (block : Block σ) : Prop := ∀ cursor s t, R s t → block cursor s = (s, some cursor)

/-- The blocks of one format among those of another. Behind the last one the cursor does not matter. -/
inductive Among (R : σ → τ → Prop) : List (Block σ) → List (Block τ) → Prop where
  | idle {blocks : List (Block σ)} : (∀ block ∈ blocks, Idle R block) → Among R blocks []
  | skip {block : Block σ} {blocks : List (Block σ)} {others : List (Block τ)} :
      Idle R block → Among R blocks others → Among R (block :: blocks) others
  | both {block : Block σ} {other : Block τ} {blocks : List (Block σ)} {others : List (Block τ)} :
      InStep R block other → Among R blocks others → Among R (block :: blocks) (other :: others)
  | last {block : Block σ} {other : Block τ} {blocks : List (Block σ)} :
      Keeps R block other → (∀ block ∈ blocks, Idle R block) → Among R (block :: blocks) [other]

theorem walk_idle {blocks : List (Block σ)} (idle : ∀ block ∈ blocks, Idle R block) {cursor : U64} {s : σ} {t : τ}
    (related : R s t) : walk blocks cursor s = s := by
  induction blocks with
  | nil => rfl
  | cons block blocks ih =>
    rw [walk, idle block List.mem_cons_self cursor s t related]
    exact ih fun block member => idle block (List.mem_cons_of_mem _ member)

theorem walk_ends {block : Block σ} {blocks : List (Block σ)} (idle : ∀ block ∈ blocks, Idle R block) {cursor : U64}
    {s : σ} {t : τ} (related : R (block cursor s).1 t) : walk (block :: blocks) cursor s = (block cursor s).1 := by
  rw [walk]
  generalize block cursor s = turn at related ⊢
  rcases turn with ⟨after, stop⟩
  cases stop with
  | none => rfl
  | some next => exact walk_idle idle related

theorem Among.walk {blocks : List (Block σ)} {others : List (Block τ)} (among : Among R blocks others) {cursor : U64}
    {s : σ} {t : τ} (related : R s t) : R (Machine.walk blocks cursor s) (Machine.walk others cursor t) := by
  induction among generalizing cursor s t with
  | idle idle =>
    rw [walk_idle idle related]
    exact related
  | skip idle _ ih =>
    rw [Machine.walk, idle cursor s t related]
    exact ih related
  | @both block other blocks others inStep _ ih =>
    have kept := inStep.1 cursor s t related
    have moved := inStep.2 cursor s t related
    rw [Machine.walk, Machine.walk]
    generalize block cursor s = turn at kept moved ⊢
    generalize other cursor t = turnOther at kept moved ⊢
    rcases turn with ⟨after, stop⟩
    rcases turnOther with ⟨afterOther, stopOther⟩
    cases moved
    cases stop with
    | none => exact kept
    | some next => exact ih kept
  | @last block other blocks keeps idle =>
    have kept := keeps cursor s t related
    rw [walk_ends idle kept, walk_ends (R := fun b a => R a b) (by simp) kept]
    exact kept

end

end Machine
