/-
# `Tezedge.Shell.MissingBlocks` — the missing-block queue over whole runs

A run of a `BlockState` is any sequence of calls of its four mutating methods,
in any order and with any arguments, the storages failing or not at every
call; each call's reply is logged.  A state is reachable when some run from
`BlockState::new` over any storages ends in it.

## What is proved

* `accepted_predecessor_kept`: the predecessor of every header that
  `process_block_header` accepted is, in every later state, in block storage,
  still queued, or among the hashes some drain handed out.
* `drain_history`: a drain hands out the oldest `min(n, len)` hashes and never
  panics, and everything drained so far followed by the queue is everything
  ever pushed, in push order.
* `missing_blocks_duplicate`: the queue can hold one hash twice — two headers
  with the same predecessor that block storage lacks both queue it.
* `queued_only_while_unstored`: what the storage check does guarantee — once
  block storage holds a hash, no later `push_missing_block` or
  `process_block_header` queues it.

All four rest on one invariant, `Inv`, and on the frame lemmas of
`Tezedge.Shell.BlockState`: every call but a drain only appends to the queue
and only adds to block storage.
-/
import Tezedge.Shell.BlockState

namespace Tezedge

namespace BlockState

/-- A call a caller of `BlockState` makes. -/
inductive Call
  | processBlockHeader (blockHeader : BlockHeaderWithHash)
  | pushMissingBlock (blockHash : BlockHash)
  | hydrate
  | drainMissingBlocks (n : Nat)
  deriving DecidableEq, Repr

/-- The two calls that consult block storage before queueing. -/
def Call.checksBlockStorage : Call → Bool
  | .processBlockHeader _ | .pushMissingBlock _ => true
  | .hydrate | .drainMissingBlocks _ => false

/-- What the caller gets back. -/
inductive Reply
  | result (r : Except StorageError Unit)
  | hashes (drained : List BlockHash)

variable {σ τ : Type} (bs : BlockStorage σ) (ms : BlockMetaStorage τ)

/-- One call: its reply and the state after; `none` is a panic. -/
def step (s : BlockState σ τ) : Call → Option (Reply × BlockState σ τ)
  | .processBlockHeader hdr => some (method (processBlockHeader bs ms hdr))
  | .pushMissingBlock h => some (method (pushMissingBlock bs h))
  | .hydrate => some (method (hydrate ms))
  | .drainMissingBlocks n => (drainMissingBlocks n s).map fun (hs, s') => (.hashes hs, s')
where
  /-- A `&mut self -> Result<(), StorageError>` method. -/
  method (m : EStateM StorageError (BlockState σ τ) Unit) : Reply × BlockState σ τ :=
    (.result (outcome (m s)), resultState (m s))

/-- `s` runs to `s'`, with the calls and replies in between. -/
inductive Runs : BlockState σ τ → List (Call × Reply) → BlockState σ τ → Prop
  | refl (s : BlockState σ τ) : Runs s [] s
  | step {s s₁ s₂ : BlockState σ τ} {log : List (Call × Reply)} {c : Call} {r : Reply} :
      Runs s log s₁ → step bs ms s₁ c = some (r, s₂) → Runs s (log ++ [(c, r)]) s₂

/-- Reachable from `BlockState::new`, over any storages and chain. -/
def Reachable (s : BlockState σ τ) (log : List (Call × Reply)) : Prop :=
  ∃ blockStorage blockMetaStorage chainId,
    Runs bs ms (new blockStorage blockMetaStorage chainId) log s

/-! ## What a log records -/

/-- Everything the drains of a log handed out, in order. -/
def drained (log : List (Call × Reply)) : List BlockHash :=
  log.flatMap fun
    | (_, .hashes hs) => hs
    | _ => []

/-- The predecessors of the headers `process_block_header` returned `Ok` for. -/
def accepted (log : List (Call × Reply)) : List BlockHash :=
  log.filterMap fun
    | (.processBlockHeader hdr, .result (.ok ())) => some hdr.header.predecessor
    | _ => none

@[simp] theorem drained_nil : drained [] = [] := rfl

@[simp] theorem accepted_nil : accepted [] = [] := rfl

@[simp] theorem drained_append (l₁ l₂ : List (Call × Reply)) :
    drained (l₁ ++ l₂) = drained l₁ ++ drained l₂ := List.flatMap_append _ _ _

@[simp] theorem accepted_append (l₁ l₂ : List (Call × Reply)) :
    accepted (l₁ ++ l₂) = accepted l₁ ++ accepted l₂ := List.filterMap_append _ _ _

/-! ## One call -/

/-- A drain, in one equation. -/
theorem step_drain (s : BlockState σ τ) (n : Nat) :
    step bs ms s (.drainMissingBlocks n) =
      some (.hashes (s.missingBlocks.take n),
        { s with missingBlocks := s.missingBlocks.drop n }) := by
  simp [step, drainMissingBlocks_eq]

/-- The invariant: drained ++ queued is everything pushed, and every accepted
predecessor is stored or was pushed. -/
structure Inv (s : BlockState σ τ) (log : List (Call × Reply)) : Prop where
  history : drained log ++ s.missingBlocks = s.pushed
  accepted : ∀ p ∈ accepted log, bs.stored s.blockStorage p = true ∨ p ∈ s.pushed

theorem inv_new (blockStorage : σ) (blockMetaStorage : τ) (chainId : ChainId) :
    Inv bs (new blockStorage blockMetaStorage chainId) [] :=
  ⟨rfl, fun _ h => nomatch h⟩

/-- A method that only appends and adds keeps the invariant, given that
what it accepts it stored or pushed. -/
theorem inv_method {s : BlockState σ τ} {log : List (Call × Reply)} {c : Call}
    {m : EStateM StorageError (BlockState σ τ) Unit} (hi : Inv bs s log)
    (hm : Moves (Grows bs) m)
    (hnew : ∀ p ∈ accepted [(c, .result (outcome (m s)))],
      bs.stored (resultState (m s)).blockStorage p = true ∨ p ∈ (resultState (m s)).pushed) :
    Inv bs (step.method s m).2 (log ++ [(c, (step.method s m).1)]) := by
  obtain ⟨l, hl⟩ := hm s
  refine ⟨?_, fun p hp => ?_⟩
  · simp [step.method, drained, hl.missingBlocks, hl.pushed, ← hi.history]
  · rcases List.mem_append.1 (accepted_append _ _ ▸ hp) with hp | hp
    · rcases hi.accepted p hp with h | h
      · exact .inl (hl.stored p h)
      · exact .inr (by simp only [step.method, hl.pushed, List.mem_append, h, true_or])
    · exact hnew p hp

theorem inv_step {s s' : BlockState σ τ} {log : List (Call × Reply)} {c : Call} {r : Reply}
    (hi : Inv bs s log) (h : step bs ms s c = some (r, s')) :
    Inv bs s' (log ++ [(c, r)]) := by
  cases c with
  | processBlockHeader hdr =>
    cases h
    refine inv_method bs hi (Moves.grows bs (moves_processBlockHeader bs ms hdr)) ?_
    intro p hp
    cases ho : outcome (processBlockHeader bs ms hdr s) with
    | error e => simp [accepted, ho] at hp
    | ok u =>
      simp only [accepted, ho, List.filterMap_cons, List.filterMap_nil,
        List.mem_singleton] at hp
      subst hp
      exact processBlockHeader_ok bs ms (outcome_eq_ok ho)
  | pushMissingBlock b =>
    cases h
    refine inv_method bs hi (Moves.grows bs (moves_pushMissingBlock bs b)) ?_
    intro p hp
    simp [accepted] at hp
  | hydrate =>
    cases h
    refine inv_method bs hi (moves_hydrate bs ms) ?_
    intro p hp
    simp [accepted] at hp
  | drainMissingBlocks n =>
    rw [step_drain] at h
    cases h
    refine ⟨?_, fun p hp => ?_⟩
    · simp [drained, ← hi.history]
    · simpa [accepted] using hi.accepted p (by simpa [accepted] using hp)

theorem Runs.inv {s₀ s : BlockState σ τ} {log : List (Call × Reply)}
    (h : Runs bs ms s₀ log s) (h₀ : Inv bs s₀ []) : Inv bs s log := by
  induction h with
  | refl => exact h₀
  | step _ hstep ih => exact inv_step bs ms ih hstep

theorem Reachable.inv {s : BlockState σ τ} {log : List (Call × Reply)}
    (h : Reachable bs ms s log) : Inv bs s log := by
  obtain ⟨b, m, c, h⟩ := h
  exact h.inv bs ms (inv_new bs b m c)

/-- Every call but a drain moves along `Grows`; a drain leaves block storage
alone. -/
theorem step_stored {s s' : BlockState σ τ} {c : Call} {r : Reply}
    (h : step bs ms s c = some (r, s')) {x : BlockHash}
    (hx : bs.stored s.blockStorage x = true) : bs.stored s'.blockStorage x = true := by
  cases c with
  | processBlockHeader hdr =>
    cases h; exact (Moves.grows bs (moves_processBlockHeader bs ms hdr) s).choose_spec.stored x hx
  | pushMissingBlock b =>
    cases h; exact (Moves.grows bs (moves_pushMissingBlock bs b) s).choose_spec.stored x hx
  | hydrate => cases h; exact (moves_hydrate bs ms s).choose_spec.stored x hx
  | drainMissingBlocks n => rw [step_drain] at h; cases h; exact hx

theorem Runs.stored {s₀ s : BlockState σ τ} {log : List (Call × Reply)}
    (h : Runs bs ms s₀ log s) {x : BlockHash} (hx : bs.stored s₀.blockStorage x = true) :
    bs.stored s.blockStorage x = true := by
  induction h with
  | refl => exact hx
  | step _ hstep ih => exact step_stored bs ms hstep ih

/-- The calls that check block storage push only hashes it lacks. -/
theorem step_growsUnstored {s s' : BlockState σ τ} {c : Call} {r : Reply}
    (hc : c.checksBlockStorage = true) (h : step bs ms s c = some (r, s')) :
    GrowsUnstored bs s s' := by
  cases c with
  | processBlockHeader hdr => cases h; exact moves_processBlockHeader bs ms hdr s
  | pushMissingBlock b => cases h; exact moves_pushMissingBlock bs b s
  | hydrate | drainMissingBlocks _ => exact nomatch hc

/-! ## Running calls -/

/-- Run the calls in order; `none` when one of them panics. -/
def run (s : BlockState σ τ) : List Call → Option (List (Call × Reply) × BlockState σ τ)
  | [] => some ([], s)
  | c :: cs => do
    let (r, s₁) ← step bs ms s c
    let (log, s₂) ← run s₁ cs
    pure ((c, r) :: log, s₂)

theorem Runs.cons {s s₁ s₂ : BlockState σ τ} {c : Call} {r : Reply}
    {log : List (Call × Reply)} (h : BlockState.step bs ms s c = some (r, s₁))
    (hr : Runs bs ms s₁ log s₂) :
    Runs bs ms s ((c, r) :: log) s₂ := by
  induction hr with
  | refl => exact .step (.refl s) h
  | step _ hstep ih => exact .step ih hstep

theorem runs_of_run {s s' : BlockState σ τ} {cs : List Call} {log : List (Call × Reply)}
    (h : run bs ms s cs = some (log, s')) : Runs bs ms s log s' := by
  induction cs generalizing s log with
  | nil => cases h; exact .refl _
  | cons c cs ih =>
    simp only [run, Option.bind_eq_bind, Option.bind_eq_some, Option.some.injEq] at h
    obtain ⟨⟨r, s₁⟩, h₁, ⟨log', s₂⟩, h₂, h⟩ := h
    cases h
    exact .cons bs ms h₁ (ih h₂)

theorem reachable_of_run {b : σ} {m : τ} {chainId : ChainId} {cs : List Call}
    {log : List (Call × Reply)} {s : BlockState σ τ}
    (h : run bs ms (new b m chainId) cs = some (log, s)) :
    Reachable bs ms s log :=
  ⟨b, m, chainId, runs_of_run bs ms h⟩

theorem reachable_of_isSome {b : σ} {m : τ} {chainId : ChainId} {cs : List Call}
    (h : (run bs ms (new b m chainId) cs).isSome) :
    Reachable bs ms ((run bs ms (new b m chainId) cs).get h).2
      ((run bs ms (new b m chainId) cs).get h).1 :=
  reachable_of_run bs ms (Option.some_get h).symm

/-! ## Storages held in memory -/

/-- A block storage held in a list of hashes, that never fails. -/
def memBlockStorage : BlockStorage (List BlockHash) where
  stored s h := decide (h ∈ s)
  contains s h := .ok (decide (h ∈ s))
  putBlockHeader hdr := modify (hdr.hash :: ·)
  contains_ok h := (Except.ok.inj h).symm
  stored_putBlockHeader h := by
    show decide (_ ∈ _ :: _) = true
    simpa using Or.inr (by simpa using h)

/-- A meta storage that holds nothing and never fails. -/
def memBlockMetaStorage : BlockMetaStorage Unit := ⟨fun _ => pure (), fun _ => .ok []⟩

/-! ## The queue over runs -/

theorem accepted_predecessor_kept {s : BlockState σ τ} {log : List (Call × Reply)}
    (h : Reachable bs ms s log) :
    ∀ p ∈ accepted log,
      bs.stored s.blockStorage p = true ∨ p ∈ s.missingBlocks ∨ p ∈ drained log := by
  intro p hp
  have hi := h.inv bs ms
  rcases hi.accepted p hp with hs | hs
  · exact .inl hs
  · rw [← hi.history, List.mem_append] at hs
    exact .inr hs.symm

/-- A header `[1]` with the unstored predecessor `[0]`, then a drain of one. -/
theorem accepted_predecessor_kept_after_drain :
    let r := (run memBlockStorage memBlockMetaStorage (new [] () ⟨[]⟩)
      [.processBlockHeader ⟨⟨[1]⟩, ⟨⟨[0]⟩⟩⟩, .drainMissingBlocks 1]).get (by decide)
    Reachable memBlockStorage memBlockMetaStorage r.2 r.1 ∧
      ∀ p ∈ accepted r.1, memBlockStorage.stored r.2.blockStorage p = true ∨
        p ∈ r.2.missingBlocks ∨ p ∈ drained r.1 := by
  intro r
  have h : Reachable memBlockStorage memBlockMetaStorage r.2 r.1 := reachable_of_isSome _ _ _
  exact ⟨h, accepted_predecessor_kept _ _ h⟩

theorem drain_history {s : BlockState σ τ} {log : List (Call × Reply)}
    (h : Reachable bs ms s log) :
    drained log ++ s.missingBlocks = s.pushed ∧
      ∀ n, drainMissingBlocks n s =
          some (s.missingBlocks.take n, { s with missingBlocks := s.missingBlocks.drop n }) ∧
        (s.missingBlocks.take n).length = min n s.missingBlocks.length :=
  ⟨(h.inv bs ms).history, fun n => ⟨drainMissingBlocks_eq n s, List.length_take _ _⟩⟩

/-- Three headers queue three predecessors; a drain of two hands out the first two. -/
theorem drain_history_three :
    let r := (run memBlockStorage memBlockMetaStorage (new [] () ⟨[]⟩)
      [.processBlockHeader ⟨⟨[1]⟩, ⟨⟨[0]⟩⟩⟩, .processBlockHeader ⟨⟨[3]⟩, ⟨⟨[2]⟩⟩⟩,
        .processBlockHeader ⟨⟨[5]⟩, ⟨⟨[4]⟩⟩⟩, .drainMissingBlocks 2]).get (by decide)
    Reachable memBlockStorage memBlockMetaStorage r.2 r.1 ∧
      (drained r.1 ++ r.2.missingBlocks = r.2.pushed ∧
        ∀ n, drainMissingBlocks n r.2 = some (r.2.missingBlocks.take n,
            { r.2 with missingBlocks := r.2.missingBlocks.drop n }) ∧
          (r.2.missingBlocks.take n).length = min n r.2.missingBlocks.length) := by
  intro r
  have h : Reachable memBlockStorage memBlockMetaStorage r.2 r.1 := reachable_of_isSome _ _ _
  exact ⟨h, drain_history _ _ h⟩

theorem missing_blocks_duplicate :
    ¬ ∀ (s : BlockState (List BlockHash) Unit) log,
        Reachable memBlockStorage memBlockMetaStorage s log → s.missingBlocks.Nodup := by
  intro h
  have hrun : run memBlockStorage memBlockMetaStorage (new [] () ⟨[]⟩)
      [.processBlockHeader ⟨⟨[1]⟩, ⟨⟨[0]⟩⟩⟩, .processBlockHeader ⟨⟨[2]⟩, ⟨⟨[0]⟩⟩⟩] =
      some (_, ⟨[⟨[2]⟩, ⟨[1]⟩], (), [⟨[0]⟩, ⟨[0]⟩], ⟨[]⟩, [⟨[0]⟩, ⟨[0]⟩]⟩) := rfl
  exact absurd (h _ _ (reachable_of_run _ _ hrun)) (by decide)

theorem queued_only_while_unstored {s₀ s₁ s₂ : BlockState σ τ} {log : List (Call × Reply)}
    {c : Call} {r : Reply} {h : BlockHash} (hrun : Runs bs ms s₀ log s₁)
    (hstep : step bs ms s₁ c = some (r, s₂)) (hc : c.checksBlockStorage = true)
    (hh : bs.stored s₀.blockStorage h = true) :
    ∃ l, s₂.missingBlocks = s₁.missingBlocks ++ l ∧ h ∉ l := by
  obtain ⟨l, hl, hu⟩ := step_growsUnstored bs ms hc hstep
  exact ⟨l, hl.missingBlocks, fun hm =>
    Bool.false_ne_true ((hu h hm).symm.trans (hrun.stored bs ms hh))⟩

/-- `process_block_header` stores `[0]`; after a drain, a header whose
predecessor is `[0]` queues nothing. -/
theorem stored_predecessor_not_queued :
    ∃ (s₀ s₁ s₂ : BlockState (List BlockHash) Unit) (r₀ r : Reply) (log : List (Call × Reply)),
      step memBlockStorage memBlockMetaStorage (new [] () ⟨[]⟩)
          (.processBlockHeader ⟨⟨[0]⟩, ⟨⟨[9]⟩⟩⟩) = some (r₀, s₀) ∧
        run memBlockStorage memBlockMetaStorage s₀ [.drainMissingBlocks 1] = some (log, s₁) ∧
        step memBlockStorage memBlockMetaStorage s₁ (.processBlockHeader ⟨⟨[1]⟩, ⟨⟨[0]⟩⟩⟩) =
          some (r, s₂) ∧
        ∃ l, s₂.missingBlocks = s₁.missingBlocks ++ l ∧ ⟨[0]⟩ ∉ l :=
  have h₀ : step memBlockStorage memBlockMetaStorage (new [] () ⟨[]⟩)
      (.processBlockHeader ⟨⟨[0]⟩, ⟨⟨[9]⟩⟩⟩) = some (_, ⟨[⟨[0]⟩], (), [⟨[9]⟩], ⟨[]⟩, [⟨[9]⟩]⟩) := rfl
  have h₁ : run memBlockStorage memBlockMetaStorage ⟨[⟨[0]⟩], (), [⟨[9]⟩], ⟨[]⟩, [⟨[9]⟩]⟩
      [.drainMissingBlocks 1] = some (_, ⟨[⟨[0]⟩], (), [], ⟨[]⟩, [⟨[9]⟩]⟩) := rfl
  have h₂ : step memBlockStorage memBlockMetaStorage ⟨[⟨[0]⟩], (), [], ⟨[]⟩, [⟨[9]⟩]⟩
      (.processBlockHeader ⟨⟨[1]⟩, ⟨⟨[0]⟩⟩⟩) = some (_, _) := rfl
  ⟨_, _, _, _, _, _, h₀, h₁, h₂,
    queued_only_while_unstored _ _ (runs_of_run _ _ h₁) h₂ rfl rfl⟩

end BlockState

end Tezedge
