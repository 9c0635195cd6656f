/-
# `Tezedge.Shell.BlockState` — the missing-block queue of `block_state.rs`

`BlockState` keeps a queue `missing_blocks` of block hashes the node still has
to download.  `process_block_header` queues a header's predecessor unless
block storage already holds it; `hydrate` queues every meta-storage key whose
meta has no predecessor; `drain_missing_blocks(n)` hands out the oldest
`min(n, len)` hashes.

## The storages

`BlockStorage` and `BlockMetaStorage` are not in this model's sources, so the
calls `BlockState` makes on them are parameters, over any representation of
their columns.  Every call may fail with a `StorageError`, and a failed write
may leave its column changed: the methods are `&mut self -> Result`, modelled
as `EStateM`, where both outcomes carry the state they leave.  Of block
storage the model assumes three things: it is a set of hashes, `contains`
answers for that set, and a write never removes from it.

## The ghost

`pushed` is not a field of the source struct: it records every hash passed to
`missing_blocks.push`, in push order, so that the queue's history can be
stated.  Nothing in the model reads it.

## What is proved

`hydrate_queues_roots`: over a meta storage whose iteration reads without
error, `hydrate` returns `Ok` and queues, in iteration order, exactly the
blocks that have no predecessor.  `rootKeys` says what it does when an entry
fails: it stops there, and the key of a block with a predecessor is never read.
The frame lemmas below are what `Tezedge.Shell.MissingBlocks` builds on.

## `&mut self` methods as `EStateM`

`Moves R m` says that `m`, from any state, ends — returning or throwing — in a
state related to its start by `R`.  For a preorder `R` it is closed under
`bind` and `forM`, so each method's frame property is assembled from those of
the calls it makes, with no unfolding of the method.
-/
import Mathlib.Order.Defs.Unbundled
import Mathlib.Data.List.Basic

namespace Tezedge

/-! ## Methods as `EStateM` -/

/-- The state an `EStateM` computation ends in, whether it returned or threw. -/
def resultState {ε σ α : Type} : EStateM.Result ε σ α → σ
  | .ok _ s => s
  | .error _ s => s

/-- `m` moves the state only along `R`, returning or throwing. -/
def Moves {ε σ α : Type} (R : σ → σ → Prop) (m : EStateM ε σ α) : Prop :=
  ∀ s, R s (resultState (m s))

/-- What an `EStateM` computation returned or threw, without its state. -/
def outcome {ε σ α : Type} : EStateM.Result ε σ α → Except ε α
  | .ok a _ => .ok a
  | .error e _ => .error e

theorem bind_eq_ok {ε σ α β : Type} {m : EStateM ε σ α} {f : α → EStateM ε σ β} {s s'' : σ}
    {b : β} (h : (m >>= f) s = .ok b s'') : ∃ a s', m s = .ok a s' ∧ f a s' = .ok b s'' := by
  revert h
  show (match m s with | .ok a s' => f a s' | .error e s' => .error e s') = _ → _
  cases m s with
  | ok a s' => exact fun h => ⟨a, s', rfl, h⟩
  | error e s' => exact fun h => nomatch h

theorem outcome_eq_ok {ε σ α : Type} {r : EStateM.Result ε σ α} {a : α}
    (h : outcome r = .ok a) : r = .ok a (resultState r) := by
  cases r <;> cases h; rfl

namespace Moves

variable {ε σ α β : Type} {R : σ → σ → Prop}

theorem bind [IsTrans σ R] {m : EStateM ε σ α} {f : α → EStateM ε σ β}
    (hm : Moves R m) (hf : ∀ a, Moves R (f a)) : Moves R (m >>= f) := by
  intro s
  have h := hm s
  show R s (resultState (match m s with | .ok a s' => f a s' | .error e s' => .error e s'))
  revert h
  cases m s with
  | ok a s' => exact fun h => IsTrans.trans _ _ _ h (hf a s')
  | error e s' => exact id

theorem pure [IsRefl σ R] (a : α) : Moves R (Pure.pure a : EStateM ε σ α) :=
  fun s => IsRefl.refl s

theorem get [IsRefl σ R] : Moves R (MonadState.get : EStateM ε σ σ) :=
  fun s => IsRefl.refl s

theorem liftExcept [IsRefl σ R] (x : Except ε α) : Moves R (liftExcept x : EStateM ε σ α) := by
  intro s; cases x <;> exact IsRefl.refl s

theorem modify {f : σ → σ} (hf : ∀ s, R s (f s)) : Moves R (modify f : EStateM ε σ PUnit) :=
  hf

theorem ite {c : Prop} [Decidable c] {t e : EStateM ε σ α} (ht : Moves R t) (he : Moves R e) :
    Moves R (if c then t else e) := by
  split <;> assumption

theorem forM [IsTrans σ R] [IsRefl σ R] {l : List α} {f : α → EStateM ε σ PUnit}
    (hf : ∀ a, Moves R (f a)) : Moves R (l.forM f) := by
  induction l with
  | nil => exact pure _
  | cons a l ih => exact bind (hf a) fun _ => ih

end Moves

/-! ## Data -/

/-- `BlockHash`. -/
structure BlockHash where
  bytes : List UInt8
  deriving DecidableEq, Repr

/-- `ChainId`. -/
structure ChainId where
  bytes : List UInt8
  deriving DecidableEq, Repr

/-- `BlockHeader`, as far as `BlockState` reads it. -/
structure BlockHeader where
  predecessor : BlockHash
  deriving DecidableEq, Repr

/-- `BlockHeaderWithHash`. -/
structure BlockHeaderWithHash where
  hash : BlockHash
  header : BlockHeader
  deriving DecidableEq, Repr

/-- `StorageError`: `BlockState` only passes it on. -/
structure StorageError where
  reason : String
  deriving DecidableEq, Repr

/-- The meta-storage value, as far as `hydrate` reads it. -/
structure Meta where
  predecessor : Option BlockHash
  deriving DecidableEq, Repr

/-- The calls `BlockState` makes on `BlockStorage`, over a representation `σ`
of its column.  `stored` is the set of header hashes the column holds; the
laws say that `contains` answers for it and that a write, whether it
succeeds or fails, never removes from it. -/
structure BlockStorage (σ : Type) where
  stored : σ → BlockHash → Bool
  contains : σ → BlockHash → Except StorageError Bool
  putBlockHeader : BlockHeaderWithHash → EStateM StorageError σ Unit
  contains_ok : ∀ {s h b}, contains s h = .ok b → b = stored s h
  stored_putBlockHeader : ∀ {hdr s h}, stored s h = true →
    stored (resultState (putBlockHeader hdr s)) h = true

/-- The calls `BlockState` makes on `BlockMetaStorage`: `put_block_header`,
and `iter(IteratorMode::Start)` with the `(key, value)` results it yields. -/
structure BlockMetaStorage (τ : Type) where
  putBlockHeader : BlockHeaderWithHash → EStateM StorageError τ Unit
  iter : τ → Except StorageError
    (List (Except StorageError BlockHash × Except StorageError Meta))

/-- `BlockState`, with the ghost `pushed`. -/
structure BlockState (σ τ : Type) where
  blockStorage : σ
  blockMetaStorage : τ
  missingBlocks : List BlockHash
  chainId : ChainId
  pushed : List BlockHash

namespace BlockState

variable {σ τ : Type}

/-- `self.missing_blocks.push(h)`, recorded in the ghost. -/
def push (s : BlockState σ τ) (h : BlockHash) : BlockState σ τ :=
  { s with missingBlocks := s.missingBlocks ++ [h], pushed := s.pushed ++ [h] }

/-- `push` of each of `ks`, in order. -/
def pushAll (s : BlockState σ τ) (ks : List BlockHash) : BlockState σ τ :=
  { s with missingBlocks := s.missingBlocks ++ ks, pushed := s.pushed ++ ks }

@[simp] theorem pushAll_nil (s : BlockState σ τ) : s.pushAll [] = s := by
  simp [pushAll]

theorem push_pushAll (s : BlockState σ τ) (k : BlockHash) (ks : List BlockHash) :
    (s.push k).pushAll ks = s.pushAll (k :: ks) := by
  simp [push, pushAll]

/-- A call on `self.block_storage`. -/
def onBlockStorage {α : Type} (m : EStateM StorageError σ α) :
    EStateM StorageError (BlockState σ τ) α := fun s =>
  match m s.blockStorage with
  | .ok a t => .ok a { s with blockStorage := t }
  | .error e t => .error e { s with blockStorage := t }

/-- A call on `self.block_meta_storage`. -/
def onBlockMetaStorage {α : Type} (m : EStateM StorageError τ α) :
    EStateM StorageError (BlockState σ τ) α := fun s =>
  match m s.blockMetaStorage with
  | .ok a t => .ok a { s with blockMetaStorage := t }
  | .error e t => .error e { s with blockMetaStorage := t }

/-! ## The methods -/

variable (bs : BlockStorage σ) (ms : BlockMetaStorage τ)

/-- `BlockState::new`. -/
def new (blockStorage : σ) (blockMetaStorage : τ) (chainId : ChainId) : BlockState σ τ :=
  ⟨blockStorage, blockMetaStorage, [], chainId, []⟩

/-- `push_missing_block`. -/
def pushMissingBlock (blockHash : BlockHash) : EStateM StorageError (BlockState σ τ) Unit := do
  if !(← liftExcept (bs.contains (← get).blockStorage blockHash)) then
    modify (·.push blockHash)

/-- `process_block_header`. -/
def processBlockHeader (blockHeader : BlockHeaderWithHash) :
    EStateM StorageError (BlockState σ τ) Unit := do
  pushMissingBlock bs blockHeader.header.predecessor
  onBlockStorage (bs.putBlockHeader blockHeader)
  onBlockMetaStorage (ms.putBlockHeader blockHeader)

/-- `Vec::drain(lo..hi).collect()` and what is left: panics (`none`) unless
`lo ≤ hi ≤ len`. -/
def vecDrain {α : Type} (v : List α) (lo hi : Nat) : Option (List α × List α) :=
  if lo ≤ hi ∧ hi ≤ v.length then some ((v.drop lo).take (hi - lo), v.take lo ++ v.drop hi)
  else none

/-- `drain_missing_blocks`: the drained hashes and the state after; `none` is
a panic. -/
def drainMissingBlocks (n : Nat) (s : BlockState σ τ) :
    Option (List BlockHash × BlockState σ τ) := do
  let (drained, rest) ← vecDrain s.missingBlocks 0 (min s.missingBlocks.length n)
  pure (drained, { s with missingBlocks := rest })

/-- `has_missing_blocks`. -/
def hasMissingBlocks (s : BlockState σ τ) : Bool := !s.missingBlocks.isEmpty

/-- One turn of the loop of `hydrate`: `value?` first, and `key?` only for a
meta without predecessor. -/
def hydrateEntry (entry : Except StorageError BlockHash × Except StorageError Meta) :
    EStateM StorageError (BlockState σ τ) Unit := do
  let value ← liftExcept entry.2
  if value.predecessor.isNone then
    let key ← liftExcept entry.1
    modify (·.push key)

/-- `hydrate`. -/
def hydrate : EStateM StorageError (BlockState σ τ) Unit := do
  let entries ← liftExcept (ms.iter (← get).blockMetaStorage)
  entries.forM hydrateEntry

/-- `get_chain_id`. -/
def getChainId (s : BlockState σ τ) : ChainId := s.chainId

/-! ## What a method can do to the queue and to block storage -/

/-- `s'` is `s` with the hashes `l` pushed at the end of the queue (and of
the ghost), and with block storage holding at least what it held. -/
structure Extends (s : BlockState σ τ) (l : List BlockHash) (s' : BlockState σ τ) : Prop where
  missingBlocks : s'.missingBlocks = s.missingBlocks ++ l
  pushed : s'.pushed = s.pushed ++ l
  stored : ∀ h, bs.stored s.blockStorage h = true → bs.stored s'.blockStorage h = true

theorem Extends.refl (s : BlockState σ τ) : Extends bs s [] s :=
  ⟨(List.append_nil _).symm, (List.append_nil _).symm, fun _ => id⟩

theorem Extends.trans {s₁ s₂ s₃ : BlockState σ τ} {l₁ l₂ : List BlockHash}
    (h₁ : Extends bs s₁ l₁ s₂) (h₂ : Extends bs s₂ l₂ s₃) : Extends bs s₁ (l₁ ++ l₂) s₃ :=
  ⟨by rw [h₂.1, h₁.1, List.append_assoc], by rw [h₂.2, h₁.2, List.append_assoc],
    fun h hs => h₂.3 h (h₁.3 h hs)⟩

/-- Some hashes were pushed and block storage lost nothing. -/
def Grows (s s' : BlockState σ τ) : Prop := ∃ l, Extends bs s l s'

/-- As `Grows`, and every pushed hash was missing from block storage at the
start. -/
def GrowsUnstored (s s' : BlockState σ τ) : Prop :=
  ∃ l, Extends bs s l s' ∧ ∀ x ∈ l, bs.stored s.blockStorage x = false

instance : IsRefl (BlockState σ τ) (Grows bs) := ⟨fun s => ⟨[], Extends.refl bs s⟩⟩

instance : IsTrans (BlockState σ τ) (Grows bs) :=
  ⟨fun _ _ _ ⟨_, h₁⟩ ⟨_, h₂⟩ => ⟨_, h₁.trans bs h₂⟩⟩

instance : IsRefl (BlockState σ τ) (GrowsUnstored bs) :=
  ⟨fun s => ⟨[], Extends.refl bs s, fun _ h => nomatch h⟩⟩

instance : IsTrans (BlockState σ τ) (GrowsUnstored bs) := by
  refine ⟨fun _ _ _ ⟨l₁, h₁, u₁⟩ ⟨l₂, h₂, u₂⟩ => ⟨_, h₁.trans bs h₂, fun x hx => ?_⟩⟩
  rcases List.mem_append.1 hx with hx | hx
  · exact u₁ x hx
  · exact Bool.eq_false_iff.2 fun hs => absurd (h₁.3 x hs) (by simp [u₂ x hx])

theorem GrowsUnstored.grows {s s' : BlockState σ τ} (h : GrowsUnstored bs s s') : Grows bs s s' :=
  ⟨_, h.choose_spec.1⟩

theorem Moves.grows {ε α : Type} {m : EStateM ε (BlockState σ τ) α}
    (h : Moves (GrowsUnstored bs) m) : Moves (Grows bs) m :=
  fun s => (h s).grows bs

theorem push_extends (s : BlockState σ τ) (h : BlockHash) : Extends bs s [h] (s.push h) :=
  ⟨rfl, rfl, fun _ => id⟩

theorem resultState_onBlockStorage {α : Type} (m : EStateM StorageError σ α)
    (s : BlockState σ τ) :
    resultState (onBlockStorage m s) =
      { s with blockStorage := resultState (m s.blockStorage) } := by
  unfold onBlockStorage; cases m s.blockStorage <;> rfl

theorem resultState_onBlockMetaStorage {α : Type} (m : EStateM StorageError τ α)
    (s : BlockState σ τ) :
    resultState (onBlockMetaStorage m s) =
      { s with blockMetaStorage := resultState (m s.blockMetaStorage) } := by
  unfold onBlockMetaStorage; cases m s.blockMetaStorage <;> rfl

theorem moves_putBlockHeader (hdr : BlockHeaderWithHash) :
    Moves (GrowsUnstored bs) (onBlockStorage (τ := τ) (bs.putBlockHeader hdr)) := fun s =>
  ⟨[], ⟨by rw [resultState_onBlockStorage, List.append_nil],
    by rw [resultState_onBlockStorage, List.append_nil],
    fun _ h => by rw [resultState_onBlockStorage]; exact bs.stored_putBlockHeader h⟩,
    fun _ h => nomatch h⟩

theorem moves_onBlockMetaStorage {α : Type} (m : EStateM StorageError τ α) :
    Moves (GrowsUnstored bs) (onBlockMetaStorage (σ := σ) m) := fun s =>
  ⟨[], ⟨by rw [resultState_onBlockMetaStorage, List.append_nil],
    by rw [resultState_onBlockMetaStorage, List.append_nil],
    fun _ h => by rw [resultState_onBlockMetaStorage]; exact h⟩, fun _ h => nomatch h⟩

/-- `push_missing_block` in one equation. -/
theorem pushMissingBlock_eq (h : BlockHash) (s : BlockState σ τ) :
    pushMissingBlock bs h s =
      match bs.contains s.blockStorage h with
      | .ok b => .ok () (if b then s else s.push h)
      | .error e => .error e s := by
  show (liftExcept (bs.contains s.blockStorage h) >>= fun b =>
    if !b then modify (fun t : BlockState σ τ => t.push h) else pure PUnit.unit :
      EStateM StorageError (BlockState σ τ) Unit) s = _
  cases bs.contains s.blockStorage h with
  | error e => rfl
  | ok b => cases b <;> rfl

theorem moves_pushMissingBlock (h : BlockHash) :
    Moves (GrowsUnstored bs) (pushMissingBlock (τ := τ) bs h) := by
  intro s
  rw [pushMissingBlock_eq]
  cases hc : bs.contains s.blockStorage h with
  | error e => exact IsRefl.refl s
  | ok b =>
    cases b with
    | true => exact IsRefl.refl s
    | false => exact ⟨[h], push_extends bs s h, by simpa using (bs.contains_ok hc).symm⟩

theorem moves_processBlockHeader (hdr : BlockHeaderWithHash) :
    Moves (GrowsUnstored bs) (processBlockHeader bs ms hdr) :=
  .bind (moves_pushMissingBlock bs _) fun _ =>
    .bind (moves_putBlockHeader bs hdr) fun _ => moves_onBlockMetaStorage bs _

theorem moves_hydrate : Moves (Grows bs) (hydrate (σ := σ) ms) := by
  refine .bind .get fun s => .bind (.liftExcept _) fun entries => .forM fun e => ?_
  refine .bind (.liftExcept _) fun v => .ite (.bind (.liftExcept _) fun k => ?_) (.pure _)
  exact .modify fun s => ⟨[k], push_extends bs s k⟩

/-! ## What `hydrate` queues -/

/-- What `hydrate` makes of the iterator's entries: the keys it queues, in
order, and how it ends.  A meta without predecessor queues its key; the key
of any other entry is never read. -/
def rootKeys : List (Except StorageError BlockHash × Except StorageError Meta) →
    List BlockHash × Except StorageError Unit
  | [] => ([], .ok ())
  | (_, .error e) :: _ => ([], .error e)
  | (key, .ok value) :: rest =>
    if value.predecessor.isNone then
      match key with
      | .error e => ([], .error e)
      | .ok k => (k :: (rootKeys rest).1, (rootKeys rest).2)
    else rootKeys rest

theorem hydrateEntry_eq (key : Except StorageError BlockHash) (value : Except StorageError Meta)
    (s : BlockState σ τ) :
    hydrateEntry (key, value) s =
      match value with
      | .error e => .error e s
      | .ok m =>
        if m.predecessor.isNone then
          match key with
          | .error e => .error e s
          | .ok k => .ok () (s.push k)
        else .ok () s := by
  cases value with
  | error e => rfl
  | ok m => rcases m with ⟨_ | p⟩ <;> cases key <;> rfl

/-- The loop of `hydrate`: it queues `rootKeys`, in order, and ends as
`rootKeys` says. -/
theorem forM_hydrateEntry
    (entries : List (Except StorageError BlockHash × Except StorageError Meta))
    (s : BlockState σ τ) :
    outcome (entries.forM hydrateEntry s) = (rootKeys entries).2 ∧
      resultState (entries.forM hydrateEntry s) = s.pushAll (rootKeys entries).1 := by
  induction entries generalizing s with
  | nil => exact ⟨rfl, (pushAll_nil s).symm⟩
  | cons entry rest ih =>
    obtain ⟨key, value⟩ := entry
    show outcome ((hydrateEntry (key, value) >>= fun _ => rest.forM hydrateEntry) s) = _ ∧
      resultState ((hydrateEntry (key, value) >>= fun _ => rest.forM hydrateEntry) s) = _
    rcases value with e | ⟨_ | p⟩
    · exact ⟨rfl, (pushAll_nil s).symm⟩
    · rcases key with e | k
      · exact ⟨rfl, (pushAll_nil s).symm⟩
      · simpa [rootKeys, hydrateEntry_eq, push_pushAll] using ih (s.push k)
    · simpa [rootKeys, hydrateEntry_eq] using ih s

/-- `hydrate` once the meta storage's iterator has been created. -/
theorem hydrate_of_iter {s : BlockState σ τ} {entries}
    (h : ms.iter s.blockMetaStorage = .ok entries) :
    hydrate ms s = entries.forM hydrateEntry s := by
  show (liftExcept (ms.iter s.blockMetaStorage) >>= fun entries => entries.forM hydrateEntry :
    EStateM StorageError (BlockState σ τ) Unit) s = _
  rw [h]; rfl

/-- The roots among entries that all read without error. -/
theorem rootKeys_ok (entries : List (BlockHash × Meta)) :
    rootKeys (entries.map fun e => (.ok e.1, .ok e.2)) =
      (entries.filterMap fun e => if e.2.predecessor.isNone then some e.1 else none, .ok ()) := by
  induction entries with
  | nil => rfl
  | cons e rest ih => obtain ⟨k, ⟨_ | p⟩⟩ := e <;> simp [rootKeys, ih]

/-- Over a meta storage whose iteration reads without error, `hydrate`
returns `Ok` and queues, in iteration order, exactly the blocks that have no
predecessor. -/
theorem hydrate_queues_roots {s : BlockState σ τ} {entries : List (BlockHash × Meta)}
    (h : ms.iter s.blockMetaStorage = .ok (entries.map fun e => (.ok e.1, .ok e.2))) :
    hydrate ms s = .ok () (s.pushAll
      (entries.filterMap fun e => if e.2.predecessor.isNone then some e.1 else none)) := by
  have hl := forM_hydrateEntry (entries.map fun e => (.ok e.1, .ok e.2)) s
  rw [rootKeys_ok] at hl
  rw [hydrate_of_iter ms h, outcome_eq_ok hl.1, hl.2]

/-- A meta storage holding a genesis block and its child: `hydrate` queues
the genesis only. -/
theorem hydrate_queues_genesis :
    hydrate (σ := Unit)
        (⟨fun _ => pure (), fun t => .ok (t.map fun e => (.ok e.1, .ok e.2))⟩ :
          BlockMetaStorage (List (BlockHash × Meta)))
        (new () [(⟨[0]⟩, ⟨none⟩), (⟨[1]⟩, ⟨some ⟨[0]⟩⟩)] ⟨[]⟩) =
      .ok () ((new () [(⟨[0]⟩, ⟨none⟩), (⟨[1]⟩, ⟨some ⟨[0]⟩⟩)] ⟨[]⟩).pushAll [⟨[0]⟩]) :=
  @hydrate_queues_roots Unit _ _ _ [(⟨[0]⟩, ⟨none⟩), (⟨[1]⟩, ⟨some ⟨[0]⟩⟩)] rfl

/-! ## What `process_block_header` accepts -/

/-- A header `process_block_header` accepts leaves its predecessor in block
storage or pushed. -/
theorem processBlockHeader_ok {hdr : BlockHeaderWithHash} {s s' : BlockState σ τ}
    (h : processBlockHeader bs ms hdr s = .ok () s') :
    bs.stored s'.blockStorage hdr.header.predecessor = true ∨
      hdr.header.predecessor ∈ s'.pushed := by
  obtain ⟨_, s₁, h₁, h₂⟩ := bind_eq_ok h
  obtain ⟨l, hl⟩ : Grows bs s₁ s' := by
    have := Moves.grows bs (Moves.bind (moves_putBlockHeader bs hdr) fun _ =>
      moves_onBlockMetaStorage bs (ms.putBlockHeader hdr)) s₁
    rwa [h₂] at this
  rw [pushMissingBlock_eq] at h₁
  split at h₁
  next b hc =>
    simp only [EStateM.Result.ok.injEq, true_and] at h₁
    subst h₁
    cases b with
    | true => exact .inl (hl.stored _ (by simpa using (bs.contains_ok hc).symm))
    | false => exact .inr (by simp [hl.pushed, push])
  next => exact nomatch h₁

theorem resultState_bind_ok {ε σ α β : Type} {m : EStateM ε σ α} {f : α → EStateM ε σ β}
    {s s' : σ} {a : α} (h : m s = .ok a s') : resultState ((m >>= f) s) = resultState (f a s') := by
  show resultState (match m s with | .ok a s' => f a s' | .error e s' => .error e s') = _
  rw [h]

theorem resultState_bind_error {ε σ α β : Type} {m : EStateM ε σ α} {f : α → EStateM ε σ β}
    {s s' : σ} {e : ε} (h : m s = .error e s') : resultState ((m >>= f) s) = s' := by
  show resultState (match m s with | .ok a s' => f a s' | .error e s' => .error e s') = _
  rw [h]; rfl

/-- The two writes of `process_block_header` leave the queue alone, whether
they return or throw. -/
theorem missingBlocks_putBlockHeaders (hdr : BlockHeaderWithHash) (t : BlockState σ τ) :
    (resultState ((onBlockStorage (bs.putBlockHeader hdr) >>= fun _ =>
        onBlockMetaStorage (ms.putBlockHeader hdr) :
          EStateM StorageError (BlockState σ τ) Unit) t)).missingBlocks = t.missingBlocks := by
  have h₁ := resultState_onBlockStorage (τ := τ) (bs.putBlockHeader hdr) t
  cases h : onBlockStorage (bs.putBlockHeader hdr) t with
  | ok _ t' =>
    rw [h] at h₁; cases h₁
    rw [resultState_bind_ok h, resultState_onBlockMetaStorage]
  | error _ t' =>
    rw [h] at h₁; cases h₁
    rw [resultState_bind_error h]

/-- What `process_block_header` does to the queue, whether it returns or
throws: it appends the predecessor exactly when block storage's `contains`
answered `false`.  The two `put_block_header`s that follow never undo it, so
a call that returns an error may still have queued the predecessor. -/
theorem processBlockHeader_missingBlocks (hdr : BlockHeaderWithHash) (s : BlockState σ τ) :
    (resultState (processBlockHeader bs ms hdr s)).missingBlocks =
      s.missingBlocks ++ match bs.contains s.blockStorage hdr.header.predecessor with
        | .ok false => [hdr.header.predecessor]
        | _ => [] := by
  have h := pushMissingBlock_eq bs hdr.header.predecessor s
  unfold processBlockHeader
  cases hc : bs.contains s.blockStorage hdr.header.predecessor with
  | error e =>
    rw [hc] at h
    rw [resultState_bind_error h]
    exact (List.append_nil _).symm
  | ok b =>
    rw [hc] at h
    rw [resultState_bind_ok h, missingBlocks_putBlockHeaders]
    cases b
    · rfl
    · exact (List.append_nil _).symm

/-- `drain_missing_blocks(n)` never panics and hands out the first `n` hashes
(all of them when fewer are queued). -/
theorem drainMissingBlocks_eq (n : Nat) (s : BlockState σ τ) :
    drainMissingBlocks n s =
      some (s.missingBlocks.take n, { s with missingBlocks := s.missingBlocks.drop n }) := by
  have hle : min s.missingBlocks.length n ≤ s.missingBlocks.length := Nat.min_le_left _ _
  have hn : s.missingBlocks.take (min s.missingBlocks.length n) = s.missingBlocks.take n ∧
      s.missingBlocks.drop (min s.missingBlocks.length n) = s.missingBlocks.drop n := by
    rcases Nat.le_total n s.missingBlocks.length with h | h
    · rw [Nat.min_eq_right h]; exact ⟨rfl, rfl⟩
    · rw [Nat.min_eq_left h, List.take_of_length_le h, List.drop_of_length_le h]; simp
  simp [drainMissingBlocks, vecDrain, hle, hn.1, hn.2]

end BlockState

end Tezedge
