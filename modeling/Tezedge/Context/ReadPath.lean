/-
# `Tezedge.Context.ReadPath` — a read from the reader's call to the writer's index

`Tezedge.Context.Protocol` shows that a call may return the answer to another
call's request.  This module follows a read the whole way, over every
interleaving of readers, workers and the writer: the request a call sends,
the worker that answers it against the writer's index, and what the client
makes of the answer.

## What is proved

* `requests_served_in_order`: on every connection, the ids of the requests the
  worker answered, followed by those still in flight to it, strictly increase:
  the worker answers requests in the order they were sent, and none twice.
* `read_in_sync_answers_index`: over any run from a fresh system, on a
  connection where no call has given up, every call either failed in the IPC
  layer or returned exactly its client's reading of the worker's answer to
  its own request, against one of the indices the writer had in that run:
  `get_entry(h)` returns `find_entry_bytes(h)`, an engine error becoming
  `ContextError::GetEntryError` with the worker's `Context error: ` text, and
  `contains_entry(h)` likewise with `contains(h)` (`reply_respond`).
* `in_sync_errors_ipc_or_context`: so, in sync, a call fails only with
  `IpcError` or `ContextError`; `UnexpectedMessage` needs a call that gave up.
* `waiting_call_returns`: no call waits in vain on a live worker — at most
  the worker's serve and the client's receive return it without a timeout.

## What it is NOT

It does not say which of the writer's indices answered: the worker reads the
index as it is when it serves the request, and the writer may commit between a
call's send and its answer.  Off sync, `stale_answer_returned` is what happens.
-/
import Tezedge.Context.Protocol

namespace Tezedge

/-! ## What an enabled step finds -/

/-- An enabled receive finds a waiting call and a response in flight. -/
theorem Net.Enabled.receive_inv {n : Net} {c : Nat} (he : n.Enabled (.receive c)) :
    ∃ id call a m rest, (n.conns c).client = .waiting id call ∧
      (n.conns c).toClient = (a, m) :: rest := by
  rcases hc : (n.conns c).client with _ | ⟨id, call⟩
  · exact absurd hc he.1
  obtain ⟨⟨a, m⟩, rest, ht⟩ := List.exists_cons_of_ne_nil he.2
  exact ⟨id, call, a, m, rest, rfl, ht⟩

/-- An enabled time-out finds a waiting call. -/
theorem Net.Enabled.timeout_inv {n : Net} {c : Nat} {e : IpcError}
    (he : n.Enabled (.timeout c e)) : ∃ id call, (n.conns c).client = .waiting id call := by
  rcases hc : (n.conns c).client with _ | ⟨id, call⟩
  · exact absurd hc he.1
  exact ⟨id, call, rfl⟩

/-- An enabled serve finds a request in flight. -/
theorem Net.Enabled.serve_inv {n : Net} {c : Nat} (he : n.Enabled (.serve c)) :
    ∃ id cmd rest, (n.conns c).toServer = (id, cmd) :: rest := by
  obtain ⟨⟨id, cmd⟩, rest, ht⟩ := List.exists_cons_of_ne_nil he.2
  exact ⟨id, cmd, rest, ht⟩

/-! ## Requests are answered in order, once -/

/-- The ids of the requests connection `c`'s worker answered, in order. -/
def Net.served (n : Net) (c : Nat) : List Nat :=
  (n.answers.filter (·.1 = c)).map (·.2.1)

/-- The ids of connection `c`'s requests: answered, then in flight. -/
def Net.requestIds (n : Net) (c : Nat) : List Nat :=
  n.served c ++ (n.conns c).toServer.map Prod.fst

/-- Every connection's request ids strictly increase and are below `nextId`. -/
structure OrderInv (n : Net) : Prop where
  sorted : ∀ c, (n.requestIds c).Pairwise (· < ·)
  fresh : ∀ c, ∀ id ∈ n.requestIds c, id < n.nextId

theorem orderInv_init (index : ContextIndex) : OrderInv (Net.init index) :=
  ⟨fun _ => .nil, fun _ _ h => nomatch h⟩

/-- A step that only drops requests in flight keeps the order. -/
theorem OrderInv.of_sublist {n n' : Net} (h : OrderInv n)
    (hr : ∀ c, (n'.requestIds c).Sublist (n.requestIds c)) (hn : n.nextId ≤ n'.nextId) : OrderInv n' :=
  ⟨fun c => (h.sorted c).sublist (hr c), fun c id hid => by
    have := h.fresh c id ((hr c).subset hid); omega⟩

theorem toServer_update {conns : Nat → Conn} {c₀ : Nat} {k : Conn}
    (hk : k.toServer.Sublist (conns c₀).toServer) (c : Nat) :
    (Function.update conns c₀ k c).toServer.Sublist (conns c).toServer :=
  conns_update_of (P := fun c k => k.toServer.Sublist (conns c).toServer) (fun _ _ => .refl _) hk c

theorem requestIds_sublist {n n' : Net} (ha : n'.answers = n.answers)
    (ht : ∀ c, (n'.conns c).toServer.Sublist (n.conns c).toServer) (c : Nat) :
    (n'.requestIds c).Sublist (n.requestIds c) := by
  simp only [Net.requestIds, Net.served, ha]
  exact ((ht c).map _).append_left _

/-- A call appends the newest id to its connection's requests. -/
theorem requestIds_call {n : Net} {c₀ : Nat} {call : ClientCall} (c : Nat) :
    (n.next (.call c₀ call)).requestIds c =
      if c = c₀ then n.requestIds c ++ [n.nextId] else n.requestIds c := by
  by_cases h : c = c₀
  · subst h; simp [Net.requestIds, Net.served, Net.next, Net.setConn]
  · simp [Net.requestIds, Net.served, Net.next, Net.setConn, h]

/-- Serving moves the oldest request from the queue to the log. -/
theorem requestIds_serve {n : Net} {c₀ id : Nat} {cmd : ContextRequest}
    {rest : List (Nat × ContextRequest)} (ht : (n.conns c₀).toServer = (id, cmd) :: rest)
    (c : Nat) : (n.next (.serve c₀)).requestIds c = n.requestIds c := by
  rw [Net.next_serve ht]
  by_cases h : c = c₀
  · subst h; simp [Net.requestIds, Net.served, Net.setConn, ht]
  · simp [Net.requestIds, Net.served, Net.setConn, h, Ne.symm h]

/-- Each step keeps every connection's request ids in order and fresh. -/
theorem orderInv_next {n : Net} {e : Event} (h : OrderInv n) (he : n.Enabled e) :
    OrderInv (n.next e) := by
  cases e with
  | callFails | proxyWrite | commit =>
    exact h.of_sublist (fun _ => List.Sublist.refl _) (by simp [Net.next])
  | receive c₀ =>
    obtain ⟨id, call, id', m, rest, hc, ht⟩ := he.receive_inv
    rw [Net.next_receive hc ht]
    exact h.of_sublist (requestIds_sublist rfl (toServer_update (by exact .refl _))) le_rfl
  | timeout c₀ =>
    obtain ⟨id, call, hc⟩ := he.timeout_inv
    rw [Net.next_timeout hc]
    exact h.of_sublist (requestIds_sublist rfl (toServer_update (by exact .refl _))) le_rfl
  | receiveFails c₀ =>
    rw [Net.next_receiveFails]
    exact h.of_sublist (requestIds_sublist rfl (toServer_update (by exact .refl _))) le_rfl
  | serveFails c₀ =>
    rw [Net.next_serveFails he.2]
    exact h.of_sublist
      (requestIds_sublist rfl (toServer_update (by exact List.tail_sublist _))) le_rfl
  | serve c₀ =>
    obtain ⟨id, cmd, rest, ht⟩ := he.serve_inv
    exact h.of_sublist (fun c => (requestIds_serve ht c).symm ▸ List.Sublist.refl _)
      (by rw [Net.next_serve ht]; exact le_rfl)
  | call c₀ call =>
    refine ⟨fun c => ?_, fun c id hid => ?_⟩
    · rw [requestIds_call]
      split
      · exact List.pairwise_append.2 ⟨h.sorted c, List.pairwise_singleton _ _,
          fun a ha b hb => List.mem_singleton.1 hb ▸ h.fresh c a ha⟩
      · exact h.sorted c
    · rw [requestIds_call] at hid
      show id < n.nextId + 1
      split at hid
      · rcases List.mem_append.1 hid with hid | hid
        · exact Nat.lt_succ_of_lt (h.fresh c id hid)
        · exact List.mem_singleton.1 hid ▸ Nat.lt_succ_self _
      · exact Nat.lt_succ_of_lt (h.fresh c id hid)

theorem Net.Reachable.orderInv {n : Net} (h : n.Reachable) : OrderInv n := by
  induction h with
  | init index => exact orderInv_init index
  | step _ he ih => exact orderInv_next ih he

/-- On every connection of every reachable system, the ids of the requests the
worker answered, then of those still in flight to it, strictly increase: the
worker answers requests in the order they were sent and none twice. -/
theorem requests_served_in_order {n : Net} (h : n.Reachable) (c : Nat) :
    (n.served c ++ (n.conns c).toServer.map Prod.fst).Pairwise (· < ·) :=
  h.orderInv.sorted c

/-- Two calls on connection 0, the first answered, the second in flight. -/
theorem requests_served_in_order_two_calls :
    ∃ n, (Net.init oneEntryIndex).run
        [.call 0 (.getEntry ⟨[1]⟩), .timeout 0 ⟨"timeout"⟩, .serve 0,
          .call 0 (.containsEntry ⟨[1]⟩)] = some n ∧
      n.Reachable ∧ (n.served 0 ++ (n.conns 0).toServer.map Prod.fst).Pairwise (· < ·) :=
  Net.exists_run_reachable rfl fun h => requests_served_in_order h 0

/-! ## The client's reading of the worker's answer -/

/-- The index a step installs: `commit`'s. -/
def Event.committed : Event → Option ContextIndex
  | .commit index => some index
  | _ => none

theorem Event.eq_commit {e : Event} {index : ContextIndex} (h : e.committed = some index) :
    e = .commit index := by
  cases e <;> cases h; rfl

/-- What a call makes of the worker's answer to its own request: the lookup's
result, its error wrapped as the call's `ContextError` with the worker's text. -/
theorem reply_respond (call : ClientCall) (index : ContextIndex) :
    call.reply (respond index call.request) =
      match call with
      | .getEntry hash => .getEntry ((index.findEntryBytes hash).mapError
          fun err => .contextError (.getEntryError (contextErrorText err)))
      | .containsEntry hash => .containsEntry ((index.contains hash).mapError
          fun err => .contextError (.containsEntryError (contextErrorText err))) := by
  cases call with
  | getEntry hash =>
    simp only [ClientCall.reply, ClientCall.request, respond, getEntryReply, receiveReply]
    cases index.findEntryBytes hash <;> rfl
  | containsEntry hash =>
    simp only [ClientCall.reply, ClientCall.request, respond, containsEntryReply, receiveReply]
    cases index.contains hash <;> rfl

/-! ## Every message of a waiting call is its own -/

/-- On a connection whose client waits for the call `id`: a request in flight
with that id is the call's own, and a response in flight with that id is the
answer of an index of `hist` to it. -/
def ConnRead (hist : List ContextIndex) (k : Conn) : Prop :=
  ∀ id call, k.client = .waiting id call →
    (∀ m ∈ k.toServer, m.1 = id → m.2 = call.request) ∧
    (∀ m ∈ k.toClient, m.1 = id → ∃ index ∈ hist, m.2 = respond index call.request)

/-- What holds of a reachable system whose writer has had the indices `hist`. -/
structure ReadInv (hist : List ContextIndex) (n : Net) : Prop where
  index : n.index ∈ hist
  conn : ∀ c, ConnRead hist (n.conns c)
  returned : ∀ ret ∈ n.returns, NoGiveUp n.returns ret.conn →
    (∃ e, ret.result = ret.call.failed e) ∨
      ∃ index ∈ hist, ret.result = ret.call.reply (respond index ret.call.request)

theorem readInv_init (index : ContextIndex) : ReadInv [index] (Net.init index) :=
  ⟨List.mem_singleton_self _, fun _ _ _ h => (nomatch h), fun _ h => (nomatch h)⟩

theorem ConnRead.mono {hist hist' : List ContextIndex} (hh : hist ⊆ hist') {k : Conn}
    (h : ConnRead hist k) : ConnRead hist' k := fun id call hw =>
  ⟨(h id call hw).1, fun m hm hid =>
    let ⟨index, hi, e⟩ := (h id call hw).2 m hm hid
    ⟨index, hh hi, e⟩⟩

theorem connRead_idle {hist : List ContextIndex} {k : Conn} (h : k.client = .idle) :
    ConnRead hist k :=
  fun _ _ hw => nomatch h.symm.trans hw

/-- Same client, fewer messages in flight. -/
theorem ConnRead.of_subset {hist : List ContextIndex} {k k' : Conn} (h : ConnRead hist k)
    (hc : k'.client = k.client) (hs : k'.toServer ⊆ k.toServer)
    (ht : k'.toClient ⊆ k.toClient) : ConnRead hist k' := fun id call hw =>
  have h' := h id call (hc ▸ hw)
  ⟨fun m hm => h'.1 m (hs hm), fun m hm => h'.2 m (ht hm)⟩

/-- A step that replaces connection `c₀` by one with a property keeps it of
every connection. -/
theorem Net.forall_conns_update {P : Conn → Prop} {n n' : Net} {c₀ : Nat} {k' : Conn}
    (h : ∀ c, P (n.conns c)) (hconns : n'.conns = Function.update n.conns c₀ k') (hk : P k')
    (c : Nat) : P (n'.conns c) :=
  hconns ▸ conns_update_of (P := fun _ k => P k) (fun c _ => h c) hk c

/-- A step keeps the invariant when it keeps the index and every connection
reading right, and each return it adds is an IPC failure or, in sync, the
reading of an answer to its own request. -/
theorem readInv_of {n n' : Net} {hist : List ContextIndex} (new : List Return)
    (hr : ReadInv hist n) (hidx : n'.index = n.index) (hret : n'.returns = n.returns ++ new)
    (hc : ∀ c, ConnRead hist (n'.conns c))
    (hnew : ∀ ret ∈ new, NoGiveUp n'.returns ret.conn →
      (∃ e, ret.result = ret.call.failed e) ∨
        ∃ index ∈ hist, ret.result = ret.call.reply (respond index ret.call.request)) :
    ReadInv hist n' := by
  refine ⟨hidx ▸ hr.index, hc, fun ret h hs => ?_⟩
  rcases List.mem_append.1 (hret ▸ h) with h | h
  · exact hr.returned ret h (noGiveUp_of hret _ hs)
  · exact hnew ret h hs

/-- A step that only moves messages keeps the invariant when every connection
still reads right. -/
theorem readInv_of_conns {n n' : Net} {hist : List ContextIndex} (hr : ReadInv hist n)
    (hidx : n'.index = n.index) (hret : n'.returns = n.returns)
    (hc : ∀ c, ConnRead hist (n'.conns c)) : ReadInv hist n' :=
  ⟨hidx ▸ hr.index, hc, hret ▸ hr.returned⟩

/-- In sync, the oldest response in flight answers the waiting call. -/
theorem InSync.head_id {k : Conn} {id id' : Nat} {call : ClientCall} {m : ContextResponse}
    {rest : List (Nat × ContextResponse)} (hc : k.client = .waiting id call)
    (ht : k.toClient = (id', m) :: rest) (h : k.InSync) : id' = id := by
  simp only [Conn.InSync, hc, Conn.pending, ht, List.map_cons, List.cons_append,
    List.sublist_singleton] at h
  rcases h with h | h
  · exact nomatch h
  · exact (List.cons.inj h).1

/-- Every step but a commit keeps the invariant over the same indices. -/
theorem readInv_next {hist : List ContextIndex} {n : Net} {e : Event} (hi : Inv n)
    (hr : ReadInv hist n) (he : n.Enabled e) (hcommit : e.committed = none) :
    ReadInv hist (n.next e) := by
  cases e with
  | call c call =>
    have hk := hi.conn c
    refine readInv_of_conns hr rfl rfl (Net.forall_conns_update hr.conn rfl fun id call' hw => ?_)
    obtain ⟨rfl, rfl⟩ := ClientPhase.waiting.inj hw
    refine ⟨fun m hm hid => ?_, fun m hm hid => ?_⟩
    · rcases List.mem_append.1 hm with hm | hm
      · have := hk.fresh m.1 (List.mem_append_right _ (List.mem_map_of_mem _ hm)); omega
      · rw [List.mem_singleton.1 hm]
    · have := hk.fresh m.1 (List.mem_append_left _ (List.mem_map_of_mem _ hm)); omega
  | callFails c call e =>
    exact readInv_of _ hr rfl rfl hr.conn fun ret h _ => by cases List.mem_singleton.1 h; exact .inl ⟨e, rfl⟩
  | receive c =>
    obtain ⟨id, call, id', m, rest, hc, ht⟩ := he.receive_inv
    rw [Net.next_receive hc ht]
    refine readInv_of _ hr rfl rfl (Net.forall_conns_update hr.conn rfl (connRead_idle rfl))
      fun ret h hs => ?_
    cases List.mem_singleton.1 h
    have hid := InSync.head_id hc ht ((hi.conn c).sync (noGiveUp_of rfl c hs))
    obtain ⟨index, hindex, hm⟩ := (hr.conn c id call hc).2 (id', m) (by simp [ht]) hid
    exact .inr ⟨index, hindex, congrArg call.reply hm⟩
  | timeout c e =>
    obtain ⟨id, call, hc⟩ := he.timeout_inv
    rw [Net.next_timeout hc]
    exact readInv_of _ hr rfl rfl (Net.forall_conns_update hr.conn rfl (connRead_idle rfl))
      fun ret h _ => by cases List.mem_singleton.1 h; exact .inl ⟨e, rfl⟩
  | serve c =>
    obtain ⟨id, cmd, rest, ht⟩ := he.serve_inv
    rw [Net.next_serve ht]
    refine readInv_of_conns hr rfl rfl (Net.forall_conns_update hr.conn rfl fun id₀ call hw => ?_)
    have h₀ := hr.conn c id₀ call hw
    refine ⟨fun m hm => h₀.1 m (by simp [ht, hm]), fun m hm hid => ?_⟩
    rcases List.mem_append.1 hm with hm | hm
    · exact h₀.2 m hm hid
    · rw [List.mem_singleton.1 hm] at hid ⊢
      exact ⟨n.index, hr.index, congrArg (respond n.index) (h₀.1 (id, cmd) (by simp [ht]) hid)⟩
  | serveFails c =>
    rw [Net.next_serveFails he.2]
    exact readInv_of_conns hr rfl rfl (Net.forall_conns_update hr.conn rfl
      ((hr.conn c).of_subset rfl (List.tail_subset _) (List.Subset.refl _)))
  | receiveFails c =>
    rw [Net.next_receiveFails]
    exact readInv_of_conns hr rfl rfl (Net.forall_conns_update hr.conn rfl (hr.conn c))
  | proxyWrite => exact hr
  | commit => exact nomatch hcommit

/-- A commit adds the writer's new index to the history. -/
theorem readInv_commit {hist : List ContextIndex} {n : Net} (hr : ReadInv hist n)
    (index : ContextIndex) : ReadInv (hist ++ [index]) (n.next (.commit index)) :=
  ⟨List.mem_append_right _ (List.mem_singleton_self _),
    fun c => (hr.conn c).mono (List.subset_append_left _ _),
    fun ret h hs => (hr.returned ret h hs).imp_right
      fun ⟨i, hi, e⟩ => ⟨i, List.mem_append_left _ hi, e⟩⟩

/-- The run lemma: the history grows by the run's commits. -/
theorem ReadInv.run {hist : List ContextIndex} {n n' : Net} {es : List Event}
    (hn : n.Reachable) (hr : ReadInv hist n) (h : n.run es = some n') :
    ReadInv (hist ++ es.filterMap Event.committed) n' := by
  induction es generalizing hist n with
  | nil => cases h; simpa using hr
  | cons e es ih =>
    simp only [Net.run] at h
    split at h
    · next he =>
      cases hc : e.committed with
      | none =>
        simpa [List.filterMap_cons, hc] using ih (hn.step he) (readInv_next hn.inv hr he hc) h
      | some index =>
        cases Event.eq_commit hc
        simpa [List.filterMap_cons, hc] using ih (hn.step he) (readInv_commit hr index) h
    · cases h

/-- Over any run from a fresh system, on a connection where no call has given
up, every call either failed in the IPC layer or returned exactly its
client's reading of the answer to its own request from one of the indices the
writer had during the run (`reply_respond` spells the reading out). -/
theorem read_in_sync_answers_index {index : ContextIndex} {es : List Event} {n : Net}
    (h : (Net.init index).run es = some n) :
    ∀ ret ∈ n.returns, NoGiveUp n.returns ret.conn →
      (∃ e, ret.result = ret.call.failed e) ∨
        ∃ idx ∈ index :: es.filterMap Event.committed,
          ret.result = match ret.call with
            | .getEntry hash => .getEntry ((idx.findEntryBytes hash).mapError
                fun err => .contextError (.getEntryError (contextErrorText err)))
            | .containsEntry hash => .containsEntry ((idx.contains hash).mapError
                fun err => .contextError (.containsEntryError (contextErrorText err))) :=
  fun ret hret hs =>
    ((ReadInv.run (.init index) (readInv_init index) h).returned ret hret hs).imp_right
      fun ⟨idx, hidx, hr⟩ => ⟨idx, hidx, hr.trans (reply_respond _ _)⟩

/-- An index with no entry. -/
def emptyIndex : ContextIndex := ⟨fun _ => .ok none, fun _ => .ok false⟩

/-- A lookup, a commit that empties the index, and the same lookup again: the
first call reads the old index, the second the new one. -/
theorem read_in_sync_two_indices :
    ∃ n, (Net.init oneEntryIndex).run
        [.call 0 (.getEntry ⟨[1]⟩), .serve 0, .receive 0, .commit emptyIndex,
          .call 0 (.getEntry ⟨[1]⟩), .serve 0, .receive 0] = some n ∧
      NoGiveUp n.returns 0 ∧
      ∀ ret ∈ n.returns, NoGiveUp n.returns ret.conn →
        (∃ e, ret.result = ret.call.failed e) ∨
          ∃ idx ∈ [oneEntryIndex, emptyIndex],
            ret.result = match ret.call with
              | .getEntry hash => .getEntry ((idx.findEntryBytes hash).mapError
                  fun err => .contextError (.getEntryError (contextErrorText err)))
              | .containsEntry hash => .containsEntry ((idx.contains hash).mapError
                  fun err => .contextError (.containsEntryError (contextErrorText err))) :=
  ⟨_, rfl, by decide, @read_in_sync_answers_index oneEntryIndex
    [.call 0 (.getEntry ⟨[1]⟩), .serve 0, .receive 0, .commit emptyIndex,
      .call 0 (.getEntry ⟨[1]⟩), .serve 0, .receive 0] _ rfl⟩

/-! ## In sync, no mismatched answer -/

/-- The error a call returned; `none` for `Ok`. -/
def CallResult.error : CallResult → Option ContextServiceError
  | .getEntry (.error e) | .containsEntry (.error e) => some e
  | _ => none

theorem error_failed (call : ClientCall) (e : IpcError) :
    (call.failed e).error = some (.ipcError e) := by
  cases call <;> rfl

/-- The reading of an index's answer to the call's own request fails only with
a context error. -/
theorem error_reply_respond {call : ClientCall} {index : ContextIndex} {e : ContextServiceError}
    (h : (call.reply (respond index call.request)).error = some e) : ∃ r, e = .contextError r := by
  rw [reply_respond] at h
  cases call with
  | getEntry hash =>
    dsimp only at h
    cases hr : index.findEntryBytes hash <;> rw [hr] at h <;> cases h; exact ⟨_, rfl⟩
  | containsEntry hash =>
    dsimp only at h
    cases hr : index.contains hash <;> rw [hr] at h <;> cases h; exact ⟨_, rfl⟩

/-- Over any run from a fresh system, on a connection where no call has given
up, a call fails only in the IPC layer or with the index's error: never with
`UnexpectedMessage` (nor `LockPoisonError`), which only an answer meant for an
earlier call can cause. -/
theorem in_sync_errors_ipc_or_context {index : ContextIndex} {es : List Event} {n : Net}
    (h : (Net.init index).run es = some n) :
    ∀ ret ∈ n.returns, NoGiveUp n.returns ret.conn → ∀ e, ret.result.error = some e →
      (∃ r, e = .ipcError r) ∨ ∃ r, e = .contextError r := by
  intro ret hret hs e he
  rcases (ReadInv.run (.init index) (readInv_init index) h).returned ret hret hs with
    ⟨ie, hf⟩ | ⟨idx, -, hr⟩
  · rw [hf, error_failed] at he
    exact .inl ⟨ie, (Option.some.inj he).symm⟩
  · rw [hr] at he
    exact .inr (error_reply_respond he)

/-- An index whose lookups fail. -/
def failingIndex : ContextIndex := ⟨fun _ => .error "corrupt", fun _ => .error "corrupt"⟩

/-- Two lookups on a failing index: both fail with the index's error. -/
theorem in_sync_errors_failing_index :
    ∃ n, (Net.init failingIndex).run
        [.call 0 (.getEntry ⟨[1]⟩), .serve 0, .receive 0,
          .call 0 (.containsEntry ⟨[1]⟩), .serve 0, .receive 0] = some n ∧
      NoGiveUp n.returns 0 ∧
      ∀ ret ∈ n.returns, NoGiveUp n.returns ret.conn → ∀ e, ret.result.error = some e →
        (∃ r, e = .ipcError r) ∨ ∃ r, e = .contextError r :=
  ⟨_, rfl, by decide, @in_sync_errors_ipc_or_context failingIndex
    [.call 0 (.getEntry ⟨[1]⟩), .serve 0, .receive 0,
      .call 0 (.containsEntry ⟨[1]⟩), .serve 0, .receive 0] _ rfl⟩

/-- Once a call has given up, the next call of the other kind can receive its
answer and fail with `UnexpectedMessage`. -/
example :
    ∃ n, (Net.init oneEntryIndex).run
        [.call 0 (.getEntry ⟨[1]⟩), .timeout 0 ⟨"timeout"⟩, .serve 0,
          .call 0 (.containsEntry ⟨[1]⟩), .receive 0] = some n ∧
      ∃ ret ∈ n.returns, ret.result.error = some (.unexpectedMessage "GetEntryResponse") :=
  ⟨_, rfl, by decide⟩

/-! ## A waiting call is never stuck -/

/-- While the worker is live, the waiting call's request, or an answer with its
id, is in flight. -/
def Conn.Awaited (k : Conn) : Prop :=
  ∀ id call, k.client = .waiting id call → k.serving = true → id ∈ k.pending

theorem awaited_next {n : Net} {e : Event} (ha : ∀ c, (n.conns c).Awaited) (he : n.Enabled e) :
    ∀ c, ((n.next e).conns c).Awaited := by
  cases e with
  | call c call =>
    refine Net.forall_conns_update ha rfl fun id call' hw _ => ?_
    obtain ⟨rfl, -⟩ := ClientPhase.waiting.inj hw
    exact List.mem_append_right _
      (List.mem_map_of_mem _ (List.mem_append_right _ (List.mem_singleton_self _)))
  | receive c =>
    obtain ⟨id, call, id', m, rest, hc, ht⟩ := he.receive_inv
    rw [Net.next_receive hc ht]
    exact Net.forall_conns_update ha rfl fun _ _ h => nomatch h
  | timeout c e =>
    obtain ⟨id, call, hc⟩ := he.timeout_inv
    rw [Net.next_timeout hc]
    exact Net.forall_conns_update ha rfl fun _ _ h => nomatch h
  | serve c =>
    obtain ⟨id, cmd, rest, ht⟩ := he.serve_inv
    rw [Net.next_serve ht]
    refine Net.forall_conns_update ha rfl fun id₀ call hw _ => ?_
    have h := ha c id₀ call hw he.1
    simp only [Conn.pending, ht, List.map_cons, List.map_append, List.mem_append,
      List.mem_cons, List.map_nil, List.mem_singleton] at h ⊢
    tauto
  | serveFails c =>
    rw [Net.next_serveFails he.2]
    exact Net.forall_conns_update ha rfl fun _ _ _ h => nomatch h
  | receiveFails c =>
    rw [Net.next_receiveFails]
    exact Net.forall_conns_update ha rfl fun _ _ _ h => nomatch h
  | callFails | proxyWrite | commit => exact ha

theorem Net.Reachable.awaited {n : Net} (h : n.Reachable) : ∀ c, (n.conns c).Awaited := by
  induction h with
  | init => exact fun _ _ _ h => nomatch h
  | step _ he ih => exact awaited_next ih he

theorem Net.run_cons {n : Net} {e : Event} (es : List Event) (he : n.Enabled e) :
    n.run (e :: es) = (n.next e).run es := if_pos he

/-- A receive returns the waiting call, without a timeout. -/
theorem receive_returns {n : Net} {c id : Nat} {call : ClientCall}
    (hw : (n.conns c).client = .waiting id call) (ht : (n.conns c).toClient ≠ []) :
    ∃ n', n.run [.receive c] = some n' ∧ ∃ r, ⟨c, id, call, r, false⟩ ∈ n'.returns := by
  obtain ⟨⟨id', m⟩, rest, hm⟩ := List.exists_cons_of_ne_nil ht
  have he : n.Enabled (.receive c) := ⟨by simp [hw], ht⟩
  refine ⟨_, Net.run_cons [] he, call.reply m, ?_⟩
  rw [Net.next_receive hw hm]
  exact List.mem_append_right _ (List.mem_singleton_self _)

/-- No call waits in vain on a live worker: the worker answering its oldest
request and the client receiving return the call without a timeout, the
connection's serve and receive being the only steps taken. -/
theorem waiting_call_returns {n : Net} (hn : n.Reachable) {c id : Nat} {call : ClientCall}
    (hw : (n.conns c).client = .waiting id call) (hs : (n.conns c).serving = true) :
    ∃ es n', es.Sublist [.serve c, .receive c] ∧ n.run es = some n' ∧
      ∃ r, ⟨c, id, call, r, false⟩ ∈ n'.returns := by
  by_cases ht : (n.conns c).toClient = []
  · -- Nothing has arrived: the request is still with the worker.
    have hp := hn.awaited c id call hw hs
    rcases hq : (n.conns c).toServer with _ | ⟨⟨id₀, cmd⟩, rest⟩
    · simp [Conn.pending, ht, hq] at hp
    have hw' : ((n.next (.serve c)).conns c).client = .waiting id call := by
      rw [Net.next_serve hq]; simpa [Net.setConn] using hw
    have ht' : ((n.next (.serve c)).conns c).toClient ≠ [] := by
      rw [Net.next_serve hq]; simp [Net.setConn]
    obtain ⟨n', hrun, hret⟩ := receive_returns hw' ht'
    have he : n.Enabled (.serve c) := ⟨hs, by simp [hq]⟩
    exact ⟨_, n', .refl _, (Net.run_cons _ he).trans hrun, hret⟩
  · obtain ⟨n', hrun, hret⟩ := receive_returns hw ht
    exact ⟨_, n', .cons _ (.refl _), hrun, hret⟩

/-- A call sent after another gave up: the worker first answers the old
request, and the call returns that answer. -/
theorem waiting_call_returns_after_give_up :
    ∃ n, (Net.init oneEntryIndex).run
        [.call 0 (.getEntry ⟨[1]⟩), .timeout 0 ⟨"timeout"⟩, .call 0 (.getEntry ⟨[2]⟩)] = some n ∧
      n.Reachable ∧ (n.conns 0).client = .waiting 1 (.getEntry ⟨[2]⟩) ∧
      (n.conns 0).serving = true ∧
      ∃ es n', es.Sublist [.serve 0, .receive 0] ∧ n.run es = some n' ∧
        ∃ r, ⟨0, 1, .getEntry ⟨[2]⟩, r, false⟩ ∈ n'.returns :=
  Net.exists_run_reachable rfl fun h =>
    ⟨by rfl, by rfl, waiting_call_returns h (by rfl) (by rfl)⟩

end Tezedge
