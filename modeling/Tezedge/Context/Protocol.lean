/-
# `Tezedge.Context.Protocol` — readers and the writer's workers, interleaved

The IPC context protocol as a system: any number of connections, each a
reader's `IpcContextClient` and the writer's worker running
`process_context_requests`, with the messages in flight each way delivered
reliably and in order.  Every step of every party may interleave with every
other: a reader's call sends its request, later receives the oldest response
in flight or gives up when nothing has arrived; a worker goes once round the
loop of `process_context_requests` (`scriptRun` on that one pass), taking the
oldest request and answering it against the writer's index as it is at that
moment; the writer may change its index; a proxy write does nothing.

Each message carries, as a ghost, the id of the call that sent the request it
is or answers, and the workers' answers and the clients' receipts are logged
with it: that is what lets "the answer to this call's own request" be stated.
The client itself matches a response to its call only by variant.

## What is proved

* `stale_answer_returned`: a reader calls `get_entry(h₁)` and gives up before
  the answer arrives; its next call `get_entry(h₂)` on the same connection
  receives the answer to `h₁`'s request and returns it as `Ok`, while the
  worker answers `h₂`'s request with `Ok(None)`.
* `result_failed_or_read`: what does hold — every call either failed in the
  IPC layer or returned its reading of a response a worker sent on its own
  connection, for that call's request or an earlier one; so an `Ok` never
  comes from another connection or from a later request.
* `answer_own_request_in_sync`: and on a connection where no call has given
  up while its request was unanswered, every `Ok` is the answer to the
  call's own request.
-/
import Tezedge.Context.Ipc

namespace Tezedge

/-! ## Parties and messages -/

/-- A reader's call on its `IpcContextClient`. -/
inductive ClientCall
  | getEntry (hash : EntryHash)
  | containsEntry (hash : EntryHash)
  deriving DecidableEq, Repr

/-- What a call returned. -/
inductive CallResult
  | getEntry (r : Except ContextServiceError (Option ContextValue))
  | containsEntry (r : Except ContextServiceError Bool)
  deriving DecidableEq

namespace ClientCall

/-- The request the call sends. -/
def request : ClientCall → ContextRequest
  | getEntry hash => .getEntry hash
  | containsEntry hash => .containsEntry hash

/-- What the call returns for the message it received. -/
def reply : ClientCall → ContextResponse → CallResult
  | getEntry _, message => .getEntry (getEntryReply message)
  | containsEntry _, message => .containsEntry (containsEntryReply message)

/-- What the call returns when its `send` or its `try_receive` fails (`?`). -/
def failed : ClientCall → IpcError → CallResult
  | getEntry _, e => .getEntry (.error (.ipcError e))
  | containsEntry _, e => .containsEntry (.error (.ipcError e))

end ClientCall

/-- The call returned `Ok`. -/
def CallResult.isOk : CallResult → Bool
  | .getEntry r | .containsEntry r => r.isOk

/-- A reader's client: idle, or in `try_receive` for the call `id`. -/
inductive ClientPhase
  | idle
  | waiting (id : Nat) (call : ClientCall)
  deriving DecidableEq, Repr

/-- One connection: the reader's client, whether the writer's worker is still
in its loop, and the messages in flight, oldest first, each with the id of
the call it belongs to. -/
structure Conn where
  client : ClientPhase
  serving : Bool
  toServer : List (Nat × ContextRequest)
  toClient : List (Nat × ContextResponse)

/-- A fresh connection. -/
def Conn.init : Conn := ⟨.idle, true, [], []⟩

/-- A call that returned: its connection, its id, what it asked and what it
got. -/
structure Return where
  conn : Nat
  id : Nat
  call : ClientCall
  result : CallResult
  /-- Ghost: the call's `try_receive` gave up. -/
  gaveUp : Bool
  deriving DecidableEq

/-- A response a client received: its connection, the call that took it, and
the request it answers. -/
structure Receipt where
  conn : Nat
  id : Nat
  answered : Nat
  deriving DecidableEq, Repr

/-- The whole system. -/
structure Net where
  index : ContextIndex
  conns : Nat → Conn
  nextId : Nat
  /-- Ghost: `(connection, id, response)` for every request a worker answered. -/
  answers : List (Nat × Nat × ContextResponse)
  /-- Ghost: `(connection, id, response)` for every response a client received. -/
  received : List (Nat × Nat × ContextResponse)
  returns : List Return
  /-- Ghost: every response a client received, with the call that took it. -/
  receipts : List Receipt

/-- Before any call: every connection fresh. -/
def Net.init (index : ContextIndex) : Net := ⟨index, fun _ => Conn.init, 0, [], [], [], []⟩

/-! ## Steps -/

/-- A step of one party. -/
inductive Event
  /-- Reader `c` calls: the `send` of its request succeeds. -/
  | call (c : Nat) (call : ClientCall)
  /-- Reader `c` calls and the `send` fails. -/
  | callFails (c : Nat) (call : ClientCall) (e : IpcError)
  /-- Reader `c`'s `try_receive` returns the oldest response in flight. -/
  | receive (c : Nat)
  /-- Reader `c`'s `try_receive` gives up, nothing having arrived. -/
  | timeout (c : Nat) (e : IpcError)
  /-- Worker `c` receives the oldest request and sends its answer. -/
  | serve (c : Nat)
  /-- Worker `c` receives the oldest request and the send of its answer fails. -/
  | serveFails (c : Nat) (e : IpcError)
  /-- Worker `c`'s `receive` fails. -/
  | receiveFails (c : Nat) (e : IpcError)
  /-- Reader `c`'s proxy `put`, `delete`, `merge`, `write_batch` or `retain`. -/
  | proxyWrite (c : Nat)
  /-- The writer's index changes. -/
  | commit (index : ContextIndex)

namespace Net

/-- Replace connection `c`. -/
def setConn (n : Net) (c : Nat) (k : Conn) : Net := { n with conns := Function.update n.conns c k }

/-- When a step can happen. -/
def Enabled (n : Net) : Event → Prop
  | .call c _ | .callFails c _ _ => (n.conns c).client = .idle
  | .receive c => (n.conns c).client ≠ .idle ∧ (n.conns c).toClient ≠ []
  | .timeout c _ => (n.conns c).client ≠ .idle ∧ (n.conns c).toClient = []
  | .serve c | .serveFails c _ => (n.conns c).serving = true ∧ (n.conns c).toServer ≠ []
  | .receiveFails c _ => (n.conns c).serving = true
  | .proxyWrite _ | .commit _ => True

instance decEnabled (n : Net) : (e : Event) → Decidable (n.Enabled e)
  | .call c _ | .callFails c _ _ => inferInstanceAs (Decidable ((n.conns c).client = .idle))
  | .receive _ | .timeout _ _ | .serve _ | .serveFails _ _ => inferInstanceAs (Decidable (_ ∧ _))
  | .receiveFails c _ => inferInstanceAs (Decidable ((n.conns c).serving = true))
  | .proxyWrite _ | .commit _ => isTrue trivial

/-- Worker `c` once round the loop of `process_context_requests`, against the
index as it is now: `scriptRun` on the one pass `p`, with `rest` left in
flight.  What reaches the reader answers request `id`. -/
def turn (n : Net) (c id : Nat) (p : Pass) (rest : List (Nat × ContextRequest)) : Net :=
  let k := n.conns c
  let out := scriptRun n.index [p]
  { n.setConn c { k with serving := decide (out.2 = .receiving), toServer := rest,
                         toClient := k.toClient ++ out.1.map (id, ·) } with
    answers := n.answers ++ out.1.map (c, id, ·) }

/-- What a step does. -/
def next (n : Net) : Event → Net
  | .call c call =>
    let k := n.conns c
    { n.setConn c { k with client := .waiting n.nextId call,
                           toServer := k.toServer ++ [(n.nextId, call.request)] } with
      nextId := n.nextId + 1 }
  | .callFails c call e =>
    { n with nextId := n.nextId + 1,
             returns := n.returns ++ [⟨c, n.nextId, call, call.failed e, false⟩] }
  | .receive c =>
    let k := n.conns c
    match k.client, k.toClient with
    | .waiting id call, (answered, message) :: rest =>
      { n.setConn c { k with client := .idle, toClient := rest } with
        received := n.received ++ [(c, answered, message)],
        returns := n.returns ++ [⟨c, id, call, call.reply message, false⟩],
        receipts := n.receipts ++ [⟨c, id, answered⟩] }
    | _, _ => n
  | .timeout c e =>
    let k := n.conns c
    match k.client with
    | .waiting id call =>
      { n.setConn c { k with client := .idle } with
        returns := n.returns ++ [⟨c, id, call, call.failed e, true⟩] }
    | .idle => n
  | .serve c =>
    match (n.conns c).toServer with
    | (id, cmd) :: rest => n.turn c id ⟨.ok cmd, .ok ()⟩ rest
    | [] => n
  | .serveFails c e =>
    match (n.conns c).toServer with
    | (id, cmd) :: rest => n.turn c id ⟨.ok cmd, .error e⟩ rest
    | [] => n
  -- nothing is sent, so the pass's send result is never read
  | .receiveFails c e => n.turn c 0 ⟨.error e, .ok ()⟩ (n.conns c).toServer
  | .proxyWrite _ => n
  | .commit index => { n with index := index }

variable {n : Net} {c : Nat}

theorem next_receive {id answered : Nat} {call : ClientCall} {message : ContextResponse}
    {rest : List (Nat × ContextResponse)} (hc : (n.conns c).client = .waiting id call)
    (ht : (n.conns c).toClient = (answered, message) :: rest) :
    n.next (.receive c) =
      { n.setConn c { n.conns c with client := .idle, toClient := rest } with
        received := n.received ++ [(c, answered, message)],
        returns := n.returns ++ [⟨c, id, call, call.reply message, false⟩],
        receipts := n.receipts ++ [⟨c, id, answered⟩] } := by
  simp only [next, hc, ht]

theorem next_timeout {id : Nat} {call : ClientCall} {e : IpcError}
    (hc : (n.conns c).client = .waiting id call) :
    n.next (.timeout c e) =
      { n.setConn c { n.conns c with client := .idle } with
        returns := n.returns ++ [⟨c, id, call, call.failed e, true⟩] } := by
  simp only [next, hc]

theorem next_serve {id : Nat} {cmd : ContextRequest} {rest : List (Nat × ContextRequest)}
    (ht : (n.conns c).toServer = (id, cmd) :: rest) :
    n.next (.serve c) =
      { n.setConn c
          { n.conns c with
            serving := decide (cmd ≠ .shutdownCall), toServer := rest,
            toClient := (n.conns c).toClient ++ [(id, respond n.index cmd)] } with
        answers := n.answers ++ [(c, id, respond n.index cmd)] } := by
  simp only [next, ht]
  cases cmd <;> rfl

theorem next_serveFails {e : IpcError} (ht : (n.conns c).toServer ≠ []) :
    n.next (.serveFails c e) =
      n.setConn c { n.conns c with serving := false, toServer := (n.conns c).toServer.tail } := by
  obtain ⟨⟨id, cmd⟩, rest, ht⟩ := List.exists_cons_of_ne_nil ht
  simp only [next, ht, turn, scriptRun_sendFails, List.map_nil, List.append_nil, List.tail_cons]
  cases cmd <;> rfl

theorem next_receiveFails {e : IpcError} :
    n.next (.receiveFails c e) = n.setConn c { n.conns c with serving := false } := by
  simp only [next, turn, scriptRun_receiveFails, List.map_nil, List.append_nil]
  rfl

/-- Reachable from a fresh system. -/
inductive Reachable : Net → Prop
  | init (index : ContextIndex) : Reachable (init index)
  | step {n : Net} {e : Event} : Reachable n → n.Enabled e → Reachable (n.next e)

/-- Run the steps in order; `none` when one is not enabled. -/
def run (n : Net) : List Event → Option Net
  | [] => some n
  | e :: es => if n.Enabled e then run (n.next e) es else none

theorem run_cons_inv {n n' : Net} {e : Event} {es : List Event}
    (h : n.run (e :: es) = some n') : n.Enabled e ∧ (n.next e).run es = some n' := by
  simp only [run] at h
  split at h
  · exact ⟨‹_›, h⟩
  · cases h

theorem Reachable.run {n n' : Net} {es : List Event} (h : Reachable n) (hr : n.run es = some n') :
    Reachable n' := by
  induction es generalizing n with
  | nil => cases hr; exact h
  | cons e es ih =>
    simp only [Net.run] at hr
    split at hr
    · exact ih (h.step ‹_›) hr
    · cases hr

/-- A run from a fresh system that does not get stuck ends in a reachable state. -/
theorem exists_run_reachable {index : ContextIndex} {es : List Event} {n : Net} {P : Net → Prop}
    (hr : (init index).run es = some n) (hp : n.Reachable → P n) :
    ∃ n, (init index).run es = some n ∧ n.Reachable ∧ P n :=
  have h := (Reachable.init index).run hr
  ⟨n, hr, h, hp h⟩

end Net

/-! ## A call that returns another call's answer -/

/-- Every call that returned `Ok` returned what a worker answered to that
call's own request. -/
def OwnAnswers (n : Net) : Prop :=
  ∀ ret ∈ n.returns, ret.result.isOk = true →
    ∃ a ∈ n.answers, a.1 = ret.conn ∧ a.2.1 = ret.id ∧ ret.call.reply a.2.2 = ret.result

instance (n : Net) : Decidable (OwnAnswers n) :=
  inferInstanceAs (Decidable (∀ ret ∈ n.returns, _))

/-- An index holding `[1]` under the hash `[1]`, and nothing else. -/
def oneEntryIndex : ContextIndex :=
  ⟨fun h => .ok (if h = ⟨[1]⟩ then some [1] else none), fun h => .ok (h = ⟨[1]⟩)⟩

/-- `get_entry([1])` gives up, its answer then arrives, and the next call
`get_entry([2])` receives it and returns it. -/
theorem stale_answer_returned :
    ∃ n, (Net.init oneEntryIndex).run
        [.call 0 (.getEntry ⟨[1]⟩), .timeout 0 ⟨"timeout"⟩, .serve 0,
          .call 0 (.getEntry ⟨[2]⟩), .receive 0, .serve 0] = some n ∧
      n.Reachable ∧ ¬ OwnAnswers n ∧
      ⟨0, 1, .getEntry ⟨[2]⟩, .getEntry (.ok (some [1])), false⟩ ∈ n.returns ∧
      (0, 0, .getEntryResponse (.ok (some [1]))) ∈ n.received ∧
      (0, 1, .getEntryResponse (.ok none)) ∈ n.answers :=
  Net.exists_run_reachable rfl fun _ => ⟨by decide, by decide, by decide, by decide⟩

/-! ## What holds: answers stay on their connection -/

/-- The ids of the messages in flight: responses, then requests, oldest first. -/
def Conn.pending (k : Conn) : List Nat := k.toClient.map Prod.fst ++ k.toServer.map Prod.fst

/-- Nothing in flight but the waiting call's own request or answer. -/
def Conn.InSync (k : Conn) : Prop :=
  match k.client with
  | .idle => k.pending = []
  | .waiting id _ => k.pending.Sublist [id]

/-- No call on connection `c` has given up. -/
def NoGiveUp (returns : List Return) (c : Nat) : Prop :=
  ∀ r ∈ returns, r.conn = c → r.gaveUp = false

instance (returns : List Return) (c : Nat) : Decidable (NoGiveUp returns c) :=
  inferInstanceAs (Decidable (∀ r ∈ returns, _))

theorem NoGiveUp.of_append {l l' : List Return} {c : Nat} (h : NoGiveUp (l ++ l') c) :
    NoGiveUp l c := fun r hr => h r (List.mem_append_left _ hr)

/-- What holds of connection `c`: every response in flight is an answer its
worker logged, the ids in flight are older than `nextId`, the waiting call is
the newest, and, while `inSync`, nothing else is in flight. -/
structure ConnInv (answers : List (Nat × Nat × ContextResponse)) (nextId c : Nat)
    (inSync : Prop) (k : Conn) : Prop where
  delivered : ∀ m ∈ k.toClient, (c, m.1, m.2) ∈ answers
  fresh : ∀ id ∈ k.pending, id < nextId
  latest : ∀ id call, k.client = .waiting id call → id < nextId ∧ ∀ id' ∈ k.pending, id' ≤ id
  sync : inSync → k.InSync

theorem ConnInv.mono {answers answers' : List (Nat × Nat × ContextResponse)}
    {nextId nextId' c : Nat} {p p' : Prop} {k : Conn} (h : ConnInv answers nextId c p k)
    (ha : answers ⊆ answers') (hn : nextId ≤ nextId') (hp : p' → p) :
    ConnInv answers' nextId' c p' k :=
  ⟨fun m hm => ha (h.delivered m hm), fun id hid => by have := h.fresh id hid; omega,
    fun id call hc => ⟨by have := (h.latest id call hc).1; omega, (h.latest id call hc).2⟩,
    fun hp' => h.sync (hp hp')⟩

/-- The invariant of a reachable system: every connection's, and every
return is an IPC failure or the reading of an answer of its connection — to
its own call's request while the connection is in sync. -/
structure Inv (n : Net) : Prop where
  conn : ∀ c, ConnInv n.answers n.nextId c (NoGiveUp n.returns c) (n.conns c)
  returned : ∀ ret ∈ n.returns, (∃ e, ret.result = ret.call.failed e) ∨
    ∃ a ∈ n.answers, a.1 = ret.conn ∧ a.2.1 ≤ ret.id ∧ ret.call.reply a.2.2 = ret.result
  ownInSync : ∀ ret ∈ n.returns, NoGiveUp n.returns ret.conn →
    (∃ e, ret.result = ret.call.failed e) ∨
      ∃ a ∈ n.answers, a.1 = ret.conn ∧ a.2.1 = ret.id ∧ ret.call.reply a.2.2 = ret.result

theorem inv_init (index : ContextIndex) : Inv (Net.init index) :=
  ⟨fun _ => ⟨fun _ h => (nomatch h), fun _ h => (nomatch h), fun _ _ h => (nomatch h),
    fun _ => rfl⟩, fun _ h => (nomatch h), fun _ h => (nomatch h)⟩

@[simp] theorem failed_isOk (call : ClientCall) (e : IpcError) : (call.failed e).isOk = false := by
  cases call <;> rfl

theorem noGiveUp_of {n n' : Net} {new : List Return} (h : n'.returns = n.returns ++ new)
    (c : Nat) (hs : NoGiveUp n'.returns c) : NoGiveUp n.returns c :=
  NoGiveUp.of_append (h ▸ hs)

/-- Replacing connection `c₀` by `k`: every connection has a property when
every other one had it and `k` has it in `c₀`'s place.  The one case split on
`Function.update` that the step lemmas of every invariant share. -/
theorem conns_update_of {P : Nat → Conn → Prop} {conns : Nat → Conn} {c₀ : Nat} {k : Conn}
    (h : ∀ c, c ≠ c₀ → P c (conns c)) (hk : P c₀ k) (c : Nat) :
    P c (Function.update conns c₀ k c) := by
  by_cases hc : c = c₀
  · subst hc; rw [Function.update_same]; exact hk
  · rw [Function.update_noteq hc]; exact h c hc

/-- A step that replaces connection `c₀` keeps the others' invariants. -/
theorem conns_update {n n' : Net} {c₀ : Nat} {k' : Conn} (hi : Inv n)
    (hconns : n'.conns = Function.update n.conns c₀ k') (ha : n.answers ⊆ n'.answers)
    (hn : n.nextId ≤ n'.nextId) (hr : ∀ c, NoGiveUp n'.returns c → NoGiveUp n.returns c)
    (hk : ConnInv n'.answers n'.nextId c₀ (NoGiveUp n'.returns c₀) k') (c : Nat) :
    ConnInv n'.answers n'.nextId c (NoGiveUp n'.returns c) (n'.conns c) :=
  hconns ▸ conns_update_of
    (P := fun c k => ConnInv n'.answers n'.nextId c (NoGiveUp n'.returns c) k)
    (fun c _ => (hi.conn c).mono ha hn (hr c)) hk c

/-- A step keeps the invariant when it only adds answers, appends `new` to the
log and keeps every connection's invariant, and each new return is an IPC
failure or the reading of an answer of its connection, its own while the
connection is in sync. -/
theorem inv_of {n n' : Net} (new : List Return) (hi : Inv n) (ha : n.answers ⊆ n'.answers)
    (hr : n'.returns = n.returns ++ new)
    (hc : ∀ c, ConnInv n'.answers n'.nextId c (NoGiveUp n'.returns c) (n'.conns c))
    (hnew : ∀ ret ∈ new, (∃ e, ret.result = ret.call.failed e) ∨
      (∃ a ∈ n'.answers, a.1 = ret.conn ∧ a.2.1 ≤ ret.id ∧ ret.call.reply a.2.2 = ret.result) ∧
      (NoGiveUp n'.returns ret.conn →
        ∃ a ∈ n'.answers, a.1 = ret.conn ∧ a.2.1 = ret.id ∧ ret.call.reply a.2.2 = ret.result)) :
    Inv n' := by
  refine ⟨hc, fun ret hret => ?_, fun ret hret hs => ?_⟩
  · rcases List.mem_append.1 (hr ▸ hret) with h | h
    · exact (hi.returned ret h).imp_right fun ⟨a, ha', h'⟩ => ⟨a, ha ha', h'⟩
    · exact (hnew ret h).imp_right And.left
  · rcases List.mem_append.1 (hr ▸ hret) with h | h
    · exact (hi.ownInSync ret h (noGiveUp_of hr _ hs)).imp_right
        fun ⟨a, ha', h'⟩ => ⟨a, ha ha', h'⟩
    · exact (hnew ret h).imp_right fun h' => h'.2 hs

theorem InSync.of_sublist {k k' : Conn} (hc : k'.client = k.client)
    (hp : k'.pending.Sublist k.pending) (h : k.InSync) : k'.InSync := by
  unfold Conn.InSync at *
  rw [hc]
  cases hk : k.client with
  | idle => rw [hk] at h; exact List.sublist_nil.1 (h ▸ hp)
  | waiting id _ => rw [hk] at h; exact hp.trans h

/-- A connection whose client and ids in flight are unchanged keeps its
invariant. -/
theorem ConnInv.of_pending {answers : List (Nat × Nat × ContextResponse)} {nextId c : Nat}
    {p : Prop} {k k' : Conn} (h : ConnInv answers nextId c p k)
    (hd : ∀ m ∈ k'.toClient, (c, m.1, m.2) ∈ answers) (hc : k'.client = k.client)
    (hp : k'.pending.Sublist k.pending) : ConnInv answers nextId c p k' :=
  ⟨hd, fun id hid => h.fresh id (hp.subset hid),
    fun id call hw => ⟨(h.latest id call (hc ▸ hw)).1,
      fun id' hid' => (h.latest id call (hc ▸ hw)).2 id' (hp.subset hid')⟩,
    fun hs => InSync.of_sublist hc hp (h.sync hs)⟩

theorem inv_next {n : Net} {e : Event} (hi : Inv n) (he : n.Enabled e) : Inv (n.next e) := by
  cases e with
  | call c call =>
    have hk := hi.conn c
    have hidle : (n.conns c).client = .idle := he
    have hmem : ∀ id, id ∈ (n.conns c).toClient.map Prod.fst ++
        ((n.conns c).toServer ++ [(n.nextId, call.request)]).map Prod.fst →
        id ∈ (n.conns c).pending ∨ id = n.nextId := by
      intro id hid
      simpa only [Conn.pending, List.map_append, ← List.append_assoc, List.mem_append,
        List.map_cons, List.map_nil, List.mem_singleton] using hid
    refine inv_of [] hi (List.Subset.refl _) (List.append_nil _).symm
      (conns_update hi rfl (List.Subset.refl _) (Nat.le_succ _) (fun _ => id)
        ⟨hk.delivered, fun id hid => ?_, fun id call' hw => ?_, fun hs => ?_⟩)
      (fun _ h => (nomatch h))
    · rcases hmem id hid with h | rfl
      · exact Nat.lt_succ_of_lt (hk.fresh id h)
      · exact Nat.lt_succ_self _
    · obtain ⟨rfl, -⟩ := ClientPhase.waiting.inj hw
      refine ⟨Nat.lt_succ_self _, fun id' hid' => ?_⟩
      rcases hmem id' hid' with h | rfl
      · exact (hk.fresh id' h).le
      · exact le_rfl
    · have h := hk.sync hs
      simp only [Conn.InSync, hidle, Conn.pending] at h ⊢
      simp [← List.append_assoc, h]
  | callFails c call e =>
    refine inv_of _ hi (List.Subset.refl _) rfl
      (fun c' => (hi.conn c').mono (List.Subset.refl _) (Nat.le_succ _) (noGiveUp_of rfl c'))
      fun ret hret => by cases List.mem_singleton.1 hret; exact .inl ⟨e, rfl⟩
  | receive c =>
    obtain ⟨hw, hne⟩ := he
    have hk := hi.conn c
    rcases hc : (n.conns c).client with _ | ⟨id, call⟩
    · exact absurd hc hw
    rcases ht : (n.conns c).toClient with _ | ⟨⟨id', m⟩, rest⟩
    · exact absurd ht hne
    rw [Net.next_receive hc ht]
    have hm : (c, id', m) ∈ n.answers := hk.delivered (id', m) (by simp [ht])
    have hpend : (n.conns c).pending =
        id' :: Conn.pending { (n.conns c) with client := .idle, toClient := rest } := by
      simp [Conn.pending, ht]
    have hle : id' ≤ id := (hk.latest id call hc).2 id' (by simp [hpend])
    -- In sync, the response is the call's own and nothing is left in flight.
    have hown : NoGiveUp n.returns c →
        id' = id ∧ Conn.pending { n.conns c with client := .idle, toClient := rest } = [] := by
      intro hs
      have h := hk.sync hs
      simp only [Conn.InSync, hc, hpend, List.sublist_singleton] at h
      rcases h with h | h
      · exact nomatch h
      · exact List.cons.inj h
    refine inv_of _ hi (List.Subset.refl _) rfl
      (conns_update hi rfl (List.Subset.refl _) le_rfl (noGiveUp_of rfl)
        ⟨fun x hx => hk.delivered x (by simp [ht, hx]),
          fun x hx => hk.fresh x (by simp [hpend, hx]), fun _ _ h => (nomatch h),
          fun hs => (hown (noGiveUp_of rfl c hs)).2⟩)
      fun ret hret => ?_
    cases List.mem_singleton.1 hret
    exact .inr ⟨⟨_, hm, rfl, hle, rfl⟩,
      fun hs => ⟨_, hm, rfl, (hown (noGiveUp_of rfl c hs)).1, rfl⟩⟩
  | timeout c e =>
    obtain ⟨hw, -⟩ := he
    have hk := hi.conn c
    rcases hc : (n.conns c).client with _ | ⟨id, call⟩
    · exact absurd hc hw
    rw [Net.next_timeout hc]
    refine inv_of _ hi (List.Subset.refl _) rfl
      (conns_update hi rfl (List.Subset.refl _) le_rfl (noGiveUp_of rfl)
        ⟨hk.delivered, hk.fresh, fun _ _ h => (nomatch h), fun hs => ?_⟩)
      fun ret hret => by cases List.mem_singleton.1 hret; exact .inl ⟨e, rfl⟩
    exact absurd (hs _ (List.mem_append_right _ (List.mem_singleton_self _)) rfl) (by simp)
  | serve c =>
    obtain ⟨-, hne⟩ := he
    have hk := hi.conn c
    rcases ht : (n.conns c).toServer with _ | ⟨⟨id, cmd⟩, rest⟩
    · exact absurd ht hne
    rw [Net.next_serve ht]
    refine inv_of [] hi (List.subset_append_left _ _) (List.append_nil _).symm
      (conns_update hi rfl (List.subset_append_left _ _) le_rfl (fun _ h => h)
        (ConnInv.of_pending (hk.mono (List.subset_append_left _ _) le_rfl fun h => h)
          (fun x hx => ?_) rfl (by simp [Conn.pending, ht])))
      (fun _ h => (nomatch h))
    simp only [List.mem_append, List.mem_singleton] at hx
    rcases hx with hx | rfl
    · exact List.mem_append_left _ (hk.delivered x hx)
    · simp
  | serveFails c e =>
    have hk := hi.conn c
    rw [Net.next_serveFails he.2]
    refine inv_of [] hi (List.Subset.refl _) (List.append_nil _).symm
      (conns_update hi rfl (List.Subset.refl _) le_rfl (fun _ => id)
        (ConnInv.of_pending hk hk.delivered rfl ?_))
      (fun _ h => (nomatch h))
    exact (List.Sublist.refl _).append ((List.tail_sublist _).map _)
  | receiveFails c e =>
    have hk := hi.conn c
    rw [Net.next_receiveFails]
    exact inv_of [] hi (List.Subset.refl _) (List.append_nil _).symm
      (conns_update hi rfl (List.Subset.refl _) le_rfl (fun _ => id)
        (ConnInv.of_pending hk hk.delivered rfl (List.Sublist.refl _)))
      (fun _ h => (nomatch h))
  | proxyWrite _ => exact hi
  | commit index => exact ⟨hi.conn, hi.returned, hi.ownInSync⟩

theorem Net.Reachable.inv {n : Net} (h : n.Reachable) : Inv n := by
  induction h with
  | init index => exact inv_init index
  | step _ he ih => exact inv_next ih he

/-! ## What holds of every reachable system -/

/-- Every call that returned either failed in the IPC layer — its send failed
or its receive gave up — or returned its client's reading of a response a
worker sent on the same connection, for that call's request or an earlier
one: an engine error or an unexpected message is a response of its own
connection, never made up by the client. -/
theorem result_failed_or_read {n : Net} (h : n.Reachable) :
    ∀ ret ∈ n.returns, (∃ e, ret.result = ret.call.failed e) ∨
      ∃ a ∈ n.answers, a.1 = ret.conn ∧ a.2.1 ≤ ret.id ∧ ret.call.reply a.2.2 = ret.result :=
  h.inv.returned

/-- The run of `stale_answer_returned`: one call gave up, the other read a
stale answer. -/
theorem result_failed_or_read_stale_run :
    ∃ n, (Net.init oneEntryIndex).run
        [.call 0 (.getEntry ⟨[1]⟩), .timeout 0 ⟨"timeout"⟩, .serve 0,
          .call 0 (.getEntry ⟨[2]⟩), .receive 0, .serve 0] = some n ∧
      n.Reachable ∧ ∀ ret ∈ n.returns, (∃ e, ret.result = ret.call.failed e) ∨
        ∃ a ∈ n.answers, a.1 = ret.conn ∧ a.2.1 ≤ ret.id ∧ ret.call.reply a.2.2 = ret.result :=
  Net.exists_run_reachable rfl fun h => result_failed_or_read h

/-- On a connection where no call has given up, a call that returns `Ok`
returns the answer to its own request. -/
theorem answer_own_request_in_sync {n : Net} (h : n.Reachable) :
    ∀ ret ∈ n.returns, NoGiveUp n.returns ret.conn → ret.result.isOk = true →
      ∃ a ∈ n.answers, a.1 = ret.conn ∧ a.2.1 = ret.id ∧ ret.call.reply a.2.2 = ret.result :=
  fun ret hret hs hok =>
    (h.inv.ownInSync ret hret hs).resolve_left fun ⟨_, he⟩ => by simp [he] at hok

/-- The same two calls: no call gave up, so each got its own answer. -/
theorem answer_own_request_two_calls :
    ∃ n, (Net.init oneEntryIndex).run
        [.call 0 (.getEntry ⟨[1]⟩), .serve 0, .receive 0, .call 0 (.containsEntry ⟨[2]⟩),
          .serve 0, .receive 0] = some n ∧
      n.Reachable ∧ NoGiveUp n.returns 0 ∧
      ∀ ret ∈ n.returns, NoGiveUp n.returns ret.conn → ret.result.isOk = true →
        ∃ a ∈ n.answers, a.1 = ret.conn ∧ a.2.1 = ret.id ∧ ret.call.reply a.2.2 = ret.result :=
  Net.exists_run_reachable rfl fun h => ⟨by decide, answer_own_request_in_sync h⟩

end Tezedge
