/-
# `Tezedge.Context.Desync` — a connection that falls behind stays behind

`stale_answer_returned` shows one call returning another's answer after a call
gave up.  This module shows that it is not a passing glitch: the client matches
a response to its call by variant only and never drops one, so once a
connection has a message in flight that belongs to no waiting call, every
later call on it takes the oldest response in flight, which answers an earlier
request.  Nothing in the protocol brings the connection back in step.

## What is proved

* `no_own_answer_once_behind`: from any reachable state in which a
  connection's client is idle while a message is in flight on it — the state a
  call leaves when it gives up before its answer arrives — every call on that
  connection, over every continuation of the run, either fails in the IPC
  layer or returns its reading of the answer to an earlier request, never the
  answer to its own.

It rests on three facts of every reachable state: the ids in flight on a
connection strictly increase (`PendingSorted`), the waiting call's own id is
the newest in flight (`ConnInv.latest`), and while the worker is live the
waiting call's request or its answer is in flight (`Conn.Awaited`).

## What it is NOT

It does not say that the value returned differs from the call's own answer:
two requests may have equal answers.  It says which request the returned
answer was computed for.
-/
import Tezedge.Context.ReadPath

namespace Tezedge

/-! ## The ids in flight are in order -/

/-- The ids in flight strictly increase, oldest first. -/
def Conn.Sorted (k : Conn) : Prop := k.pending.Pairwise (· < ·)

/-- On every connection, the ids in flight strictly increase. -/
def PendingSorted (n : Net) : Prop := ∀ c, (n.conns c).Sorted

/-- A call puts its id behind everything in flight. -/
theorem pending_call (k : Conn) (client : ClientPhase) (m : Nat × ContextRequest) :
    Conn.pending { k with client := client, toServer := k.toServer ++ [m] } =
      k.pending ++ [m.1] := by
  simp [Conn.pending]

/-- Serving moves an id from the requests to the responses: the ids in flight
do not change. -/
theorem pending_serve {k : Conn} {id : Nat} {cmd : ContextRequest}
    {rest : List (Nat × ContextRequest)} (ht : k.toServer = (id, cmd) :: rest) (goesOn : Bool)
    (resp : ContextResponse) :
    Conn.pending
        { k with serving := goesOn, toServer := rest, toClient := k.toClient ++ [(id, resp)] } =
      k.pending := by
  simp [Conn.pending, ht]

/-- A receive drops the oldest id in flight. -/
theorem pending_receive {k : Conn} {id : Nat} {m : ContextResponse}
    {rest : List (Nat × ContextResponse)} (ht : k.toClient = (id, m) :: rest)
    (client : ClientPhase) :
    k.pending = id :: Conn.pending { k with client := client, toClient := rest } := by
  simp [Conn.pending, ht]

theorem pendingSorted_next {n : Net} {e : Event} (hi : Inv n) (hs : PendingSorted n)
    (he : n.Enabled e) : PendingSorted (n.next e) := by
  cases e with
  | call c call =>
    refine Net.forall_conns_update hs rfl ?_
    unfold Conn.Sorted
    rw [pending_call]
    exact List.pairwise_append.2 ⟨hs c, List.pairwise_singleton _ _,
      fun a ha b hb => List.mem_singleton.1 hb ▸ (hi.conn c).fresh a ha⟩
  | receive c =>
    obtain ⟨id, call, id', m, rest, hc, ht⟩ := he.receive_inv
    rw [Net.next_receive hc ht]
    refine Net.forall_conns_update hs rfl ?_
    have h := hs c
    unfold Conn.Sorted at h ⊢
    rw [pending_receive ht .idle] at h
    exact h.of_cons
  | timeout c e =>
    obtain ⟨id, call, hc⟩ := he.timeout_inv
    rw [Net.next_timeout hc]
    exact Net.forall_conns_update hs rfl (hs c)
  | serve c =>
    obtain ⟨id, cmd, rest, ht⟩ := he.serve_inv
    rw [Net.next_serve ht]
    refine Net.forall_conns_update hs rfl ?_
    unfold Conn.Sorted
    rw [pending_serve ht]
    exact hs c
  | serveFails c =>
    rw [Net.next_serveFails he.2]
    exact Net.forall_conns_update hs rfl
      ((hs c).sublist ((List.Sublist.refl _).append ((List.tail_sublist _).map _)))
  | receiveFails c =>
    rw [Net.next_receiveFails]
    exact Net.forall_conns_update hs rfl (hs c)
  | callFails | proxyWrite | commit => exact hs

theorem Net.Reachable.pendingSorted {n : Net} (h : n.Reachable) : PendingSorted n := by
  induction h with
  | init => exact fun _ => .nil
  | step hr he ih => exact pendingSorted_next hr.inv ih he

/-! ## Behind -/

/-- Connection `k` is behind: a message in flight belongs to no waiting call —
the client is idle with something in flight, or its call waits with an older
id in flight. -/
def Conn.Behind (k : Conn) : Prop :=
  match k.client with
  | .idle => k.pending ≠ []
  | .waiting id _ => ∃ id' ∈ k.pending, id' < id

/-- Behind, or the worker gone with only older answers than the waiting call's
in flight: either way no call on the connection can receive its own answer. -/
def Conn.Lagging (k : Conn) : Prop :=
  k.Behind ∨
    k.serving = false ∧ ∀ id call, k.client = .waiting id call → ∀ m ∈ k.toClient, m.1 < id

theorem Conn.behind_idle {k : Conn} (h : k.client = .idle) : k.Behind ↔ k.pending ≠ [] := by
  unfold Conn.Behind; rw [h]

theorem Conn.behind_waiting {k : Conn} {id : Nat} {call : ClientCall}
    (h : k.client = .waiting id call) : k.Behind ↔ ∃ id' ∈ k.pending, id' < id := by
  unfold Conn.Behind; rw [h]

theorem Conn.Behind.congr {k k' : Conn} (hc : k'.client = k.client) (hp : k'.pending = k.pending)
    (h : k.Behind) : k'.Behind := by
  unfold Conn.Behind; rw [hc, hp]; exact h

/-- A step that replaces connection `c₀` keeps a property of connection `c`
when the new connection has it in case `c = c₀`. -/
theorem Net.conn_at_update {P : Conn → Prop} {n n' : Net} {c₀ : Nat} {k' : Conn} {c : Nat}
    (h : P (n.conns c)) (hconns : n'.conns = Function.update n.conns c₀ k')
    (hk : c = c₀ → P k') : P (n'.conns c) :=
  hconns ▸ conns_update_of (P := fun c' k => c' = c → P k) (fun _ _ hc => hc ▸ h)
    (fun hc => hk hc.symm) c rfl

/-- The oldest response in flight to a lagging connection's waiting call
answers an older request. -/
theorem Conn.Lagging.head_lt {k : Conn} (hl : k.Lagging) (hs : k.Sorted)
    {id a : Nat} {call : ClientCall} {m : ContextResponse} {rest : List (Nat × ContextResponse)}
    (hc : k.client = .waiting id call) (ht : k.toClient = (a, m) :: rest) : a < id := by
  rcases hl with hb | ⟨-, hd⟩
  · obtain ⟨id', hid', hlt⟩ := (Conn.behind_waiting hc).1 hb
    unfold Conn.Sorted at hs
    rw [pending_receive ht .idle] at hs hid'
    rcases List.mem_cons.1 hid' with rfl | hid'
    · exact hlt
    · exact (List.rel_of_pairwise_cons hs hid').trans hlt
  · exact hd id call hc (a, m) (by simp [ht])

/-- Every step keeps a lagging connection lagging. -/
theorem lagging_next {n : Net} {e : Event} {c : Nat} (hi : Inv n) (hs : PendingSorted n)
    (ha : ∀ c, (n.conns c).Awaited) (hl : (n.conns c).Lagging) (he : n.Enabled e) :
    ((n.next e).conns c).Lagging := by
  cases e with
  | call c₀ call =>
    refine Net.conn_at_update hl rfl fun hc => ?_
    subst hc
    have hidle : (n.conns c).client = .idle := he
    rcases hl with hb | ⟨hsv, -⟩
    · obtain ⟨x, hx⟩ := List.exists_mem_of_ne_nil _ ((Conn.behind_idle hidle).1 hb)
      refine .inl ((Conn.behind_waiting rfl).2 ⟨x, ?_, (hi.conn c).fresh x hx⟩)
      rw [pending_call]
      exact List.mem_append_left _ hx
    · refine .inr ⟨hsv, fun id call' hw m hm => ?_⟩
      obtain ⟨rfl, -⟩ := ClientPhase.waiting.inj hw
      exact (hi.conn c).fresh m.1 (List.mem_append_left _ (List.mem_map_of_mem _ hm))
  | receive c₀ =>
    obtain ⟨id, call, a, m, rest, hc, ht⟩ := he.receive_inv
    rw [Net.next_receive hc ht]
    refine Net.conn_at_update hl rfl fun hcc => ?_
    subst hcc
    cases hsv : (n.conns c).serving
    · exact .inr ⟨hsv, fun _ _ h => nomatch h⟩
    -- A live worker: the call's own id is in flight too, behind the older one.
    have hown := ha c id call hc hsv
    rcases hl with hb | ⟨hsv', -⟩
    · obtain ⟨id', hid', hlt⟩ := (Conn.behind_waiting hc).1 hb
      refine .inl ((Conn.behind_idle rfl).2 fun hnil => ?_)
      rw [pending_receive ht .idle, hnil, List.mem_singleton] at hid' hown
      omega
    · exact nomatch hsv.symm.trans hsv'
  | timeout c₀ e =>
    obtain ⟨id, call, hc⟩ := he.timeout_inv
    rw [Net.next_timeout hc]
    refine Net.conn_at_update hl rfl fun hcc => ?_
    subst hcc
    rcases hl with hb | ⟨hsv, -⟩
    · obtain ⟨id', hid', -⟩ := (Conn.behind_waiting hc).1 hb
      exact .inl ((Conn.behind_idle rfl).2 (List.ne_nil_of_mem hid'))
    · exact .inr ⟨hsv, fun _ _ h => nomatch h⟩
  | serve c₀ =>
    obtain ⟨id, cmd, rest, ht⟩ := he.serve_inv
    rw [Net.next_serve ht]
    refine Net.conn_at_update hl rfl fun hcc => ?_
    subst hcc
    rcases hl with hb | ⟨hsv, -⟩
    · exact .inl (hb.congr (by rfl) (pending_serve ht _ _))
    · exact nomatch he.1.symm.trans hsv
  | serveFails c₀ =>
    rw [Net.next_serveFails he.2]
    refine Net.conn_at_update hl rfl fun hcc => ?_
    subst hcc
    -- The waiting call's id is the newest in flight and a request is still
    -- queued behind every response, so every response answers an older one.
    refine .inr ⟨rfl, fun id call hw m hm => ?_⟩
    obtain ⟨s, hs'⟩ := List.exists_mem_of_ne_nil _ he.2
    have hsorted := List.pairwise_append.1 (hs c)
    have hlt := hsorted.2.2 m.1 (List.mem_map_of_mem _ hm) s.1 (List.mem_map_of_mem _ hs')
    have hle := ((hi.conn c).latest id call hw).2 s.1
      (List.mem_append_right _ (List.mem_map_of_mem _ hs'))
    omega
  | receiveFails c₀ =>
    rw [Net.next_receiveFails]
    refine Net.conn_at_update hl rfl fun hcc => ?_
    subst hcc
    rcases hl with hb | ⟨hsv, -⟩
    · exact .inl (hb.congr rfl rfl)
    · exact nomatch (show (n.conns c).serving = true from he).symm.trans hsv
  | callFails | proxyWrite | commit => exact hl

/-- What connection `c` logs while lagging: every receipt on it answers a
request older than the call that took it, and every return on it is a failure
or the reading of an answer in `answers` to an older request. -/
def LaggingLog (c : Nat) (answers : List (Nat × Nat × ContextResponse))
    (receipts : List Receipt) (returns : List Return) : Prop :=
  (∀ r ∈ receipts, r.conn = c → r.answered < r.id) ∧
    ∀ ret ∈ returns, ret.conn = c → (∃ err, ret.result = ret.call.failed err) ∨
      ∃ a ∈ answers, a.1 = c ∧ a.2.1 < ret.id ∧ ret.call.reply a.2.2 = ret.result

theorem laggingLog_nil (c : Nat) (answers : List (Nat × Nat × ContextResponse)) :
    LaggingLog c answers [] [] :=
  ⟨fun _ h => (nomatch h), fun _ h => (nomatch h)⟩

/-- A call that failed in the IPC layer, and received nothing. -/
theorem laggingLog_failed (c : Nat) (answers : List (Nat × Nat × ContextResponse))
    {ret : Return} (h : ∃ err, ret.result = ret.call.failed err) :
    LaggingLog c answers [] [ret] :=
  ⟨fun _ h => (nomatch h), fun _ hr _ => List.mem_singleton.1 hr ▸ .inl h⟩

theorem LaggingLog.append {c : Nat} {answers : List (Nat × Nat × ContextResponse)}
    {rs₁ rs₂ : List Receipt} {ts₁ ts₂ : List Return} (h₁ : LaggingLog c answers rs₁ ts₁)
    (h₂ : LaggingLog c answers rs₂ ts₂) : LaggingLog c answers (rs₁ ++ rs₂) (ts₁ ++ ts₂) :=
  ⟨fun r hr => (List.mem_append.1 hr).elim (h₁.1 r) (h₂.1 r),
    fun ret hr => (List.mem_append.1 hr).elim (h₁.2 ret) (h₂.2 ret)⟩

theorem LaggingLog.mono {c : Nat} {answers answers' : List (Nat × Nat × ContextResponse)}
    {rs : List Receipt} {ts : List Return} (h : LaggingLog c answers rs ts)
    (ha : answers ⊆ answers') : LaggingLog c answers' rs ts :=
  ⟨h.1, fun ret hr hc => (h.2 ret hr hc).imp_right fun ⟨a, hm, h'⟩ => ⟨a, ha hm, h'⟩⟩

/-- A step of a lagging connection logs on it only receipts of older answers,
failures, and calls that return the answer to an older request. -/
theorem laggingLog_next {n : Net} {e : Event} {c : Nat} (hi : Inv n) (hs : PendingSorted n)
    (hl : (n.conns c).Lagging) (he : n.Enabled e) :
    ∃ rs ts, (n.next e).receipts = n.receipts ++ rs ∧ (n.next e).returns = n.returns ++ ts ∧
      LaggingLog c n.answers rs ts := by
  cases e with
  | callFails c₀ call err =>
    exact ⟨_, _, (List.append_nil _).symm, rfl, laggingLog_failed c _ ⟨err, rfl⟩⟩
  | receive c₀ =>
    obtain ⟨id, call, a, m, rest, hc, ht⟩ := he.receive_inv
    rw [Net.next_receive hc ht]
    refine ⟨_, _, rfl, rfl, fun r hr hcc => ?_, fun ret hr hcc => ?_⟩
    · obtain rfl := List.mem_singleton.1 hr
      obtain rfl : c₀ = c := hcc
      exact hl.head_lt (hs _) hc ht
    · obtain rfl := List.mem_singleton.1 hr
      obtain rfl : c₀ = c := hcc
      exact .inr ⟨(_, a, m), (hi.conn _).delivered (a, m) (by simp [ht]), rfl,
        hl.head_lt (hs _) hc ht, rfl⟩
  | timeout c₀ err =>
    obtain ⟨id, call, hc⟩ := he.timeout_inv
    rw [Net.next_timeout hc]
    exact ⟨_, _, (List.append_nil _).symm, rfl, laggingLog_failed c _ ⟨err, rfl⟩⟩
  | serve c₀ | serveFails c₀ _ =>
    simp only [Net.next]
    split <;>
      exact ⟨[], [], (List.append_nil _).symm, (List.append_nil _).symm, laggingLog_nil c _⟩
  | call | receiveFails | proxyWrite | commit =>
    exact ⟨[], [], (List.append_nil _).symm, (List.append_nil _).symm, laggingLog_nil c _⟩

theorem Net.answers_subset_next (n : Net) (e : Event) : n.answers ⊆ (n.next e).answers := by
  cases e with
  | serve c | serveFails c _ =>
    simp only [Net.next]
    split
    · exact List.subset_append_left _ _
    · exact List.Subset.refl _
  | receiveFails => exact List.subset_append_left _ _
  | receive c => simp only [Net.next]; split <;> exact List.Subset.refl _
  | timeout c e => simp only [Net.next]; split <;> exact List.Subset.refl _
  | call | callFails | proxyWrite | commit => exact List.Subset.refl _

theorem Net.answers_subset_run {n n' : Net} {es : List Event} (h : n.run es = some n') :
    n.answers ⊆ n'.answers := by
  induction es generalizing n with
  | nil => cases h; exact List.Subset.refl _
  | cons e es ih => exact (n.answers_subset_next e).trans (ih (Net.run_cons_inv h).2)

/-- The run lemma: a lagging connection stays lagging, and logs on it only
receipts of older answers, failures, and calls that return an older answer. -/
theorem laggingLog_run {n n' : Net} {c : Nat} {es : List Event} (hn : n.Reachable)
    (hl : (n.conns c).Lagging) (h : n.run es = some n') :
    ∃ rs ts, n'.receipts = n.receipts ++ rs ∧ n'.returns = n.returns ++ ts ∧
      LaggingLog c n'.answers rs ts := by
  induction es generalizing n with
  | nil =>
    cases h
    exact ⟨[], [], (List.append_nil _).symm, (List.append_nil _).symm, laggingLog_nil c _⟩
  | cons e es ih =>
    obtain ⟨he, h⟩ := Net.run_cons_inv h
    have hi := hn.inv
    obtain ⟨rs₁, ts₁, hr₁, ht₁, hlog₁⟩ := laggingLog_next hi hn.pendingSorted hl he
    obtain ⟨rs₂, ts₂, hr₂, ht₂, hlog₂⟩ :=
      ih (hn.step he) (lagging_next hi hn.pendingSorted hn.awaited hl he) h
    exact ⟨rs₁ ++ rs₂, ts₁ ++ ts₂, by rw [hr₂, hr₁, List.append_assoc],
      by rw [ht₂, ht₁, List.append_assoc],
      (hlog₁.mono ((n.answers_subset_next e).trans (Net.answers_subset_run h))).append hlog₂⟩

/-! ## Once behind, never in step again -/

/-- From any reachable state in which connection `c`'s client is idle while a
message is in flight on it, over every continuation: every response a call on
`c` receives answers an earlier request than that call's, and every later call
on `c` fails in the IPC layer or returns its reading of the answer to an
earlier request.  None receives the answer to its own. -/
theorem no_own_answer_once_behind {n n' : Net} (hn : n.Reachable) {c : Nat}
    (hidle : (n.conns c).client = .idle) (hp : (n.conns c).pending ≠ []) {es : List Event}
    (h : n.run es = some n') :
    (∀ r ∈ n'.receipts.drop n.receipts.length, r.conn = c → r.answered < r.id) ∧
      ∀ ret ∈ n'.returns.drop n.returns.length, ret.conn = c →
        (∃ e, ret.result = ret.call.failed e) ∨
          ∃ a ∈ n'.answers, a.1 = c ∧ a.2.1 < ret.id ∧ ret.call.reply a.2.2 = ret.result := by
  obtain ⟨rs, ts, hr, ht, hlog⟩ := laggingLog_run hn (.inl ((Conn.behind_idle hidle).2 hp)) h
  rw [hr, ht, List.drop_left, List.drop_left]
  exact hlog

/-- `get_entry([1])` gives up before its answer arrives; the next two calls
each return the answer to the request before theirs. -/
theorem no_own_answer_once_behind_run :
    ∃ n, (Net.init oneEntryIndex).run [.call 0 (.getEntry ⟨[1]⟩), .timeout 0 ⟨"timeout"⟩] =
        some n ∧ n.Reachable ∧ (n.conns 0).client = .idle ∧ (n.conns 0).pending ≠ [] ∧
      ∃ n', n.run [.call 0 (.getEntry ⟨[2]⟩), .serve 0, .receive 0, .call 0 (.getEntry ⟨[1]⟩),
          .serve 0, .serve 0, .receive 0] = some n' ∧
        (∀ r ∈ n'.receipts.drop n.receipts.length, r.conn = 0 → r.answered < r.id) ∧
          ∀ ret ∈ n'.returns.drop n.returns.length, ret.conn = 0 →
            (∃ e, ret.result = ret.call.failed e) ∨
              ∃ a ∈ n'.answers, a.1 = 0 ∧ a.2.1 < ret.id ∧ ret.call.reply a.2.2 = ret.result :=
  Net.exists_run_reachable rfl fun hn =>
    ⟨by rfl, by decide, _, rfl, @no_own_answer_once_behind _ _ hn 0 (by rfl) (by decide)
      [.call 0 (.getEntry ⟨[2]⟩), .serve 0, .receive 0, .call 0 (.getEntry ⟨[1]⟩),
        .serve 0, .serve 0, .receive 0] rfl⟩

end Tezedge
