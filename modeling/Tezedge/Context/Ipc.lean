/-
# `Tezedge.Context.Ipc` — the messages of `readonly_ipc.rs` and the server's loop

A reader process asks the writer's context index for entries over a socket:
`ContextRequest::{GetEntry, ContainsEntry, ShutdownCall}` one way,
`ContextResponse` the other.  This module models the messages, what the
writer's worker answers to each request, the worker's loop
`process_context_requests`, what the reader's `get_entry` and
`contains_entry` make of the message they receive, and the read-only proxy
backend over them.  `Tezedge.Context.Protocol` puts the two ends together.

## The loop on a finite script

`process_context_requests` blocks in `receive` until a request arrives, so it
is modelled on a script: the results its successive `receive`s return, and
the result of its `k`-th `send`.  It logs every response it hands to `send`
and how it ended: it returned, it panicked (`get_context_index().unwrap()`
with no index), or it is still blocked in `receive` when the script runs out.

Pass by pass, the script is a list of `Pass`es, each what a `receive`
returned and what the `send` after it returned, and `scriptRun` is the loop
over them, keeping the responses whose send returned `Ok`: those reach the
reader.  `Tezedge.Context.Protocol` makes each step of a worker one pass.

## What is proved

`process_context_requests_serves`: with the index initialised, every script
splits into the requests the loop answered and the delivery it stopped at.
It sent exactly one response per request, in order, each the index's answer,
and then: nothing while it waits; nothing, returning the error, when a
receive fails; `ShutdownResult`, returning `Ok` even when that send fails,
on `ShutdownCall`; the response, returning the error, when a send fails.

`scriptRun_append`: passes after which the loop is back in `receive` can be
cut from the front, so the loop over a script is its passes one after another.

## What is left out

The index and the socket are outside the sources: the index is its two
lookups, whose errors the server prints with `{:?}` (here already printed),
and `IpcError` is opaque.  Timeouts are durations and are not modelled;
that a receive gives up is the environment's choice.
-/
import Mathlib

namespace Tezedge

/-- Results compare by constructor, then by payload. -/
instance decEqExcept {ε α : Type} [DecidableEq ε] [DecidableEq α] : DecidableEq (Except ε α)
  | .error a, .error b => decidable_of_iff (a = b) ⟨congrArg _, Except.error.inj⟩
  | .ok a, .ok b => decidable_of_iff (a = b) ⟨congrArg _, Except.ok.inj⟩
  | .error _, .ok _ => isFalse fun h => Except.noConfusion h
  | .ok _, .error _ => isFalse fun h => Except.noConfusion h

/-! ## Messages -/

/-- `EntryHash`. -/
structure EntryHash where
  bytes : List UInt8
  deriving DecidableEq, Repr

/-- `ContextValue`. -/
abbrev ContextValue := List UInt8

/-- `ContextRequest`. -/
inductive ContextRequest
  | getEntry (hash : EntryHash)
  | containsEntry (hash : EntryHash)
  | shutdownCall
  deriving DecidableEq, Repr

/-- `ContextResponse`. -/
inductive ContextResponse
  | getEntryResponse (result : Except String (Option ContextValue))
  | containsEntryResponse (result : Except String Bool)
  | shutdownResult
  deriving DecidableEq

/-- `message.into()`: the `&'static str` that `IntoStaticStr` derives. -/
def ContextResponse.name : ContextResponse → String
  | .getEntryResponse _ => "GetEntryResponse"
  | .containsEntryResponse _ => "ContainsEntryResponse"
  | .shutdownResult => "ShutdownResult"

/-- `ipc::IpcError`, which the model only passes on. -/
structure IpcError where
  reason : String
  deriving DecidableEq, Repr

/-- `ContextError`. -/
inductive ContextError
  | getEntryError (reason : String)
  | containsEntryError (reason : String)
  deriving DecidableEq, Repr

/-- `ContextServiceError`. -/
inductive ContextServiceError
  | ipcError (reason : IpcError)
  | contextError (reason : ContextError)
  | unexpectedMessage (message : String)
  | lockPoisonError (message : String)
  deriving DecidableEq, Repr

/-- `DBError`, as far as the read-only proxy builds it. -/
inductive DBError
  | ipcAccessError (reason : ContextServiceError)
  deriving DecidableEq, Repr

/-! ## The writer's worker -/

/-- The writer's context index, as the worker calls it. -/
structure ContextIndex where
  findEntryBytes : EntryHash → Except String (Option ContextValue)
  contains : EntryHash → Except String Bool

/-- `format!("Context error: {:?}", err)`, the error already printed. -/
def contextErrorText (err : String) : String := "Context error: " ++ err

/-- The response to a request, against the index. -/
def respond (index : ContextIndex) : ContextRequest → ContextResponse
  | .getEntry hash => .getEntryResponse ((index.findEntryBytes hash).mapError contextErrorText)
  | .containsEntry hash =>
    .containsEntryResponse ((index.contains hash).mapError contextErrorText)
  | .shutdownCall => .shutdownResult

/-- `GetEntry(hash)` is answered with `find_entry_bytes(hash)`, its error as
`Context error: ` text. -/
@[simp] theorem respond_getEntry (index : ContextIndex) (hash : EntryHash) :
    respond index (.getEntry hash) =
      .getEntryResponse ((index.findEntryBytes hash).mapError contextErrorText) := rfl

/-- `ContainsEntry(hash)` is answered with `contains(hash)`, its error as
`Context error: ` text. -/
@[simp] theorem respond_containsEntry (index : ContextIndex) (hash : EntryHash) :
    respond index (.containsEntry hash) =
      .containsEntryResponse ((index.contains hash).mapError contextErrorText) := rfl

@[simp] theorem respond_shutdownCall (index : ContextIndex) :
    respond index .shutdownCall = .shutdownResult := rfl

/-- One turn of the `match cmd` of `process_context_requests`: the response it
sends and whether the loop goes on; `none` is the panic of
`get_context_index().unwrap()`, which only the two lookups reach. -/
def handle (index : Option ContextIndex) (cmd : ContextRequest) :
    Option (ContextResponse × Bool) :=
  match cmd, index with
  | .shutdownCall, _ => some (.shutdownResult, false)
  | cmd, some index => some (respond index cmd, true)
  | _, none => none

/-- How `process_context_requests` ended on a finite script. -/
inductive LoopEnd
  | returned (r : Except IpcError Unit)
  | panicked
  | receiving
  deriving DecidableEq, Repr

/-- `process_context_requests`: successive `receive`s return `rx`, the `k`-th
`send` returns `tx k`.  The responses handed to `send`, and how it ended. -/
def processContextRequests (index : Option ContextIndex) (tx : Nat → Except IpcError Unit) :
    Nat → List (Except IpcError ContextRequest) → List ContextResponse × LoopEnd
  | _, [] => ([], .receiving)
  | _, .error e :: _ => ([], .returned (.error e))
  | k, .ok cmd :: rest =>
    match handle index cmd with
    | none => ([], .panicked)
    | some (resp, false) => ([resp], .returned (.ok ()))
    | some (resp, true) =>
      match tx k with
      | .error e => ([resp], .returned (.error e))
      | .ok () =>
        let (sent, exit) := processContextRequests index tx (k + 1) rest
        (resp :: sent, exit)

/-! ## The loop, request by request -/

/-- What the loop does at the delivery it stops on, its next send being the
`j`-th: keep waiting, return a receive error, answer `ShutdownCall` and
return `Ok`, or answer a request whose send returns `tx j`. -/
def finish (index : ContextIndex) (tx : Nat → Except IpcError Unit) (j : Nat) :
    List (Except IpcError ContextRequest) → List ContextResponse × LoopEnd
  | [] => ([], .receiving)
  | .error e :: _ => ([], .returned (.error e))
  | .ok .shutdownCall :: _ => ([.shutdownResult], .returned (.ok ()))
  | .ok cmd :: _ => ([respond index cmd], .returned (tx j))

/-- The loop stops at `rest`: it does not begin with a request other than
`ShutdownCall` whose response the `j`-th send delivers. -/
def StopsAt (tx : Nat → Except IpcError Unit) (j : Nat)
    (rest : List (Except IpcError ContextRequest)) : Prop :=
  ∀ cmd rest', rest = .ok cmd :: rest' → cmd ≠ .shutdownCall → tx j ≠ .ok ()

theorem handle_some {index : ContextIndex} {cmd : ContextRequest} (h : cmd ≠ .shutdownCall) :
    handle (some index) cmd = some (respond index cmd, true) := by
  cases cmd <;> simp_all [handle]

/-- The loop from its `k`-th send on. -/
theorem processContextRequests_split (index : ContextIndex) (tx : Nat → Except IpcError Unit)
    (k : Nat) (rx : List (Except IpcError ContextRequest)) :
    ∃ (pre : List ContextRequest) (rest : List (Except IpcError ContextRequest)),
      rx = pre.map .ok ++ rest ∧
      (∀ cmd ∈ pre, cmd ≠ .shutdownCall) ∧ (∀ i < pre.length, tx (k + i) = .ok ()) ∧
      StopsAt tx (k + pre.length) rest ∧
      processContextRequests (some index) tx k rx =
        (pre.map (respond index) ++ (finish index tx (k + pre.length) rest).1,
          (finish index tx (k + pre.length) rest).2) := by
  induction rx generalizing k with
  | nil => exact ⟨[], [], rfl, by simp, by simp, fun _ _ h => by simp at h, rfl⟩
  | cons d rx ih =>
    rcases d with e | cmd
    · exact ⟨[], _, rfl, by simp, by simp, fun _ _ h => by simp at h, rfl⟩
    by_cases hs : cmd = .shutdownCall
    · subst hs
      exact ⟨[], _, rfl, by simp, by simp,
        fun _ _ h hc => absurd (by simp at h; exact h.1.symm) hc, rfl⟩
    cases ht : tx k with
    | error e =>
      refine ⟨[], _, rfl, by simp, by simp, fun _ _ _ _ => by simp [ht], ?_⟩
      simp [processContextRequests, handle_some hs, ht, finish, hs]
    | ok u =>
      obtain ⟨pre, rest, h₁, h₂, h₃, h₄, h₅⟩ := ih (k + 1)
      refine ⟨cmd :: pre, rest, by simp [h₁], ?_, ?_, ?_, ?_⟩
      · exact List.forall_mem_cons.2 ⟨hs, h₂⟩
      · intro i hi
        cases i with
        | zero => simpa using ht
        | succ i => simpa [Nat.add_assoc, Nat.add_comm 1] using h₃ i (by simpa using hi)
      · simpa [Nat.add_assoc, Nat.add_comm 1] using h₄
      · simp [processContextRequests, handle_some hs, ht, h₅, Nat.add_assoc, Nat.add_comm 1]

theorem process_context_requests_serves (index : ContextIndex)
    (tx : Nat → Except IpcError Unit) (rx : List (Except IpcError ContextRequest)) :
    ∃ (pre : List ContextRequest) (rest : List (Except IpcError ContextRequest)),
      rx = pre.map .ok ++ rest ∧
      (∀ cmd ∈ pre, cmd ≠ .shutdownCall) ∧ (∀ i < pre.length, tx i = .ok ()) ∧
      StopsAt tx pre.length rest ∧
      processContextRequests (some index) tx 0 rx =
        (pre.map (respond index) ++ (finish index tx pre.length rest).1,
          (finish index tx pre.length rest).2) := by
  simpa only [Nat.zero_add] using processContextRequests_split index tx 0 rx

/-! ## The loop, pass by pass -/

/-- One pass of the worker round its loop: what its `receive` returned and what
the send of its answer returned. -/
structure Pass where
  received : Except IpcError ContextRequest
  sent : Except IpcError Unit

/-- Of the responses handed to the sends from the `k`-th on, those that reach
the reader: the ones whose send returned `Ok`. -/
def delivered (tx : Nat → Except IpcError Unit) : Nat → List ContextResponse → List ContextResponse
  | _, [] => []
  | k, r :: rs =>
    match tx k with
    | .ok () => r :: delivered tx (k + 1) rs
    | .error _ => delivered tx (k + 1) rs

/-- `process_context_requests` over the passes `ps`, its `k`-th send returning
what the `k`-th pass's did: the responses that reach the reader, and how the
loop ended. -/
def scriptRun (index : ContextIndex) (ps : List Pass) : List ContextResponse × LoopEnd :=
  let tx := fun k => (ps.map Pass.sent).getD k (.ok ())
  let loop := processContextRequests (some index) tx 0 (ps.map Pass.received)
  (delivered tx 0 loop.1, loop.2)

@[simp] theorem scriptRun_nil (index : ContextIndex) : scriptRun index [] = ([], .receiving) := rfl

/-- A request whose answer's send returns `Ok`: the answer reaches the reader,
and the loop goes on unless it was `ShutdownCall`. -/
theorem scriptRun_request (index : ContextIndex) (cmd : ContextRequest) :
    scriptRun index [⟨.ok cmd, .ok ()⟩] =
      ([respond index cmd], if cmd = .shutdownCall then .returned (.ok ()) else .receiving) := by
  cases cmd <;> rfl

/-- A request whose answer's send fails: nothing reaches the reader, and the
loop returns. -/
theorem scriptRun_sendFails (index : ContextIndex) (cmd : ContextRequest) (e : IpcError) :
    scriptRun index [⟨.ok cmd, .error e⟩] =
      ([], if cmd = .shutdownCall then .returned (.ok ()) else .returned (.error e)) := by
  cases cmd <;> rfl

/-- A failed `receive`: the loop returns its error. -/
theorem scriptRun_receiveFails (index : ContextIndex) (e : IpcError) (t : Except IpcError Unit) :
    scriptRun index [⟨.error e, t⟩] = ([], .returned (.error e)) := rfl

/-- The `match` after `try_receive` in `get_entry` and `contains_entry`: the
expected variant's result, its error wrapped by `wrap`; any other variant is
`UnexpectedMessage`. -/
def receiveReply {α : Type} (expected : ContextResponse → Option (Except String α))
    (wrap : String → ContextError) (message : ContextResponse) :
    Except ContextServiceError α :=
  match expected message with
  | some result => result.mapError fun err => .contextError (wrap err)
  | none => .error (.unexpectedMessage message.name)

/-- What `get_entry` makes of the message it received. -/
def getEntryReply : ContextResponse → Except ContextServiceError (Option ContextValue) :=
  receiveReply (fun | .getEntryResponse r => some r | _ => none) .getEntryError

/-- What `contains_entry` makes of the message it received. -/
def containsEntryReply : ContextResponse → Except ContextServiceError Bool :=
  receiveReply (fun | .containsEntryResponse r => some r | _ => none) .containsEntryError

/-- `ReadonlyIpcBackend::get` and `contains`: the client's answer, its error
wrapped in `DBError::IpcAccessError`. -/
def ReadonlyIpcBackend.read {α : Type} (clientResult : Except ContextServiceError α) :
    Except DBError α :=
  clientResult.mapError .ipcAccessError

/-- The writes of `ReadonlyIpcBackend`: `put`, `delete`, `merge`,
`write_batch` and `retain` all return `Ok(())` and do nothing. -/
def ReadonlyIpcBackend.write : Except DBError Unit := .ok ()

end Tezedge
