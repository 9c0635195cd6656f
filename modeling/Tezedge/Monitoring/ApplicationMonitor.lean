/-
# `Tezedge.Monitoring.ApplicationMonitor` — counting applied blocks

`ApplicationMonitor` counts the blocks the node applies: `block_was_applied`
bumps a running total and a count since the last `snapshot` and remembers the
block; `snapshot` reports the last block applied and resets the count.

## Two levels

`Tally` says what the monitor is for: it keeps every block applied, in order,
how many were applied since the last snapshot, and what each snapshot
reported — the last block applied before it.  The monitor keeps two `usize`
counters and one block instead, and `+= 1` panics at `usize::MAX` in a debug
build.

## What is proved

* `monitor_refines_tally`: over any sequence of calls from `new` that applies
  at most `usize::MAX` blocks, the monitor does not panic and, after every
  call, its total is the number of blocks applied, its current count the
  number since the last snapshot, its block the last one applied, and its
  messages what the tally's snapshots reported.
* `monitor_panics_past_max`: a sequence that applies more blocks panics.

## What is left out

The two `Instant`s and the speeds computed from them: `avg_speed` and
`current_speed` divide elapsed time in `f32`, so `BlockApplicationMessage`
keeps only `last_applied_block`.  `Head` is not in this model's sources: it
is the hash and level `snapshot` reads, and `HashType::BlockHash.bytes_to_string`
is a parameter.
-/
import Tezedge.Storage.Stats
import Tezedge.Shell.BlockState

namespace Tezedge

/-! ## The monitor -/

/-- `Head`, as far as `snapshot` reads it; `level` is an `i32` in the source. -/
structure Head where
  blockHash : BlockHash
  level : Int
  deriving DecidableEq, Repr

/-- `BlockInfo`. -/
structure BlockInfo where
  hash : String
  level : Int
  deriving DecidableEq, Repr

/-- The `BlockInfo` that `snapshot` builds from the last block. -/
def BlockInfo.ofHead (bytesToString : BlockHash → String) (block : Head) : BlockInfo :=
  ⟨bytesToString block.blockHash, block.level⟩

/-- `BlockApplicationMessage`, without its two speeds. -/
structure BlockApplicationMessage where
  lastAppliedBlock : Option BlockInfo
  deriving DecidableEq, Repr

/-- `ApplicationMonitor`, without its two `Instant`s. -/
structure ApplicationMonitor where
  totalApplied : Usize
  currentApplied : Usize
  lastAppliedBlock : Option Head
  deriving DecidableEq, Repr

namespace ApplicationMonitor

/-- `ApplicationMonitor::new`. -/
def new : ApplicationMonitor := ⟨0, 0, none⟩

/-- `block_was_applied`; `none` is the panic of `+= 1` at `usize::MAX`. -/
def blockWasApplied (self : ApplicationMonitor) (blockInfo : Head) :
    Option ApplicationMonitor := do
  let totalApplied ← Usize.checkedAdd self.totalApplied 1
  let currentApplied ← Usize.checkedAdd self.currentApplied 1
  pure ⟨totalApplied, currentApplied, some blockInfo⟩

/-- `snapshot`: the message, and the monitor with its count reset. -/
def snapshot (bytesToString : BlockHash → String) (self : ApplicationMonitor) :
    BlockApplicationMessage × ApplicationMonitor :=
  (⟨self.lastAppliedBlock.map (BlockInfo.ofHead bytesToString)⟩, { self with currentApplied := 0 })

/-- Below `usize::MAX`, `block_was_applied` bumps both counters and keeps the
block (the current count is never above the total). -/
theorem blockWasApplied_of_lt {m : ApplicationMonitor} (blockInfo : Head)
    (hle : m.currentApplied.toNat ≤ m.totalApplied.toNat)
    (hlt : m.totalApplied.toNat < usizeMax) :
    ∃ m', m.blockWasApplied blockInfo = some m' ∧
      m'.totalApplied.toNat = m.totalApplied.toNat + 1 ∧
      m'.currentApplied.toNat = m.currentApplied.toNat + 1 ∧
      m'.lastAppliedBlock = some blockInfo := by
  have h₁ : m.totalApplied.toNat + (1 : Usize).toNat ≤ usizeMax := by simp; omega
  have h₂ : m.currentApplied.toNat + (1 : Usize).toNat ≤ usizeMax := by simp; omega
  refine ⟨⟨m.totalApplied + 1, m.currentApplied + 1, some blockInfo⟩, ?_,
    by simpa using Usize.toNat_add_of_le h₁, by simpa using Usize.toNat_add_of_le h₂, rfl⟩
  unfold blockWasApplied
  rw [Usize.checkedAdd_of_le h₁, Usize.checkedAdd_of_le h₂]; rfl

/-- At `usize::MAX`, `block_was_applied` panics. -/
theorem blockWasApplied_of_max {m : ApplicationMonitor} (blockInfo : Head)
    (h : m.totalApplied.toNat = usizeMax) : m.blockWasApplied blockInfo = none := by
  have : Usize.checkedAdd m.totalApplied 1 = none := by simp [Usize.checkedAdd, h]
  unfold blockWasApplied; rw [this]; rfl

/-- A call on the monitor. -/
inductive Call
  | blockWasApplied (blockInfo : Head)
  | snapshot
  deriving DecidableEq, Repr

/-- The block a call applies. -/
def Call.applied : Call → Option Head
  | .blockWasApplied blockInfo => some blockInfo
  | .snapshot => none

variable (bytesToString : BlockHash → String)

/-- One call, with the messages returned so far; `none` is a panic. -/
def step : List BlockApplicationMessage × ApplicationMonitor → Call →
    Option (List BlockApplicationMessage × ApplicationMonitor)
  | (msgs, m), .blockWasApplied blockInfo => (m.blockWasApplied blockInfo).map ((msgs, ·))
  | (msgs, m), .snapshot =>
    some (msgs ++ [(m.snapshot bytesToString).1], (m.snapshot bytesToString).2)

/-- Calls from `new`. -/
def run (calls : List Call) : Option (List BlockApplicationMessage × ApplicationMonitor) :=
  calls.foldlM (step bytesToString) ([], new)

end ApplicationMonitor

/-! ## What the monitor is for -/

/-- Every block applied, in order, the number applied since the last
snapshot, and the last block applied before each snapshot. -/
structure Tally where
  applied : List Head
  sinceSnapshot : Nat
  reports : List (Option Head)
  sinceSnapshot_le : sinceSnapshot ≤ applied.length

namespace Tally

/-- Nothing applied. -/
def init : Tally := ⟨[], 0, [], le_rfl⟩

/-- What a call adds to the tally. -/
def step (t : Tally) : ApplicationMonitor.Call → Tally
  | .blockWasApplied blockInfo =>
    ⟨t.applied ++ [blockInfo], t.sinceSnapshot + 1, t.reports,
      by simpa using t.sinceSnapshot_le⟩
  | .snapshot => ⟨t.applied, 0, t.reports ++ [t.applied.getLast?], Nat.zero_le _⟩

/-- The tally of a sequence of calls. -/
def run (calls : List ApplicationMonitor.Call) : Tally := calls.foldl step init

theorem applied_foldl (t : Tally) (calls : List ApplicationMonitor.Call) :
    (calls.foldl step t).applied =
      t.applied ++ calls.filterMap ApplicationMonitor.Call.applied := by
  induction calls generalizing t with
  | nil => simp
  | cons c calls ih => cases c <;> simp [ih, step, ApplicationMonitor.Call.applied]

end Tally

namespace ApplicationMonitor

variable (bytesToString : BlockHash → String)

/-- The monitor and its messages are the tally `t`, in `usize`. -/
structure Refines (s : List BlockApplicationMessage × ApplicationMonitor) (t : Tally) : Prop where
  totalApplied : s.2.totalApplied.toNat = t.applied.length
  currentApplied : s.2.currentApplied.toNat = t.sinceSnapshot
  lastAppliedBlock : s.2.lastAppliedBlock = t.applied.getLast?
  messages : s.1 = t.reports.map fun last => ⟨last.map (BlockInfo.ofHead bytesToString)⟩

theorem refines_init : Refines bytesToString ([], new) Tally.init := ⟨rfl, rfl, rfl, rfl⟩

variable {bytesToString}

theorem Refines.applied_le {s : List BlockApplicationMessage × ApplicationMonitor} {t : Tally}
    (h : Refines bytesToString s t) : t.applied.length ≤ usizeMax := by
  have hlt := s.2.totalApplied.isLt
  rw [h.totalApplied] at hlt
  unfold usizeMax; omega

/-- The step lemma: a call that keeps the count within `usize::MAX` does not
panic and keeps the monitor on its tally. -/
theorem step_refines {s : List BlockApplicationMessage × ApplicationMonitor} {t : Tally}
    {c : Call} (h : Refines bytesToString s t) (hc : (t.step c).applied.length ≤ usizeMax) :
    ∃ s', step bytesToString s c = some s' ∧ Refines bytesToString s' (t.step c) := by
  obtain ⟨msgs, m⟩ := s
  cases c with
  | blockWasApplied blockInfo =>
    have ht : m.totalApplied.toNat = t.applied.length := h.totalApplied
    have hs : m.currentApplied.toNat = t.sinceSnapshot := h.currentApplied
    simp only [Tally.step, List.length_append, List.length_singleton] at hc
    obtain ⟨m', hm', h₁, h₂, h₃⟩ :=
      blockWasApplied_of_lt blockInfo (by rw [ht, hs]; exact t.sinceSnapshot_le) (by omega)
    refine ⟨(msgs, m'), by simp [step, hm'], ⟨?_, ?_, by simp [Tally.step, h₃], h.messages⟩⟩
    · simp [Tally.step, h₁, ht]
    · simp [Tally.step, h₂, hs]
  | snapshot =>
    have hm : msgs = _ := h.messages
    have hl : m.lastAppliedBlock = _ := h.lastAppliedBlock
    exact ⟨_, rfl, h.totalApplied, rfl, hl, by simp [Tally.step, snapshot, hm, hl]⟩

/-- The run lemma, from any state on its tally. -/
theorem foldlM_refines {s : List BlockApplicationMessage × ApplicationMonitor} {t : Tally}
    {calls : List Call} (h : Refines bytesToString s t)
    (hc : (calls.foldl Tally.step t).applied.length ≤ usizeMax) :
    ∃ s', calls.foldlM (step bytesToString) s = some s' ∧
      Refines bytesToString s' (calls.foldl Tally.step t) := by
  induction calls generalizing s t with
  | nil => exact ⟨s, rfl, h⟩
  | cons c calls ih =>
    have hc₁ : (t.step c).applied.length ≤ usizeMax := by
      rw [List.foldl_cons, Tally.applied_foldl, List.length_append] at hc; omega
    obtain ⟨s₁, h₁, hr₁⟩ := step_refines h hc₁
    obtain ⟨s', h', hr'⟩ := ih hr₁ hc
    exact ⟨s', by simp [h₁, h'], hr'⟩

/-- Past `usize::MAX` applied blocks, from any state on its tally, the run
panics. -/
theorem foldlM_none {s : List BlockApplicationMessage × ApplicationMonitor} {t : Tally}
    {calls : List Call} (h : Refines bytesToString s t)
    (hc : usizeMax < (calls.foldl Tally.step t).applied.length) :
    calls.foldlM (step bytesToString) s = none := by
  induction calls generalizing s t with
  | nil => exact absurd h.applied_le (Nat.not_le.2 hc)
  | cons c calls ih =>
    by_cases hc₁ : (t.step c).applied.length ≤ usizeMax
    · obtain ⟨s₁, h₁, hr₁⟩ := step_refines h hc₁
      simp [h₁, ih hr₁ hc]
    · cases c with
      | snapshot => exact absurd h.applied_le (by simpa [Tally.step] using hc₁)
      | blockWasApplied blockInfo =>
        obtain ⟨msgs, m⟩ := s
        have ht : m.totalApplied.toNat = t.applied.length := h.totalApplied
        have hmax : m.totalApplied.toNat = usizeMax := by
          have := h.applied_le
          simp only [Tally.step, List.length_append, List.length_singleton] at hc₁
          omega
        simp [step, blockWasApplied_of_max blockInfo hmax]

variable (bytesToString)

/-- Any sequence of calls that applies at most `usize::MAX` blocks runs
without a panic and ends on its tally (and so does each of its prefixes). -/
theorem monitor_refines_tally (calls : List Call)
    (h : (Tally.run calls).applied.length ≤ usizeMax) :
    ∃ s, run bytesToString calls = some s ∧ Refines bytesToString s (Tally.run calls) :=
  foldlM_refines (refines_init bytesToString) h

/-- Two blocks applied around a snapshot. -/
theorem monitor_refines_tally_snapshot :
    (Tally.run [.blockWasApplied ⟨⟨[1]⟩, 1⟩, .snapshot, .blockWasApplied ⟨⟨[2]⟩, 2⟩]).applied.length
        ≤ usizeMax ∧
      ∃ s, run (fun _ => "") [.blockWasApplied ⟨⟨[1]⟩, 1⟩, .snapshot, .blockWasApplied ⟨⟨[2]⟩, 2⟩] =
          some s ∧ Refines (fun _ => "") s
            (Tally.run [.blockWasApplied ⟨⟨[1]⟩, 1⟩, .snapshot, .blockWasApplied ⟨⟨[2]⟩, 2⟩]) :=
  ⟨by decide, monitor_refines_tally _ _ (by decide)⟩

/-- A sequence of calls that applies more than `usize::MAX` blocks panics. -/
theorem monitor_panics_past_max (calls : List Call)
    (h : usizeMax < (Tally.run calls).applied.length) : run bytesToString calls = none :=
  foldlM_none (refines_init bytesToString) h

/-- `2^64` blocks applied in a row. -/
theorem monitor_panics_at_two_pow_64 :
    usizeMax < (Tally.run (List.replicate (2 ^ 64) (.blockWasApplied ⟨⟨[1]⟩, 1⟩))).applied.length ∧
      run (fun _ => "") (List.replicate (2 ^ 64) (.blockWasApplied ⟨⟨[1]⟩, 1⟩)) = none :=
  have h : usizeMax <
      (Tally.run (List.replicate (2 ^ 64) (.blockWasApplied ⟨⟨[1]⟩, 1⟩))).applied.length := by
    rw [Tally.run, Tally.applied_foldl, List.filterMap_replicate]
    simp only [Call.applied, Tally.init, List.nil_append, List.length_replicate]
    unfold usizeMax; decide
  ⟨h, monitor_panics_past_max _ _ h⟩

end ApplicationMonitor

end Tezedge
