/-
# `Tezedge.Storage.Stats` — `StorageBackendStats` as an accumulator

`storage_backend.rs` adds and subtracts stats values field by field with the
plain `+` and `-` of `usize`.  In a debug build both panic when the result
leaves the type; that is the semantics modelled here, a panic being `none`.
`usize` is the 64-bit word of the targets the node is built for.

## What is proved

`stats_accounting`: run any sequence of `+=` and `-=` on an accumulator that
starts at the `Sum` of a list (the default is the `Sum` of `[]`).  If every
subtracted value is one that is currently held, and the componentwise sum of
the held values stays within `usize::MAX`, then neither the `Sum` nor any step
panics, and after every step the accumulator is that componentwise sum.

The held values are a ghost list: what the caller has added and not yet
subtracted.  The componentwise sum is read in `ℕ × ℕ × ℕ`, so the statement
compares the code's fixed-width fields with arithmetic that cannot overflow.

## What is left out

`update_reused_keys` and `From<(&EntryHash, &ContextValue)>` compute sizes
from `HashSet::capacity` and `mem::size_of`: memory layout, not arithmetic of
this module.
-/
import Mathlib

namespace Tezedge

/-! ## `usize` in a debug build -/

/-- `usize` on the 64-bit targets. -/
abbrev Usize := BitVec 64

/-- `usize::MAX`. -/
def usizeMax : Nat := 2 ^ 64 - 1

namespace Usize

/-- `a + b` on `usize`: panics (`none`) when the sum exceeds `usize::MAX`. -/
def checkedAdd (a b : Usize) : Option Usize :=
  if a.toNat + b.toNat ≤ usizeMax then some (a + b) else none

/-- `a - b` on `usize`: panics (`none`) when `b > a`. -/
def checkedSub (a b : Usize) : Option Usize :=
  if b.toNat ≤ a.toNat then some (a - b) else none

theorem checkedAdd_of_le {a b : Usize} (h : a.toNat + b.toNat ≤ usizeMax) :
    checkedAdd a b = some (a + b) := if_pos h

theorem checkedSub_of_le {a b : Usize} (h : b.toNat ≤ a.toNat) :
    checkedSub a b = some (a - b) := if_pos h

theorem toNat_add_of_le {a b : Usize} (h : a.toNat + b.toNat ≤ usizeMax) :
    (a + b).toNat = a.toNat + b.toNat := by
  rw [BitVec.toNat_add, Nat.mod_eq_of_lt (by unfold usizeMax at h; omega)]

theorem toNat_sub_of_le {a b : Usize} (h : b.toNat ≤ a.toNat) :
    (a - b).toNat = a.toNat - b.toNat := by
  rw [BitVec.toNat_sub]; omega

end Usize

/-! ## The stats value and its operators -/

/-- `StorageBackendStats`; `Default` is all fields zero. -/
structure StorageBackendStats where
  keyBytes : Usize
  valueBytes : Usize
  reusedKeysBytes : Usize
  deriving DecidableEq, Repr, Inhabited

namespace StorageBackendStats

/-- `total_as_bytes`. -/
def totalAsBytes (self : StorageBackendStats) : Option Usize := do
  let kv ← self.keyBytes.checkedAdd self.valueBytes
  kv.checkedAdd self.reusedKeysBytes

/-- `impl Add<&Self>`; the by-value `Add` and both `AddAssign`s call it. -/
def add (self other : StorageBackendStats) : Option StorageBackendStats := do
  let keyBytes ← self.keyBytes.checkedAdd other.keyBytes
  let valueBytes ← self.valueBytes.checkedAdd other.valueBytes
  let reusedKeysBytes ← self.reusedKeysBytes.checkedAdd other.reusedKeysBytes
  pure ⟨keyBytes, valueBytes, reusedKeysBytes⟩

/-- `impl Sub<&Self>`; the by-value `Sub` and both `SubAssign`s call it. -/
def sub (self other : StorageBackendStats) : Option StorageBackendStats := do
  let keyBytes ← self.keyBytes.checkedSub other.keyBytes
  let valueBytes ← self.valueBytes.checkedSub other.valueBytes
  let reusedKeysBytes ← self.reusedKeysBytes.checkedSub other.reusedKeysBytes
  pure ⟨keyBytes, valueBytes, reusedKeysBytes⟩

/-- `impl Sum<&StorageBackendStats>`: `fold(default, |acc, cur| acc + cur)`. -/
def sum (l : List StorageBackendStats) : Option StorageBackendStats :=
  l.foldlM add default

/-! ## The fields as natural numbers -/

/-- The three fields, with no width. -/
def usage (s : StorageBackendStats) : ℕ × ℕ × ℕ :=
  (s.keyBytes.toNat, s.valueBytes.toNat, s.reusedKeysBytes.toNat)

/-- Every component is at most `usize::MAX`. -/
def Fits (u : ℕ × ℕ × ℕ) : Prop :=
  u.1 ≤ usizeMax ∧ u.2.1 ≤ usizeMax ∧ u.2.2 ≤ usizeMax

instance (u : ℕ × ℕ × ℕ) : Decidable (Fits u) := inferInstanceAs (Decidable (_ ∧ _))

/-- The componentwise sum of a list of stats. -/
def total (l : List StorageBackendStats) : ℕ × ℕ × ℕ := (l.map usage).sum

@[simp] theorem total_nil : total [] = 0 := rfl

@[simp] theorem total_cons (s : StorageBackendStats) (l : List StorageBackendStats) :
    total (s :: l) = s.usage + total l := by
  simp [total]

theorem usage_default : (default : StorageBackendStats).usage = 0 := rfl

theorem usage_injective : Function.Injective usage := by
  intro a b h
  simp only [usage, Prod.mk.injEq] at h
  obtain ⟨h1, h2, h3⟩ := h
  cases a; cases b
  simp only [mk.injEq]
  exact ⟨BitVec.eq_of_toNat_eq h1, BitVec.eq_of_toNat_eq h2, BitVec.eq_of_toNat_eq h3⟩

theorem Fits.left {u v : ℕ × ℕ × ℕ} (h : Fits (u + v)) : Fits u := by
  obtain ⟨h1, h2, h3⟩ := h
  simp only [Prod.fst_add, Prod.snd_add] at h1 h2 h3
  exact ⟨by omega, by omega, by omega⟩

theorem Fits.right {u v : ℕ × ℕ × ℕ} (h : Fits (u + v)) : Fits v :=
  Fits.left (add_comm u v ▸ h)

/-- `+` does not panic when the componentwise sum fits, and is that sum. -/
theorem add_of_fits {a b : StorageBackendStats} (h : Fits (a.usage + b.usage)) :
    ∃ c, a.add b = some c ∧ c.usage = a.usage + b.usage := by
  obtain ⟨h1, h2, h3⟩ := h
  refine ⟨_, by simp only [add, Usize.checkedAdd_of_le h1, Usize.checkedAdd_of_le h2,
    Usize.checkedAdd_of_le h3]; rfl, ?_⟩
  simp only [usage, Usize.toNat_add_of_le h1, Usize.toNat_add_of_le h2,
    Usize.toNat_add_of_le h3]
  rfl

/-- `+` panics exactly when the componentwise sum does not fit. -/
theorem fits_of_add_eq_some {a b c : StorageBackendStats} (h : a.add b = some c) :
    Fits (a.usage + b.usage) := by
  simp only [add, Usize.checkedAdd] at h
  split_ifs at h with h1 h2 h3 <;> simp at h
  exact ⟨h1, h2, h3⟩

/-- `-` does not panic when `a` is `b` plus some `r`, and is that `r`. -/
theorem sub_of_eq_add {a b : StorageBackendStats} {r : ℕ × ℕ × ℕ}
    (h : a.usage = b.usage + r) : ∃ c, a.sub b = some c ∧ c.usage = r := by
  simp only [usage, Prod.ext_iff, Prod.fst_add, Prod.snd_add] at h
  have h1 : b.keyBytes.toNat ≤ a.keyBytes.toNat := by omega
  have h2 : b.valueBytes.toNat ≤ a.valueBytes.toNat := by omega
  have h3 : b.reusedKeysBytes.toNat ≤ a.reusedKeysBytes.toNat := by omega
  refine ⟨_, by simp only [sub, Usize.checkedSub_of_le h1, Usize.checkedSub_of_le h2,
    Usize.checkedSub_of_le h3]; rfl, ?_⟩
  simp only [usage, Usize.toNat_sub_of_le h1, Usize.toNat_sub_of_le h2,
    Usize.toNat_sub_of_le h3]
  ext <;> simp <;> omega

/-- `(a + b) - b == a` whenever `a + b` does not panic. -/
theorem add_sub_cancel_of_add {a b c : StorageBackendStats} (h : a.add b = some c) :
    c.sub b = some a := by
  obtain ⟨c', hc', hu⟩ := add_of_fits (fits_of_add_eq_some h)
  obtain rfl : c = c' := Option.some.inj (h.symm.trans hc')
  obtain ⟨d, hd, hdu⟩ := sub_of_eq_add (show c.usage = b.usage + a.usage by rw [hu, add_comm])
  rwa [usage_injective hdu] at hd

/-- Up to `usize::MAX` in one field: the sum does not panic, and `-` undoes it. -/
theorem add_sub_cancel_at_max :
    (⟨0xfffffffffffffffe, 0, 5⟩ : StorageBackendStats).add ⟨1, 7, 0⟩ =
        some ⟨0xffffffffffffffff, 7, 5⟩ ∧
      (⟨0xffffffffffffffff, 7, 5⟩ : StorageBackendStats).sub ⟨1, 7, 0⟩ =
        some ⟨0xfffffffffffffffe, 0, 5⟩ :=
  ⟨by decide, add_sub_cancel_of_add (by decide)⟩

/-- `total_as_bytes` panics exactly when the three fields together exceed
`usize::MAX`, and otherwise returns their sum: its first `+` cannot overflow
unless its second does. -/
theorem totalAsBytes_eq (s : StorageBackendStats) :
    s.totalAsBytes =
      if s.keyBytes.toNat + s.valueBytes.toNat + s.reusedKeysBytes.toNat ≤ usizeMax then
        some (BitVec.ofNat 64 (s.keyBytes.toNat + s.valueBytes.toNat + s.reusedKeysBytes.toNat))
      else none := by
  unfold totalAsBytes
  split_ifs with h
  · have h₁ : s.keyBytes.toNat + s.valueBytes.toNat ≤ usizeMax := by omega
    have h₂ : (s.keyBytes + s.valueBytes).toNat + s.reusedKeysBytes.toNat ≤ usizeMax := by
      rw [Usize.toNat_add_of_le h₁]; exact h
    rw [Usize.checkedAdd_of_le h₁]
    show Usize.checkedAdd (s.keyBytes + s.valueBytes) s.reusedKeysBytes = _
    rw [Usize.checkedAdd_of_le h₂]
    congr 1
    apply BitVec.eq_of_toNat_eq
    rw [Usize.toNat_add_of_le h₂, Usize.toNat_add_of_le h₁, BitVec.toNat_ofNat,
      Nat.mod_eq_of_lt (by unfold usizeMax at h; omega)]
  · cases hkv : s.keyBytes.checkedAdd s.valueBytes with
    | none => rfl
    | some kv =>
      have h₁ := hkv
      unfold Usize.checkedAdd at h₁
      split_ifs at h₁ with hle
      cases h₁
      show Usize.checkedAdd (s.keyBytes + s.valueBytes) s.reusedKeysBytes = none
      unfold Usize.checkedAdd
      rw [if_neg (by rw [Usize.toNat_add_of_le hle]; exact h)]

/-! ## `Sum` -/

theorem total_erase {v : StorageBackendStats} {held : List StorageBackendStats}
    (h : v ∈ held) : total held = v.usage + total (held.erase v) := by
  rw [← total_cons]
  exact ((List.perm_cons_erase h).map usage).sum_eq

/-- The fold of `Sum` from any accumulator: no panic while the running sum fits. -/
theorem foldlM_add {acc : StorageBackendStats} {l : List StorageBackendStats}
    (h : Fits (acc.usage + total l)) :
    ∃ c, l.foldlM add acc = some c ∧ c.usage = acc.usage + total l := by
  induction l generalizing acc with
  | nil => exact ⟨acc, rfl, by simp⟩
  | cons x l ih =>
    rw [total_cons, ← add_assoc] at h
    obtain ⟨c₁, hc₁, hu₁⟩ := add_of_fits h.left
    obtain ⟨c, hc, hu⟩ := ih (show Fits (c₁.usage + total l) from hu₁ ▸ h)
    exact ⟨c, by simp [hc₁, hc], by rw [hu, hu₁, total_cons, add_assoc]⟩

theorem sum_of_fits {l : List StorageBackendStats} (h : Fits (total l)) :
    ∃ c, sum l = some c ∧ c.usage = total l := by
  simpa [usage_default] using @foldlM_add default l (by simpa [usage_default])

theorem fits_usage (s : StorageBackendStats) : Fits s.usage :=
  ⟨Nat.le_pred_of_lt s.keyBytes.isLt, Nat.le_pred_of_lt s.valueBytes.isLt,
    Nat.le_pred_of_lt s.reusedKeysBytes.isLt⟩

/-- The converse of `foldlM_add`: a fold that does not panic stayed within
`usize::MAX` and ends at the running sum. -/
theorem fits_of_foldlM_add {acc c : StorageBackendStats} {l : List StorageBackendStats}
    (h : l.foldlM add acc = some c) :
    Fits (acc.usage + total l) ∧ c.usage = acc.usage + total l := by
  induction l generalizing acc with
  | nil => cases h; simpa using fits_usage _
  | cons x l ih =>
    rcases hx : acc.add x with _ | c₁
    · simp [hx] at h
    obtain ⟨c', hc', hu₁⟩ := add_of_fits (fits_of_add_eq_some hx)
    cases Option.some.inj (hx.symm.trans hc')
    rw [total_cons, ← add_assoc, ← hu₁]
    exact ih (by simpa [hx] using h)

/-- What `Sum` returns, when it does not panic: the componentwise total. -/
theorem sum_eq_some_iff {l : List StorageBackendStats} {c : StorageBackendStats} :
    sum l = some c ↔ Fits (total l) ∧ c.usage = total l := by
  refine ⟨fun h => by simpa [usage_default] using fits_of_foldlM_add h, fun ⟨hfit, hu⟩ => ?_⟩
  obtain ⟨c', hc', hu'⟩ := sum_of_fits hfit
  rwa [usage_injective (hu.trans hu'.symm)]

/-- `Sum` panics exactly when some field of the componentwise total exceeds
`usize::MAX`: a running sum never overflows unless the final one does. -/
theorem sum_eq_none_iff (l : List StorageBackendStats) :
    sum l = none ↔ ¬ Fits (total l) := by
  refine ⟨fun h hfit => ?_, fun h => Option.eq_none_iff_forall_not_mem.2
    fun c hc => h (sum_eq_some_iff.1 hc).1⟩
  obtain ⟨c, hc, -⟩ := sum_of_fits hfit
  exact nomatch h ▸ hc

theorem total_perm {l l' : List StorageBackendStats} (h : l.Perm l') : total l = total l' :=
  (h.map usage).sum_eq

/-- `Sum` does not depend on the order the iterator yields the values in, a
`HashMap`'s for one: the same values give the same result, or panic alike. -/
theorem sum_perm {l l' : List StorageBackendStats} (h : l.Perm l') : sum l = sum l' :=
  Option.ext fun _ => by simp only [Option.mem_def, sum_eq_some_iff, total_perm h]

/-- A full field and a value that overflows it, in both orders. -/
theorem sum_perm_overflow :
    List.Perm ([⟨0xffffffffffffffff, 0, 0⟩, ⟨1, 0, 0⟩] : List StorageBackendStats)
        [⟨1, 0, 0⟩, ⟨0xffffffffffffffff, 0, 0⟩] ∧
      sum [⟨0xffffffffffffffff, 0, 0⟩, ⟨1, 0, 0⟩] = sum [⟨1, 0, 0⟩, ⟨0xffffffffffffffff, 0, 0⟩] :=
  ⟨.swap _ _ _, sum_perm (.swap _ _ _)⟩

end StorageBackendStats

/-! ## The accumulator -/

open StorageBackendStats

/-- One statement on the accumulator: `acc += other` or `acc -= other`, by
value or by reference. -/
inductive StatsOp
  | addAssign (other : StorageBackendStats)
  | subAssign (other : StorageBackendStats)
  deriving DecidableEq, Repr

namespace StatsOp

/-- What the statement does to the accumulator. -/
def apply : StatsOp → StorageBackendStats → Option StorageBackendStats
  | addAssign other, acc => acc.add other
  | subAssign other, acc => acc.sub other

/-- Ghost: the values held after the statement. -/
def hold : StatsOp → List StorageBackendStats → List StorageBackendStats
  | addAssign other, held => other :: held
  | subAssign other, held => held.erase other

/-- The caller's side of one statement: an added value keeps the held sum
within `usize::MAX`; a subtracted value is currently held. -/
def Allowed : StatsOp → List StorageBackendStats → Prop
  | addAssign other, held => Fits (total (other :: held))
  | subAssign other, held => other ∈ held

/-- One statement keeps the accumulator equal to the held sum. -/
theorem apply_spec {op : StatsOp} {held : List StorageBackendStats} {acc : StorageBackendStats}
    (hacc : acc.usage = total held) (hfit : Fits (total held)) (hop : op.Allowed held) :
    ∃ acc', op.apply acc = some acc' ∧ acc'.usage = total (op.hold held) ∧
      Fits (total (op.hold held)) := by
  cases op with
  | addAssign v =>
    have h : Fits (acc.usage + v.usage) := by rw [hacc, add_comm, ← total_cons]; exact hop
    obtain ⟨c, hc, hu⟩ := add_of_fits h
    exact ⟨c, hc, by rw [hu, hacc, add_comm, hold, total_cons], hop⟩
  | subAssign v =>
    have hsplit := total_erase hop
    obtain ⟨c, hc, hu⟩ := sub_of_eq_add (hacc.trans hsplit)
    exact ⟨c, hc, hu, (hsplit ▸ hfit).right⟩

end StatsOp

/-- A sequence of statements on the accumulator. -/
def run (acc : StorageBackendStats) (ops : List StatsOp) : Option StorageBackendStats :=
  ops.foldlM (fun acc op => op.apply acc) acc

/-- Ghost: the values held after a sequence. -/
def heldAfter (held : List StorageBackendStats) (ops : List StatsOp) : List StorageBackendStats :=
  ops.foldl (fun held op => op.hold held) held

/-- Every statement of the sequence keeps the caller's side. -/
def Admissible : List StorageBackendStats → List StatsOp → Prop
  | _, [] => True
  | held, op :: ops => op.Allowed held ∧ Admissible (op.hold held) ops

instance StatsOp.decAllowed : (op : StatsOp) → (held : List StorageBackendStats) →
    Decidable (op.Allowed held)
  | .addAssign _, _ => inferInstanceAs (Decidable (Fits _))
  | .subAssign _, _ => inferInstanceAs (Decidable (_ ∈ _))

instance decAdmissible : (held : List StorageBackendStats) → (ops : List StatsOp) →
    Decidable (Admissible held ops)
  | _, [] => isTrue trivial
  | held, op :: ops =>
    haveI := decAdmissible (op.hold held) ops
    inferInstanceAs (Decidable (_ ∧ _))

theorem Admissible.of_append {held : List StorageBackendStats} {pre suf : List StatsOp}
    (h : Admissible held (pre ++ suf)) : Admissible held pre := by
  induction pre generalizing held with
  | nil => trivial
  | cons op pre ih => exact ⟨h.1, ih h.2⟩

/-- The run lemma: an admissible sequence never panics and ends at the held sum. -/
theorem run_spec {held : List StorageBackendStats} {ops : List StatsOp}
    {acc : StorageBackendStats} (hacc : acc.usage = total held) (hfit : Fits (total held))
    (hops : Admissible held ops) :
    ∃ acc', run acc ops = some acc' ∧ acc'.usage = total (heldAfter held ops) := by
  induction ops generalizing held acc with
  | nil => exact ⟨acc, rfl, hacc⟩
  | cons op ops ih =>
    obtain ⟨acc₁, h₁, hu₁, hfit₁⟩ := StatsOp.apply_spec hacc hfit hops.1
    obtain ⟨acc', h', hu'⟩ := ih hu₁ hfit₁ hops.2
    exact ⟨acc', by simp [run, h₁] at h' ⊢; exact h', hu'⟩

theorem stats_accounting (l : List StorageBackendStats) (ops : List StatsOp)
    (hfit : Fits (total l)) (hops : Admissible l ops) :
    ∃ acc, sum l = some acc ∧
      ∀ pre, pre <+: ops →
        ∃ acc', run acc pre = some acc' ∧ acc'.usage = total (heldAfter l pre) := by
  obtain ⟨acc, hsum, hu⟩ := sum_of_fits hfit
  refine ⟨acc, hsum, fun pre ⟨suf, hpre⟩ => ?_⟩
  exact run_spec hu hfit (Admissible.of_append (hpre ▸ hops))

/-- Start at the `Sum` of one value, add a second, subtract the first. -/
theorem stats_accounting_add_sub :
    let s₁ : StorageBackendStats := ⟨32, 1024, 0⟩
    let s₂ : StorageBackendStats := ⟨32, 7, 64⟩
    Fits (total [s₁]) ∧ Admissible [s₁] [.addAssign s₂, .subAssign s₁] ∧
      ∃ acc, sum [s₁] = some acc ∧
        ∀ pre, pre <+: [.addAssign s₂, .subAssign s₁] →
          ∃ acc', run acc pre = some acc' ∧ acc'.usage = total (heldAfter [s₁] pre) :=
  ⟨by decide, by decide, stats_accounting _ _ (by decide) (by decide)⟩

end Tezedge
