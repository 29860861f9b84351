import Vellar.Lib.Machine

/-!
# Vellar.Lib.Processes — processes that share a state

Any number of processes, each with a local state, run over one shared state; an action names the process that
moves and what its environment answers it.  `Stable` is the proof obligation for an invariant in three parts, one about
the shared state, one about a process and the shared state, one about two processes: what a move of one process
does to itself, to the others and to the shared state.  `inv_run` then holds the three parts in every run, under
any schedule.  `Tallied` is the rule for a shared counter that every process has its own share in.
-/

set_option autoImplicit false

namespace Vellar.Processes

open Machine

variable {σ π ι : Type*}

structure Config (σ π : Type*) where
  shared : σ
  procs : ℕ → π

section Step

variable (exec : ι → π → σ → π × σ)

/-- One process moves. -/
def step (c : Config σ π) (a : ℕ × ι) : Config σ π where
  shared := (exec a.2 (c.procs a.1) c.shared).2
  procs := Function.update c.procs a.1 (exec a.2 (c.procs a.1) c.shared).1

variable {exec} {c : Config σ π} {a : ℕ × ι}

theorem procs_step_self : (step exec c a).procs a.1 = (exec a.2 (c.procs a.1) c.shared).1 :=
  Function.update_self ..

theorem procs_step_other {j : ℕ} (h : j ≠ a.1) : (step exec c a).procs j = c.procs j :=
  Function.update_of_ne h ..

end Step

/-- The invariant: `J` of the shared state, `Own` of every process, `Apart` of every two. -/
structure Inv (J : σ → Prop) (Own : σ → π → Prop) (Apart : π → π → Prop) (c : Config σ π) : Prop where
  shared : J c.shared
  own : ∀ i, Own c.shared (c.procs i)
  apart : ∀ i j, i ≠ j → Apart (c.procs i) (c.procs j)

/-- What a move of a process with `G` must keep. -/
structure Stable (exec : ι → π → σ → π × σ) (G : ι → π → σ → Prop) (J : σ → Prop) (Own : σ → π → Prop)
    (Apart : π → π → Prop) : Prop where
  symm : ∀ p q, Apart p q → Apart q p
  shared : ∀ x p s, G x p s → J s → Own s p → J (exec x p s).2
  own : ∀ x p s, G x p s → J s → Own s p → Own (exec x p s).2 (exec x p s).1
  /-- The others do not notice. -/
  other : ∀ x p s q, G x p s → J s → Own s p → Own s q → Apart p q → Own (exec x p s).2 q
  apart : ∀ x p s q, G x p s → J s → Own s p → Own s q → Apart p q → Apart (exec x p s).1 q

section Rules

variable {exec : ι → π → σ → π × σ} {G : ι → π → σ → Prop} {J : σ → Prop} {Own : σ → π → Prop} {Apart : π → π → Prop}

/-- **Step**: any process may move. -/
theorem Stable.inv_step (h : Stable exec G J Own Apart) {c : Config σ π} (hc : Inv J Own Apart c) (a : ℕ × ι)
    (hG : G a.2 (c.procs a.1) c.shared) : Inv J Own Apart (step exec c a) := by
  have hown := hc.own a.1
  refine ⟨h.shared _ _ _ hG hc.shared hown, fun i => ?_, fun i j hij => ?_⟩
  · by_cases hi : i = a.1
    · rw [hi, procs_step_self]
      exact h.own _ _ _ hG hc.shared hown
    · rw [procs_step_other hi]
      exact h.other _ _ _ _ hG hc.shared hown (hc.own i) (hc.apart a.1 i (Ne.symm hi))
  · by_cases hi : i = a.1
    · have hj : j ≠ a.1 := fun hj => hij (hi.trans hj.symm)
      rw [hi, procs_step_self, procs_step_other hj]
      exact h.apart _ _ _ _ hG hc.shared hown (hc.own j) (hc.apart a.1 j (Ne.symm hj))
    · rw [procs_step_other hi]
      by_cases hj : j = a.1
      · rw [hj, procs_step_self]
        exact h.symm _ _ (h.apart _ _ _ _ hG hc.shared hown (hc.own i) (hc.apart a.1 i (Ne.symm hi)))
      · rw [procs_step_other hj]
        exact hc.apart i j hij

/-- **Run rule**: the invariant holds after every prefix of a run, under any schedule. -/
theorem Stable.inv_upto (h : Stable exec G J Own Apart) {c : Config σ π} (hc : Inv J Own Apart c)
    {l : List (ℕ × ι)} (hG : Along (step exec) (fun c a => G a.2 (c.procs a.1) c.shared) c l) :
    ∀ pre, pre <+: l → Inv J Own Apart (run (step exec) c pre) :=
  inv_prefix (P := Inv J Own Apart) (fun _ a hc hG => h.inv_step hc a hG) hc hG

end Rules

/-! ## Counters -/

section Tally

variable (share : π → ℕ) (count : σ → ℕ)

/-- The counter is the sum of the shares; from some process on, none has one. -/
def Tallied (c : Config σ π) : Prop :=
  ∃ n, (∀ i, n ≤ i → share (c.procs i) = 0) ∧ count c.shared = ∑ i ∈ Finset.range n, share (c.procs i)

variable {share count} {exec : ι → π → σ → π × σ} {c : Config σ π}

theorem tallied_of_zero (hshare : ∀ i, share (c.procs i) = 0) (hcount : count c.shared = 0) : Tallied share count c :=
  ⟨0, fun i _ => hshare i, hcount⟩

/-- The bound may be any larger one. -/
theorem Tallied.above (h : Tallied share count c) (k : ℕ) :
    ∃ n, k < n ∧ (∀ i, n ≤ i → share (c.procs i) = 0) ∧ count c.shared = ∑ i ∈ Finset.range n, share (c.procs i) := by
  obtain ⟨n, hzero, hsum⟩ := h
  refine ⟨max n (k + 1), by omega, fun i hi => hzero i (by omega), hsum.trans ?_⟩
  refine Finset.sum_subset (Finset.range_mono (le_max_left _ _)) fun i _ hi => hzero i ?_
  simpa using hi

theorem Tallied.share_le (h : Tallied share count c) (i : ℕ) : share (c.procs i) ≤ count c.shared := by
  obtain ⟨n, hi, _, hsum⟩ := h.above i
  rw [hsum]
  exact Finset.single_le_sum (f := fun i => share (c.procs i)) (fun _ _ => Nat.zero_le _) (Finset.mem_range.mpr hi)

theorem Tallied.eq_zero_iff (h : Tallied share count c) : count c.shared = 0 ↔ ∀ i, share (c.procs i) = 0 := by
  constructor
  · intro hcount i
    exact Nat.le_zero.mp (hcount ▸ h.share_le i)
  · intro hshare
    obtain ⟨n, _, hsum⟩ := h
    rw [hsum]
    exact Finset.sum_eq_zero fun i _ => hshare i

/-- **Step**: a move changes the counter by what it changes of its own share. -/
theorem Tallied.step (h : Tallied share count c) (a : ℕ × ι)
    (hmove : share (c.procs a.1) ≤ count c.shared →
      count (exec a.2 (c.procs a.1) c.shared).2 + share (c.procs a.1) =
        count c.shared + share (exec a.2 (c.procs a.1) c.shared).1) : Tallied share count (step exec c a) := by
  obtain ⟨n, hlt, hzero, hsum⟩ := h.above a.1
  have hmem : a.1 ∈ Finset.range n := Finset.mem_range.mpr hlt
  have hothers : ∀ i ∈ Finset.range n \ {a.1}, share ((Processes.step exec c a).procs i) = share (c.procs i) := by
    intro i hi
    rw [procs_step_other (by simpa using (Finset.mem_sdiff.mp hi).2)]
  refine ⟨n, fun i hi => ?_, ?_⟩
  · rw [procs_step_other (by omega)]
    exact hzero i hi
  · have hbefore := Finset.sum_eq_add_sum_sdiff_singleton_of_mem hmem fun i => share (c.procs i)
    have hafter := Finset.sum_eq_add_sum_sdiff_singleton_of_mem hmem fun i => share ((Processes.step exec c a).procs i)
    rw [Finset.sum_congr rfl hothers, procs_step_self] at hafter
    have hcount := hmove (h.share_le a.1)
    show count (exec a.2 (c.procs a.1) c.shared).2 = _
    omega

end Tally

end Vellar.Processes
