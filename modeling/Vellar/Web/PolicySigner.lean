import Vellar.Lib.Processes

/-!
# Vellar.Web.PolicySigner — attaching and detaching policies, and signatures beside

`createPolicySignerActions` of `apps/web/lib/policy-signer.ts`: any number of calls over one set of pending
detaches, each running from one await to the next.  `guard_iff`: the guard of `requestSignature` tells a pending
detach, in every state of a run, exactly when no detach of a policy settles while another one of it is pending.
-/

set_option autoImplicit false

namespace Vellar.Web.PolicySigner

open Machine Processes

/-! ## The wallet kit -/

inductive SignerStoreTag where
  | persistent
  | temporary
deriving DecidableEq

/-- The arguments of `kit.addPolicy`; `limits` and `expiration` are `undefined`. -/
structure PolicyAttachArgs where
  policyContractId : String
  limits : Option Empty
  store : SignerStoreTag
  expiration : Option Empty
deriving DecidableEq

def policyAttachArgs (policyContractId : String) : PolicyAttachArgs := ⟨policyContractId, none, .persistent, none⟩

/-- What a call asks of the kit and of the backend; a policy stands for its `SignerKey.Policy`. -/
inductive Request (τ : Type) where
  | addPolicy (args : PolicyAttachArgs)
  | remove (policy : String)
  | sign (tx : τ)
  | submitTransaction (signedXdr network : String)
deriving DecidableEq

structure Deps (τ : Type) where
  network : String
  /-- A text as it is, or what `toXDR()` returns; none if that throws. -/
  xdr : τ → Option String

/-- How a call ends. -/
inductive Outcome (τ : Type) where
  | hash (hash : String)
  | signed (signed : Option τ)
  | beingDetached (message : String)
  | failed
deriving DecidableEq

/-- Where a call waits. -/
inductive Call (τ : Type) where
  | idle
  | adding
  | signingAttach (tx : τ)
  | submittingAttach
  | removing (policy : String)
  | signingDetach (policy : String) (tx : τ)
  | submittingDetach (policy : String)
  | signing
  | settled (outcome : Outcome τ)

/-- The call itself, or what the awaited promise settles to. -/
inductive Input (τ : Type) where
  | attachPolicy (policy : String)
  | detachPolicy (policy : String)
  | requestSignature (policy : String) (tx : τ)
  | tx (tx : τ)
  | signed (signed : Option τ)
  | hash (hash : String)
  | rejected

/-- The set of the closure, and what was asked so far. -/
structure Shared (τ : Type) where
  pendingDetaches : Finset String
  requests : List (Request τ)

section Model

variable {τ : Type} (d : Deps τ)

def Shared.ask (s : Shared τ) (r : Request τ) : Shared τ := { s with requests := s.requests ++ [r] }

/-- `toXdr` -/
def toXdr (signed : Option τ) (fallback : τ) : Option String := d.xdr (signed.getD fallback)

/-- The `finally` of `detachPolicy`. -/
def settleDetach (s : Shared τ) (policy : String) (outcome : Outcome τ) : Call τ × Shared τ :=
  (.settled outcome, { s with pendingDetaches := s.pendingDetaches.erase policy })

def attachPolicy (s : Shared τ) (policy : String) : Call τ × Shared τ :=
  (.adding, s.ask (.addPolicy (policyAttachArgs policy)))

def detachPolicy (s : Shared τ) (policy : String) : Call τ × Shared τ :=
  (.removing policy, { s with pendingDetaches := insert policy s.pendingDetaches }.ask (.remove policy))

def beingDetachedMessage : String :=
  "Policy is being detached — wait for the removal to confirm before requesting a signature."

def requestSignature (s : Shared τ) (policy : String) (tx : τ) : Call τ × Shared τ :=
  if policy ∈ s.pendingDetaches then (.settled (.beingDetached beingDetachedMessage), s)
  else (.signing, s.ask (.sign tx))

/-- A call up to its next await. -/
def exec (x : Input τ) (p : Call τ) (s : Shared τ) : Call τ × Shared τ :=
  match p, x with
  | .idle, .attachPolicy policy => attachPolicy s policy
  | .idle, .detachPolicy policy => detachPolicy s policy
  | .idle, .requestSignature policy tx => requestSignature s policy tx
  | .adding, .tx tx => (.signingAttach tx, s.ask (.sign tx))
  | .adding, .rejected => (.settled .failed, s)
  | .signingAttach tx, .signed signed =>
    match toXdr d signed tx with
    | some signedXdr => (.submittingAttach, s.ask (.submitTransaction signedXdr d.network))
    | none => (.settled .failed, s)
  | .signingAttach _, .rejected => (.settled .failed, s)
  | .submittingAttach, .hash hash => (.settled (.hash hash), s)
  | .submittingAttach, .rejected => (.settled .failed, s)
  | .removing policy, .tx tx => (.signingDetach policy tx, s.ask (.sign tx))
  | .removing policy, .rejected => settleDetach s policy .failed
  | .signingDetach policy tx, .signed signed =>
    match toXdr d signed tx with
    | some signedXdr => (.submittingDetach policy, s.ask (.submitTransaction signedXdr d.network))
    | none => settleDetach s policy .failed
  | .signingDetach policy _, .rejected => settleDetach s policy .failed
  | .submittingDetach policy, .hash hash => settleDetach s policy (.hash hash)
  | .submittingDetach policy, .rejected => settleDetach s policy .failed
  | .signing, .signed signed => (.settled (.signed signed), s)
  | .signing, .rejected => (.settled .failed, s)
  | p, _ => (p, s)

abbrev World (τ : Type) := Config (Shared τ) (Call τ)

def start : World τ := ⟨⟨∅, []⟩, fun _ => .idle⟩

abbrev next : World τ → ℕ × Input τ → World τ := step (exec d)

/-! ## What must hold of a run -/

/-- The policy a call is detaching. -/
def Call.detaching : Call τ → Option String
  | .removing policy | .signingDetach policy _ | .submittingDetach policy => some policy
  | .idle | .adding | .signingAttach _ | .submittingAttach | .signing | .settled _ => none

/-- A detach of the policy is pending. -/
def Pending (c : World τ) (policy : String) : Prop := ∃ i, (c.procs i).detaching = some policy

/-- A signature asked for now is refused without the kit if a detach of its policy is pending, and goes to the kit if
none is; and where no detach of a policy is pending, the guard is clear. -/
structure Guarded (c : World τ) : Prop where
  refused : ∀ policy tx, Pending c policy →
    requestSignature c.shared policy tx = (.settled (.beingDetached beingDetachedMessage), c.shared)
  passed : ∀ policy tx, ¬ Pending c policy →
    requestSignature c.shared policy tx = (.signing, c.shared.ask (.sign tx))
  clear : ∀ policy, ¬ Pending c policy → policy ∉ c.shared.pendingDetaches

/-- The step settles a detach of the policy. -/
def Settles (c : World τ) (a : ℕ × Input τ) (policy : String) : Prop :=
  (c.procs a.1).detaching = some policy ∧ (exec d a.2 (c.procs a.1) c.shared).1.detaching = none

/-- A detach that settles is the only one of its policy. -/
def SettlesLast (c : World τ) (a : ℕ × Input τ) : Prop :=
  ∀ policy, Settles d c a policy → ∀ j, j ≠ a.1 → (c.procs j).detaching ≠ some policy

end Model

/-! ## One step -/

section Steps

variable {τ : Type} {d : Deps τ} {c : World τ} {a : ℕ × Input τ}

/-- What a step does to the set: it begins a detach, settles one, or leaves it. -/
theorem exec_cases (x : Input τ) (p : Call τ) (s : Shared τ) :
    ((exec d x p s).1.detaching = p.detaching ∧ (exec d x p s).2.pendingDetaches = s.pendingDetaches) ∨
    (∃ policy, p.detaching = none ∧ (exec d x p s).1.detaching = some policy ∧
      (exec d x p s).2.pendingDetaches = insert policy s.pendingDetaches) ∨
    ∃ policy, p.detaching = some policy ∧ (exec d x p s).1.detaching = none ∧
      (exec d x p s).2.pendingDetaches = s.pendingDetaches.erase policy := by
  cases p with
  | idle =>
    cases x with
    | detachPolicy policy => exact .inr (.inl ⟨policy, rfl, rfl, rfl⟩)
    | requestSignature policy tx =>
      show (requestSignature s policy tx).1.detaching = none ∧
        (requestSignature s policy tx).2.pendingDetaches = s.pendingDetaches ∨ _
      unfold requestSignature
      split_ifs <;> exact .inl ⟨rfl, rfl⟩
    | attachPolicy | tx | signed | hash | rejected => exact .inl ⟨rfl, rfl⟩
  | adding | submittingAttach | signing => cases x <;> exact .inl ⟨rfl, rfl⟩
  | settled outcome => cases x <;> exact .inl ⟨rfl, rfl⟩
  | signingAttach tx =>
    cases x with
    | signed signed =>
      refine .inl ?_
      simp only [exec]
      cases toXdr d signed tx <;> exact ⟨rfl, rfl⟩
    | attachPolicy | detachPolicy | requestSignature | tx | hash | rejected => exact .inl ⟨rfl, rfl⟩
  | removing policy =>
    cases x with
    | rejected => exact .inr (.inr ⟨policy, rfl, rfl, rfl⟩)
    | attachPolicy | detachPolicy | requestSignature | tx | signed | hash => exact .inl ⟨rfl, rfl⟩
  | signingDetach policy tx =>
    cases x with
    | rejected => exact .inr (.inr ⟨policy, rfl, rfl, rfl⟩)
    | signed signed =>
      simp only [exec]
      cases toXdr d signed tx with
      | some signedXdr => exact .inl ⟨rfl, rfl⟩
      | none => exact .inr (.inr ⟨policy, rfl, rfl, rfl⟩)
    | attachPolicy | detachPolicy | requestSignature | tx | hash => exact .inl ⟨rfl, rfl⟩
  | submittingDetach policy =>
    cases x with
    | rejected | hash => exact .inr (.inr ⟨policy, rfl, rfl, rfl⟩)
    | attachPolicy | detachPolicy | requestSignature | tx | signed => exact .inl ⟨rfl, rfl⟩

theorem guarded_iff [Inhabited τ] :
    Guarded c ↔ ∀ policy, policy ∈ c.shared.pendingDetaches ↔ Pending c policy := by
  constructor
  · intro h policy
    refine ⟨fun hmem => ?_, fun hpending => ?_⟩
    · by_contra hnot
      exact h.clear policy hnot hmem
    · by_contra hnot
      have hrefused := h.refused policy default hpending
      simp [requestSignature, hnot] at hrefused
  · intro h
    refine ⟨fun policy tx hpending => ?_, fun policy tx hnot => ?_, fun policy hnot hmem => ?_⟩
    · exact if_pos ((h policy).mpr hpending)
    · exact if_neg fun hmem => hnot ((h policy).mp hmem)
    · exact hnot ((h policy).mp hmem)

/-- After a step, a detach is pending where the call that moved has it or another one has. -/
theorem pending_next (policy : String) : Pending (next d c a) policy ↔
    (exec d a.2 (c.procs a.1) c.shared).1.detaching = some policy ∨
      ∃ j, j ≠ a.1 ∧ (c.procs j).detaching = some policy := by
  constructor
  · rintro ⟨i, hi⟩
    by_cases he : i = a.1
    · rw [he, procs_step_self] at hi
      exact .inl hi
    · rw [procs_step_other he] at hi
      exact .inr ⟨i, he, hi⟩
  · rintro (hself | ⟨j, hj, hother⟩)
    · exact ⟨a.1, by rwa [procs_step_self]⟩
    · exact ⟨j, by rwa [procs_step_other hj]⟩

theorem pending_split (policy : String) : Pending c policy ↔
    (c.procs a.1).detaching = some policy ∨ ∃ j, j ≠ a.1 ∧ (c.procs j).detaching = some policy := by
  constructor
  · rintro ⟨i, hi⟩
    by_cases he : i = a.1
    · exact .inl (he ▸ hi)
    · exact .inr ⟨i, he, hi⟩
  · rintro (hself | ⟨j, -, hother⟩)
    · exact ⟨a.1, hself⟩
    · exact ⟨j, hother⟩

/-- A step that settles nothing needs no guard. -/
theorem settlesLast_of_none (h : ∀ policy, ¬ Settles d c a policy) : SettlesLast d c a :=
  fun policy hsettles => absurd hsettles (h policy)

/-- **Step**: the guard keeps telling the pending detaches just when the step settles no detach beside another one of
the same policy. -/
theorem guarded_next_iff [Inhabited τ] (h : Guarded c) : Guarded (next d c a) ↔ SettlesLast d c a := by
  rw [guarded_iff] at h ⊢
  have hset : (next d c a).shared.pendingDetaches = (exec d a.2 (c.procs a.1) c.shared).2.pendingDetaches := rfl
  simp only [hset, pending_next]
  rcases exec_cases (d := d) a.2 (c.procs a.1) c.shared with
    ⟨hcall, hkept⟩ | ⟨p, hbefore, hafter, hbegun⟩ | ⟨p, hbefore, hafter, hsettled⟩
  · have hnone : ∀ policy, ¬ Settles d c a policy := by
      rintro policy ⟨hsome, hnone⟩
      exact absurd (hsome.symm.trans (hcall.symm.trans hnone)) (Option.some_ne_none policy)
    refine iff_of_true (fun policy => ?_) (settlesLast_of_none hnone)
    rw [hkept, hcall, h policy]
    exact pending_split policy
  · have hnone : ∀ policy, ¬ Settles d c a policy := by
      rintro policy ⟨hsome, -⟩
      exact absurd (hsome.symm.trans hbefore) (Option.some_ne_none policy)
    refine iff_of_true (fun policy => ?_) (settlesLast_of_none hnone)
    rw [hbegun, hafter, Finset.mem_insert, h policy, pending_split (a := a), hbefore, Option.some.injEq, eq_comm]
    simp
  · -- the settled policy leaves the set: right unless another detach of it is pending
    constructor
    · rintro hall policy ⟨hsome, -⟩ j hj hother
      obtain rfl : p = policy := Option.some.inj (hbefore.symm.trans hsome)
      have hmem := (hall p).mpr (.inr ⟨j, hj, hother⟩)
      rw [hsettled] at hmem
      exact Finset.notMem_erase p _ hmem
    · intro hlast policy
      have hnone := hlast p ⟨hbefore, hafter⟩
      rw [hsettled, hafter, Finset.mem_erase, h policy, pending_split (a := a), hbefore]
      constructor
      · rintro ⟨hne, heq | hother⟩
        · exact absurd (Option.some.inj heq).symm hne
        · exact .inr hother
      · rintro (habsurd | ⟨j, hj, hother⟩)
        · exact absurd habsurd (Option.some_ne_none policy).symm
        · exact ⟨fun he => hnone j hj (he ▸ hother), .inr ⟨j, hj, hother⟩⟩

end Steps

/-! ## Runs -/

section Runs

variable {τ : Type}

theorem guarded_start [Inhabited τ] : Guarded (start : World τ) := by
  rw [guarded_iff]
  intro policy
  simp [start, Pending, Call.detaching]

/-- **The guard of a signature**: whatever calls run, and however the kit and the backend answer them, the guard tells
in every state of the run which policies have a detach pending, exactly when no detach settles while another one of its
policy is pending. -/
theorem guard_iff [Inhabited τ] (d : Deps τ) (ops : List (ℕ × Input τ)) :
    (∀ pre, pre <+: ops → Guarded (run (next d) start pre)) ↔ Along (next d) (SettlesLast d) start ops :=
  inv_prefix_iff (fun _ _ h _ => guarded_next_iff h) guarded_start along_true

/-- Two detaches of one policy overlap: the first is rejected, the other one is still pending, and a signature asked
beside it goes to the kit. -/
theorem overlap_unguarded :
    let d : Deps String := ⟨"testnet", some⟩
    let c := run (next d) start [(0, .detachPolicy "CPOLICY"), (1, .detachPolicy "CPOLICY"), (0, .rejected)]
    Pending c "CPOLICY" ∧ requestSignature c.shared "CPOLICY" "xdr" = (.signing, c.shared.ask (.sign "xdr")) ∧
      ¬ Guarded c := by
  intro d c
  have hpending : Pending c "CPOLICY" := ⟨1, rfl⟩
  have hclear : "CPOLICY" ∉ c.shared.pendingDetaches := by decide
  refine ⟨hpending, if_neg hclear, fun h => hclear ?_⟩
  exact (guarded_iff.mp h "CPOLICY").mpr hpending

end Runs

end Vellar.Web.PolicySigner
