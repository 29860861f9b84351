import Vellar.Lib.ReadModifyWrite

/-!
# Vellar.Extension.State — the paired wallet and the grants

`apps/extension/lib/state.ts`: one stored state, read and written whole by each call.  `updates_kept`: when no read fails and
no call writes over a write that landed since its own read, the calls take effect one after another, and nothing revoked and
nothing of another wallet comes back.
-/

set_option autoImplicit false

namespace Vellar.Extension

open Machine Processes ReadModifyWrite

/-! ## The state -/

inductive Network where
  | testnet
  | mainnet
deriving DecidableEq, Repr

def Network.text : Network → String
  | .testnet => "testnet"
  | .mainnet => "mainnet"

inductive Capability where
  | connect
  | view_address
  | sign
deriving DecidableEq, Repr

structure PermissionGrant where
  origin : String
  accountId : String
  network : Network
  capabilities : List Capability
  grantedAt : String
deriving DecidableEq, Repr

structure PairedWallet where
  address : String
  network : Network
  rpcUrl : String
  keyId : String
  walletWasmHash : String
  webAppOrigin : Option String
deriving DecidableEq, Repr

structure ExtensionState where
  pairedWallet : Option PairedWallet
  grants : List PermissionGrant
deriving DecidableEq, Repr

/-- What the schema accepts: no text is empty. -/
def permissionGrantSchema (g : PermissionGrant) : Bool :=
  g.origin ≠ "" && g.accountId ≠ "" && g.capabilities ≠ [] && g.grantedAt ≠ ""

def pairedWalletSchema (w : PairedWallet) : Bool :=
  w.address ≠ "" && w.rpcUrl ≠ "" && w.keyId ≠ "" && w.walletWasmHash ≠ "" && w.webAppOrigin.all (· ≠ "")

def stateSchema (state : ExtensionState) : Bool :=
  state.pairedWallet.all pairedWalletSchema && state.grants.all permissionGrantSchema

def EMPTY_STATE : ExtensionState := ⟨none, []⟩

def MAX_PAIRED_ORIGINS : ℕ := 50

/-- What is stored; none where it has not the shape of a state. -/
abbrev Stored := Option ExtensionState

def loadState (raw : Stored) : ExtensionState := (raw.filter stateSchema).getD EMPTY_STATE

/-! ## The calls -/

def PermissionGrant.IsFor (origin network : String) (g : PermissionGrant) : Prop :=
  g.origin = origin ∧ g.network.text = network

instance (origin network : String) (g : PermissionGrant) : Decidable (g.IsFor origin network) :=
  inferInstanceAs (Decidable (_ ∧ _))

def setPairedWallet (wallet : PairedWallet) (state : ExtensionState) : Outcome Stored :=
  .writes (some
    { pairedWallet := some wallet
      grants := if state.pairedWallet.map (·.address) = some wallet.address then state.grants else [] })

def distinctOrigins (grants : List PermissionGrant) : List String := (grants.map (·.origin)).dedup

/-- Refuses with `PairedOriginLimitError`. -/
def addGrant (grant : PermissionGrant) (state : ExtensionState) : Outcome Stored :=
  let isNewOrigin := ¬ ∃ g ∈ state.grants, g.origin = grant.origin
  if isNewOrigin ∧ MAX_PAIRED_ORIGINS ≤ (distinctOrigins state.grants).length then .refuses
  else
    .writes (some
      { state with grants := state.grants.filter (fun g => ¬ g.IsFor grant.origin grant.network.text) ++ [grant] })

/-- Writes nothing when nothing was granted. -/
def revokeGrant (origin network : String) (state : ExtensionState) : Outcome Stored :=
  let grants := state.grants.filter fun g => ¬ g.IsFor origin network
  if grants.length = state.grants.length then .keeps else .writes (some { state with grants := grants })

inductive StateCall where
  | addGrant (grant : PermissionGrant)
  | revokeGrant (origin network : String)
  | setPairedWallet (wallet : PairedWallet)
  | clearPairedWallet
deriving DecidableEq, Repr

def StateCall.effect (state : ExtensionState) : StateCall → Outcome Stored
  | .addGrant grant => Extension.addGrant grant state
  | .revokeGrant origin network => Extension.revokeGrant origin network state
  | .setPairedWallet wallet => Extension.setPairedWallet wallet state
  | .clearPairedWallet => .writes (some EMPTY_STATE)

def StateCall.blind : StateCall → Option Stored
  | .clearPairedWallet => some (some EMPTY_STATE)
  | _ => none

/-- The calls over the store; `loadState` makes a failed read the empty state. -/
def stateOps : Ops Stored StateCall where
  effect call raw := call.effect (loadState raw)
  blind := StateCall.blind
  effect_blind {call raw} h seen := by
    cases call with
    | clearPairedWallet => exact congrArg Outcome.writes (Option.some.inj h)
    | addGrant | revokeGrant | setPairedWallet => cases h
  fallback := none

/-- What callers pass is what the schemas accept. -/
def StateCall.accepted : StateCall → Bool
  | .addGrant grant => permissionGrantSchema grant
  | .setPairedWallet wallet => pairedWalletSchema wallet
  | .revokeGrant _ _ | .clearPairedWallet => true

/-! ## One call -/

structure ValidState (state : ExtensionState) : Prop where
  accepted : stateSchema state = true
  single : (state.grants.map fun g => (g.origin, g.network)).Nodup
  capped : (distinctOrigins state.grants).length ≤ MAX_PAIRED_ORIGINS

section Calls

variable {state : ExtensionState} {raw : Stored} {call : StateCall}

theorem loadState_valid (h : ValidState state) : loadState (some state) = state := by
  unfold loadState
  rw [Option.filter_some, if_pos h.accepted]
  rfl

/-- What is read back has no other grants than what was written. -/
theorem loadState_grants : ∀ g ∈ (loadState (some state)).grants, g ∈ state.grants := by
  unfold loadState
  rw [Option.filter_some]
  split
  · exact fun g hg => hg
  · exact fun g hg => absurd hg List.not_mem_nil

/-- A call writes no grant but its own and those it read. -/
theorem effect_grants (h : call.effect state = .writes raw) :
    ∀ g ∈ (loadState raw).grants, g ∈ state.grants ∨ call = .addGrant g := by
  intro g hg
  cases call with
  | addGrant grant =>
    simp only [StateCall.effect, Extension.addGrant] at h
    split at h
    · cases h
    · obtain rfl := Outcome.writes.inj h
      rcases List.mem_append.mp (loadState_grants g hg) with hg | hg
      · exact .inl (List.mem_of_mem_filter hg)
      · exact .inr (congrArg StateCall.addGrant (List.mem_singleton.mp hg).symm)
  | revokeGrant origin network =>
    simp only [StateCall.effect, Extension.revokeGrant] at h
    split at h
    · cases h
    · obtain rfl := Outcome.writes.inj h
      exact .inl (List.mem_of_mem_filter (loadState_grants g hg))
  | setPairedWallet wallet =>
    simp only [StateCall.effect, Extension.setPairedWallet] at h
    obtain rfl := Outcome.writes.inj h
    have hmem := loadState_grants g hg
    dsimp only at hmem
    split at hmem
    · exact .inl hmem
    · exact absurd hmem List.not_mem_nil
  | clearPairedWallet =>
    obtain rfl := Outcome.writes.inj h
    exact absurd (loadState_grants g hg) List.not_mem_nil

/-- After a revocation nothing is granted, whether it wrote or not. -/
theorem revokeGrant_writes {origin network : String} (h : Extension.revokeGrant origin network state = .writes raw) :
    ∀ g ∈ (loadState raw).grants, ¬ g.IsFor origin network := by
  unfold Extension.revokeGrant at h
  dsimp only at h
  split at h
  · cases h
  · obtain rfl := Outcome.writes.inj h
    exact fun g hg => of_decide_eq_true (List.mem_filter.mp (loadState_grants g hg)).2

theorem revokeGrant_keeps {origin network : String} (h : Extension.revokeGrant origin network state = .keeps) :
    ∀ g ∈ state.grants, ¬ g.IsFor origin network := by
  unfold Extension.revokeGrant at h
  dsimp only at h
  split at h
  · rename_i hsame
    intro g hg
    rw [← List.filter_sublist.eq_of_length hsame] at hg
    exact of_decide_eq_true (List.mem_filter.mp hg).2
  · cases h

theorem stateSchema_iff : stateSchema state = true ↔
    state.pairedWallet.all pairedWalletSchema = true ∧ ∀ g ∈ state.grants, permissionGrantSchema g = true := by
  unfold stateSchema
  rw [Bool.and_eq_true, List.all_eq_true]

theorem length_distinctOrigins (grants : List PermissionGrant) :
    (distinctOrigins grants).length = (grants.map (·.origin)).toFinset.card := (List.card_toFinset _).symm

theorem ValidState.sublist (h : ValidState state) {grants : List PermissionGrant} (hsub : grants.Sublist state.grants) :
    ValidState { state with grants := grants } := by
  obtain ⟨hwallet, hgrants⟩ := stateSchema_iff.mp h.accepted
  refine ⟨stateSchema_iff.mpr ⟨hwallet, fun g hg => hgrants g (hsub.subset hg)⟩, h.single.sublist (hsub.map _), ?_⟩
  refine le_trans ?_ h.capped
  rw [length_distinctOrigins, length_distinctOrigins]
  exact Finset.card_le_card fun origin horigin =>
    List.mem_toFinset.mpr ((hsub.map _).subset (List.mem_toFinset.mp horigin))

/-- The state with a grant in place of those of its origin and network. -/
def withGrant (grant : PermissionGrant) (state : ExtensionState) : ExtensionState :=
  { state with grants := state.grants.filter (fun g => ¬ g.IsFor grant.origin grant.network.text) ++ [grant] }

/-- Fewer than fifty origins, or the origin is one of them. -/
theorem addGrant_writes {grant : PermissionGrant} (h : Extension.addGrant grant state = .writes raw) :
    raw = some (withGrant grant state) ∧
      ((∃ g ∈ state.grants, g.origin = grant.origin) ∨ (distinctOrigins state.grants).length < MAX_PAIRED_ORIGINS) := by
  unfold Extension.addGrant at h
  dsimp only at h
  split at h
  · cases h
  · rename_i hroom
    refine ⟨(Outcome.writes.inj h).symm, ?_⟩
    rw [not_and_or, not_not, not_le] at hroom
    exact hroom

theorem withGrant_valid {grant : PermissionGrant} (h : ValidState state) (hgrant : permissionGrantSchema grant = true)
    (hroom : (∃ g ∈ state.grants, g.origin = grant.origin) ∨ (distinctOrigins state.grants).length < MAX_PAIRED_ORIGINS) :
    ValidState (withGrant grant state) := by
  obtain ⟨hwallet, hgrants⟩ := stateSchema_iff.mp h.accepted
  have hsub : (state.grants.filter fun g => ¬ g.IsFor grant.origin grant.network.text).Sublist state.grants :=
    List.filter_sublist
  refine ⟨stateSchema_iff.mpr ⟨hwallet, fun g hg => ?_⟩, ?_, ?_⟩
  · rcases List.mem_append.mp hg with hg | hg
    · exact hgrants g (hsub.subset hg)
    · rw [List.mem_singleton.mp hg]
      exact hgrant
  · unfold withGrant
    rw [List.map_append, List.nodup_append]
    refine ⟨h.single.sublist (hsub.map _), List.nodup_singleton _, ?_⟩
    rintro key hkey key' hkey' rfl
    obtain ⟨g, hg, rfl⟩ := List.mem_map.mp hkey
    obtain ⟨horigin, hnetwork⟩ := Prod.mk.inj (List.mem_singleton.mp hkey')
    have hother := of_decide_eq_true (List.mem_filter.mp hg).2
    exact hother ⟨horigin, congrArg Network.text hnetwork⟩
  · have hinsert : ((withGrant grant state).grants.map (·.origin)).toFinset ⊆
        insert grant.origin (state.grants.map (·.origin)).toFinset := fun origin horigin => by
      rw [Finset.mem_insert, List.mem_toFinset]
      obtain ⟨g, hg, rfl⟩ := List.mem_map.mp (List.mem_toFinset.mp horigin)
      rcases List.mem_append.mp hg with hg | hg
      · exact .inr (List.mem_map_of_mem (hsub.subset hg))
      · rw [List.mem_singleton.mp hg]
        exact .inl rfl
    rw [length_distinctOrigins]
    have hcapped := h.capped
    rw [length_distinctOrigins] at hcapped hroom
    rcases hroom with ⟨g, hg, horigin⟩ | hroom
    · rw [Finset.insert_eq_of_mem (List.mem_toFinset.mpr (List.mem_map.mpr ⟨g, hg, horigin⟩))] at hinsert
      exact (Finset.card_le_card hinsert).trans hcapped
    · exact (Finset.card_le_card hinsert).trans ((Finset.card_insert_le _ _).trans hroom)

theorem empty_valid : ValidState EMPTY_STATE := ⟨rfl, List.nodup_nil, Nat.zero_le _⟩

/-- What a call does to a valid state. -/
structure Applied (call : StateCall) (state state' : ExtensionState) : Prop where
  valid : ValidState state'
  grants : ∀ g ∈ state'.grants, g ∈ state.grants ∨ call = .addGrant g
  wallet : state'.pairedWallet.map (·.address) = state.pairedWallet.map (·.address) ∨ state'.grants = []
  revoked : ∀ origin network, call = .revokeGrant origin network → ∀ g ∈ state'.grants, ¬ g.IsFor origin network

theorem Applied.refl (h : ValidState state) (hcall : ∀ origin network, call = .revokeGrant origin network →
    ∀ g ∈ state.grants, ¬ g.IsFor origin network) : Applied call state state :=
  ⟨h, fun _ => .inl, .inl rfl, hcall⟩

theorem apply_eq (h : ValidState state) : apply stateOps (some state) call =
    match call.effect state with
    | .writes raw => raw
    | .keeps | .refuses => some state := by
  unfold apply stateOps
  dsimp only
  rw [loadState_valid h]
  cases call.effect state <;> rfl

/-- **Every call keeps the state valid**, and adds no grant but its own. -/
theorem apply_spec (hcall : call.accepted = true) (h : ValidState state) :
    ∃ state', apply stateOps (some state) call = some state' ∧ Applied call state state' := by
  rw [apply_eq h]
  cases call with
  | addGrant grant =>
    simp only [StateCall.effect]
    cases heffect : Extension.addGrant grant state with
    | writes raw =>
      obtain ⟨rfl, hroom⟩ := addGrant_writes heffect
      refine ⟨_, rfl, withGrant_valid h hcall hroom, fun g hg => ?_, .inl rfl, fun _ _ h => by cases h⟩
      rcases List.mem_append.mp hg with hg | hg
      · exact .inl (List.mem_of_mem_filter hg)
      · exact .inr (congrArg StateCall.addGrant (List.mem_singleton.mp hg).symm)
    | keeps | refuses => exact ⟨state, rfl, .refl h fun _ _ h => by cases h⟩
  | revokeGrant origin network =>
    simp only [StateCall.effect]
    have hsub : (state.grants.filter fun g => ¬ g.IsFor origin network).Sublist state.grants := List.filter_sublist
    unfold Extension.revokeGrant
    dsimp only
    by_cases hsame : (state.grants.filter fun g => ¬ g.IsFor origin network).length = state.grants.length
    · rw [if_pos hsame]
      refine ⟨state, rfl, .refl h ?_⟩
      rintro _ _ ⟨⟩ g hg
      rw [← hsub.eq_of_length hsame] at hg
      exact of_decide_eq_true (List.mem_filter.mp hg).2
    · rw [if_neg hsame]
      refine ⟨_, rfl, h.sublist hsub, fun g hg => .inl (hsub.subset hg), .inl rfl, ?_⟩
      rintro _ _ ⟨⟩ g hg
      exact of_decide_eq_true (List.mem_filter.mp hg).2
  | setPairedWallet wallet =>
    have hsub : (if state.pairedWallet.map (·.address) = some wallet.address then state.grants else []).Sublist
        state.grants := by
      split
      · exact List.Sublist.refl _
      · exact List.nil_sublist _
    obtain ⟨haccepted, hsingle, hcapped⟩ := h.sublist hsub
    refine ⟨_, rfl, ⟨stateSchema_iff.mpr ⟨hcall, (stateSchema_iff.mp haccepted).2⟩, hsingle, hcapped⟩,
      fun g hg => .inl (hsub.subset hg), ?_, fun _ _ h => by cases h⟩
    by_cases hsame : state.pairedWallet.map (·.address) = some wallet.address
    · exact .inl hsame.symm
    · exact .inr (if_neg hsame)
  | clearPairedWallet =>
    exact ⟨EMPTY_STATE, rfl, empty_valid, fun g hg => absurd hg List.not_mem_nil, .inr rfl, fun _ _ h => by cases h⟩

end Calls

/-! ## Runs -/

/-- A stored state that is valid. -/
def ValidStored (raw : Stored) : Prop := ∃ state, raw = some state ∧ ValidState state

section Runs

variable (init : ExtensionState) (calls : ℕ → StateCall)

/-- The store and the calls after a schedule of their accesses. -/
def callsAt (schedule : List (ℕ × Bool)) : Config (World Stored StateCall) (Phase Stored StateCall) :=
  reached stateOps (some init) calls schedule

def stateAt (schedule : List (ℕ × Bool)) : ExtensionState := loadState (callsAt init calls schedule).shared.cell

/-- A call has returned. -/
def Returned (schedule : List (ℕ × Bool)) (i : ℕ) (call : StateCall) : Prop :=
  (callsAt init calls schedule).procs i = .done i call true

/-- No update of a run is lost. -/
structure UpdatesKept (schedule : List (ℕ × Bool)) : Prop where
  /-- The calls that have returned, one after another, in an order that later calls extend. -/
  serial : ∃ order : List (ℕ × Bool) → List (ℕ × StateCall),
    (∀ pre, pre <+: schedule → Serial stateOps (some init) (order pre) (callsAt init calls pre)) ∧
      ∀ pre, pre <+: schedule → order pre <+: order schedule
  /-- What a call revokes as it returns stays away until a call that returns later grants it. -/
  revoked : ∀ pre a mid, pre ++ a :: mid <+: schedule → ∀ i origin network,
    ¬ Returned init calls pre i (.revokeGrant origin network) →
    Returned init calls (pre ++ [a]) i (.revokeGrant origin network) →
    (∀ j g, g.IsFor origin network → Returned init calls (pre ++ a :: mid) j (.addGrant g) →
      Returned init calls (pre ++ [a]) j (.addGrant g)) →
    ∀ g ∈ (stateAt init calls (pre ++ a :: mid)).grants, ¬ g.IsFor origin network
  /-- A step that changes the wallet leaves no grant. -/
  changed : ∀ pre a, pre ++ [a] <+: schedule →
    (stateAt init calls (pre ++ [a])).pairedWallet.map (·.address) ≠
      (stateAt init calls pre).pairedWallet.map (·.address) →
    (stateAt init calls (pre ++ [a])).grants = []
  single : ∀ pre, pre <+: schedule → ((stateAt init calls pre).grants.map fun g => (g.origin, g.network)).Nodup
  capped : ∀ pre, pre <+: schedule → (distinctOrigins (stateAt init calls pre).grants).length ≤ MAX_PAIRED_ORIGINS

end Runs

section Kept

variable {init : ExtensionState} {calls : ℕ → StateCall} {schedule : List (ℕ × Bool)}

/-- No read of a run fails, and no call writes over a write that landed since its own read. -/
def UndisturbedRun (init : ExtensionState) (calls : ℕ → StateCall) (schedule : List (ℕ × Bool)) : Prop :=
  Along (step (exec stateOps)) (fun c a => Undisturbed stateOps a.2 (c.procs a.1) c.shared)
    (start (some init) calls) schedule

theorem serial_valid {raw : Stored} {order : List (ℕ × StateCall)} (hcalls : ∀ q ∈ order, q.2.accepted = true)
    (h : ValidStored raw) : ValidStored (serial stateOps raw order) :=
  serial_keeps (fun q hq raw hraw => by
    obtain ⟨state, rfl, hstate⟩ := hraw
    obtain ⟨state', heq, happlied⟩ := apply_spec (hcalls q hq) hstate
    exact ⟨state', heq, happlied.valid⟩) h

/-- Grants that no later call adds stay away. -/
theorem serial_away {raw : Stored} (order : List (ℕ × StateCall)) (origin network : String)
    (hcalls : ∀ q ∈ order, q.2.accepted = true) (hnone : ∀ q ∈ order, ∀ g, q.2 = .addGrant g → ¬ g.IsFor origin network)
    (h : ∃ state, raw = some state ∧ ValidState state ∧ ∀ g ∈ state.grants, ¬ g.IsFor origin network) :
    ∃ state, serial stateOps raw order = some state ∧ ValidState state ∧ ∀ g ∈ state.grants, ¬ g.IsFor origin network :=
  serial_keeps (P := fun raw => ∃ state, raw = some state ∧ ValidState state ∧ ∀ g ∈ state.grants, ¬ g.IsFor origin network)
    (fun q hq raw hraw => by
      obtain ⟨state, rfl, hstate, haway⟩ := hraw
      obtain ⟨state', heq, happlied⟩ := apply_spec (hcalls q hq) hstate
      refine ⟨state', heq, happlied.valid, fun g hg => ?_⟩
      rcases happlied.grants g hg with hold | hadd
      · exact haway g hold
      · exact hnone q hq g hadd) h

theorem log_upto (h : UndisturbedRun init calls schedule) : ∀ pre, pre <+: schedule →
    Serial stateOps (some init) (callsAt init calls pre).shared.log (callsAt init calls pre) :=
  serial_upto h

/-- What is logged is a call that was made. -/
theorem logged_accepted (hcalls : ∀ i, (calls i).accepted = true) (h : UndisturbedRun init calls schedule)
    {pre : List (ℕ × Bool)} (hpre : pre <+: schedule) :
    ∀ q ∈ (callsAt init calls pre).shared.log, q.2.accepted = true := by
  intro q hq
  have hdone := ((log_upto h pre hpre).succeeded q.1 q.2).mp hq
  have hcall : ((callsAt init calls pre).procs q.1).call = (q.1, calls q.1) := call_reached q.1
  rw [hdone] at hcall
  rw [show q.2 = calls q.1 from (Prod.mk.inj hcall).2]
  exact hcalls q.1

theorem valid_upto (hinit : ValidState init) (hcalls : ∀ i, (calls i).accepted = true)
    (h : UndisturbedRun init calls schedule) {pre : List (ℕ × Bool)} (hpre : pre <+: schedule) :
    ∃ state, (callsAt init calls pre).shared.cell = some state ∧ stateAt init calls pre = state ∧ ValidState state := by
  obtain ⟨state, hcell, hstate⟩ : ValidStored (callsAt init calls pre).shared.cell := by
    rw [(log_upto h pre hpre).cell]
    exact serial_valid (logged_accepted hcalls h hpre) ⟨init, rfl, hinit⟩
  exact ⟨state, hcell, by rw [stateAt, hcell, loadState_valid hstate], hstate⟩

/-- A step logs nothing and leaves the store, or logs one call and applies it. -/
theorem step_applied (hinit : ValidState init) (hcalls : ∀ i, (calls i).accepted = true)
    (h : UndisturbedRun init calls schedule) {pre : List (ℕ × Bool)} {a : ℕ × Bool} (hpre : pre ++ [a] <+: schedule) :
    ((callsAt init calls (pre ++ [a])).shared.log = (callsAt init calls pre).shared.log ∧
        stateAt init calls (pre ++ [a]) = stateAt init calls pre) ∨
      ∃ q, (callsAt init calls (pre ++ [a])).shared.log = (callsAt init calls pre).shared.log ++ [q] ∧
        Applied q.2 (stateAt init calls pre) (stateAt init calls (pre ++ [a])) := by
  have hpre₀ : pre <+: schedule := List.IsPrefix.trans ⟨[a], rfl⟩ hpre
  have hafter := (log_upto h _ hpre).cell
  have hbefore := (log_upto h _ hpre₀).cell
  obtain ⟨state, hcell, hstate, hvalid⟩ := valid_upto hinit hcalls h hpre₀
  have hsnoc : (callsAt init calls (pre ++ [a])).shared.log = (callsAt init calls pre).shared.log ∨
      ∃ q, (callsAt init calls (pre ++ [a])).shared.log = (callsAt init calls pre).shared.log ++ [q] := log_snoc pre a
  rcases hsnoc with heq | ⟨q, heq⟩
  · refine .inl ⟨heq, ?_⟩
    rw [stateAt, stateAt, hafter, hbefore, heq]
  · refine .inr ⟨q, heq, ?_⟩
    have hq : q.2.accepted = true :=
      logged_accepted hcalls h hpre q (heq ▸ List.mem_append_right _ List.mem_cons_self)
    obtain ⟨state', happly, happlied⟩ := apply_spec hq hvalid
    have hstate' : stateAt init calls (pre ++ [a]) = state' := by
      rw [stateAt, hafter, heq, serial_append, serial_singleton, ← hbefore, hcell, happly, loadState_valid happlied.valid]
    rw [hstate, hstate']
    exact happlied

/-- What a call revokes as it returns stays away until it is granted again. -/
theorem revoked_away (hinit : ValidState init) (hcalls : ∀ i, (calls i).accepted = true)
    (h : UndisturbedRun init calls schedule) {pre mid : List (ℕ × Bool)} {a : ℕ × Bool} (hpre : pre ++ a :: mid <+: schedule)
    {i : ℕ} {origin network : String} (hbefore : ¬ Returned init calls pre i (.revokeGrant origin network))
    (hafter : Returned init calls (pre ++ [a]) i (.revokeGrant origin network))
    (hlater : ∀ j g, g.IsFor origin network → Returned init calls (pre ++ a :: mid) j (.addGrant g) →
      Returned init calls (pre ++ [a]) j (.addGrant g)) :
    ∀ g ∈ (stateAt init calls (pre ++ a :: mid)).grants, ¬ g.IsFor origin network := by
  have hpre₁ : pre ++ [a] <+: schedule := List.IsPrefix.trans ⟨mid, by simp⟩ hpre
  have hpre₀ : pre <+: schedule := List.IsPrefix.trans ⟨[a], rfl⟩ hpre₁
  have hmem := ((log_upto h _ hpre₁).succeeded i (.revokeGrant origin network)).mpr hafter
  have hnot := mt ((log_upto h _ hpre₀).succeeded i (.revokeGrant origin network)).mp hbefore
  -- The step that revokes.
  have hrevoked : ∀ g ∈ (stateAt init calls (pre ++ [a])).grants, ¬ g.IsFor origin network := by
    rcases step_applied hinit hcalls h hpre₁ with ⟨heq, -⟩ | ⟨q, heq, happlied⟩
    · exact absurd (heq ▸ hmem) hnot
    · have hq : (i, StateCall.revokeGrant origin network) = q := by
        rcases List.mem_append.mp (heq ▸ hmem) with hold | hnew
        · exact absurd hold hnot
        · exact List.mem_singleton.mp hnew
      exact happlied.revoked origin network (hq ▸ rfl)
  -- The calls that take effect after it.
  obtain ⟨rest, hrest⟩ : (callsAt init calls (pre ++ [a])).shared.log <+: (callsAt init calls (pre ++ a :: mid)).shared.log := by
    have hsplit : pre ++ a :: mid = (pre ++ [a]) ++ mid := List.append_cons ..
    rw [hsplit]
    exact log_prefix (pre ++ [a]) mid
  have hdistinct := (log_upto h _ hpre).distinct
  rw [← hrest, List.map_append, List.nodup_append] at hdistinct
  have hin : ∀ q ∈ rest, q ∈ (callsAt init calls (pre ++ a :: mid)).shared.log := fun q hq =>
    hrest ▸ List.mem_append_right _ hq
  obtain ⟨state₁, hcell₁, hstate₁, hvalid₁⟩ := valid_upto hinit hcalls h hpre₁
  rw [hstate₁] at hrevoked
  obtain ⟨state, hcell, hvalid, haway⟩ := serial_away rest origin network
    (fun q hq => logged_accepted hcalls h hpre q (hin q hq)) (fun q hq g hg hfor => by
      have hdone := ((log_upto h _ hpre).succeeded q.1 q.2).mp (hin q hq)
      rw [hg] at hdone
      have hearly := ((log_upto h _ hpre₁).succeeded q.1 (.addGrant g)).mpr (hlater q.1 g hfor hdone)
      exact hdistinct.2.2 q.1 (List.mem_map.mpr ⟨_, hearly, rfl⟩) q.1 (List.mem_map_of_mem hq) rfl)
    ⟨state₁, hcell₁, hvalid₁, hrevoked⟩
  have hfinal : (callsAt init calls (pre ++ a :: mid)).shared.cell = some state := by
    rw [(log_upto h _ hpre).cell, ← hrest, serial_append, ← (log_upto h _ hpre₁).cell, hcell]
  rw [stateAt, hfinal, loadState_valid hvalid]
  exact haway

/-- **No update is lost** in an undisturbed run. -/
theorem updates_kept (hinit : ValidState init) (hcalls : ∀ i, (calls i).accepted = true)
    (h : UndisturbedRun init calls schedule) : UpdatesKept init calls schedule := by
  refine ⟨⟨fun pre => (callsAt init calls pre).shared.log, log_upto h, ?_⟩, ?_, ?_, ?_, ?_⟩
  · rintro pre ⟨more, rfl⟩
    exact log_prefix pre more
  · exact fun pre a mid hpre i origin network hbefore hafter hlater =>
      revoked_away hinit hcalls h hpre hbefore hafter hlater
  · intro pre a hpre hchanged
    rcases step_applied hinit hcalls h hpre with ⟨-, heq⟩ | ⟨q, -, happlied⟩
    · rw [heq] at hchanged
      exact absurd rfl hchanged
    · exact happlied.wallet.resolve_left hchanged
  · intro pre hpre
    obtain ⟨state, -, hstate, hvalid⟩ := valid_upto hinit hcalls h hpre
    rw [hstate]
    exact hvalid.single
  · intro pre hpre
    obtain ⟨state, -, hstate, hvalid⟩ := valid_upto hinit hcalls h hpre
    rw [hstate]
    exact hvalid.capped

end Kept

/-! ## Two calls -/

def sampleWallet : PairedWallet where
  address := "CBIELTK6YBZJU5UP2WWQEUCYKLPU6AUNZ2BQ4WWFEIE3USCIHMXQDAMA"
  network := .testnet
  rpcUrl := "https://soroban-testnet.stellar.org"
  keyId := "a2V5"
  walletWasmHash := "ecd990f0b45ca6817149b6175f79b32efb442f35731985a084131e8265c4cd90"
  webAppOrigin := some "https://wallet.example"

def sampleGrant (origin : String) : PermissionGrant where
  origin := origin
  accountId := sampleWallet.address
  network := .testnet
  capabilities := [.connect, .view_address, .sign]
  grantedAt := "2026-01-01T00:00:00.000Z"

def sampleState : ExtensionState := ⟨some sampleWallet, [sampleGrant "https://dapp.example"]⟩

/-- One page is revoked and another is granted. -/
def sampleCalls : ℕ → StateCall
  | 0 => .revokeGrant "https://dapp.example" "testnet"
  | 1 => .addGrant (sampleGrant "https://other.example")
  | _ => .clearPairedWallet

theorem sampleState_valid : ValidState sampleState := ⟨by decide, by decide, by decide⟩

theorem updates_kept_sample :
    UpdatesKept sampleState sampleCalls [(0, true), (0, true), (1, true), (1, true)] :=
  updates_kept sampleState_valid
    (fun i => by
      match i with
      | 0 => rfl
      | 1 => decide
      | _ + 2 => rfl)
    ⟨fun _ => rfl, fun _ => rfl, fun _ => rfl, fun _ => rfl, trivial⟩

/-- **A revoked grant comes back** with a grant that was read before the revocation was written. -/
theorem updates_lost : ValidState sampleState ∧
    ¬ UpdatesKept sampleState sampleCalls [(0, true), (1, true), (0, true), (1, true)] := by
  refine ⟨sampleState_valid, fun h => ?_⟩
  have haway := h.revoked [(0, true), (1, true)] (0, true) [(1, true)] List.prefix_rfl 0 "https://dapp.example" "testnet"
    (fun hdone => by cases hdone) rfl (fun j g hfor hdone => by
      match j with
      | 0 => cases hdone
      | 1 =>
        cases hdone
        exact absurd hfor.1 (by decide)
      | _ + 2 => cases hdone)
  exact haway (sampleGrant "https://dapp.example") (by decide) ⟨rfl, rfl⟩

end Vellar.Extension
