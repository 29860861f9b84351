import Vellar.Extension.Answers
import Vellar.Worker.JsText

/-!
# Vellar.Extension.NamedNetwork — signatures on the network a page names

`packages/provider-sdk/src/sep43.ts` turns the passphrase of a call into the network of its request, which the router checks once.
`signs_where_named`: in a run that does not change the network of the paired wallet under the call, what it signs is signed
on the network named, when the passphrase is that of a network.
-/

set_option autoImplicit false

namespace Vellar.Extension

open Machine Processes
open Worker (includes truthy)

/-! ## The provider -/

def passphraseToNetwork (passphrase : Option String) : Network :=
  match truthy passphrase with
  | some passphrase => if includes passphrase "Public Global Stellar Network" then .mainnet else .testnet
  | none => .testnet

/-- `signTransaction`, `signAuthEntry` and `signMessage`. -/
inductive Sep43Call where
  | signTransaction (xdr : String)
  | signAuthEntry (authEntry : String)
  | signMessage (message : String)

def Sep43Call.request (network : Network) : Sep43Call → ProviderRequest
  | .signTransaction xdr => .sign_transaction xdr network
  | .signAuthEntry authEntry => .sign_auth_entry authEntry network
  | .signMessage message => .sign_message message network

/-- What a call sends, for the passphrase of its options and what `getNetwork` gives; nothing where that throws. -/
def Sep43Call.sends (call : Sep43Call) (networkPassphrase : Option String) (getNetwork : Option Network) : Option ProviderRequest :=
  match truthy networkPassphrase with
  | some passphrase => some (call.request (passphraseToNetwork (some passphrase)))
  | none => getNetwork.map fun network => call.request network

def ResponsePayload.IsSignature : ResponsePayload → Prop
  | .sign_transaction _ | .sign_auth_entry _ | .sign_message _ => True
  | _ => False

/-! ## What is promised -/

section Promise

/-- What is stored is a wallet on the network of the passphrase. -/
def OnPassphrase (state : ExtensionState) (passphrase : String) : Prop :=
  ∃ wallet, state.pairedWallet = some wallet ∧ networkPassphrase wallet.network = passphrase

/-- Among the events is a signature for call `c`, or its resolution with one. -/
def SignsFor (c : ℕ) (events : List Event) : Prop :=
  (∃ e, .signed e ∈ events ∧ e.promise = c) ∨ ∃ s, .settled s ∈ events ∧ s.promise = c ∧ s.payload.IsSignature

variable (urls : Urls) (pairOrigins : PairOriginPolicy) (names : Names) (storage : Stored) (jobs : ℕ → Job)

/-- Call `c` signs on the network that the passphrase names. -/
structure SignsWhereNamed (schedule : List (ℕ × Reply)) (c : ℕ) (passphrase : String) : Prop where
  signed : ∀ pre a, pre ++ [a] <+: schedule → ∀ added,
    (workerAt urls pairOrigins names storage jobs (pre ++ [a])).shared.log =
      (workerAt urls pairOrigins names storage jobs pre).shared.log ++ added →
    SignsFor c added → OnPassphrase (loadState (workerAt urls pairOrigins names storage jobs pre).shared.storage) passphrase
  /-- The passphrase of no network is refused. -/
  refused : (∀ network, networkPassphrase network ≠ passphrase) →
    .routed c ∉ (workerAt urls pairOrigins names storage jobs schedule).shared.log

/-- The entry waits, is being approved, or is in flight. -/
def Waiting (b : Background) (e : Entry) : Prop := Open b e ∨ e ∈ b.manager.flying

/-- No write changes the network of the paired wallet while the call waits. -/
def Steady (c : ℕ) (x : Reply) (t : Task) (b : Background) : Prop :=
  match t with
  | .writing _ _ _ raw _ => ∀ text, x = .succeeds text → (∃ e, Waiting b e ∧ e.promise = c) →
      (loadState raw).pairedWallet.map (·.network) = (loadState b.storage).pairedWallet.map (·.network)
  | _ => True

end Promise

/-! ## What is settled with a signature -/

section Unsigned

variable {urls : Urls} {pairOrigins : PairOriginPolicy} {names : Names} {b b' b'' : Background} {x : Reply} {i : ℕ} {e : Entry}

/-- Nothing is settled with a signature. -/
def Unsigned (b b' : Background) : Prop :=
  ∃ added, b'.log = b.log ++ added ∧ ∀ s, .settled s ∈ added → ¬ s.payload.IsSignature

theorem Unsigned.of_log (h : b'.log = b.log) : Unsigned b b' :=
  ⟨[], h.trans (List.append_nil _).symm, fun _ hs => absurd hs List.not_mem_nil⟩

theorem Unsigned.trans (h : Unsigned b b') (h' : Unsigned b' b'') : Unsigned b b'' := by
  obtain ⟨added, hlog, hnone⟩ := h
  obtain ⟨added', hlog', hnone'⟩ := h'
  refine ⟨added ++ added', by rw [hlog', hlog, List.append_assoc], fun s hs => ?_⟩
  rcases List.mem_append.mp hs with hs | hs
  · exact hnone s hs
  · exact hnone' s hs

theorem unsigned_add {events : List Event} (h : ∀ s, .settled s ∈ events → ¬ s.payload.IsSignature) : Unsigned b (b.add events) :=
  ⟨events, rfl, h⟩

theorem unsigned_settle {r : TabManager × List Settlement} (h : ∀ s ∈ r.2, ¬ s.payload.IsSignature) : Unsigned b (b.settle r) := by
  refine ⟨r.2.map .settled, rfl, fun s hs => ?_⟩
  obtain ⟨s', hs', heq⟩ := List.mem_map.mp hs
  obtain rfl := Event.settled.inj heq
  exact h s' hs'

theorem finishResolving_settles {m : TabManager} {id : String} {payload : Option ResponsePayload} {s : Settlement}
    (hs : s ∈ (m.finishResolving id payload).2) : ∃ item, m.inFlight.find id = some item ∧ s.promise = item.entry.promise ∧
      payload = some s.payload := by
  unfold TabManager.finishResolving at hs
  split at hs
  · exact absurd hs List.not_mem_nil
  · next item hfind =>
    obtain ⟨p, hp, rfl⟩ := List.mem_map.mp hs
    exact ⟨item, hfind, rfl, Option.mem_toList.mp hp⟩

theorem unsigned_finish {payload : Option ResponsePayload} (h : ∀ p, payload = some p → ¬ p.IsSignature) :
    Unsigned b (finish i e b payload).2 := by
  refine (unsigned_settle fun s hs => ?_).trans (unsigned_add fun s hs => ?_)
  · obtain ⟨item, -, -, hpayload⟩ := finishResolving_settles hs
    exact h _ hpayload
  · cases List.mem_singleton.mp hs

theorem unsigned_finishInternal {message : String} : Unsigned b (finishInternal i e b x message).2 :=
  unsigned_finish fun p hp => by
    obtain rfl := Option.some.inj hp
    exact id

theorem route_respond_unsigned {request : ProviderRequest} {raw : String} {state : ExtensionState} {payload : ResponsePayload}
    {revoke : Bool} (h : routeProviderRequest urls request raw state pairOrigins = .respond payload revoke) : ¬ payload.IsSignature := by
  unfold routeProviderRequest at h
  split at h
  · cases h
    exact id
  · split at h
    · split at h
      · cases h
      · cases h
        exact id
    · cases h
      exact id
    · split at h
      · cases h
        exact id
      · split at h
        · cases request with
          | connect | get_address | sign_transaction | sign_auth_entry | sign_message =>
            simp only [routePaired, routeSign] at h
            split at h
            · cases h <;> exact id
            · cases h <;> exact id
          | disconnect | get_network | pair_status =>
            cases h
            exact id
          | pair => cases h
        · cases h
          exact id

theorem handleProviderRequest_unsigned {envelopeId : String} {request : ProviderRequest} {sender : Sender} :
    Unsigned b (handleProviderRequest urls pairOrigins names i envelopeId request sender x b).2 := by
  unfold handleProviderRequest
  split
  · refine unsigned_add fun s hs => ?_
    cases List.mem_singleton.mp hs
  · refine unsigned_add fun s hs => ?_
    obtain rfl := Event.settled.inj (List.mem_singleton.mp hs)
    exact id
  · dsimp only
    split
    · next normalized hroute =>
      unfold requestApproval
      cases names with
      | unbound =>
        refine unsigned_add fun s hs => ?_
        rcases List.mem_pair.mp hs with hs | hs <;> cases hs
      | bound =>
        have hrouted : Unsigned b (b.add [.routed i]) := unsigned_add fun s hs => by cases List.mem_singleton.mp hs
        have hsettled : Unsigned b ((b.add [.routed i]).settle (b.manager.supersede normalized request)) :=
          hrouted.trans (unsigned_settle fun s hs => by
            obtain ⟨e, -, rfl⟩ := List.mem_map.mp hs
            exact id)
        refine hsettled.trans ⟨[.queued ⟨envelopeId, normalized, request, sender.tab.getD none, i⟩], rfl, fun s hs => ?_⟩
        cases List.mem_singleton.mp hs
    · next payload revoke hroute =>
      split
      · exact .of_log rfl
      · refine unsigned_add fun s hs => ?_
        obtain rfl := Event.settled.inj (List.mem_singleton.mp hs)
        exact route_respond_unsigned hroute

theorem beginJob_unsigned {job : Job} : Unsigned b (beginJob urls pairOrigins names i job x b).2 := by
  cases job with
  | providerRequest envelopeId request sender => exact handleProviderRequest_unsigned
  | listPending =>
    refine unsigned_add fun s hs => ?_
    cases List.mem_singleton.mp hs
  | resolvePending envelopeId approved =>
    unfold beginJob handleResolvePending
    dsimp only
    split
    · exact .of_log rfl
    · next entry manager hstart =>
      have happroved : Unsigned b ({ b with manager := manager }.add [.approved i entry]) :=
        ⟨_, rfl, fun s hs => by cases List.mem_singleton.mp hs⟩
      split
      · split
        · exact happroved
        · exact happroved
      · refine Unsigned.trans (.of_log rfl) (unsigned_finish (b := { b with manager := manager }) fun p hp => ?_)
        obtain rfl := Option.some.inj hp
        exact id
  | revoke origin network => exact .of_log rfl
  | tabRemoved tabId =>
    refine unsigned_settle fun s hs => ?_
    obtain ⟨e, -, rfl⟩ := List.mem_map.mp hs
    exact id
  | windowRemoved windowId => exact .of_log rfl

theorem resolveEntry_unsigned {payload : ResponsePayload} {events : List Event} (h : ¬ payload.IsSignature)
    (hevents : ∀ s, .settled s ∉ events) : Unsigned b ((resolveEntry e b payload).add events) := by
  have hresolved : Unsigned b (resolveEntry e b payload) := unsigned_add fun s hs => by
    obtain rfl := Event.settled.inj (List.mem_singleton.mp hs)
    exact h
  exact hresolved.trans (unsigned_add fun s hs => absurd hs (hevents s))

theorem resolveLoaded_unsigned : Unsigned b (resolveLoaded i e b x).2 := by
  unfold resolveLoaded
  split
  · exact unsigned_finish fun p hp => by
      obtain rfl := Option.some.inj hp
      exact id
  · split
    · exact .of_log rfl
    · exact .of_log rfl
    · exact .of_log rfl
    · exact .of_log rfl
    · exact unsigned_finish fun p hp => by
        obtain rfl := Option.some.inj hp
        exact id

theorem afterCall_unsigned {caller : Caller} {b₀ : Background} (hlog : b₀.log = b.log) : Unsigned b (afterCall i caller b₀).2 := by
  have hstart : Unsigned b b₀ := .of_log hlog
  cases caller with
  | disconnect origin network =>
    refine hstart.trans (unsigned_add fun s hs => ?_)
    rcases List.mem_pair.mp hs with hs | hs
    · obtain rfl := Event.settled.inj hs
      exact id
    · cases hs
  | revocation => exact hstart
  | pair entry => exact hstart
  | connect entry wallet =>
    refine hstart.trans (resolveEntry_unsigned id fun s hs => ?_)
    cases List.mem_singleton.mp hs

theorem callRead_unsigned {caller : Caller} {call : StateCall} : Unsigned b (callRead i caller b call x).2 := by
  unfold callRead
  split
  · exact .of_log rfl
  · exact afterCall_unsigned rfl
  · cases caller with
    | connect entry wallet =>
      refine resolveEntry_unsigned id fun s hs => ?_
      cases List.mem_singleton.mp hs
    | disconnect origin network =>
      refine unsigned_add fun s hs => ?_
      cases List.mem_singleton.mp hs
    | revocation => exact .of_log rfl
    | pair entry =>
      refine unsigned_finish fun p hp => ?_
      obtain rfl := Option.some.inj hp
      exact id

theorem failedCall_unsigned {caller : Caller} : Unsigned b (failedCall i caller b x).2 := by
  cases caller with
  | disconnect origin network | connect entry wallet =>
    refine unsigned_add fun s hs => ?_
    cases List.mem_singleton.mp hs
  | revocation => exact .of_log rfl
  | pair entry => exact unsigned_finishInternal

theorem resolveStage_unsigned {stage : Stage} (hstage : ∀ wallet, stage ≠ .signing wallet) :
    Unsigned b (resolveStage i e b stage x).2 := by
  cases stage with
  | loading => exact resolveLoaded_unsigned
  | ensuring | hexing =>
    unfold resolveStage
    split <;> first | exact .of_log rfl | exact unsigned_finishInternal | contradiction
  | exporting =>
    unfold resolveStage
    split
    all_goals first | contradiction | skip
    · refine Unsigned.trans (unsigned_add fun s hs => ?_) (unsigned_finish nofun)
      obtain rfl := Event.settled.inj (List.mem_singleton.mp hs)
      exact id
    · exact unsigned_finishInternal
  | keying wallet =>
    unfold resolveStage
    split
    all_goals first | contradiction | skip
    · split <;> exact .of_log rfl
    · refine unsigned_finish fun p hp => ?_
      obtain rfl := Option.some.inj hp
      exact id
    · exact unsigned_finishInternal
  | signing wallet => exact absurd rfl (hstage wallet)

theorem runTask_unsigned {t : Task} (ht : ∀ i e wallet, t ≠ .resolving i e (.signing wallet)) :
    Unsigned b (runTask urls pairOrigins names x t b).2 := by
  cases t with
  | begun i job => exact beginJob_unsigned
  | opening i creating =>
    unfold runTask openApprovalWindow
    dsimp only
    split <;> exact .of_log rfl
  | calling i caller call => exact callRead_unsigned
  | writing i caller call raw seen =>
    unfold runTask callWrite
    dsimp only
    split
    · exact afterCall_unsigned rfl
    · exact failedCall_unsigned
  | resolving i e stage =>
    refine resolveStage_unsigned fun wallet hstage => ?_
    exact ht i e wallet (by rw [hstage])
  | done i => exact .of_log rfl

/-- **What is settled with a signature is in flight**, and the step is one that signs. -/
theorem settled_signature {t : Task} {added : List Event} {s : Settlement}
    (hlog : (runTask urls pairOrigins names x t b).2.log = b.log ++ added) (hs : .settled s ∈ added) (hsig : s.payload.IsSignature) :
    ∃ e ∈ b.manager.flying, s.promise = e.promise := by
  have hnot : ¬ Unsigned b (runTask urls pairOrigins names x t b).2 := by
    rintro ⟨added', hlog', hnone⟩
    obtain rfl : added = added' := List.append_cancel_left (hlog.symm.trans hlog')
    exact hnone s hs hsig
  by_cases ht : ∃ i e wallet, t = .resolving i e (.signing wallet)
  · obtain ⟨i, e, wallet, rfl⟩ := ht
    cases x with
    | succeeds text =>
      have hadded : added = [.signed e] ++ ((b.manager.finishResolving e.id (some (signedPayload e.request text))).2.map .settled ++
          [.finished i]) := by
        refine List.append_cancel_left (hlog.symm.trans ?_)
        rw [← List.append_assoc]
        exact finish_log
      rw [hadded] at hs
      rcases List.mem_append.mp hs with hs | hs
      · cases List.mem_singleton.mp hs
      · rcases List.mem_append.mp hs with hs | hs
        · obtain ⟨s', hs', heq⟩ := List.mem_map.mp hs
          obtain rfl := Event.settled.inj heq
          obtain ⟨item, hfind, hpromise, -⟩ := finishResolving_settles hs'
          exact ⟨item.entry, List.mem_map_of_mem (Table.mem_of_find hfind).1, hpromise⟩
        · cases List.mem_singleton.mp hs
    | more => exact absurd (unsigned_add fun s hs => by cases List.mem_singleton.mp hs) hnot
    | absent | window | fails => exact absurd unsigned_finishInternal hnot
  · exact absurd (runTask_unsigned fun i e wallet heq => ht ⟨i, e, wallet, heq⟩) hnot

end Unsigned

/-! ## One step -/

section Steps

variable {urls : Urls} {pairOrigins : PairOriginPolicy} {names : Names} {b b' : Background} {x : Reply} {t t' u : Task}
  {added : List Event} {e : Entry}

theorem finishResolving_flying {m : TabManager} {id : String} {payload : Option ResponsePayload}
    (he : e ∈ (m.finishResolving id payload).1.flying) : e ∈ m.flying := by
  unfold TabManager.finishResolving at he
  split at he
  · exact he
  · unfold TabManager.closeApprovalWindowIfEmpty at he
    split at he
    all_goals
      obtain ⟨item, hitem, rfl⟩ := List.mem_map.mp he
      exact List.mem_map_of_mem (Table.mem_removeWhere.mp hitem).1

theorem startResolving_flying {m m' : TabManager} {id : String} {e₀ : Entry} (h : m.startResolving id = some (e₀, m'))
    (he : e ∈ m'.flying) : e ∈ m.flying ∨ e ∈ m.pending.rows := by
  obtain ⟨hmem, -, rfl⟩ := startResolving_some h
  obtain ⟨item, hitem, rfl⟩ := List.mem_map.mp he
  rcases Table.mem_put hitem with hitem | rfl
  · exact .inl (List.mem_map_of_mem hitem)
  · exact .inr hmem

theorem handleTabRemoved_flying {m : TabManager} {tabId : ℕ} (he : e ∈ (m.handleTabRemoved tabId).1.flying) : e ∈ m.flying := by
  unfold TabManager.handleTabRemoved TabManager.closeApprovalWindowIfEmpty at he
  dsimp only at he
  split at he
  all_goals
    obtain ⟨item, hitem, rfl⟩ := List.mem_map.mp he
    obtain ⟨item', hitem', rfl⟩ := List.mem_map.mp hitem
    refine List.mem_map.mpr ⟨item', hitem', ?_⟩
    split <;> rfl

/-- An entry in flight was in flight, or waited. -/
theorem Move.flying (h : Move urls pairOrigins names b x t t' b') :
    ∀ e ∈ b'.manager.flying, e ∈ b.manager.flying ∨ e ∈ b.manager.pending.rows := by
  cases h with
  | stay | answer | unqueued | queue | list | disconnect | revoke | refocus | opened | window | closed | next | sign | connect | connectEnd
  | read => exact fun e he => .inl he
  | tab _ i tabId => exact fun e he => .inl (handleTabRemoved_flying he)
  | reject _ i id entry manager payload hstart => exact fun e he => startResolving_flying hstart (finishResolving_flying he)
  | approve _ i id entry manager hstart | approvePair _ i id entry manager params hstart =>
    exact fun e he => startResolving_flying hstart he
  | finish | exported | signed => exact fun e he => .inl (finishResolving_flying he)
  | keep _ i caller call heffect => cases caller <;> exact fun e he => .inl he
  | write text i caller call raw seen => cases caller <;> exact fun e he => .inl he

/-- What waits waited, or is queued. -/
theorem Move.waiting (h : Move urls pairOrigins names b x t t' b') (he : Waiting b' e) :
    Waiting b e ∨ Emits urls pairOrigins b x t b' (.queued e) := by
  obtain ⟨added, hlog, hemits, -⟩ := h.log
  rcases he with hopen | hflying
  · exact (h.opens hlog hemits hopen).imp_left .inl
  · rcases h.flying e hflying with hold | hpending
    · exact .inl (.inr hold)
    · exact .inl (.inl (.inl hpending))

section Invariant

variable {jobs : ℕ → Job} {c : ℕ} {request : ProviderRequest}

/-- What waits for call `c` is its request, on the network of the paired wallet. -/
def Named (c : ℕ) (request : ProviderRequest) (b : Background) : Prop :=
  ∀ e, Waiting b e → e.promise = c → e.request = request ∧
    ∃ network, request.network? = some network ∧ (loadState b.storage).pairedWallet.map (·.network) = some network

/-- A task to begin is its job, and one that resolves an entry has its approval. -/
structure Backed (jobs : ℕ → Job) (b : Background) (t : Task) : Prop where
  begun : ∀ i job, t = .begun i job → job = jobs i ∧ (∀ e, .approved i e ∉ b.log) ∧ .finished i ∉ b.log
  resolves : ∀ e, t.heldEntry = some e → Resolves b.log t.id e

/-- **Step**: what waits. -/
theorem Move.named (h : Move urls pairOrigins names b x t t' b') (hjob : ∀ id r sender, jobs c = .providerRequest id r sender → r = request)
    (hsigns : request.method.Signs) (hG : Steady c x t b) (hb : Named c request b) (ht : Backed jobs b t) : Named c request b' := by
  intro e he hpromise
  rcases h.waiting he with hold | hnew
  · obtain ⟨hrequest, network, hnetwork, hwallet⟩ := hb e hold hpromise
    refine ⟨hrequest, network, hnetwork, ?_⟩
    rcases h.storage with ⟨hstorage, -⟩ | ⟨text, i, caller, call, raw, seen, hx, rfl, hstorage, -⟩
    · rw [hstorage]
      exact hwallet
    · rw [hstorage, hG text hx ⟨e, hold, hpromise⟩]
      exact hwallet
  · have hemits := hnew
    obtain ⟨i, sender, rfl, rfl, -⟩ := hnew
    have hrequest : e.request = request := hjob e.id e.request sender (hpromise ▸ (ht.begun _ _ rfl).1.symm)
    obtain ⟨wallet, hwallet, -, hnetwork⟩ := authorizes_of_emits hemits (hrequest ▸ hsigns)
    refine ⟨hrequest, wallet.network, hrequest ▸ hnetwork, ?_⟩
    rcases h.storage with ⟨hstorage, -⟩ | ⟨text, i, caller, call, raw, seen, -, hbegun, -, -⟩
    · rw [hstorage, hwallet]
      rfl
    · cases hbegun

theorem backed_done {i : ℕ} : Backed jobs b (.done i) := ⟨fun _ _ heq => (nomatch heq), fun _ hheld => (nomatch hheld)⟩

theorem backed_afterCall {i : ℕ} {caller : Caller} (hresolves : ∀ e, caller.heldEntry = some e → Resolves b.log i e) :
    Backed jobs (afterCall i caller b).2 (afterCall i caller b).1 := by
  cases caller with
  | disconnect | revocation | connect => exact backed_done
  | pair entry =>
    refine ⟨fun _ _ heq => (nomatch heq), fun e hheld => ?_⟩
    obtain rfl := Option.some.inj hheld
    exact hresolves _ rfl

/-- **Step**: the task itself. -/
theorem Move.own_backed (h : Move urls pairOrigins names b x t t' b') (ht : Backed jobs b t) : Backed jobs b' t' := by
  cases h with
  | stay | answer | unqueued | list | tab | reject | opened | window | closed | finish | exported | signed | connectEnd => exact backed_done
  | queue | refocus | disconnect | revoke => exact ⟨fun _ _ heq => (nomatch heq), fun _ hheld => (nomatch hheld)⟩
  | approve _ i id entry manager hstart | approvePair _ i id entry manager params hstart hrequest =>
    refine ⟨fun _ _ heq => (nomatch heq), fun e hheld => ?_⟩
    obtain rfl := Option.some.inj hheld
    exact resolves_approved (ht.begun _ _ rfl).2.2
  | next _ i entry stage stage' hnext | connect _ i entry wallet now hmethod hwallet =>
    refine ⟨fun _ _ heq => (nomatch heq), fun e hheld => ?_⟩
    obtain rfl := Option.some.inj hheld
    exact ht.resolves _ rfl
  | sign _ i entry wallet =>
    refine ⟨fun _ _ heq => (nomatch heq), fun e hheld => ?_⟩
    obtain rfl := Option.some.inj hheld
    exact (ht.resolves _ rfl).append fun hmem => by cases List.mem_singleton.mp hmem
  | read _ i caller call raw heffect => exact ⟨fun _ _ heq => (nomatch heq), ht.resolves⟩
  | keep _ i caller call heffect => exact backed_afterCall ht.resolves
  | write text i caller call raw seen =>
    exact backed_afterCall (b := { b with storage := raw, writes := b.writes + 1 }) ht.resolves

/-- **Step**: the other tasks. -/
theorem Move.other_backed (h : Move urls pairOrigins names b x t t' b') (hu : Backed jobs b u) (hapart : t.Apart u) : Backed jobs b' u := by
  obtain ⟨added, hlog, hemits, -⟩ := h.log
  refine ⟨fun i job heq => ?_, fun e hheld => ?_⟩
  · obtain ⟨hjob, happroved, hfinished⟩ := hu.begun i job heq
    have hid : t.id ≠ i := by
      rw [heq] at hapart
      exact hapart
    refine ⟨hjob, fun e hmem => ?_, fun hmem => ?_⟩
    · rw [hlog] at hmem
      rcases List.mem_append.mp hmem with hmem | hmem
      · exact happroved e hmem
      · obtain ⟨⟨id, rfl⟩, -⟩ := hemits _ hmem
        exact hid rfl
    · rw [hlog] at hmem
      rcases List.mem_append.mp hmem with hmem | hmem
      · exact hfinished hmem
      · exact hid (hemits _ hmem).symm
  · rw [hlog]
    exact (hu.resolves e hheld).append fun hmem => hapart (hemits _ hmem).symm

theorem stable_named (hjob : ∀ id r sender, jobs c = .providerRequest id r sender → r = request) (hsigns : request.method.Signs) :
    Stable (runTask urls pairOrigins names) (Steady c) (Named c request) (Backed jobs) Task.Apart where
  symm _ _ h := Ne.symm h
  shared _ _ _ hG hb ht := runTask_move.named hjob hsigns hG hb ht
  own _ _ _ _ _ ht := runTask_move.own_backed ht
  other _ _ _ _ _ _ _ hu hapart := runTask_move.other_backed hu hapart
  apart x t b u _ _ _ _ hapart := by
    have hmove : Move urls pairOrigins names b x t _ _ := runTask_move
    unfold Task.Apart at hapart ⊢
    rw [hmove.id_eq]
    exact hapart

end Invariant

end Steps

/-! ## Runs -/

section Runs

variable {urls : Urls} {pairOrigins : PairOriginPolicy} {names : Names} {storage : Stored} {jobs : ℕ → Job}
  {schedule : List (ℕ × Reply)} {c : ℕ} {request : ProviderRequest}

/-- No step of the run changes the network under call `c`. -/
def SteadyRun (urls : Urls) (pairOrigins : PairOriginPolicy) (names : Names) (storage : Stored) (jobs : ℕ → Job) (c : ℕ)
    (schedule : List (ℕ × Reply)) : Prop :=
  Along (step (runTask urls pairOrigins names)) (fun w a => Steady c a.2 (w.procs a.1) w.shared) (startWorker storage jobs) schedule

theorem inv_named : Inv (Named c request) (Backed jobs) Task.Apart (startWorker storage jobs) := by
  refine ⟨fun e he => ?_, fun i => ⟨fun j job heq => ?_, fun e hheld => (nomatch hheld)⟩, fun i j hij => hij⟩
  · rcases he with (hpending | ⟨i, happroved, -⟩) | hflying
    · exact absurd hpending List.not_mem_nil
    · exact absurd happroved List.not_mem_nil
    · exact absurd hflying List.not_mem_nil
  · obtain ⟨rfl, rfl⟩ := Task.begun.inj heq
    exact ⟨rfl, fun e => List.not_mem_nil, List.not_mem_nil⟩

/-- **Step**: what signs for the call waits. -/
theorem waiting_of_signs {b : Background} {x : Reply} {t : Task} {added : List Event} (ht : Backed jobs b t)
    (hlog : (runTask urls pairOrigins names x t b).2.log = b.log ++ added) (hsigns : SignsFor c added) : ∃ e, Waiting b e ∧ e.promise = c := by
  rcases hsigns with ⟨e, hmem, hpromise⟩ | ⟨s, hmem, hpromise, hsig⟩
  · have hmove : Move urls pairOrigins names b x t _ _ := runTask_move
    obtain ⟨added', hlog', hemits, -⟩ := hmove.log
    obtain rfl : added = added' := List.append_cancel_left (hlog.symm.trans hlog')
    obtain ⟨i, wallet, rfl⟩ := hemits _ hmem
    exact ⟨e, .inl (.inr ⟨i, ht.resolves e rfl⟩), hpromise⟩
  · obtain ⟨e, hflying, heq⟩ := settled_signature hlog hmem hsig
    exact ⟨e, .inr hflying, heq.symm.trans hpromise⟩

/-- The passphrase of a network names it. -/
theorem passphraseToNetwork_networkPassphrase (network : Network) : passphraseToNetwork (some (networkPassphrase network)) = network := by
  cases network <;> decide

theorem sends_named {call : Sep43Call} {network : Network} {getNetwork : Option Network}
    (h : call.sends (some (networkPassphrase network)) getNetwork = some request) :
    request.method.Signs ∧ request.network? = some network := by
  have htruthy : truthy (some (networkPassphrase network)) = some (networkPassphrase network) := by
    cases network <;> rfl
  unfold Sep43Call.sends at h
  rw [htruthy] at h
  obtain rfl := Option.some.inj h
  rw [passphraseToNetwork_networkPassphrase]
  cases call with
  | signTransaction xdr => exact ⟨.inl rfl, rfl⟩
  | signAuthEntry authEntry => exact ⟨.inr (.inl rfl), rfl⟩
  | signMessage message => exact ⟨.inr (.inr rfl), rfl⟩

/-- **A page signs on the network it named**, in a run that leaves the network of the wallet while the call waits. -/
theorem signs_where_named {id : String} {sender : Sender} {call : Sep43Call} {passphrase : String} {getNetwork : Option Network}
    (hjob : jobs c = .providerRequest id request sender) (hsends : call.sends (some passphrase) getNetwork = some request)
    (hnamed : ∃ network, networkPassphrase network = passphrase) (hsteady : SteadyRun urls pairOrigins names storage jobs c schedule) :
    SignsWhereNamed urls pairOrigins names storage jobs schedule c passphrase := by
  obtain ⟨network, rfl⟩ := hnamed
  obtain ⟨hsigns, hnetwork⟩ := sends_named hsends
  have honly : ∀ id' r sender', jobs c = .providerRequest id' r sender' → r = request := by
    intro id' r sender' hjob'
    rw [hjob] at hjob'
    exact (Job.providerRequest.inj hjob').2.1.symm
  have hinv := (stable_named honly hsigns).inv_upto inv_named hsteady
  refine ⟨fun pre a hpre added hlog hadded => ?_, fun hrefused => absurd rfl (hrefused network)⟩
  have hpre' := hinv pre (List.IsPrefix.trans ⟨[a], rfl⟩ hpre)
  have hsnoc : workerAt urls pairOrigins names storage jobs (pre ++ [a]) =
      step (runTask urls pairOrigins names) (workerAt urls pairOrigins names storage jobs pre) a := run_snoc ..
  rw [hsnoc] at hlog
  obtain ⟨e, hwaiting, hpromise⟩ := waiting_of_signs (hpre'.own a.1) hlog hadded
  obtain ⟨-, network', hnetwork', hwallet⟩ := hpre'.shared e hwaiting hpromise
  obtain ⟨wallet, hstored, hsame⟩ := Option.map_eq_some_iff.mp hwallet
  rw [hnetwork] at hnetwork'
  obtain rfl := Option.some.inj hnetwork'
  exact ⟨wallet, hstored, congrArg networkPassphrase hsame⟩

end Runs

deriving instance DecidableEq for Event

def Task.IsWriting : Task → Bool
  | .writing _ _ _ _ _ => true
  | _ => false

theorem steady_of_not_writing {c : ℕ} {x : Reply} {t : Task} {b : Background} (h : t.IsWriting = false) : Steady c x t b := by
  cases t with
  | writing => cases h
  | begun | opening | calling | resolving | done => trivial

theorem signs_where_named_testnet : SignsWhereNamed plainUrls .any .bound (some sampleState) signingJobs signingSchedule 0
    "Test SDF Network ; September 2015" := by
  have hsends : Sep43Call.sends (.signMessage "hello") (some "Test SDF Network ; September 2015") none =
      some (.sign_message "hello" .testnet) := by decide
  exact signs_where_named rfl hsends ⟨.testnet, rfl⟩ ⟨trivial, trivial, trivial, steady_of_not_writing (by decide +kernel),
    steady_of_not_writing (by decide +kernel), steady_of_not_writing (by decide +kernel), trivial⟩

/-- A page that names a standalone network is not refused, however the names that the file does not declare are read. -/
theorem standalone_not_refused :
    Sep43Call.sends (.signMessage "hello") (some "Standalone Network ; February 2017") none = some (.sign_message "hello" .testnet) ∧
      ¬ SignsWhereNamed plainUrls .any .unbound (some sampleState) signingJobs signingSchedule 0 "Standalone Network ; February 2017" ∧
      ¬ SignsWhereNamed plainUrls .any .bound (some sampleState) signingJobs signingSchedule 0 "Standalone Network ; February 2017" := by
  have hnone : ∀ network, networkPassphrase network ≠ "Standalone Network ; February 2017" := by
    intro network
    cases network <;> decide
  have hunbound : .routed 0 ∈ (workerAt plainUrls .any .unbound (some sampleState) signingJobs signingSchedule).shared.log := by
    decide +kernel
  have hbound : .routed 0 ∈ (workerAt plainUrls .any .bound (some sampleState) signingJobs signingSchedule).shared.log := by
    decide +kernel
  exact ⟨by decide, fun h => h.refused hnone hunbound, fun h => h.refused hnone hbound⟩

/-- The wallet is paired anew, on mainnet, while a signature on testnet is approved. -/
def repairingJobs : ℕ → Job
  | 0 => .providerRequest "1" (.sign_message "hello" .testnet) (page "https://dapp.example")
  | 1 => .resolvePending "1" true
  | 2 => .providerRequest "2" (.pair ⟨sampleWallet.address, .mainnet, sampleWallet.rpcUrl, sampleWallet.keyId, sampleWallet.walletWasmHash⟩)
      (page "https://wallet.example")
  | _ => .resolvePending "2" true

def repairingSchedule : List (ℕ × Reply) :=
  [(0, .succeeds ""), (1, .succeeds ""), (1, .succeeds ""), (2, .succeeds ""), (3, .succeeds ""), (3, .succeeds ""), (3, .succeeds ""),
    (1, .succeeds "")]

theorem repaired_signs_elsewhere : ¬ SignsWhereNamed plainUrls .any .bound (some sampleState) repairingJobs
    (repairingSchedule ++ [(1, .succeeds "")]) 0 "Test SDF Network ; September 2015" := by
  intro h
  obtain ⟨added, hlog, -⟩ := (workerAt_snoc plainUrls .any (some sampleState) repairingJobs repairingSchedule (1, .succeeds "")).log
  have hsigned : .signed ⟨"1", "https://dapp.example", .sign_message "hello" .testnet, some 1, 0⟩ ∈ added := by
    have hafter : .signed ⟨"1", "https://dapp.example", .sign_message "hello" .testnet, some 1, 0⟩ ∈
        (workerAt plainUrls .any .bound (some sampleState) repairingJobs (repairingSchedule ++ [(1, .succeeds "")])).shared.log := by
      decide +kernel
    have hbefore : .signed ⟨"1", "https://dapp.example", .sign_message "hello" .testnet, some 1, 0⟩ ∉
        (workerAt plainUrls .any .bound (some sampleState) repairingJobs repairingSchedule).shared.log := by decide +kernel
    rw [hlog] at hafter
    exact (List.mem_append.mp hafter).resolve_left hbefore
  obtain ⟨wallet, hwallet, hpassphrase⟩ := h.signed repairingSchedule (1, .succeeds "") List.prefix_rfl added hlog (.inl ⟨_, hsigned, rfl⟩)
  have hmainnet : (loadState (workerAt plainUrls .any .bound (some sampleState) repairingJobs repairingSchedule).shared.storage).pairedWallet.map
      (·.network) = some .mainnet := by decide +kernel
  rw [hwallet] at hmainnet
  obtain hnetwork : wallet.network = .mainnet := Option.some.inj hmainnet
  rw [hnetwork] at hpassphrase
  exact absurd hpassphrase (by decide)

end Vellar.Extension
