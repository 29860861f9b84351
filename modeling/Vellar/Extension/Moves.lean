import Vellar.Extension.Background

/-!
# Vellar.Extension.Moves — what a step of the background worker can do

`runTask_move`: every step of a task is one of the moves, with what it reads, writes and settles.  `quiet` stands for the
condition of a run at the step.
-/

set_option autoImplicit false

namespace Vellar.Extension

/-! ## The log -/

def Event.entry? : Event → Option Entry
  | .queued entry => some entry
  | _ => none

def queuedEntries (log : List Event) : List Entry := log.filterMap Event.entry?

/-- The approval of an entry is under way. -/
def Resolves (log : List Event) (i : ℕ) (entry : Entry) : Prop := .approved i entry ∈ log ∧ .finished i ∉ log

theorem mem_queuedEntries {log : List Event} {entry : Entry} : entry ∈ queuedEntries log ↔ .queued entry ∈ log := by
  unfold queuedEntries
  rw [List.mem_filterMap]
  constructor
  · rintro ⟨ev, hev, hentry⟩
    cases ev with
    | queued e =>
      obtain rfl : e = entry := Option.some.inj hentry
      exact hev
    | routed | settled | threw | listed | approved | finished | signed | disconnected => cases hentry
  · exact fun h => ⟨_, h, rfl⟩

theorem queuedEntries_append (log log' : List Event) :
    queuedEntries (log ++ log') = queuedEntries log ++ queuedEntries log' := List.filterMap_append

/-! ## Authority -/

def ProviderMethod.Signs (m : ProviderMethod) : Prop := m = .sign_transaction ∨ m = .sign_auth_entry ∨ m = .sign_message

/-- The origin may ask for signatures on the network of the paired wallet, which is the network of the request. -/
def Authorizes (state : ExtensionState) (origin : String) (request : ProviderRequest) : Prop :=
  ∃ wallet, state.pairedWallet = some wallet ∧ hasCapability state.grants origin wallet.network .sign = true ∧
    request.network? = some wallet.network

theorem routeSign_approval {state : ExtensionState} {wallet : PairedWallet} {raw origin : String}
    (h : routeSign state wallet raw = .needsApproval origin) :
    raw = origin ∧ hasCapability state.grants origin wallet.network .sign = true := by
  unfold routeSign at h
  split at h
  · rename_i hcap
    obtain rfl := RouteDecision.needsApproval.inj h
    exact ⟨rfl, hcap⟩
  · cases h

/-- A request to sign is routed to approval only with authority. -/
theorem route_authorizes {urls : Urls} {request : ProviderRequest} {raw origin : String} {state : ExtensionState}
    {policy : PairOriginPolicy} (h : routeProviderRequest urls request raw state policy = .needsApproval origin)
    (hsigns : request.method.Signs) : Authorizes state origin request := by
  unfold routeProviderRequest at h
  split at h
  · cases h
  · rename_i normalized hnormalized
    split at h
    · rcases hsigns with h | h | h <;> cases h
    · cases h
    · split at h
      · cases h
      · rename_i wallet hwallet
        split at h
        · rename_i honnetwork
          refine ⟨wallet, hwallet, ?_⟩
          cases request with
          | sign_transaction xdr network | sign_auth_entry authEntry network | sign_message message network =>
            obtain ⟨rfl, hcap⟩ := routeSign_approval h
            rcases honnetwork with h | h | hnetwork
            · cases h
            · cases h
            · exact ⟨hcap, congrArg some (hnetwork network rfl)⟩
          | connect | get_address | disconnect | pair | pair_status | get_network => rcases hsigns with h | h | h <;> cases h
        · cases h

/-- Only a disconnect revokes. -/
theorem route_revokes {urls : Urls} {request : ProviderRequest} {raw : String} {state : ExtensionState}
    {policy : PairOriginPolicy} {payload : ResponsePayload}
    (h : routeProviderRequest urls request raw state policy = .respond payload true) : request = .disconnect := by
  unfold routeProviderRequest at h
  split at h
  · cases h
  · split at h
    · split at h <;> cases h
    · cases h
    · split at h
      · cases h
      · split at h
        · cases request with
          | disconnect => rfl
          | connect | get_address =>
            simp only [routePaired] at h
            split at h <;> cases h
          | sign_transaction | sign_auth_entry | sign_message =>
            simp only [routePaired, routeSign] at h
            split at h <;> cases h
          | pair | pair_status | get_network => cases h
        · cases h

/-- A read that fails authorizes nothing. -/
theorem authorizes_of_read {b : Background} {x : Reply} {origin : String} {request : ProviderRequest}
    (h : Authorizes (loadState (b.readStorage x)) origin request) : Authorizes (loadState b.storage) origin request := by
  cases x with
  | succeeds text => exact h
  | absent | more | window | fails =>
    obtain ⟨wallet, hwallet, -⟩ := h
    cases hwallet

/-! ## Steps -/

section Steps

variable (urls : Urls) (pairOrigins : PairOriginPolicy) (names : Names)

/-- The request is routed to approval. -/
def RoutedTo (request : ProviderRequest) (sender : Sender) (origin : String) (x : Reply) (b : Background) : Prop :=
  ∃ raw, pageOrigin urls sender = some raw ∧
    routeProviderRequest urls request raw (loadState (b.readStorage x)) pairOrigins = .needsApproval origin

/-- What a task of no approval may end with. -/
def Answer (i : ℕ) (events : List Event) : Prop :=
  events = [] ∨ events = [.threw i] ∨ ∃ payload, events = [.settled ⟨i, payload, .answered⟩]

inductive Task.Unpaired (i : ℕ) : Task → Prop where
  | begun (job : Job) : Unpaired i (.begun i job)
  | disconnectCall (origin : String) (network : Network) (call : StateCall) :
      Unpaired i (.calling i (.disconnect origin network) call)
  | revocationCall (call : StateCall) : Unpaired i (.calling i .revocation call)
  | disconnectWrite (origin : String) (network : Network) (call : StateCall) (raw : Stored) (seen : ℕ) :
      Unpaired i (.writing i (.disconnect origin network) call raw seen)
  | revocationWrite (call : StateCall) (raw : Stored) (seen : ℕ) : Unpaired i (.writing i .revocation call raw seen)

/-- A task in an approval of the entry. -/
inductive Task.Approves (i : ℕ) (entry : Entry) : Task → Prop where
  | pairCall (call : StateCall) : Approves i entry (.calling i (.pair entry) call)
  | pairWrite (call : StateCall) (raw : Stored) (seen : ℕ) : Approves i entry (.writing i (.pair entry) call raw seen)
  | connectCall (wallet : PairedWallet) (call : StateCall) : Approves i entry (.calling i (.connect entry wallet) call)
  | connectWrite (wallet : PairedWallet) (call : StateCall) (raw : Stored) (seen : ℕ) :
      Approves i entry (.writing i (.connect entry wallet) call raw seen)
  | stage (stage : Stage) : Approves i entry (.resolving i entry stage)

/-- Which stage follows which. -/
inductive Stage.Next (request : ProviderRequest) : Stage → Stage → Prop where
  | exporting : Next request .ensuring .exporting
  | keying (wallet : PairedWallet) (h : request.method.Signs) : Next request .loading (.keying wallet)
  | hexing (wallet : PairedWallet) : Next request (.keying wallet) (.hexing wallet)
  | signing (wallet : PairedWallet) : Next request (.keying wallet) (.signing wallet)
  | hexed (wallet : PairedWallet) : Next request (.hexing wallet) (.signing wallet)

/-- The call of the connect branch has ended, whether it granted, refused or failed. -/
def ConnectEnd (i : ℕ) (entry : Entry) (events : List Event) : Prop :=
  events = [.finished i] ∨ ∃ payload, events = [.settled ⟨entry.promise, payload, .resolved entry.id⟩, .finished i]

inductive Move (b : Background) : Reply → Task → Task → Background → Prop where
  | stay (x : Reply) (i : ℕ) : Move b x (.done i) (.done i) b
  | answer (x : Reply) (i : ℕ) (t : Task) (events : List Event) (ht : t.Unpaired i) (hevents : Answer i events) :
      Move b x t (.done i) (b.add events)
  | unqueued (x : Reply) (i : ℕ) (id : String) (request : ProviderRequest) (sender : Sender) (origin : String)
      (hnames : names = .unbound) (hroute : RoutedTo urls pairOrigins request sender origin x b) :
      Move b x (.begun i (.providerRequest id request sender)) (.done i) (b.add [.routed i, .threw i])
  | queue (x : Reply) (i : ℕ) (id : String) (request : ProviderRequest) (sender : Sender) (origin : String) (tabId : Option ℕ)
      (creating : Bool) (hnames : names = .bound) (hroute : RoutedTo urls pairOrigins request sender origin x b) :
      Move b x (.begun i (.providerRequest id request sender)) (.opening i creating)
        { b with
          manager := (b.manager.supersede origin request).1.addPending ⟨id, origin, request, tabId, i⟩
          log := b.log ++ (.routed i :: (b.manager.supersede origin request).2.map .settled ++
            [.queued ⟨id, origin, request, tabId, i⟩]) }
  | list (x : Reply) (i : ℕ) : Move b x (.begun i .listPending) (.done i) (b.add [.listed b.manager.listPending])
  | disconnect (x : Reply) (i : ℕ) (id : String) (sender : Sender) (raw : String) (network : Network)
      (hpage : pageOrigin urls sender = some raw) :
      Move b x (.begun i (.providerRequest id .disconnect sender))
        (.calling i (.disconnect ((normalizeOrigin urls raw).getD raw) network) (.revokeGrant raw network.text)) b
  | revoke (x : Reply) (i : ℕ) (origin network : String) :
      Move b x (.begun i (.revoke origin network)) (.calling i .revocation (.revokeGrant origin network)) b
  | tab (x : Reply) (i tabId : ℕ) :
      Move b x (.begun i (.tabRemoved tabId)) (.done i) (b.settle (b.manager.handleTabRemoved tabId))
  | reject (x : Reply) (i : ℕ) (id : String) (entry : Entry) (manager : TabManager) (payload : ResponsePayload)
      (hstart : b.manager.startResolving id = some (entry, manager)) :
      Move b x (.begun i (.resolvePending id false)) (.done i) (finish i entry { b with manager := manager } (some payload)).2
  | approve (x : Reply) (i : ℕ) (id : String) (entry : Entry) (manager : TabManager)
      (hstart : b.manager.startResolving id = some (entry, manager)) :
      Move b x (.begun i (.resolvePending id true)) (.resolving i entry .loading)
        ({ b with manager := manager }.add [.approved i entry])
  | approvePair (x : Reply) (i : ℕ) (id : String) (entry : Entry) (manager : TabManager) (params : PairParams)
      (hstart : b.manager.startResolving id = some (entry, manager)) (hrequest : entry.request = .pair params) :
      Move b x (.begun i (.resolvePending id true)) (.calling i (.pair entry) (pairCall entry params))
        ({ b with manager := manager }.add [.approved i entry])
  | refocus (x : Reply) (i : ℕ) : Move b x (.opening i false) (.opening i true)
      { b with manager := { b.manager with approvalWindowId := none } }
  | opened (x : Reply) (i : ℕ) (creating : Bool) : Move b x (.opening i creating) (.done i) b
  | window (id : Option ℕ) (i : ℕ) : Move b (.window id) (.opening i true) (.done i)
      { b with manager := { b.manager with approvalWindowId := id } }
  | closed (x : Reply) (i : ℕ) (windowId : ℕ) : Move b x (.begun i (.windowRemoved windowId)) (.done i)
      { b with manager := { b.manager with approvalWindowId := none } }
  | next (x : Reply) (i : ℕ) (entry : Entry) (stage stage' : Stage) (hnext : stage.Next entry.request stage') :
      Move b x (.resolving i entry stage) (.resolving i entry stage') b
  | finish (x : Reply) (i : ℕ) (entry : Entry) (t : Task) (payload : ResponsePayload) (ht : t.Approves i entry) :
      Move b x t (.done i) (finish i entry b (some payload)).2
  | exported (x : Reply) (i : ℕ) (entry : Entry) (payload : ResponsePayload) :
      Move b x (.resolving i entry .exporting) (.done i) (Extension.finish i entry (resolveEntry entry b payload) none).2
  | sign (x : Reply) (i : ℕ) (entry : Entry) (wallet : PairedWallet) :
      Move b x (.resolving i entry (.signing wallet)) (.resolving i entry (.signing wallet)) (b.add [.signed entry])
  | signed (x : Reply) (i : ℕ) (entry : Entry) (wallet : PairedWallet) (payload : ResponsePayload) :
      Move b x (.resolving i entry (.signing wallet)) (.done i)
        (Extension.finish i entry (b.add [.signed entry]) (some payload)).2
  | connect (x : Reply) (i : ℕ) (entry : Entry) (wallet : PairedWallet) (now : String) (hmethod : entry.request.method = .connect)
      (hwallet : (loadState (b.readStorage x)).pairedWallet = some wallet) :
      Move b x (.resolving i entry .loading) (.calling i (.connect entry wallet) (connectCall entry wallet now)) b
  | connectEnd (x : Reply) (i : ℕ) (entry : Entry) (t : Task) (wallet : PairedWallet) (events : List Event)
      (ht : (∃ call, t = .calling i (.connect entry wallet) call) ∨
        ∃ call raw seen, t = .writing i (.connect entry wallet) call raw seen) (hevents : ConnectEnd i entry events) :
      Move b x t (.done i) (b.add events)
  | read (x : Reply) (i : ℕ) (caller : Caller) (call : StateCall) (raw : Stored)
      (heffect : call.effect (loadState (b.readStorage x)) = .writes raw) :
      Move b x (.calling i caller call) (.writing i caller call raw b.writes) b
  | keep (x : Reply) (i : ℕ) (caller : Caller) (call : StateCall)
      (heffect : call.effect (loadState (b.readStorage x)) = .keeps) :
      Move b x (.calling i caller call) (afterCall i caller b).1 (afterCall i caller b).2
  | write (text : String) (i : ℕ) (caller : Caller) (call : StateCall) (raw : Stored) (seen : ℕ) :
      Move b (.succeeds text) (.writing i caller call raw seen)
        (afterCall i caller { b with storage := raw, writes := b.writes + 1 }).1
        (afterCall i caller { b with storage := raw, writes := b.writes + 1 }).2

end Steps

/-! ## Every step is one of the moves -/

section Every

variable {urls : Urls} {pairOrigins : PairOriginPolicy} {names : Names} {b : Background} {x : Reply} {i : ℕ}

@[simp] theorem add_nil : b.add [] = b := by
  unfold Background.add
  rw [List.append_nil]

theorem move_nothing {t : Task} (ht : t.Unpaired i) : Move urls pairOrigins names b x t (.done i) b := by
  have h : Move urls pairOrigins names b x t (.done i) (b.add []) := .answer x i t [] ht (.inl rfl)
  rwa [add_nil] at h

theorem handleProviderRequest_move {id : String} {request : ProviderRequest} {sender : Sender} :
    Move urls pairOrigins names b x (.begun i (.providerRequest id request sender))
      (handleProviderRequest urls pairOrigins names i id request sender x b).1
      (handleProviderRequest urls pairOrigins names i id request sender x b).2 := by
  unfold handleProviderRequest
  split
  · exact .answer _ _ _ _ (.begun _) (.inr (.inl rfl))
  · exact .answer _ _ _ _ (.begun _) (.inr (.inr ⟨_, rfl⟩))
  · rename_i hpage
    dsimp only
    split
    · rename_i normalized hroute
      unfold requestApproval
      cases names with
      | unbound => exact .unqueued _ _ _ _ _ normalized rfl ⟨_, hpage, hroute⟩
      | bound =>
        have h := @Move.queue urls pairOrigins .bound b x i id request sender normalized
          (sender.tab.getD none) ((b.add [.routed i]).settle (b.manager.supersede normalized request)).manager.approvalWindowId.isNone
          rfl ⟨_, hpage, hroute⟩
        simpa [Background.add, Background.settle, List.append_assoc] using h
    · split
      · rename_i hroute
        obtain rfl := route_revokes hroute
        exact .disconnect _ _ _ _ _ _ hpage
      · exact .answer _ _ _ _ (.begun _) (.inr (.inr ⟨_, rfl⟩))

theorem handleResolvePending_move {id : String} {approved : Bool} :
    Move urls pairOrigins names b x (.begun i (.resolvePending id approved)) (handleResolvePending i b id approved).1
      (handleResolvePending i b id approved).2 := by
  unfold handleResolvePending
  split
  · exact move_nothing (.begun _)
  · rename_i entry manager hstart
    dsimp only
    cases approved with
    | false => exact .reject _ _ _ _ _ _ hstart
    | true =>
      rw [if_pos rfl]
      split
      · rename_i params hrequest
        exact .approvePair _ _ _ _ _ _ hstart hrequest
      · exact .approve _ _ _ _ _ hstart

theorem resolveLoaded_move {entry : Entry} :
    Move urls pairOrigins names b x (.resolving i entry .loading) (resolveLoaded i entry b x).1
      (resolveLoaded i entry b x).2 := by
  unfold resolveLoaded
  split
  · exact .finish _ _ _ _ _ (.stage _)
  · rename_i wallet hwallet
    split
    · rename_i network hrequest
      exact .connect _ _ _ _ _ (by rw [hrequest]; rfl) hwallet
    · rename_i xdr network hrequest
      exact .next _ _ _ _ _ (.keying _ (.inl (by rw [hrequest]; rfl)))
    · rename_i authEntry network hrequest
      exact .next _ _ _ _ _ (.keying _ (.inr (.inl (by rw [hrequest]; rfl))))
    · rename_i message network hrequest
      exact .next _ _ _ _ _ (.keying _ (.inr (.inr (by rw [hrequest]; rfl))))
    · exact .finish _ _ _ _ _ (.stage _)

theorem resolveStage_move {entry : Entry} {stage : Stage} :
    Move urls pairOrigins names b x (.resolving i entry stage) (resolveStage i entry b stage x).1
      (resolveStage i entry b stage x).2 := by
  cases stage with
  | loading => exact resolveLoaded_move
  | ensuring =>
    cases x with
    | succeeds => exact .next _ _ _ _ _ .exporting
    | absent | more | window | fails => exact .finish _ _ _ _ _ (.stage _)
  | exporting =>
    cases x with
    | succeeds hex => exact .exported _ _ _ _
    | absent | more | window | fails => exact .finish _ _ _ _ _ (.stage _)
  | keying wallet =>
    cases x with
    | succeeds text =>
      simp only [resolveStage]
      split
      · exact .next _ _ _ _ _ (.signing _)
      · exact .next _ _ _ _ _ (.hexing _)
    | absent | more | window | fails => exact .finish _ _ _ _ _ (.stage _)
  | hexing wallet =>
    cases x with
    | succeeds text => exact .next _ _ _ _ _ (.hexed _)
    | absent | more | window | fails => exact .finish _ _ _ _ _ (.stage _)
  | signing wallet =>
    cases x with
    | succeeds text => exact .signed _ _ _ _ _
    | more => exact .sign _ _ _ _
    | absent | window | fails => exact .finish _ _ _ _ _ (.stage _)

theorem callRead_move {caller : Caller} {call : StateCall} :
    Move urls pairOrigins names b x (.calling i caller call) (callRead i caller b call x).1 (callRead i caller b call x).2 := by
  unfold callRead
  split
  · rename_i raw heffect
    exact .read _ _ _ _ _ heffect
  · rename_i heffect
    exact .keep _ _ _ _ heffect
  · cases caller with
    | disconnect origin network => exact .answer _ _ _ _ (.disconnectCall _ _ _) (.inr (.inl rfl))
    | revocation => exact move_nothing (.revocationCall _)
    | pair entry => exact .finish _ _ _ _ _ (.pairCall _)
    | connect entry wallet =>
      have h := @Move.connectEnd urls pairOrigins names b x i entry _ wallet _
        (.inl ⟨call, rfl⟩) (.inr ⟨.error .paired_origin_limit_reached limitMessage, rfl⟩)
      simpa [refusedCall, resolveEntry, Background.add] using h

theorem failedCall_move {caller : Caller} {call : StateCall} {raw : Stored} {seen : ℕ} :
    Move urls pairOrigins names b x (.writing i caller call raw seen) (failedCall i caller b x).1 (failedCall i caller b x).2 := by
  cases caller with
  | disconnect origin network => exact .answer _ _ _ _ (.disconnectWrite _ _ _ _ _) (.inr (.inl rfl))
  | revocation => exact move_nothing (.revocationWrite _ _ _)
  | pair entry => exact .finish _ _ _ _ _ (.pairWrite _ _ _)
  | connect entry wallet => exact .connectEnd _ _ entry _ wallet _ (.inr ⟨_, _, _, rfl⟩) (.inl rfl)

theorem openApprovalWindow_move {creating : Bool} :
    Move urls pairOrigins names b x (.opening i creating) (openApprovalWindow i creating x b).1
      (openApprovalWindow i creating x b).2 := by
  cases creating with
  | false =>
    cases x with
    | fails => exact .refocus _ _
    | succeeds | absent | more | window => exact .opened _ _ _
  | true =>
    cases x with
    | window id => exact .window _ _
    | succeeds | absent | more | fails => exact .opened _ _ _

/-- **Every step of a task is one of the moves.** -/
theorem runTask_move {t : Task} : Move urls pairOrigins names b x t (runTask urls pairOrigins names x t b).1
    (runTask urls pairOrigins names x t b).2 := by
  cases t with
  | begun i job =>
    cases job with
    | providerRequest id request sender => exact handleProviderRequest_move
    | listPending => exact .list _ _
    | resolvePending id approved => exact handleResolvePending_move
    | revoke origin network => exact .revoke _ _ _ _
    | tabRemoved tabId => exact .tab _ _ _
    | windowRemoved windowId =>
      simp only [runTask, beginJob, TabManager.handleWindowRemoved]
      split
      · exact .closed _ _ _
      · exact move_nothing (.begun _)
  | opening i creating => exact openApprovalWindow_move
  | calling i caller call => exact callRead_move
  | writing i caller call raw seen =>
    cases x with
    | succeeds text => exact .write _ _ _ _ _ _
    | absent | more | window | fails => exact failedCall_move
  | resolving i entry stage => exact resolveStage_move
  | done i => exact .stay _ _

end Every

/-! ## What a move emits -/

section Emits

variable {urls : Urls} {pairOrigins : PairOriginPolicy} {names : Names} {b b' : Background} {x : Reply} {t t' : Task}

/-- An event that a step of a task may emit. -/
def Emits (urls : Urls) (pairOrigins : PairOriginPolicy) (b : Background) (x : Reply) (t : Task) (b' : Background) :
    Event → Prop
  | .queued e => ∃ i sender, t = .begun i (.providerRequest e.id e.request sender) ∧ e.promise = i ∧
      RoutedTo urls pairOrigins e.request sender e.origin x b
  | .approved i e => (∃ id, t = .begun i (.resolvePending id true)) ∧ e ∈ b.manager.pending.rows
  | .listed shown => shown = b.manager.listPending
  | .finished i => i = t.id
  | .signed e => ∃ i wallet, t = .resolving i e (.signing wallet)
  | .disconnected origin network => (∃ i call, t = .calling i (.disconnect origin network) call ∧
        call.effect (loadState (b.readStorage x)) = .keeps ∧ b'.storage = b.storage) ∨
      ∃ i call raw seen, t = .writing i (.disconnect origin network) call raw seen ∧ b'.storage = raw ∧
        ∃ text, x = .succeeds text
  | .routed i => ∃ id request sender origin, t = .begun i (.providerRequest id request sender) ∧
      RoutedTo urls pairOrigins request sender origin x b
  | .settled _ | .threw _ => True

theorem startResolving_some {m m' : TabManager} {id : String} {e : Entry} (h : m.startResolving id = some (e, m')) :
    e ∈ m.pending.rows ∧ e.id = id ∧ m' =
      { m with
        pending := m.pending.removeWhere fun e => e.id = id
        inFlight := m.inFlight.put ⟨e, false⟩ } := by
  obtain ⟨entry, hfind, heq⟩ := Option.map_eq_some_iff.mp h
  obtain ⟨rfl, rfl⟩ := Prod.mk.inj heq
  obtain ⟨hmem, hid⟩ := Table.mem_of_find hfind
  exact ⟨hmem, hid, rfl⟩

theorem finishResolving_pending {m : TabManager} {id : String} {payload : Option ResponsePayload} :
    (m.finishResolving id payload).1.pending = m.pending := by
  unfold TabManager.finishResolving
  split
  · rfl
  · unfold TabManager.closeApprovalWindowIfEmpty
    split <;> rfl

@[simp] theorem finish_pending {i : ℕ} {e : Entry} {payload : Option ResponsePayload} :
    (finish i e b payload).2.manager.pending = b.manager.pending := finishResolving_pending

@[simp] theorem finish_storage {i : ℕ} {e : Entry} {payload : Option ResponsePayload} :
    (finish i e b payload).2.storage = b.storage ∧ (finish i e b payload).2.writes = b.writes := ⟨rfl, rfl⟩

theorem finish_log {i : ℕ} {e : Entry} {payload : Option ResponsePayload} :
    (finish i e b payload).2.log = b.log ++ ((b.manager.finishResolving e.id payload).2.map .settled ++ [.finished i]) :=
  List.append_assoc ..

/-- Every move but a write leaves the storage. -/
theorem Move.storage (h : Move urls pairOrigins names b x t t' b') :
    (b'.storage = b.storage ∧ b'.writes = b.writes) ∨
      ∃ text i caller call raw seen, x = .succeeds text ∧ t = .writing i caller call raw seen ∧ b'.storage = raw ∧
        b'.writes = b.writes + 1 := by
  cases h with
  | stay | answer | unqueued | queue | list | disconnect | revoke | tab | reject | approve | approvePair | refocus | opened | window
  | closed | next | finish | exported | sign | signed | connect | connectEnd | read => exact .inl ⟨rfl, rfl⟩
  | keep _ i caller call heffect => cases caller <;> exact .inl ⟨rfl, rfl⟩
  | write text i caller call raw seen => cases caller <;> exact .inr ⟨text, i, _, call, raw, seen, rfl, rfl, rfl, rfl⟩

/-- An entry that waits was waiting, or is queued. -/
theorem Move.pending (h : Move urls pairOrigins names b x t t' b') :
    ∀ e ∈ b'.manager.pending.rows, e ∈ b.manager.pending.rows ∨
      (.queued e ∈ b'.log ∧ Emits urls pairOrigins b x t b' (.queued e)) := by
  cases h with
  | stay | answer | unqueued | list | disconnect | revoke | refocus | opened | window | closed | next | sign | connect | connectEnd
  | read => exact fun e he => .inl he
  | queue _ i id request sender origin tabId creating hnames hroute =>
    intro e he
    rcases Table.mem_put he with he | rfl
    · exact .inl (Table.mem_removeWhere.mp he).1
    · exact .inr ⟨List.mem_append_right _ (List.mem_append_right _ List.mem_cons_self), i, sender, rfl, rfl, hroute⟩
  | tab _ i tabId =>
    intro e he
    unfold Background.settle TabManager.handleTabRemoved TabManager.closeApprovalWindowIfEmpty at he
    dsimp only at he
    split at he <;> exact .inl (Table.mem_removeWhere.mp he).1
  | reject _ i id entry manager payload hstart =>
    obtain ⟨-, -, rfl⟩ := startResolving_some hstart
    intro e he
    rw [finish_pending] at he
    exact .inl (Table.mem_removeWhere.mp he).1
  | approve _ i id entry manager hstart | approvePair _ i id entry manager params hstart =>
    obtain ⟨-, -, rfl⟩ := startResolving_some hstart
    exact fun e he => .inl (Table.mem_removeWhere.mp he).1
  | finish _ i entry t payload ht =>
    intro e he
    rw [finish_pending] at he
    exact .inl he
  | exported _ i entry payload =>
    intro e he
    rw [finish_pending] at he
    exact .inl he
  | signed _ i entry wallet payload =>
    intro e he
    rw [finish_pending] at he
    exact .inl he
  | keep _ i caller call heffect => cases caller <;> exact fun e he => .inl he
  | write text i caller call raw seen => cases caller <;> exact fun e he => .inl he

theorem settled_emits {ss : List Settlement} {t : Task} : ∀ ev ∈ ss.map Event.settled, Emits urls pairOrigins b x t b' ev := by
  intro ev hev
  obtain ⟨s, -, rfl⟩ := List.mem_map.mp hev
  trivial

theorem queuedEntries_settled (ss : List Settlement) : queuedEntries (ss.map .settled) = [] := by
  unfold queuedEntries
  rw [List.filterMap_eq_nil_iff]
  intro ev hev
  obtain ⟨s, -, rfl⟩ := List.mem_map.mp hev
  rfl

theorem Task.Unpaired.id_eq {i : ℕ} (h : t.Unpaired i) : t.id = i := by
  cases h <;> rfl

theorem Task.Approves.id_eq {i : ℕ} {e : Entry} (h : t.Approves i e) : t.id = i := by
  cases h <;> rfl

/-- What the end of an approval adds. -/
theorem finish_emits (b₀ : Background) (pre : List Event) {i : ℕ} {e : Entry} {payload : Option ResponsePayload}
    (hid : t.id = i) (hlog : b₀.log = b.log ++ pre) (hpre : ∀ ev ∈ pre, Emits urls pairOrigins b x t b' ev) (hnone : queuedEntries pre = []) :
    ∃ added, (finish i e b₀ payload).2.log = b.log ++ added ∧ (∀ ev ∈ added, Emits urls pairOrigins b x t b' ev) ∧
      (queuedEntries added).length ≤ 1 := by
  refine ⟨pre ++ ((b₀.manager.finishResolving e.id payload).2.map .settled ++ [.finished i]), ?_, fun ev hev => ?_, ?_⟩
  · rw [finish_log, hlog, List.append_assoc]
  · rcases List.mem_append.mp hev with hev | hev
    · exact hpre ev hev
    · rcases List.mem_append.mp hev with hev | hev
      · exact settled_emits ev hev
      · rw [List.mem_singleton.mp hev]
        exact hid.symm
  · rw [queuedEntries_append, queuedEntries_append, hnone, queuedEntries_settled]
    exact Nat.zero_le 1

/-- What a call adds as it returns. -/
theorem afterCall_emits {b₀ : Background} {i : ℕ} {caller : Caller} (hid : t.id = i) (hlog : b₀.log = b.log)
    (hdisconnect : ∀ origin network, caller = .disconnect origin network →
      Emits urls pairOrigins b x t b' (.disconnected origin network)) :
    ∃ added, (afterCall i caller b₀).2.log = b.log ++ added ∧ (∀ ev ∈ added, Emits urls pairOrigins b x t b' ev) ∧
      (queuedEntries added).length ≤ 1 := by
  cases caller with
  | disconnect origin network =>
    refine ⟨[.settled ⟨i, .disconnect, .answered⟩, .disconnected origin network], congrArg (· ++ _) hlog, ?_, Nat.zero_le 1⟩
    intro ev hev
    rcases List.mem_pair.mp hev with rfl | rfl
    · trivial
    · exact hdisconnect _ _ rfl
  | revocation | pair entry => exact ⟨[], by rw [List.append_nil]; exact hlog, fun ev hev => absurd hev List.not_mem_nil, Nat.zero_le 1⟩
  | connect entry wallet =>
    refine ⟨[.settled ⟨entry.promise, .connect wallet.address wallet.network, .resolved entry.id⟩, .finished i], ?_, ?_, Nat.zero_le 1⟩
    · show b₀.log ++ _ ++ _ = _
      rw [hlog, List.append_assoc]
      rfl
    · intro ev hev
      rcases List.mem_pair.mp hev with rfl | rfl
      · trivial
      · exact hid.symm

/-- **What a move adds to the log.** -/
theorem Move.log (h : Move urls pairOrigins names b x t t' b') :
    ∃ added, b'.log = b.log ++ added ∧ (∀ ev ∈ added, Emits urls pairOrigins b x t b' ev) ∧
      (queuedEntries added).length ≤ 1 := by
  have hnothing : ∃ added, b.log = b.log ++ added ∧ (∀ ev ∈ added, Emits urls pairOrigins b x t b' ev) ∧
      (queuedEntries added).length ≤ 1 :=
    ⟨[], (List.append_nil _).symm, fun ev hev => absurd hev List.not_mem_nil, Nat.zero_le 1⟩
  cases h with
  | stay | disconnect | revoke | refocus | opened | window | closed | next | connect | read => exact hnothing
  | answer _ i _ events ht hevents =>
    refine ⟨events, rfl, fun ev hev => ?_, ?_⟩
    · rcases hevents with rfl | rfl | ⟨payload, rfl⟩
      · exact absurd hev List.not_mem_nil
      · rw [List.mem_singleton.mp hev]
        trivial
      · rw [List.mem_singleton.mp hev]
        trivial
    · rcases hevents with rfl | rfl | ⟨payload, rfl⟩ <;> exact Nat.zero_le 1
  | unqueued _ i id request sender origin hnames hroute =>
    refine ⟨_, rfl, fun ev hev => ?_, Nat.zero_le 1⟩
    rcases List.mem_pair.mp hev with rfl | rfl
    · exact ⟨id, request, sender, origin, rfl, hroute⟩
    · trivial
  | queue _ i id request sender origin tabId creating hnames hroute =>
    refine ⟨_, rfl, fun ev hev => ?_, ?_⟩
    · rcases List.mem_append.mp hev with hev | hev
      · rcases List.mem_cons.mp hev with rfl | hev
        · exact ⟨id, request, sender, origin, rfl, hroute⟩
        · exact settled_emits ev hev
      · rw [List.mem_singleton.mp hev]
        exact ⟨i, sender, rfl, rfl, hroute⟩
    · rw [queuedEntries_append]
      show ((queuedEntries ((b.manager.supersede origin request).2.map .settled)) ++ _).length ≤ 1
      rw [queuedEntries_settled]
      exact le_rfl
  | list _ i =>
    refine ⟨_, rfl, fun ev hev => ?_, Nat.zero_le 1⟩
    rw [List.mem_singleton.mp hev]
    rfl
  | tab _ i tabId => exact ⟨_, rfl, settled_emits, by rw [queuedEntries_settled]; exact Nat.zero_le 1⟩
  | reject _ i id entry manager payload hstart =>
    exact finish_emits { b with manager := manager } [] rfl (List.append_nil _).symm
      (fun ev hev => absurd hev List.not_mem_nil) rfl
  | approve _ i id entry manager hstart | approvePair _ i id entry manager params hstart =>
    obtain ⟨hmem, -, -⟩ := startResolving_some hstart
    refine ⟨_, rfl, fun ev hev => ?_, Nat.zero_le 1⟩
    rw [List.mem_singleton.mp hev]
    exact ⟨⟨id, rfl⟩, hmem⟩
  | finish _ i entry _ payload ht =>
    exact finish_emits _ [] ht.id_eq (List.append_nil _).symm (fun ev hev => absurd hev List.not_mem_nil) rfl
  | exported _ i entry payload =>
    refine finish_emits (resolveEntry entry b payload) [_] rfl rfl (fun ev hev => ?_) rfl
    rw [List.mem_singleton.mp hev]
    trivial
  | sign _ i entry wallet =>
    refine ⟨_, rfl, fun ev hev => ?_, Nat.zero_le 1⟩
    rw [List.mem_singleton.mp hev]
    exact ⟨i, wallet, rfl⟩
  | signed _ i entry wallet payload =>
    refine finish_emits (b.add [.signed entry]) [.signed entry] rfl rfl (fun ev hev => ?_) rfl
    rw [List.mem_singleton.mp hev]
    exact ⟨i, wallet, rfl⟩
  | connectEnd _ i entry _ wallet events ht hevents =>
    have hid : i = t.id := by
      rcases ht with ⟨call, rfl⟩ | ⟨call, raw, seen, rfl⟩ <;> rfl
    rcases hevents with rfl | ⟨payload, rfl⟩
    · refine ⟨_, rfl, fun ev hev => ?_, Nat.zero_le 1⟩
      rw [List.mem_singleton.mp hev]
      exact hid
    · refine ⟨_, rfl, fun ev hev => ?_, Nat.zero_le 1⟩
      rcases List.mem_pair.mp hev with rfl | rfl
      · trivial
      · exact hid
  | keep _ i caller call heffect =>
    refine afterCall_emits rfl rfl fun origin network hcaller => .inl ⟨i, call, by rw [hcaller], heffect, ?_⟩
    rw [hcaller]
    rfl
  | write text i caller call raw seen =>
    refine afterCall_emits rfl rfl fun origin network hcaller =>
      .inr ⟨i, call, raw, seen, by rw [hcaller], ?_, text, rfl⟩
    rw [hcaller]
    rfl

end Emits

/-! ## Runs -/

section Runs

open Machine Processes

variable (urls : Urls) (pairOrigins : PairOriginPolicy) (names : Names) (storage : Stored) (jobs : ℕ → Job)

/-- All tasks to begin, over what is stored. -/
def startWorker : Config Background Task where
  shared := ⟨storage, 0, TabManager.new, []⟩
  procs i := .begun i (jobs i)

/-- The worker after a schedule of its steps and their replies. -/
def workerAt (schedule : List (ℕ × Reply)) : Config Background Task :=
  run (step (runTask urls pairOrigins names)) (startWorker storage jobs) schedule

end Runs

end Vellar.Extension
