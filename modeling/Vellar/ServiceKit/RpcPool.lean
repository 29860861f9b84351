import Vellar.Lib.Machine

/-!
# Vellar.ServiceKit.RpcPool — the pool of RPC endpoints

`packages/service-kit/src/rpc-pool.ts`.  A run is a list of probe cycles that start and end and of failures that callers report,
in any order; overlapping cycles are one.  `poolLaw_run` says what callers may rely on after every event, and
`withRpcFailover_spec` what a call over the candidates comes to.
-/

set_option autoImplicit false

namespace Vellar.ServiceKit.Rpc

open Machine

structure RpcEndpointHealth where
  healthy : Bool
  latestLedger : Option ℚ
  reason : Option String
  lastCheckedAt : Option ℤ
  lastFailureAt : Option ℤ

structure RpcProbeResult where
  status : String
  latestLedger : ℚ

/-- What the probes of a cycle come to; an error is its message. -/
abbrev Results := String → Except String RpcProbeResult

def DEFAULT_MAX_LEDGER_LAG : ℚ := 10

structure RpcPoolOptions where
  urls : List String
  maxLedgerLag : Option ℚ
  /-- The readings of the clock. -/
  now : ℕ → ℤ
  /-- How a template literal prints a number. -/
  numberText : ℚ → String

/-- `[...new Set(urls)]` -/
def dedupe (urls : List String) : List String := urls.foldl (fun seen url => if url ∈ seen then seen else seen ++ [url]) []

theorem mem_nodup_dedupe (urls : List String) : (dedupe urls).Nodup ∧ ∀ url, url ∈ dedupe urls ↔ url ∈ urls := by
  have hfold : ∀ seen : List String, seen.Nodup →
      (urls.foldl (fun seen url => if url ∈ seen then seen else seen ++ [url]) seen).Nodup ∧
        ∀ url, url ∈ urls.foldl (fun seen url => if url ∈ seen then seen else seen ++ [url]) seen ↔ url ∈ seen ∨ url ∈ urls := by
    induction urls with
    | nil => exact fun seen hseen => ⟨hseen, fun url => by simp⟩
    | cons first urls ih =>
      intro seen hseen
      rw [List.foldl_cons]
      split
      · rename_i hmem
        refine ⟨(ih seen hseen).1, fun url => ?_⟩
        rw [(ih seen hseen).2, List.mem_cons]
        constructor
        · exact fun h => h.elim .inl fun h => .inr (.inr h)
        · rintro (h | rfl | h)
          exacts [.inl h, .inl hmem, .inr h]
      · rename_i hmem
        have hnodup : (seen ++ [first]).Nodup := List.nodup_append.mpr
          ⟨hseen, List.nodup_singleton _, fun a ha b hb => by rintro rfl; exact hmem (List.mem_singleton.mp hb ▸ ha)⟩
        refine ⟨(ih _ hnodup).1, fun url => ?_⟩
        rw [(ih _ hnodup).2, List.mem_append, List.mem_singleton, List.mem_cons, or_assoc]
  obtain ⟨hnodup, hmem⟩ := hfold [] List.nodup_nil
  exact ⟨hnodup, fun url => (hmem url).trans (by simp)⟩

structure RpcPool where
  urls : List String
  state : String → RpcEndpointHealth
  selected : String
  inFlight : Bool
  /-- What `onRotate` was told. -/
  rotations : List (String × String × String)
  /-- How often the clock was read. -/
  readings : ℕ

def createRpcPool (options : RpcPoolOptions) : Except String RpcPool :=
  match dedupe options.urls with
  | [] => .error "createRpcPool: at least one RPC URL is required"
  | url :: urls => .ok ⟨url :: urls, fun _ => ⟨true, none, none, none, none⟩, url, false, [], 0⟩

namespace RpcPool

/-! ## The endpoints in order -/

def healthyUrls (p : RpcPool) : List String := p.urls.filter fun url => (p.state url).healthy

def unhealthyUrls (p : RpcPool) : List String :=
  (p.urls.filter fun url => !(p.state url).healthy).mergeSort fun a b =>
    decide ((p.state a).lastFailureAt.getD 0 ≤ (p.state b).lastFailureAt.getD 0)

def candidates (p : RpcPool) : List String := p.healthyUrls ++ p.unhealthyUrls

def reselect (p : RpcPool) (reason : String) : RpcPool :=
  match p.candidates.head? with
  | some next => if next = p.selected then p else { p with selected := next, rotations := p.rotations ++ [(p.selected, next, reason)] }
  | none => p

section Options

variable (options : RpcPoolOptions)

def markUnhealthy (p : RpcPool) (url reason : String) : RpcPool :=
  { p with
    state := Function.update p.state url
      { p.state url with healthy := false, reason := some reason, lastFailureAt := some (options.now p.readings) }
    readings := p.readings + 1 }

def reportFailure (p : RpcPool) (url : String) (reason : Option String) : RpcPool :=
  if url ∈ p.urls then
    (p.markUnhealthy options url (reason.getD "call failed")).reselect (url ++ ": " ++ reason.getD "call failed")
  else p

/-- The ledgers of the endpoints that answered. -/
def ledgers (urls : List String) (results : Results) : List ℚ :=
  urls.filterMap fun url => (results url).toOption.map RpcProbeResult.latestLedger

def freshest (urls : List String) (results : Results) : ℚ := (ledgers urls results).foldl max 0

/-- The body of the loop over the results. -/
def recordResult (results : Results) (freshest : ℚ) (checkedAt : ℤ) (p : RpcPool) (url : String) : RpcPool :=
  let checked := { p.state url with lastCheckedAt := some checkedAt }
  match results url with
  | .error message =>
    ({ p with state := Function.update p.state url checked } : RpcPool).markUnhealthy options url ("probe failed: " ++ message)
  | .ok result =>
    let answered := { checked with latestLedger := some result.latestLedger }
    if result.status ≠ "healthy" then
      ({ p with state := Function.update p.state url answered } : RpcPool).markUnhealthy options url
        ("reported status \"" ++ result.status ++ "\"")
    else if options.maxLedgerLag.getD DEFAULT_MAX_LEDGER_LAG < freshest - result.latestLedger then
      ({ p with state := Function.update p.state url answered } : RpcPool).markUnhealthy options url
        ("lagging " ++ options.numberText (freshest - result.latestLedger) ++ " ledgers behind the freshest endpoint")
    else { p with state := Function.update p.state url { answered with healthy := true, reason := none } }

/-- `runProbes`, from when the last probe settles. -/
def runProbes (p : RpcPool) (results : Results) : RpcPool :=
  let checkedAt := options.now p.readings
  (p.urls.foldl (recordResult options results (freshest p.urls results) checkedAt)
    { p with readings := p.readings + 1, inFlight := false }).reselect "health check"

inductive Event where
  | checkNow
  /-- The probes of the cycle in flight have settled. -/
  | probed (results : Results)
  | reportFailure (url : String) (reason : Option String)

def step (p : RpcPool) : Event → RpcPool
  | .checkNow => { p with inFlight := true }
  | .probed results => if p.inFlight then p.runProbes options results else p
  | .reportFailure url reason => p.reportFailure options url reason

end Options

end RpcPool

open RpcPool

/-! ## What callers rely on -/

/-- What an endpoint must have answered to be healthy after a cycle. -/
def AnsweredFresh (maxLedgerLag : ℚ) (urls : List String) (results : Results) (url : String) : Prop :=
  ∃ result, results url = .ok result ∧ result.status = "healthy" ∧
    ∀ other ∈ urls, ∀ r, results other = .ok r → r.latestLedger - result.latestLedger ≤ maxLedgerLag

/-- The selected endpoint is the first candidate, and the candidates are ordered as promised. -/
structure Ordered (options : RpcPoolOptions) (p : RpcPool) : Prop where
  current : p.candidates.head? = some p.selected
  configured : p.urls = dedupe options.urls
  distinct : p.urls.Nodup ∧ ∀ url, url ∈ p.urls ↔ url ∈ options.urls
  perm : p.candidates.Perm p.urls
  healthyFirst : p.candidates = p.healthyUrls ++ p.unhealthyUrls
  /-- An endpoint that is not healthy has failed, and the one that failed longest ago comes first. -/
  failed : ∀ url ∈ p.unhealthyUrls, (p.state url).healthy = false ∧ ∃ t, (p.state url).lastFailureAt = some t
  leastRecent : p.unhealthyUrls.Pairwise fun a b => ∀ s t, (p.state a).lastFailureAt = some s → (p.state b).lastFailureAt = some t → s ≤ t

section Orders

variable {options : RpcPoolOptions} {p : RpcPool} {url : String}

theorem candidates_perm : p.candidates.Perm p.urls :=
  (List.Perm.append_left _ (List.mergeSort_perm _ _)).trans (List.filter_append_perm _ _)

theorem mem_unhealthyUrls : url ∈ p.unhealthyUrls ↔ url ∈ p.urls ∧ (p.state url).healthy = false := by
  unfold unhealthyUrls
  rw [List.mem_mergeSort, List.mem_filter, Bool.not_eq_true']

theorem unhealthyUrls_pairwise :
    p.unhealthyUrls.Pairwise fun a b => (p.state a).lastFailureAt.getD 0 ≤ (p.state b).lastFailureAt.getD 0 := by
  refine (List.pairwise_mergeSort ?_ ?_ _).imp fun h => of_decide_eq_true h
  · intro a b c hab hbc
    exact decide_eq_true ((of_decide_eq_true hab).trans (of_decide_eq_true hbc))
  · intro a b
    rw [Bool.or_eq_true, decide_eq_true_eq, decide_eq_true_eq]
    exact le_total _ _

/-- What every event keeps, besides the selection. -/
structure Sound (options : RpcPoolOptions) (p : RpcPool) : Prop where
  configured : p.urls = dedupe options.urls
  nonempty : p.urls ≠ []
  failed : ∀ url, (p.state url).healthy = false → ∃ t, (p.state url).lastFailureAt = some t

/-- The selection is of the present candidates. -/
def Selected (p : RpcPool) : Prop := p.candidates.head? = some p.selected

theorem ordered_of_sound (h : Sound options p) (hselected : Selected p) : Ordered options p := by
  refine ⟨hselected, h.configured, h.configured ▸ mem_nodup_dedupe options.urls, candidates_perm, rfl, fun url hurl => ?_, ?_⟩
  · obtain ⟨-, hfalse⟩ := mem_unhealthyUrls.mp hurl
    exact ⟨hfalse, h.failed url hfalse⟩
  · refine unhealthyUrls_pairwise.imp fun {a b} hle s t hs ht => ?_
    rwa [hs, ht] at hle

theorem reselect_fields (reason : String) :
    (p.reselect reason).urls = p.urls ∧ (p.reselect reason).state = p.state := by
  unfold reselect
  split
  · split <;> exact ⟨rfl, rfl⟩
  · exact ⟨rfl, rfl⟩

theorem candidates_congr {q : RpcPool} (hurls : q.urls = p.urls) (hstate : q.state = p.state) : q.candidates = p.candidates := by
  unfold candidates healthyUrls unhealthyUrls
  rw [hurls, hstate]

theorem selected_reselect (h : p.urls ≠ []) (reason : String) : Selected (p.reselect reason) := by
  obtain ⟨hurls, hstate⟩ := reselect_fields (p := p) reason
  unfold Selected
  rw [candidates_congr hurls hstate]
  unfold reselect
  cases hhead : p.candidates.head? with
  | none =>
    have hnil := List.head?_eq_none_iff.mp hhead
    exact absurd (List.nil_perm.mp (hnil ▸ candidates_perm)) h
  | some next =>
    dsimp only
    split
    · rename_i heq
      rw [heq]
    · rfl

theorem sound_reselect (h : Sound options p) (reason : String) : Sound options (p.reselect reason) := by
  obtain ⟨hurls, hstate⟩ := reselect_fields (p := p) reason
  exact ⟨hurls ▸ h.configured, hurls ▸ h.nonempty, hstate ▸ h.failed⟩

/-- An entry may be replaced by one that is healthy or has failed. -/
theorem sound_update (h : Sound options p) {entry : RpcEndpointHealth} {readings : ℕ} {inFlight : Bool}
    (hentry : entry.healthy = false → ∃ t, entry.lastFailureAt = some t) :
    Sound options { p with state := Function.update p.state url entry, readings := readings, inFlight := inFlight } := by
  refine ⟨h.configured, h.nonempty, fun u hu => ?_⟩
  simp only [Function.update_apply] at hu ⊢
  split_ifs at hu ⊢
  · exact hentry hu
  · exact h.failed u hu

theorem sound_markUnhealthy (h : Sound options p) (url reason : String) : Sound options (p.markUnhealthy options url reason) :=
  sound_update h fun _ => ⟨_, rfl⟩

theorem sound_recordResult (h : Sound options p) (results : Results) (freshest : ℚ) (checkedAt : ℤ) :
    Sound options (p.recordResult options results freshest checkedAt url) := by
  unfold recordResult
  dsimp only
  split
  · refine sound_markUnhealthy (sound_update h ?_) _ _
    exact h.failed url
  · split_ifs
    · refine sound_markUnhealthy (sound_update h ?_) _ _
      exact h.failed url
    · refine sound_markUnhealthy (sound_update h ?_) _ _
      exact h.failed url
    · exact sound_update h fun hfalse => nomatch hfalse

theorem sound_runProbes (h : Sound options p) (results : Results) :
    Sound options (p.runProbes options results) ∧ Selected (p.runProbes options results) := by
  have hloop : ∀ (urls : List String) (f : ℚ) (t : ℤ) (q : RpcPool), Sound options q →
      Sound options (urls.foldl (recordResult options results f t) q) := by
    intro urls f t
    induction urls with
    | nil => exact fun q hq => hq
    | cons url urls ih => exact fun q hq => ih _ (sound_recordResult hq results f t)
  have hdone := hloop p.urls (freshest p.urls results) (options.now p.readings)
    { p with readings := p.readings + 1, inFlight := false } ⟨h.configured, h.nonempty, h.failed⟩
  exact ⟨sound_reselect hdone _, selected_reselect hdone.nonempty _⟩

theorem sound_step (e : Event) (h : Sound options p) (hselected : Selected p) :
    Sound options (p.step options e) ∧ Selected (p.step options e) := by
  cases e with
  | checkNow => exact ⟨⟨h.configured, h.nonempty, h.failed⟩, hselected⟩
  | probed results =>
    unfold RpcPool.step
    dsimp only
    split
    · exact sound_runProbes h results
    · exact ⟨h, hselected⟩
  | reportFailure url reason =>
    show Sound options (p.reportFailure options url reason) ∧ Selected (p.reportFailure options url reason)
    unfold reportFailure
    split
    · have hmarked := sound_markUnhealthy h url (reason.getD "call failed")
      exact ⟨sound_reselect hmarked _, selected_reselect hmarked.nonempty _⟩
    · exact ⟨h, hselected⟩

/-- A reported failure marks its endpoint unhealthy at the time of the report, and touches no other. -/
theorem reportFailure_state (reason : Option String) (hurl : url ∈ p.urls) :
    ((p.reportFailure options url reason).state url).healthy = false ∧
      ((p.reportFailure options url reason).state url).lastFailureAt = some (options.now p.readings) ∧
        ∀ other, other ≠ url → (p.reportFailure options url reason).state other = p.state other := by
  have hstate : (p.reportFailure options url reason).state = (p.markUnhealthy options url (reason.getD "call failed")).state := by
    unfold reportFailure
    rw [if_pos hurl, (reselect_fields _).2]
  rw [hstate]
  unfold markUnhealthy
  refine ⟨?_, ?_, fun other hother => ?_⟩
  · simp only [Function.update_self]
  · simp only [Function.update_self]
  · simp only [Function.update_of_ne hother]

/-! ## Who is healthy after a cycle -/

theorem le_freshest {urls : List String} {results : Results} {r : RpcProbeResult} (hurl : url ∈ urls) (h : results url = .ok r) :
    r.latestLedger ≤ freshest urls results := by
  have hmem : r.latestLedger ∈ ledgers urls results := by
    refine List.mem_filterMap.mpr ⟨url, hurl, ?_⟩
    rw [h]
    rfl
  have hmax : ∀ (l : List ℚ) (start : ℚ), start ≤ l.foldl max start ∧ ∀ x ∈ l, x ≤ l.foldl max start := by
    intro l
    induction l with
    | nil => exact fun start => ⟨le_rfl, fun x hx => absurd hx List.not_mem_nil⟩
    | cons y l ih =>
      intro start
      obtain ⟨hstart, hall⟩ := ih (max start y)
      refine ⟨(le_max_left ..).trans hstart, fun x hx => ?_⟩
      rcases List.mem_cons.mp hx with rfl | hx
      · exact (le_max_right ..).trans hstart
      · exact hall x hx
  exact (hmax _ 0).2 _ hmem

theorem recordResult_other {results : Results} {f : ℚ} {t : ℤ} {other : String} (hne : other ≠ url) :
    (p.recordResult options results f t url).state other = p.state other := by
  unfold recordResult markUnhealthy
  dsimp only
  split
  · simp only [Function.update_of_ne hne]
  · split_ifs <;> simp only [Function.update_of_ne hne]

theorem markUnhealthy_self (reason : String) : ((p.markUnhealthy options url reason).state url).healthy = false := by
  unfold markUnhealthy
  simp only [Function.update_self]

/-- A result leaves its endpoint healthy only if it says so and does not lag. -/
theorem recordResult_healthy {results : Results} {f : ℚ} {t : ℤ} (h : ((p.recordResult options results f t url).state url).healthy = true) :
    ∃ result, results url = .ok result ∧ result.status = "healthy" ∧
      f - result.latestLedger ≤ options.maxLedgerLag.getD DEFAULT_MAX_LEDGER_LAG := by
  unfold recordResult at h
  dsimp only at h
  split at h
  · rw [markUnhealthy_self] at h
    cases h
  · rename_i result hresult
    split_ifs at h with hstatus hlag
    · rw [markUnhealthy_self] at h
      cases h
    · rw [markUnhealthy_self] at h
      cases h
    · exact ⟨result, hresult, not_not.mp hstatus, not_lt.mp hlag⟩

theorem runProbes_healthy {results : Results} (hurl : url ∈ p.urls) (h : ((p.runProbes options results).state url).healthy = true) :
    AnsweredFresh (options.maxLedgerLag.getD DEFAULT_MAX_LEDGER_LAG) p.urls results url := by
  have hloop : ∀ (f : ℚ) (t : ℤ) (urls : List String) (q : RpcPool), url ∈ urls →
      ((urls.foldl (recordResult options results f t) q).state url).healthy = true →
      ∃ result, results url = .ok result ∧ result.status = "healthy" ∧
        f - result.latestLedger ≤ options.maxLedgerLag.getD DEFAULT_MAX_LEDGER_LAG := by
    intro f t urls
    induction urls using List.reverseRecOn with
    | nil => exact fun q hmem => absurd hmem List.not_mem_nil
    | append_singleton urls last ih =>
      intro q hmem hq
      rw [List.foldl_append, List.foldl_cons, List.foldl_nil] at hq
      by_cases hlast : url = last
      · subst hlast
        exact recordResult_healthy hq
      · rw [recordResult_other hlast] at hq
        rcases List.mem_append.mp hmem with hmem | hmem
        · exact ih q hmem hq
        · exact absurd (List.mem_singleton.mp hmem) hlast
  unfold runProbes at h
  dsimp only at h
  rw [(reselect_fields _).2] at h
  obtain ⟨result, hresult, hstatus, hlag⟩ := hloop _ _ _ _ hurl h
  refine ⟨result, hresult, hstatus, fun other hother r hr => le_trans ?_ hlag⟩
  exact sub_le_sub_right (le_freshest hother hr) _

end Orders

/-! ## Calls over the candidates -/

section Failover

variable {ε α : Type}

/-- What a call did: the endpoints it called, what it reported, and how it ended; none when it had no endpoint. -/
structure Failover (ε α : Type) where
  calls : List String
  reports : List Event
  result : Option (Except ε α)

/-- `withRpcFailover` from call `n` on, over the candidates that are left. -/
def withRpcFailover (fn : ℕ → String → Except ε α) (isFailover : ε → Bool) (message : ε → String) : ℕ → List String → Failover ε α
  | _, [] => ⟨[], [], none⟩
  | n, url :: rest =>
    match fn n url with
    | .ok a => ⟨[url], [], some (.ok a)⟩
    | .error err =>
      if isFailover err then
        let next := withRpcFailover fn isFailover message (n + 1) rest
        ⟨url :: next.calls, .reportFailure url (some (message err)) :: next.reports, next.result.or (some (.error err))⟩
      else ⟨[url], [], some (.error err)⟩

/-- A failover from call `n` on ends with the first answer that is no failover, or with the last error. -/
structure FailsOver (fn : ℕ → String → Except ε α) (isFailover : ε → Bool) (n : ℕ) (candidates : List String) (f : Failover ε α) :
    Prop where
  inOrder : f.calls <+: candidates
  passed : ∀ front url rest, f.calls = front ++ url :: rest → rest ≠ [] →
    ∃ err, fn (n + front.length) url = .error err ∧ isFailover err = true
  ends : ∃ front url, f.calls = front ++ [url] ∧ f.result = some (fn (n + front.length) url) ∧
    ((∃ err, fn (n + front.length) url = .error err ∧ isFailover err = true) → f.calls = candidates)

variable {fn : ℕ → String → Except ε α} {isFailover : ε → Bool} {message : ε → String}

theorem failsOver_last {n : ℕ} {url : String} {rest : List String} {result : Except ε α} (h : fn n url = result)
    (hlast : ¬ ∃ err, result = .error err ∧ isFailover err = true) (reports : List Event) :
    FailsOver fn isFailover n (url :: rest) ⟨[url], reports, some result⟩ := by
  refine ⟨⟨rest, rfl⟩, fun front u tail hcalls htail => ?_, [], url, rfl, congrArg some h.symm, fun herr => ?_⟩
  · have hlength := congrArg List.length hcalls
    have hpos := List.length_pos_iff.mpr htail
    simp only [List.length_append, List.length_cons, List.length_nil] at hlength
    omega
  · exact absurd (h ▸ herr) hlast

/-- **A failover** calls the candidates in order, each once, up to the first answer that is none. -/
theorem withRpcFailover_spec (fn : ℕ → String → Except ε α) (isFailover : ε → Bool) (message : ε → String) (n : ℕ) (candidates : List String) (hne : candidates ≠ []) :
    FailsOver fn isFailover n candidates (withRpcFailover fn isFailover message n candidates) := by
  induction candidates generalizing n with
  | nil => exact absurd rfl hne
  | cons url rest ih =>
    unfold withRpcFailover
    split
    · rename_i a hcall
      exact failsOver_last hcall (fun ⟨_, herr, _⟩ => nomatch herr) []
    · rename_i err hcall
      split
      · rename_i hover
        by_cases hrest : rest = []
        · subst hrest
          refine ⟨⟨[], rfl⟩, fun front u tail hcalls htail => ?_, [], url, rfl, congrArg some hcall.symm, fun _ => rfl⟩
          have hlength := congrArg List.length hcalls
          have hpos := List.length_pos_iff.mpr htail
          simp only [withRpcFailover, List.length_append, List.length_cons, List.length_nil] at hlength
          omega
        · obtain ⟨hfront, hpassed, front, last, hcalls, hresult, hall⟩ := ih (n + 1) hrest
          have hshift : n + 1 + front.length = n + (url :: front).length := by
            rw [List.length_cons]
            omega
          refine ⟨List.cons_prefix_cons.mpr ⟨rfl, hfront⟩, fun before u tail hsplit htail => ?_, url :: front, last, ?_, ?_, ?_⟩
          · cases before with
            | nil =>
              obtain ⟨rfl, -⟩ := List.cons_eq_cons.mp hsplit
              exact ⟨err, hcall, hover⟩
            | cons b before =>
              obtain ⟨-, hsplit⟩ := List.cons_eq_cons.mp hsplit
              obtain ⟨err', herr', hover'⟩ := hpassed before u tail hsplit htail
              have hindex : n + 1 + before.length = n + (b :: before).length := by
                rw [List.length_cons]
                omega
              exact ⟨err', hindex ▸ herr', hover'⟩
          · exact congrArg (url :: ·) hcalls
          · dsimp only
            rw [hresult, hshift]
            rfl
          · exact fun herr => congrArg (url :: ·) (hall (hshift ▸ herr))
      · rename_i hover
        exact failsOver_last hcall (fun ⟨_, herr, h⟩ => hover (Except.error.inj herr ▸ h)) []

end Failover

/-! ## Every run -/

/-- The laws of the pool, in one state. -/
structure PoolLaw (options : RpcPoolOptions) (p : RpcPool) : Prop where
  ordered : Ordered options p
  probed : ∀ results, p.inFlight = true → ∀ url ∈ p.urls, ((p.step options (.probed results)).state url).healthy = true →
    AnsweredFresh (options.maxLedgerLag.getD DEFAULT_MAX_LEDGER_LAG) p.urls results url
  reported : ∀ url reason, url ∈ p.urls →
    ((p.step options (.reportFailure url reason)).state url).healthy = false ∧
      ((p.step options (.reportFailure url reason)).state url).lastFailureAt = some (options.now p.readings) ∧
        ∀ other, other ≠ url → (p.step options (.reportFailure url reason)).state other = p.state other
  unknown : ∀ url reason, url ∉ p.urls → p.step options (.reportFailure url reason) = p
  failover : ∀ {ε α : Type} (fn : ℕ → String → Except ε α) (isFailover : ε → Bool) (message : ε → String),
    (withRpcFailover fn isFailover message 0 p.candidates).calls.Nodup ∧
      FailsOver fn isFailover 0 p.candidates (withRpcFailover fn isFailover message 0 p.candidates)

variable {options : RpcPoolOptions} {p : RpcPool}

theorem step_probed {results : Results} (h : p.inFlight = true) : p.step options (.probed results) = p.runProbes options results :=
  if_pos h

theorem sound_create (h : createRpcPool options = .ok p) : Sound options p ∧ Selected p := by
  unfold createRpcPool at h
  split at h
  · cases h
  · rename_i url urls hurls
    obtain rfl := Except.ok.inj h
    refine ⟨⟨hurls.symm, List.cons_ne_nil _ _, fun _ hfalse => nomatch hfalse⟩, ?_⟩
    unfold Selected candidates healthyUrls
    rw [List.filter_true]
    rfl

/-- **The pool after every event** of every run. -/
theorem poolLaw_run (h : createRpcPool options = .ok p) (l : List Event) : PoolLaw options (run (RpcPool.step options) p l) := by
  obtain ⟨hsound, hselected⟩ := inv_run (P := fun q => Sound options q ∧ Selected q)
    (fun _ e hq _ => sound_step e hq.1 hq.2) (sound_create h) (along_true (l := l))
  have hnodup : (run (RpcPool.step options) p l).candidates.Nodup := by
    rw [candidates_perm.nodup_iff, hsound.configured]
    exact (mem_nodup_dedupe options.urls).1
  have hne : (run (RpcPool.step options) p l).candidates ≠ [] := fun hnil =>
    hsound.nonempty (List.nil_perm.mp (hnil ▸ candidates_perm))
  refine ⟨ordered_of_sound hsound hselected, fun results hflight url hurl hhealthy => ?_, fun url reason hurl => ?_,
    fun url reason hurl => ?_, fun fn isFailover message => ?_⟩
  · rw [step_probed hflight] at hhealthy
    exact runProbes_healthy hurl hhealthy
  · exact reportFailure_state reason hurl
  · exact if_neg hurl
  · have hspec := withRpcFailover_spec fn isFailover message 0 _ hne
    exact ⟨hnodup.sublist hspec.inOrder.sublist, hspec⟩

theorem poolLaw_failover : ∃ options p, createRpcPool options = .ok p ∧
    PoolLaw options (run (RpcPool.step options) p [.reportFailure "a" none, .checkNow]) :=
  ⟨⟨["a", "b", "a"], none, fun n => n, fun _ => ""⟩, _, rfl, poolLaw_run rfl [.reportFailure "a" none, .checkNow]⟩

end Vellar.ServiceKit.Rpc
