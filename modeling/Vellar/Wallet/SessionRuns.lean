import Vellar.Wallet.Sessions

/-!
# Vellar.Wallet.SessionRuns — sessions over whole runs

Sessions as expiring capabilities of an account.  `Orderly` is what a run asks of its overlapping requests: none slides a session
back, none finds or slides one that a later request was already refused, none slides one for another account.  `Inv` is kept by
every orderly step, and `sessions_safe` reads off what every history then satisfies (`Lawful`).
-/

set_option autoImplicit false

namespace Vellar.Wallet.Sessions

open Machine

/-! ## What a history is to satisfy -/

/-- The times at which an id was authorized. -/
def usesOf (id : String) (log : List Event) : List ℤ :=
  log.filterMap fun e =>
    match e with
    | .authorized _ id' _ _ asOf => if id' = id then some asOf else none
    | _ => none

/-- Every use after the issue comes within the lifetime of an earlier use or of the issue. -/
def Chained (issuedAt : ℤ) (uses : List ℤ) : Prop :=
  ∀ y ∈ uses, issuedAt < y → ∃ x ∈ issuedAt :: uses, x < y ∧ y < x + SESSION_TTL_MS

/-- What an event is to satisfy, given the history before it. -/
def Lawful (pre : List Event) : Event → Prop
  | .authorized _ id contractId network asOf =>
    (∃ issuedAt, .issued id contractId network issuedAt ∈ pre ∧ Chained issuedAt (usesOf id pre ++ [asOf])) ∧
      (∀ c n target, .revoked c n target ∈ pre → target.id ≠ id) ∧ ∀ request asOf', .refused request id asOf' true ∉ pre
  | .revoked contractId network target => target.contractId = contractId ∧ target.network = network
  | .listed contractId network sessions => ∀ s ∈ sessions, s.contractId = contractId ∧ s.network = network
  | _ => True

/-- No live session moves backwards. -/
def Forward (s s' : State) : Prop :=
  ∀ id row row', s.store.find id = some row → s'.store.find id = some row' →
    row.lastActiveAt ≤ row'.lastActiveAt ∧ row.expiresAt ≤ row'.expiresAt

/-- No request with a later time has been refused the id. -/
def NotOvertaken (log : List Event) (id : String) (asOf : ℤ) : Prop :=
  ∀ request asOf', .refused request id asOf' true ∈ log → asOf' ≤ asOf

/-- What a run asks of a step, where the session is still live at the time of the request. -/
def Orderly (s : State) : Action → Prop
  | .resume request =>
    match s.pc request with
    | .finding route id asOf => ∀ row, s.store.find id = some row → asOf < row.expiresAt → route.accepts row = true →
        NotOvertaken s.log id asOf
    | .touching route session asOf => ∀ row, s.store.find session.id = some row → asOf < row.expiresAt →
        row.lastActiveAt ≤ asOf ∧ route.accepts session = true ∧ NotOvertaken s.log session.id asOf
    | _ => True
  | _ => True

/-! ## Uses -/

section Uses

variable {log : List Event} {id : String} {issuedAt w y : ℤ} {uses : List ℤ}

@[simp] theorem usesOf_append (log' : List Event) : usesOf id (log ++ log') = usesOf id log ++ usesOf id log' := List.filterMap_append

theorem usesOf_authorized (request : ℕ) (contractId network : String) (asOf : ℤ) :
    usesOf id [.authorized request id contractId network asOf] = [asOf] := by simp [usesOf]

/-- From a use at or after `y` the chain leads back to one before it. -/
theorem Chained.before (h : Chained issuedAt uses) (hy : issuedAt < y) (hw : w ∈ issuedAt :: uses) (hlt : y < w + SESSION_TTL_MS) :
    ∃ x ∈ issuedAt :: uses, x < y ∧ y < x + SESSION_TTL_MS := by
  -- The distance to the issue decreases.
  obtain ⟨n, hn⟩ : ∃ n : ℕ, w < issuedAt + n := ⟨(w - issuedAt + 1).toNat, by omega⟩
  induction n generalizing w with
  | zero => exact ⟨w, hw, by omega, hlt⟩
  | succ n ih =>
    by_cases hwy : w < y
    · exact ⟨w, hw, hwy, hlt⟩
    · have hmem : w ∈ uses := by
        rcases List.mem_cons.mp hw with rfl | hmem
        · omega
        · exact hmem
      obtain ⟨x, hx, hxw, hwx⟩ := h w hmem (by omega)
      exact ih hx (by omega) (by omega)

/-- **One more use** within the lifetime of an earlier one. -/
theorem Chained.snoc (h : Chained issuedAt uses) (hw : w ∈ issuedAt :: uses) (hlt : y < w + SESSION_TTL_MS) :
    Chained issuedAt (uses ++ [y]) := by
  have hwiden : ∀ x ∈ issuedAt :: uses, x ∈ issuedAt :: (uses ++ [y]) := fun x hx =>
    List.cons_subset_cons _ (List.subset_append_left uses [y]) hx
  intro z hz hlater
  rcases List.mem_append.mp hz with hz | hz
  · obtain ⟨x, hx, hxz⟩ := h z hz hlater
    exact ⟨x, hwiden x hx, hxz⟩
  · obtain rfl := List.mem_singleton.mp hz
    obtain ⟨x, hx, hxz⟩ := h.before hlater hw hlt
    exact ⟨x, hwiden x hx, hxz⟩

end Uses

/-! ## The invariant -/

/-- The id has been issued. -/
def Issued (log : List Event) (id : String) : Prop := ∃ contractId network asOf, .issued id contractId network asOf ∈ log

theorem any_issues {log : List Event} {id : String} : log.any (Event.issues id) = true ↔ Issued log id := by
  rw [List.any_eq_true]
  constructor
  · rintro ⟨e, he, hid⟩
    cases e with
    | issued id' contractId network asOf => exact ⟨contractId, network, asOf, of_decide_eq_true hid ▸ he⟩
    | authorized | refused | revoked | listed => cases hid
  · rintro ⟨contractId, network, asOf, he⟩
    exact ⟨_, he, decide_eq_true rfl⟩

/-- What a session in hand relies on. -/
def Holds (log : List Event) (session : SessionRecord) : Prop :=
  ∃ asOf, .issued session.id session.contractId session.network asOf ∈ log

def PcOk (s : State) : Pc → Prop
  | .opening record => record.id ∈ s.drawn ∧ ¬ Issued s.log record.id ∧ record.lastActiveAt = record.createdAt ∧
      record.expiresAt = record.lastActiveAt + SESSION_TTL_MS
  | .touching route session asOf => Holds s.log session ∧ (route.accepts session = true → asOf ∈ usesOf session.id s.log)
  | .acting route session => Holds s.log session ∧ route.accepts session = true
  | .deleting session target => Holds s.log target ∧ target.contractId = session.contractId ∧ target.network = session.network
  | _ => True

structure Inv (s : State) : Prop where
  pcs : ∀ request, PcOk s (s.pc request)
  apart : ∀ r r' record record', s.pc r = .opening record → s.pc r' = .opening record' → record.id = record'.id → r = r'
  drawn : ∀ id, Issued s.log id → id ∈ s.drawn
  once : ∀ id c n t c' n' t', .issued id c n t ∈ s.log → .issued id c' n' t' ∈ s.log → t = t'
  lifetime : ∀ id row, s.store.find id = some row → row.expiresAt = row.lastActiveAt + SESSION_TTL_MS
  active : ∀ id row, s.store.find id = some row →
    ∃ t, .issued id row.contractId row.network t ∈ s.log ∧ row.lastActiveAt ∈ t :: usesOf id s.log
  chained : ∀ id c n t, .issued id c n t ∈ s.log → Chained t (usesOf id s.log)
  gone : ∀ c n target, .revoked c n target ∈ s.log → s.store.find target.id = none ∧ Issued s.log target.id
  lapsed : ∀ request id asOf, .refused request id asOf true ∈ s.log →
    Issued s.log id ∧ ∀ row, s.store.find id = some row → row.expiresAt ≤ asOf
  lawful : Each Lawful s.log

theorem inv_init : Inv State.init where
  pcs _ := trivial
  apart _ _ _ _ h := nomatch h
  drawn _ := fun ⟨_, _, _, h⟩ => nomatch h
  once _ _ _ _ _ _ _ h := nomatch h
  lifetime _ _ h := nomatch h
  active _ _ h := nomatch h
  chained _ _ _ _ h := nomatch h
  gone _ _ _ h := nomatch h
  lapsed _ _ _ h := nomatch h
  lawful := each_nil

/-! ## What a step leaves of the invariant -/

section Steps

variable {b : Backend} {s : State} {request : ℕ} {pc : Pc} {e e' : Event} {id : String}

theorem mem_of_snoc {log : List Event} (h : e' ∈ log ++ [e]) (hne : e' ≠ e) : e' ∈ log := by
  rcases List.mem_append.mp h with h | h
  · exact h
  · exact absurd (List.mem_singleton.mp h) hne

theorem Issued.append {log log' : List Event} (h : Issued log id) : Issued (log ++ log') id := by
  obtain ⟨c, n, t, he⟩ := h
  exact ⟨c, n, t, List.mem_append_left _ he⟩

/-- An event that is not an issue issues nothing. -/
theorem issued_snoc {log : List Event} (he : ∀ c n t, .issued id c n t ≠ e) : Issued (log ++ [e]) id ↔ Issued log id := by
  constructor
  · rintro ⟨c, n, t, h⟩
    exact ⟨c, n, t, mem_of_snoc h (he c n t)⟩
  · exact Issued.append

/-- What a request relies on is kept when the history grows and its id is not issued. -/
theorem PcOk.mono {s' : State} {log' : List Event} (h : PcOk s pc) (hdrawn : s.drawn ⊆ s'.drawn) (hlog : s'.log = s.log ++ log')
    (hnew : ∀ record, pc = .opening record → ¬ Issued s'.log record.id) : PcOk s' pc := by
  have hholds : ∀ session, Holds s.log session → Holds s'.log session := by
    rintro session ⟨t, ht⟩
    exact ⟨t, hlog ▸ List.mem_append_left _ ht⟩
  cases pc with
  | opening record => exact ⟨hdrawn h.1, hnew record rfl, h.2.2⟩
  | touching route session asOf =>
    refine ⟨hholds session h.1, fun hacc => ?_⟩
    rw [hlog, usesOf_append]
    exact List.mem_append_left _ (h.2 hacc)
  | acting route session => exact ⟨hholds session h.1, h.2⟩
  | deleting session target => exact ⟨hholds target h.1, h.2⟩
  | idle | finding | done => trivial

theorem pcs_update {s' : State} (hpc : PcOk s' pc) (hmono : ∀ r, r ≠ request → PcOk s' (s.pc r)) :
    ∀ r, PcOk s' (Function.update s.pc request pc r) := by
  intro r
  by_cases hr : r = request
  · rw [hr, Function.update_self]
    exact hpc
  · rw [Function.update_of_ne hr]
    exact hmono r hr

/-- Two openings draw different ids. -/
def Apart (pcs : ℕ → Pc) : Prop :=
  ∀ r r' record record', pcs r = .opening record → pcs r' = .opening record' → record.id = record'.id → r = r'

theorem Apart.update {pcs : ℕ → Pc} (h : Apart pcs) (hpc : ∀ record, pc ≠ .opening record) : Apart (Function.update pcs request pc) := by
  have hold : ∀ r record, Function.update pcs request pc r = .opening record → pcs r = .opening record := by
    intro r record hr
    by_cases heq : r = request
    · rw [heq, Function.update_self] at hr
      exact absurd hr (hpc record)
    · rwa [Function.update_of_ne heq] at hr
  exact fun r r' record record' hr hr' => h r r' record record' (hold r record hr) (hold r' record' hr')

/-- A request that moves on leaves everything else alone. -/
theorem Inv.goto (h : Inv s) (hpc : PcOk s pc) (hopen : ∀ record, pc ≠ .opening record) : Inv (s.goto request pc) where
  pcs := pcs_update hpc fun r _ => h.pcs r
  apart := Apart.update h.apart hopen
  drawn := h.drawn
  once := h.once
  lifetime := h.lifetime
  active := h.active
  chained := h.chained
  gone := h.gone
  lapsed := h.lapsed
  lawful := h.lawful

/-- A history that grows by an event that issues nothing, authorizes nothing, revokes nothing and refuses nothing that was
issued. -/
theorem Inv.quiet (h : Inv s) (hissued : ∀ id c n t, .issued id c n t ≠ e) (huses : ∀ id, usesOf id [e] = [])
    (hrevoked : ∀ c n target, .revoked c n target ≠ e) (hrefused : ∀ r id asOf, .refused r id asOf true = e →
      Issued s.log id ∧ ∀ row, s.store.find id = some row → row.expiresAt ≤ asOf)
    (hlawful : Lawful s.log e) (hpc : PcOk s pc) (hopen : ∀ record, pc ≠ .opening record) :
    Inv { s.goto request pc with log := s.log ++ [e] } where
  pcs := pcs_update (hpc.mono (List.Subset.refl _) rfl fun record hr => absurd hr (hopen record)) fun r _ =>
    (h.pcs r).mono (List.Subset.refl _) rfl fun record hr => by
      have hok : PcOk s (.opening record) := hr ▸ h.pcs r
      exact (issued_snoc (hissued record.id)).not.mpr hok.2.1
  apart := Apart.update h.apart hopen
  drawn id hid := h.drawn id ((issued_snoc (hissued id)).mp hid)
  once id c n t c' n' t' h₁ h₂ := h.once id c n t c' n' t' (mem_of_snoc h₁ (hissued _ _ _ _)) (mem_of_snoc h₂ (hissued _ _ _ _))
  lifetime := h.lifetime
  active id row hrow := by
    obtain ⟨t, ht, hlast⟩ := h.active id row hrow
    refine ⟨t, List.mem_append_left _ ht, ?_⟩
    show row.lastActiveAt ∈ t :: usesOf id (s.log ++ [e])
    rw [usesOf_append, huses, List.append_nil]
    exact hlast
  chained id c n t ht := by
    show Chained t (usesOf id (s.log ++ [e]))
    rw [usesOf_append, huses, List.append_nil]
    exact h.chained id c n t (mem_of_snoc ht (hissued _ _ _ _))
  gone c n target ht := by
    obtain ⟨hnone, hissue⟩ := h.gone c n target (mem_of_snoc ht (hrevoked _ _ _))
    exact ⟨hnone, hissue.append⟩
  lapsed r id asOf hr := by
    rcases List.mem_append.mp hr with hr | hr
    · obtain ⟨hissue, hle⟩ := h.lapsed r id asOf hr
      exact ⟨hissue.append, hle⟩
    · obtain ⟨hissue, hle⟩ := hrefused r id asOf (List.mem_singleton.mp hr)
      exact ⟨hissue.append, hle⟩
  lawful := each_snoc.mpr ⟨h.lawful, hlawful⟩

/-- **A lookup that finds nothing**. -/
theorem inv_refused (h : Inv s) {asOf : ℤ} (hfind : find b s.store id asOf = none) :
    Inv { s.goto request .done with log := s.log ++ [.refused request id asOf (s.log.any (Event.issues id))] } := by
  refine h.quiet (fun _ _ _ _ he => nomatch he) (fun _ => rfl) (fun _ _ _ he => nomatch he) ?_ trivial trivial fun _ he => nomatch he
  rintro r id' asOf' he
  injection he with _ hid hasOf hlapsed
  subst hid hasOf
  refine ⟨any_issues.mp hlapsed.symm, fun row hrow => ?_⟩
  by_contra hlive
  have hsome : find b s.store id' asOf' = some row := find_some.mpr ⟨hrow, not_le.mp hlive⟩
  rw [hfind] at hsome
  cases hsome

/-- **A lookup that authorizes**: the use is within the lifetime of the last one, and the id has neither been revoked nor lapsed. -/
theorem inv_authorized (h : Inv s) {route : Route} {asOf : ℤ} {session : SessionRecord} (hfind : find b s.store id asOf = some session)
    (hnot : NotOvertaken s.log id asOf) :
    Inv { s.goto request (.touching route session asOf) with
      log := s.log ++ [.authorized request id session.contractId session.network asOf] } := by
  obtain ⟨hrow, hlive⟩ := find_some.mp hfind
  obtain ⟨-, hid⟩ := Table.mem_of_find hrow
  obtain ⟨t, ht, hlast⟩ := h.active id session hrow
  have hlifetime := h.lifetime id session hrow
  have hchain : Chained t (usesOf id s.log ++ [asOf]) := (h.chained id _ _ t ht).snoc hlast (by omega)
  have huses : usesOf id (s.log ++ [.authorized request id session.contractId session.network asOf]) = usesOf id s.log ++ [asOf] := by
    rw [usesOf_append, usesOf_authorized]
  have hothers : ∀ id', id' ≠ id →
      usesOf id' (s.log ++ [.authorized request id session.contractId session.network asOf]) = usesOf id' s.log := by
    intro id' hne
    rw [usesOf_append]
    simp [usesOf, Ne.symm hne]
  have hissued : ∀ id' c n t, Event.issued id' c n t ≠ .authorized request id session.contractId session.network asOf :=
    fun _ _ _ _ he => nomatch he
  have hlawful : Lawful s.log (.authorized request id session.contractId session.network asOf) := by
    refine ⟨⟨t, ht, hchain⟩, fun c n target hrevoked heq => ?_, fun r asOf' hrefused => ?_⟩
    · have hnone := (h.gone c n target hrevoked).1
      rw [heq, hrow] at hnone
      cases hnone
    · have hexpired := (h.lapsed r id asOf' hrefused).2 session hrow
      have hlater := hnot r asOf' hrefused
      omega
  exact
    { pcs := pcs_update ⟨⟨t, List.mem_append_left _ (hid ▸ ht)⟩, fun _ => by
          show asOf ∈ usesOf session.id (s.log ++ _)
          rw [hid, huses]
          exact List.mem_append_right _ (List.mem_singleton_self _)⟩ fun r _ =>
        (h.pcs r).mono (List.Subset.refl _) rfl fun record hr => by
          have hok : PcOk s (.opening record) := hr ▸ h.pcs r
          exact (issued_snoc (hissued record.id)).not.mpr hok.2.1
      apart := Apart.update h.apart fun _ he => nomatch he
      drawn := fun id' hid' => h.drawn id' ((issued_snoc (hissued id')).mp hid')
      once := fun id' c n t c' n' t' h₁ h₂ => h.once id' c n t c' n' t' (mem_of_snoc h₁ (hissued _ _ _ _)) (mem_of_snoc h₂ (hissued _ _ _ _))
      lifetime := h.lifetime
      active := fun id' row hrow' => by
        obtain ⟨t', ht', hlast'⟩ := h.active id' row hrow'
        refine ⟨t', List.mem_append_left _ ht', ?_⟩
        show row.lastActiveAt ∈ t' :: usesOf id' (s.log ++ _)
        rw [usesOf_append]
        exact List.cons_subset_cons _ (List.subset_append_left _ _) hlast'
      chained := fun id' c n t' ht' => by
        have hold := mem_of_snoc ht' (hissued _ _ _ _)
        show Chained t' (usesOf id' (s.log ++ _))
        by_cases heq : id' = id
        · subst heq
          rw [huses, h.once _ _ _ _ _ _ _ hold ht]
          exact hchain
        · rw [hothers id' heq]
          exact h.chained id' c n t' hold
      gone := fun c n target hrevoked => by
        obtain ⟨hnone, hissue⟩ := h.gone c n target (mem_of_snoc hrevoked fun he => nomatch he)
        exact ⟨hnone, hissue.append⟩
      lapsed := fun r id' asOf' hrefused => by
        obtain ⟨hissue, hle⟩ := h.lapsed r id' asOf' (mem_of_snoc hrefused fun he => nomatch he)
        exact ⟨hissue.append, hle⟩
      lawful := each_snoc.mpr ⟨h.lawful, hlawful⟩ }

/-- **A touch**: the session slides to the time of the request, which was authorized. -/
theorem inv_touched (h : Inv s) {route : Route} {session : SessionRecord} {asOf : ℤ}
    (hpc : s.pc request = .touching route session asOf)
    (horderly : ∀ row, s.store.find session.id = some row → asOf < row.expiresAt →
      row.lastActiveAt ≤ asOf ∧ route.accepts session = true ∧ NotOvertaken s.log session.id asOf) :
    Inv { s.goto request (if route.accepts session then .acting route session else .done) with
      store := touch b s.store session.id asOf (asOf + SESSION_TTL_MS) } := by
  have hok : PcOk s (.touching route session asOf) := hpc ▸ h.pcs request
  have hnext : PcOk s (if route.accepts session then .acting route session else .done) := by
    by_cases hacc : route.accepts session = true
    · rw [if_pos hacc]
      exact ⟨hok.1, hacc⟩
    · rw [if_neg hacc]
      trivial
  have hclosed : ∀ record, (if route.accepts session then Pc.acting route session else .done) ≠ .opening record := by
    intro record
    by_cases hacc : route.accepts session = true
    · rw [if_pos hacc]
      exact fun he => nomatch he
    · rw [if_neg hacc]
      exact fun he => nomatch he
  -- A row after the touch is one before it, perhaps slid.
  have hrows : ∀ id' row', (touch b s.store session.id asOf (asOf + SESSION_TTL_MS)).find id' = some row' →
      ∃ row, s.store.find id' = some row ∧ (row' = row ∨
        (row.id = session.id ∧ asOf < row.expiresAt ∧ row' = slide asOf (asOf + SESSION_TTL_MS) row)) := by
    intro id' row' hrow'
    rw [touch_spec] at hrow'
    obtain ⟨row, hrow, hslid⟩ := Option.map_eq_some_iff.mp hrow'
    refine ⟨row, hrow, ?_⟩
    by_cases hlive : row.id = session.id ∧ asOf < row.expiresAt
    · rw [if_pos hlive] at hslid
      exact .inr ⟨hlive.1, hlive.2, hslid.symm⟩
    · rw [if_neg hlive] at hslid
      exact .inl hslid.symm
  have hmoved : Inv (s.goto request _) := h.goto hnext hclosed
  exact
    { pcs := hmoved.pcs
      apart := hmoved.apart
      drawn := h.drawn
      once := h.once
      lifetime := fun id' row' hrow' => by
        obtain ⟨row, hrow, rfl | ⟨-, -, rfl⟩⟩ := hrows id' row' hrow'
        · exact h.lifetime id' row' hrow
        · rfl
      active := fun id' row' hrow' => by
        obtain ⟨row, hrow, rfl | ⟨hid, hlive, rfl⟩⟩ := hrows id' row' hrow'
        · exact h.active id' row' hrow
        · obtain ⟨t, ht, -⟩ := h.active id' row hrow
          obtain rfl : row.id = id' := (Table.mem_of_find hrow).2
          rw [hid] at hrow
          have huse := hok.2 (horderly row hrow hlive).2.1
          refine ⟨t, ht, List.mem_cons_of_mem _ ?_⟩
          show asOf ∈ usesOf row.id s.log
          rw [hid]
          exact huse
      chained := h.chained
      gone := fun c n target hrevoked => by
        obtain ⟨hnone, hissue⟩ := h.gone c n target hrevoked
        refine ⟨?_, hissue⟩
        show (touch b s.store session.id asOf (asOf + SESSION_TTL_MS)).find target.id = none
        rw [touch_spec, hnone, Option.map_none]
      lapsed := fun r id' asOf' hrefused => by
        obtain ⟨hissue, hle⟩ := h.lapsed r id' asOf' hrefused
        refine ⟨hissue, fun row' hrow' => ?_⟩
        obtain ⟨row, hrow, rfl | ⟨hid, hlive, rfl⟩⟩ := hrows id' row' hrow'
        · exact hle row' hrow
        · -- A session that has lapsed is not live for a request that was not overtaken.
          obtain rfl : row.id = id' := (Table.mem_of_find hrow).2
          have hexpired := hle row hrow
          rw [hid] at hrow hrefused
          have hlater := (horderly row hrow hlive).2.2 r asOf' hrefused
          omega
      lawful := h.lawful }

/-- **A revocation**: of a session of the same account, which is then gone. -/
theorem inv_deleted (h : Inv s) {session target : SessionRecord} (hpc : s.pc request = .deleting session target) :
    Inv { s.goto request .done with
      store := delete b s.store target.id
      log := s.log ++ [.revoked session.contractId session.network target] } := by
  have hok : PcOk s (.deleting session target) := hpc ▸ h.pcs request
  obtain ⟨⟨t, ht⟩, hcontract, hnetwork⟩ := hok
  have hrows : ∀ id' row, (delete b s.store target.id).find id' = some row → s.store.find id' = some row := by
    intro id' row hrow
    rw [delete_spec] at hrow
    split at hrow
    · cases hrow
    · exact hrow
  have hissued : ∀ id' c n t, Event.issued id' c n t ≠ .revoked session.contractId session.network target := by
    intro _ _ _ _ he
    cases he
  have huses : ∀ id', usesOf id' (s.log ++ [.revoked session.contractId session.network target]) = usesOf id' s.log := by
    intro id'
    rw [usesOf_append]
    exact List.append_nil _
  exact
    { pcs := pcs_update trivial fun r _ => (h.pcs r).mono (List.Subset.refl _) rfl fun record hr => by
        have hopening : PcOk s (.opening record) := hr ▸ h.pcs r
        exact (issued_snoc (hissued record.id)).not.mpr hopening.2.1
      apart := Apart.update h.apart fun _ he => by cases he
      drawn := fun id' hid' => h.drawn id' ((issued_snoc (hissued id')).mp hid')
      once := fun id' c n t c' n' t' h₁ h₂ => h.once id' c n t c' n' t' (mem_of_snoc h₁ (hissued _ _ _ _)) (mem_of_snoc h₂ (hissued _ _ _ _))
      lifetime := fun id' row hrow => h.lifetime id' row (hrows id' row hrow)
      active := fun id' row hrow => by
        obtain ⟨t', ht', hlast⟩ := h.active id' row (hrows id' row hrow)
        refine ⟨t', List.mem_append_left _ ht', ?_⟩
        show row.lastActiveAt ∈ t' :: usesOf id' (s.log ++ _)
        rw [huses]
        exact hlast
      chained := fun id' c n t' ht' => by
        show Chained t' (usesOf id' (s.log ++ _))
        rw [huses]
        exact h.chained id' c n t' (mem_of_snoc ht' (hissued _ _ _ _))
      gone := fun c n target' hrevoked => by
        show (delete b s.store target.id).find target'.id = none ∧ _
        rw [delete_spec]
        rcases List.mem_append.mp hrevoked with hrevoked | hrevoked
        · obtain ⟨hnone, hissue⟩ := h.gone c n target' hrevoked
          rw [hnone, ite_self]
          exact ⟨rfl, hissue.append⟩
        · injection List.mem_singleton.mp hrevoked with _ _ htarget
          subst htarget
          exact ⟨if_pos rfl, _, _, t, List.mem_append_left _ ht⟩
      lapsed := fun r id' asOf' hrefused => by
        obtain ⟨hissue, hle⟩ := h.lapsed r id' asOf' (mem_of_snoc hrefused fun he => by cases he)
        exact ⟨hissue.append, fun row hrow => hle row (hrows id' row hrow)⟩
      lawful := each_snoc.mpr ⟨h.lawful, hcontract, hnetwork⟩ }

/-- Only what was issued is used. -/
theorem Inv.uses_nil (h : Inv s) (hno : ¬ Issued s.log id) : usesOf id s.log = [] := by
  refine List.eq_nil_iff_forall_not_mem.mpr fun asOf hmem => ?_
  obtain ⟨e, he, hsome⟩ := List.mem_filterMap.mp hmem
  cases e with
  | authorized r id' c n asOf' =>
    dsimp only at hsome
    split at hsome
    · next hid =>
      subst hid
      obtain ⟨pre, post, hsplit⟩ := List.append_of_mem he
      have hlawful : Lawful pre (.authorized r id' c n asOf') := h.lawful pre _ post hsplit
      obtain ⟨⟨t, ht, -⟩, -⟩ := hlawful
      exact hno ⟨c, n, t, hsplit ▸ List.mem_append_left _ ht⟩
    · cases hsome
  | issued | refused | revoked | listed => cases hsome

/-- **An issue**, of an id that was never issued. -/
theorem inv_opened (h : Inv s) {record : SessionRecord} (hpc : s.pc request = .opening record) {store : Store}
    (hinsert : insert b s.store record = some store) :
    Inv { s.goto request .done with
      store := store
      log := s.log ++ [.issued record.id record.contractId record.network record.createdAt] } := by
  have hok : PcOk s (.opening record) := hpc ▸ h.pcs request
  obtain ⟨hdrawn, hnew, hlast, hexpires⟩ := hok
  have hrows : ∀ id' row, store.find id' = some row → (record.id = id' ∧ row = record) ∨ (record.id ≠ id' ∧ s.store.find id' = some row) := by
    intro id' row hrow
    rw [insert_spec hinsert] at hrow
    by_cases hid : record.id = id'
    · rw [if_pos hid] at hrow
      exact .inl ⟨hid, (Option.some.inj hrow).symm⟩
    · rw [if_neg hid] at hrow
      exact .inr ⟨hid, hrow⟩
  have hissued : ∀ id' c n t, .issued id' c n t ∈ s.log ++ [Event.issued record.id record.contractId record.network record.createdAt] →
      .issued id' c n t ∈ s.log ∨ (id' = record.id ∧ t = record.createdAt) := by
    intro id' c n t ht
    rcases List.mem_append.mp ht with ht | ht
    · exact .inl ht
    · injection List.mem_singleton.mp ht with hid _ _ hat
      exact .inr ⟨hid, hat⟩
  have huses : ∀ id', usesOf id' (s.log ++ [.issued record.id record.contractId record.network record.createdAt]) = usesOf id' s.log := by
    intro id'
    rw [usesOf_append]
    exact List.append_nil _
  have hother : ∀ id', Issued s.log id' → record.id ≠ id' := fun id' hissue heq => hnew (heq ▸ hissue)
  exact
    { pcs := pcs_update trivial fun r hr => (h.pcs r).mono (List.Subset.refl _) rfl fun record' hr' => by
        have hopening : PcOk s (.opening record') := hr' ▸ h.pcs r
        rintro ⟨c, n, t, ht⟩
        rcases hissued _ c n t ht with ht | ⟨heq, -⟩
        · exact hopening.2.1 ⟨c, n, t, ht⟩
        · exact hr (h.apart r request record' record hr' hpc heq)
      apart := Apart.update h.apart fun _ he => nomatch he
      drawn := fun id' ⟨c, n, t, ht⟩ => by
        rcases hissued id' c n t ht with ht | ⟨heq, -⟩
        · exact h.drawn id' ⟨c, n, t, ht⟩
        · exact heq ▸ hdrawn
      once := fun id' c n t c' n' t' h₁ h₂ => by
        rcases hissued id' c n t h₁ with h₁ | ⟨heq, ht⟩
        · rcases hissued id' c' n' t' h₂ with h₂ | ⟨heq', -⟩
          · exact h.once id' c n t c' n' t' h₁ h₂
          · exact absurd heq'.symm (hother id' ⟨c, n, t, h₁⟩)
        · rcases hissued id' c' n' t' h₂ with h₂ | ⟨-, ht'⟩
          · exact absurd heq.symm (hother id' ⟨c', n', t', h₂⟩)
          · rw [ht, ht']
      lifetime := fun id' row hrow => by
        rcases hrows id' row hrow with ⟨-, rfl⟩ | ⟨-, hrow⟩
        · exact hexpires
        · exact h.lifetime id' row hrow
      active := fun id' row hrow => by
        show ∃ t, _ ∧ row.lastActiveAt ∈ t :: usesOf id' (s.log ++ _)
        rw [huses]
        rcases hrows id' row hrow with ⟨rfl, rfl⟩ | ⟨-, hrow⟩
        · exact ⟨row.createdAt, List.mem_append_right _ (List.mem_singleton_self _), hlast ▸ List.mem_cons_self⟩
        · obtain ⟨t, ht, hmem⟩ := h.active id' row hrow
          exact ⟨t, List.mem_append_left _ ht, hmem⟩
      chained := fun id' c n t ht => by
        show Chained t (usesOf id' (s.log ++ _))
        rw [huses]
        rcases hissued id' c n t ht with ht | ⟨rfl, -⟩
        · exact h.chained id' c n t ht
        · rw [h.uses_nil hnew]
          exact fun y hy => absurd hy List.not_mem_nil
      gone := fun c n target hrevoked => by
        obtain ⟨hnone, hissue⟩ := h.gone c n target (mem_of_snoc hrevoked fun he => nomatch he)
        refine ⟨?_, hissue.append⟩
        show store.find target.id = none
        rw [insert_spec hinsert, if_neg (hother _ hissue)]
        exact hnone
      lapsed := fun r id' asOf' hrefused => by
        obtain ⟨hissue, hle⟩ := h.lapsed r id' asOf' (mem_of_snoc hrefused fun he => nomatch he)
        refine ⟨hissue.append, fun row hrow => ?_⟩
        rcases hrows id' row hrow with ⟨heq, -⟩ | ⟨-, hrow⟩
        · exact absurd heq (hother id' hissue)
        · exact hle row hrow
      lawful := each_snoc.mpr ⟨h.lawful, trivial⟩ }

/-- **An opening** draws an id of its own. -/
theorem inv_opening (h : Inv s) {contractId network : String} (hfresh : id ∉ s.drawn) :
    Inv { s.goto request (.opening ⟨id, contractId, network, s.now, s.now, s.now + SESSION_TTL_MS⟩) with drawn := id :: s.drawn } where
  pcs := pcs_update ⟨List.mem_cons_self, fun hissue => hfresh (h.drawn id hissue), rfl, rfl⟩ fun r _ =>
    (h.pcs r).mono (List.subset_cons_self _ _) (List.append_nil _).symm fun record hr => by
      have hok : PcOk s (.opening record) := hr ▸ h.pcs r
      exact hok.2.1
  apart := by
    -- The id drawn is none of an opening under way.
    have hother : ∀ r record, s.pc r = .opening record → record.id ≠ id := by
      rintro r record hr rfl
      have hok : PcOk s (.opening record) := hr ▸ h.pcs r
      exact hfresh hok.1
    intro r r' record record' hr hr' hid
    by_cases heq : r = request
    · by_cases heq' : r' = request
      · rw [heq, heq']
      · have hnew : Function.update s.pc request _ r = Pc.opening record := hr
        have hold : Function.update s.pc request _ r' = Pc.opening record' := hr'
        rw [heq, Function.update_self] at hnew
        rw [Function.update_of_ne heq'] at hold
        injection hnew with hrecord
        subst hrecord
        exact absurd hid.symm (hother r' record' hold)
    · have hold : Function.update s.pc request _ r = Pc.opening record := hr
      have hnew : Function.update s.pc request _ r' = Pc.opening record' := hr'
      rw [Function.update_of_ne heq] at hold
      by_cases heq' : r' = request
      · rw [heq', Function.update_self] at hnew
        injection hnew with hrecord
        subst hrecord
        exact absurd hid (hother r record hold)
      · rw [Function.update_of_ne heq'] at hnew
        exact h.apart r r' record record' hold hnew hid
  drawn id' hid := List.mem_cons_of_mem _ (h.drawn id' hid)
  once := h.once
  lifetime := h.lifetime
  active := h.active
  chained := h.chained
  gone := h.gone
  lapsed := h.lapsed
  lawful := h.lawful

end Steps

/-! ## The step lemma -/

section Runs

variable (b : Backend) {s : State} {request : ℕ}

theorem Orderly.finding {route : Route} {id : String} {asOf : ℤ} (h : Orderly s (.resume request))
    (hpc : s.pc request = .finding route id asOf) :
    ∀ row, s.store.find id = some row → asOf < row.expiresAt → route.accepts row = true → NotOvertaken s.log id asOf := by
  unfold Orderly at h
  dsimp only at h
  rw [hpc] at h
  exact h

theorem Orderly.touching {route : Route} {session : SessionRecord} {asOf : ℤ} (h : Orderly s (.resume request))
    (hpc : s.pc request = .touching route session asOf) : ∀ row, s.store.find session.id = some row → asOf < row.expiresAt →
      row.lastActiveAt ≤ asOf ∧ route.accepts session = true ∧ NotOvertaken s.log session.id asOf := by
  unfold Orderly at h
  dsimp only at h
  rw [hpc] at h
  exact h

/-- What is found has been issued. -/
theorem Inv.holds (h : Inv s) {id : String} {row : SessionRecord} (hrow : s.store.find id = some row) : Holds s.log row := by
  obtain ⟨-, rfl⟩ := Table.mem_of_find hrow
  obtain ⟨t, ht, -⟩ := h.active row.id row hrow
  exact ⟨t, ht⟩

theorem resume_inv (h : Inv s) (horderly : Orderly s (.resume request)) : Inv (resume b s request) := by
  unfold resume
  split
  · next record hpc =>
    split
    · exact h.goto trivial fun _ he => nomatch he
    · next store hinsert => exact inv_opened h hpc hinsert
  · next route id asOf hpc =>
    split
    · next hfind => exact inv_refused h hfind
    · next session hfind =>
      obtain ⟨hrow, hlive⟩ := find_some.mp hfind
      by_cases hacc : route.accepts session = true
      · rw [if_pos hacc]
        exact inv_authorized h hfind (horderly.finding hpc session hrow hlive hacc)
      · rw [if_neg hacc, List.append_nil]
        have hpcOk : PcOk s (.touching route session asOf) := ⟨h.holds hrow, fun hacc' => absurd hacc' hacc⟩
        exact h.goto hpcOk fun _ he => nomatch he
  · next route session asOf hpc => exact inv_touched h hpc (horderly.touching hpc)
  · next contractId network session hpc =>
    have hok : PcOk s (.acting (.sessions contractId network) session) := hpc ▸ h.pcs request
    refine h.quiet (fun _ _ _ _ he => nomatch he) (fun _ => rfl) (fun _ _ _ he => nomatch he) (fun _ _ _ he => nomatch he) ?_
      trivial fun _ he => nomatch he
    -- The account is the one the route names.
    have hacc : session.contractId = contractId ∧ session.network = network := by
      have hboth := hok.2
      unfold Route.accepts at hboth
      rwa [Bool.and_eq_true, decide_eq_true_eq, decide_eq_true_eq] at hboth
    intro listed hlisted
    rw [hacc.1, hacc.2]
    exact mem_listByContract hlisted
  · next targetSessionId session hpc =>
    split
    · exact h.goto trivial fun _ he => nomatch he
    · next target hfind =>
      split
      · exact h.goto trivial fun _ he => nomatch he
      · next hsame =>
        rw [not_or, not_not, not_not] at hsame
        have hpcOk : PcOk s (.deleting session target) := ⟨h.holds (find_some.mp hfind).1, hsame⟩
        exact h.goto hpcOk fun _ he => nomatch he
  · next session target hpc => exact inv_deleted h hpc
  · exact h.goto trivial fun _ he => nomatch he
  · exact h
  · exact h

/-- **Step lemma**. -/
theorem step_inv {action : Action} (h : Inv s) (horderly : Orderly s action) : Inv (step b s action) := by
  cases action with
  | tick ms =>
    exact
      { pcs := fun r => (h.pcs r).mono (List.Subset.refl _) (List.append_nil _).symm fun record hr => by
          have hok : PcOk s (.opening record) := hr ▸ h.pcs r
          exact hok.2.1
        apart := h.apart
        drawn := h.drawn
        once := h.once
        lifetime := h.lifetime
        active := h.active
        chained := h.chained
        gone := h.gone
        lapsed := h.lapsed
        lawful := h.lawful }
  | openSession r id contractId network =>
    unfold step
    dsimp only
    split
    · by_cases hdrawn : id ∈ s.drawn
      · rw [if_pos hdrawn]
        exact h
      · rw [if_neg hdrawn]
        exact inv_opening h hdrawn
    · exact h
  | arrive r route bearer =>
    unfold step
    dsimp only
    split
    · exact h.goto trivial fun _ he => nomatch he
    · exact h.goto trivial fun _ he => nomatch he
    · exact h
  | resume r => exact resume_inv b h horderly
  | abandon r => exact h.goto trivial fun _ he => nomatch he

/-! ## No live session moves backwards -/

theorem forward_of_find {s' : State} (h : ∀ id row', s'.store.find id = some row' → s.store.find id = some row' ∨ s.store.find id = none) :
    Forward s s' := by
  intro id row row' hrow hrow'
  rcases h id row' hrow' with hsame | hnone
  · obtain rfl := Option.some.inj (hrow.symm.trans hsame)
    exact ⟨le_refl _, le_refl _⟩
  · rw [hrow] at hnone
    cases hnone

theorem Forward.refl : Forward s s := forward_of_find fun _ _ h => .inl h

/-- A touch that comes after the last one. -/
theorem forward_touched (h : Inv s) {route : Route} {session : SessionRecord} {asOf : ℤ} {s' : State}
    (hstore : s'.store = touch b s.store session.id asOf (asOf + SESSION_TTL_MS))
    (horderly : ∀ row, s.store.find session.id = some row → asOf < row.expiresAt →
      row.lastActiveAt ≤ asOf ∧ route.accepts session = true ∧ NotOvertaken s.log session.id asOf) : Forward s s' := by
  intro id row row' hrow hrow'
  rw [hstore, touch_spec, hrow, Option.map_some] at hrow'
  obtain rfl := Option.some.inj hrow'
  by_cases hlive : row.id = session.id ∧ asOf < row.expiresAt
  · rw [if_pos hlive]
    have hlifetime := h.lifetime id row hrow
    obtain rfl : row.id = id := (Table.mem_of_find hrow).2
    rw [hlive.1] at hrow
    have hlast := (horderly row hrow hlive.2).1
    show row.lastActiveAt ≤ asOf ∧ row.expiresAt ≤ asOf + SESSION_TTL_MS
    exact ⟨hlast, by omega⟩
  · rw [if_neg hlive]
    exact ⟨le_refl _, le_refl _⟩

theorem resume_forward (h : Inv s) (horderly : Orderly s (.resume request)) : Forward s (resume b s request) := by
  unfold resume
  split
  · next record hpc =>
    split
    · exact Forward.refl
    · next store hinsert =>
      have hok : PcOk s (.opening record) := hpc ▸ h.pcs request
      refine forward_of_find fun id row' hrow' => ?_
      have hput : store.find id = some row' := hrow'
      rw [insert_spec hinsert] at hput
      by_cases hid : record.id = id
      · -- The id was never issued, so nothing is stored under it.
        right
        by_contra hsome
        obtain ⟨row, hrow⟩ := Option.ne_none_iff_exists'.mp hsome
        obtain ⟨t, ht, -⟩ := h.active id row hrow
        exact hok.2.1 ⟨_, _, t, hid ▸ ht⟩
      · rw [if_neg hid] at hput
        exact .inl hput
  · split
    · exact Forward.refl
    · exact Forward.refl
  · next route session asOf hpc => exact forward_touched b h rfl (horderly.touching hpc)
  · exact Forward.refl
  · split
    · exact Forward.refl
    · split <;> exact Forward.refl
  · next session target hpc =>
    refine forward_of_find fun id row' hrow' => .inl ?_
    have hkept : (delete b s.store target.id).find id = some row' := hrow'
    rw [delete_spec] at hkept
    split at hkept
    · cases hkept
    · exact hkept
  · exact Forward.refl
  · exact Forward.refl
  · exact Forward.refl

theorem step_forward {action : Action} (h : Inv s) (horderly : Orderly s action) : Forward s (step b s action) := by
  cases action with
  | tick ms => exact Forward.refl
  | openSession r id contractId network =>
    unfold step
    dsimp only
    split
    · split
      · exact Forward.refl
      · exact Forward.refl
    · exact Forward.refl
  | arrive r route bearer =>
    unfold step
    dsimp only
    split <;> exact Forward.refl
  | resume r => exact resume_forward b h horderly
  | abandon r => exact Forward.refl

end Runs

/-! ## Whole runs -/

/-- **Sessions are expiring capabilities of an account**, in every orderly run. -/
theorem sessions_safe (b : Backend) (actions : List Action) (horderly : Along (step b) Orderly State.init actions) :
    Each Lawful (run (step b) State.init actions).log ∧
      Along (step b) (fun s action => Forward s (step b s action)) State.init actions := by
  have hinv : ∀ pre, pre <+: actions → Inv (run (step b) State.init pre) :=
    inv_prefix (fun s action => step_inv b) inv_init horderly
  refine ⟨(hinv actions (List.prefix_refl _)).lawful, along_iff.mpr fun pre action post hsplit => ?_⟩
  exact step_forward b (hinv pre ⟨_, hsplit.symm⟩) (along_iff.mp horderly pre action post hsplit)

/-- A session opened at 0 and used at 10. -/
def usedOnce : List Action :=
  [.openSession 0 "s" "C" "testnet", .resume 0, .tick 10, .arrive 1 (.session (some "C")) (some "s"), .resume 1, .resume 1, .resume 1]

theorem sessions_safe_used : Each Lawful (run (step .postgres) State.init usedOnce).log ∧
    Along (step .postgres) (fun s action => Forward s (step .postgres s action)) State.init usedOnce := by
  have hbefore : NotOvertaken [.issued "s" "C" "testnet" 0] "s" 10 := fun r asOf' h => by simp at h
  have hafter : NotOvertaken [.issued "s" "C" "testnet" 0, .authorized 1 "s" "C" "testnet" 10] "s" 10 := fun r asOf' h => by simp at h
  refine sessions_safe .postgres usedOnce ⟨trivial, trivial, trivial, trivial, fun _ _ _ _ => hbefore, fun row hrow _ => ?_, trivial, trivial⟩
  have hfound : some (⟨"s", "C", "testnet", 0, 0, 604800000⟩ : SessionRecord) = some row := hrow
  obtain rfl := Option.some.inj hfound
  exact ⟨by decide, by decide, hafter⟩

/-- A session opened at 0 that ends at 604 800 000: request 1 arrives just before, request 2 just after, and 2 is answered first. -/
def overtaken : List Action :=
  [.openSession 0 "s" "C" "testnet", .resume 0, .tick 604799999, .arrive 1 .guarded (some "s"), .tick 2,
    .arrive 2 .guarded (some "s"), .resume 2, .resume 1]

/-- On Postgres, the id that request 2 was refused is authorized for request 1. -/
theorem sessions_overtaken : ¬ ∀ actions : List Action, Each Lawful (run (step .postgres) State.init actions).log ∧
    Along (step .postgres) (fun s action => Forward s (step .postgres s action)) State.init actions := by
  intro hall
  have hlog : (run (step .postgres) State.init overtaken).log =
      [.issued "s" "C" "testnet" 0, .refused 2 "s" 604800001 true] ++ .authorized 1 "s" "C" "testnet" 604799999 :: [] := by
    decide
  have hlawful : Lawful [.issued "s" "C" "testnet" 0, .refused 2 "s" 604800001 true] (.authorized 1 "s" "C" "testnet" 604799999) :=
    (hall overtaken).1 _ _ _ hlog
  exact hlawful.2.2 2 604800001 (by simp)

end Vellar.Wallet.Sessions
