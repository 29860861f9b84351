import Vellar.Web.History

/-!
# Vellar.Web.HistoryWindows — the windows of ledgers of the history

The event pages as a rail: what each window scans and where the next one ends.  The windows of one round are disjoint
and leave no ledger out between them, so a round serves the transfers of the account once exactly when every page does
its part (`cycle_perm_iff`).
-/

set_option autoImplicit false

namespace Vellar.Web.History

open Rails

variable {V : Type}

/-! ## One window -/

section Window

/-- What a scan reads of a range. -/
def Chain.windowEvents (chain : Chain V) (startLedger endLedger : ℕ) : List (RawEvent V) :=
  (chain.inRange startLedger endLedger).take (MAX_SCAN_PAGES * SCAN_PAGE_SIZE)

variable {chain : Chain V}

theorem scan_eq (n : ℕ) (request : Chain.Request) :
    chain.scan n request =
      ((chain.inRange request.startLedger request.endLedger).drop request.skip).take (n * SCAN_PAGE_SIZE) := by
  induction n generalizing request with
  | zero => rw [Nat.zero_mul, List.take_zero]; rfl
  | succ n ih =>
    rw [Chain.scan, Chain.getEvents]
    dsimp only
    by_cases hmore : request.skip + SCAN_PAGE_SIZE < (chain.inRange request.startLedger request.endLedger).length
    · rw [if_pos hmore]
      dsimp only
      rw [ih, Nat.succ_mul, Nat.add_comm (n * SCAN_PAGE_SIZE), List.take_add, List.drop_drop]
    · have hlength : ((chain.inRange request.startLedger request.endLedger).drop request.skip).length ≤
          SCAN_PAGE_SIZE := by
        rw [List.length_drop]
        omega
      rw [if_neg hmore, List.append_nil, List.take_of_length_le hlength, List.take_of_length_le]
      exact hlength.trans (Nat.le_mul_of_pos_left _ (Nat.succ_pos n))

theorem scan_window (startLedger endLedger : ℕ) :
    chain.scan MAX_SCAN_PAGES ⟨startLedger, endLedger, 0⟩ = chain.windowEvents startLedger endLedger := by
  rw [scan_eq, List.drop_zero]
  rfl

theorem mem_inRange {e : RawEvent V} {startLedger endLedger : ℕ} :
    e ∈ chain.inRange startLedger endLedger ↔ e ∈ chain.events ∧ startLedger ≤ e.ledger ∧ e.ledger ≤ endLedger := by
  rw [Chain.inRange, List.mem_filter, decide_eq_true_iff]

theorem mem_of_windowEvents {e : RawEvent V} {startLedger endLedger : ℕ}
    (h : e ∈ chain.windowEvents startLedger endLedger) : e ∈ chain.inRange startLedger endLedger :=
  List.mem_of_mem_take h

/-- The first event of a range is the oldest. -/
theorem head_le {e f : RawEvent V} {startLedger endLedger : ℕ}
    (he : (chain.windowEvents startLedger endLedger).head? = some e) (hf : f ∈ chain.inRange startLedger endLedger) :
    e.ledger ≤ f.ledger := by
  rw [Chain.windowEvents, List.head?_take, if_neg (by decide)] at he
  have hsorted := chain.ascending.filter fun e => decide (startLedger ≤ e.ledger ∧ e.ledger ≤ endLedger)
  obtain ⟨rest, hrest⟩ : ∃ rest, chain.inRange startLedger endLedger = e :: rest :=
    List.head?_eq_some_iff.mp he
  change (chain.inRange startLedger endLedger).Pairwise _ at hsorted
  rw [hrest] at hsorted hf
  rcases List.mem_cons.mp hf with rfl | hf
  · exact le_rfl
  · exact (List.pairwise_cons.mp hsorted).1 f hf

theorem head_eq_none {startLedger endLedger : ℕ} :
    (chain.windowEvents startLedger endLedger).head? = none ↔ chain.inRange startLedger endLedger = [] := by
  rw [Chain.windowEvents, List.head?_take, if_neg (by decide), List.head?_eq_none_iff]

end Window

/-! ## The rail of the windows -/

section Definitions

variable (sdk : Sdk V) (chain : Chain V) (accountId : String) (pageSize : ℕ)

/-- The event page at a position of the cursor. -/
def pageOf (pos : Option (ℕ × ℕ)) : EventPage (V := V) :=
  readEventPage sdk chain pageSize (pos.elim 0 Prod.fst) (pos.elim 0 Prod.snd)

/-- The window at the head of the chain, before it is widened. -/
def headFrom : ℕ := max chain.oldestRetained (chain.latestLedger - WINDOW_LEDGERS)

def widerFrom : ℕ := max chain.oldestRetained (headFrom chain - WINDOW_LEDGERS)

/-- The head window is widened when it has fewer transfers than a page and is not all that is retained. -/
def isWidened : Bool :=
  (((chain.windowEvents (headFrom chain) chain.latestLedger).filter (isSACTransferEvent sdk.decoder)).length < pageSize) &&
    chain.oldestRetained < widerFrom chain

/-- The ledgers that a page scans. -/
def scannedFrom : Option (ℕ × ℕ) → ℕ
  | none => if isWidened sdk chain pageSize then widerFrom chain else headFrom chain
  | some (carriedFrom, _) => carriedFrom

def scannedTo : Option (ℕ × ℕ) → ℕ
  | none => chain.latestLedger
  | some (_, carriedTo) => carriedTo

/-- The events of the ledgers that a page scans, and those that it reads. -/
def scannedEvents (pos : Option (ℕ × ℕ)) : List (RawEvent V) :=
  chain.inRange (scannedFrom sdk chain pageSize pos) (scannedTo chain pos)

def readEvents (pos : Option (ℕ × ℕ)) : List (RawEvent V) :=
  chain.windowEvents (scannedFrom sdk chain pageSize pos) (scannedTo chain pos)

/-- An event that gives a row. -/
def isServed (event : RawEvent V) : Bool := (sorobanRow sdk.decoder sdk.resolveAsset accountId event).isSome

/-- The windows, by the ids of their rows. -/
def eventsRail : Rails.Rail (Option (ℕ × ℕ)) String where
  start := none
  rows pos := ((pageOf sdk chain pageSize pos).events.filter (isServed sdk accountId)).map eventRowId
  next pos :=
    let page := pageOf sdk chain pageSize pos
    if chain.oldestRetained < page.nextTo then some (page.nextFrom, page.nextTo) else none
  done pos := decide (¬ chain.oldestRetained < (pageOf sdk chain pageSize pos).nextTo)

/-- A position that the cursor can be at. -/
def Reached (pos : Option (ℕ × ℕ)) : Prop :=
  pos = none ∨ ∃ to?, chain.oldestRetained < to? ∧ to? ≤ chain.latestLedger ∧
    pos = some (max chain.oldestRetained (to? + 1 - WINDOW_LEDGERS), to?)

end Definitions

/-! ### What a page reads, and where the next one ends -/

section Page

variable {sdk : Sdk V} {chain : Chain V} {accountId : String} {pageSize : ℕ} {pos : Option (ℕ × ℕ)} {e : RawEvent V}

theorem oldestRetained_pos (chain : Chain V) : 1 ≤ chain.oldestRetained := chain.oldest_pos

theorem le_latest (chain : Chain V) : chain.oldestRetained ≤ chain.latestLedger := min_le_right _ _

theorem oldest_le (he : e ∈ chain.events) : chain.oldestRetained ≤ e.ledger := (chain.retained e he).1

theorem ledger_le (he : e ∈ chain.events) : e.ledger ≤ chain.latestLedger := (chain.retained e he).2

/-- The attempts at the head window. -/
theorem readWindow_head : ∃ fromLedger,
    readWindow sdk chain pageSize 0 WINDOW_ATTEMPTS (headFrom chain) chain.latestLedger false [] =
      ⟨fromLedger, readEvents sdk chain pageSize none⟩ ∧
    (fromLedger = scannedFrom sdk chain pageSize none ∨ fromLedger = chain.oldestRetained) := by
  have hattempts : WINDOW_ATTEMPTS = 2 := rfl
  rw [hattempts, readWindow, scan_window]
  by_cases hbusy : pageSize ≤
      ((chain.windowEvents (headFrom chain) chain.latestLedger).filter (isSACTransferEvent sdk.decoder)).length
  · have hwidened : isWidened sdk chain pageSize = false := by
      rw [isWidened, decide_eq_false (not_lt.mpr hbusy), Bool.false_and]
    have hscanned : scannedFrom sdk chain pageSize none = headFrom chain := by
      rw [scannedFrom, hwidened, if_neg Bool.false_ne_true]
    rw [if_pos (by simp [hbusy]), readEvents, hscanned]
    exact ⟨_, rfl, Or.inl rfl⟩
  · rw [if_neg (by simpa using hbusy)]
    change ∃ fromLedger, (if widerFrom chain ≤ chain.oldestRetained then (⟨widerFrom chain, _⟩ : Window)
      else readWindow sdk chain pageSize 0 1 (widerFrom chain) chain.latestLedger true _) = _ ∧ _
    by_cases hall : widerFrom chain ≤ chain.oldestRetained
    · have hwidened : isWidened sdk chain pageSize = false := by
        rw [isWidened, decide_eq_false (not_lt.mpr hall), Bool.and_false]
      have hscanned : scannedFrom sdk chain pageSize none = headFrom chain := by
        rw [scannedFrom, hwidened, if_neg Bool.false_ne_true]
      rw [if_pos hall, readEvents, hscanned]
      exact ⟨_, rfl, Or.inr (le_antisymm hall (le_max_left _ _))⟩
    · have hwidened : isWidened sdk chain pageSize = true := by
        rw [isWidened, decide_eq_true (not_le.mp hbusy), decide_eq_true (not_le.mp hall)]
        rfl
      have hscanned : scannedFrom sdk chain pageSize none = widerFrom chain := by
        rw [scannedFrom, hwidened, if_pos rfl]
      rw [if_neg hall, readWindow, scan_window, if_pos (by simp), readEvents, hscanned]
      exact ⟨_, rfl, Or.inl rfl⟩

/-- The attempt at a window of the cursor. -/
theorem readWindow_carried {carriedFrom windowEnd : ℕ} (h : carriedFrom ≠ 0) :
    readWindow sdk chain pageSize carriedFrom WINDOW_ATTEMPTS carriedFrom windowEnd false [] =
      ⟨carriedFrom, chain.windowEvents carriedFrom windowEnd⟩ := by
  have hattempts : WINDOW_ATTEMPTS = 2 := rfl
  rw [hattempts, readWindow, if_pos (by simp [h]), scan_window]

theorem Reached.scanned_pos {carriedFrom carriedTo : ℕ} (h : Reached chain (some (carriedFrom, carriedTo))) :
    carriedFrom ≠ 0 ∧ carriedTo ≠ 0 ∧ chain.oldestRetained ≤ carriedFrom ∧ carriedFrom ≤ carriedTo ∧
      carriedTo ≤ chain.latestLedger := by
  have hpos := oldestRetained_pos chain
  obtain h | ⟨to?, hlow, hhigh, hpos⟩ := h
  · exact absurd h (Option.some_ne_none _)
  · obtain ⟨rfl, rfl⟩ := Prod.mk.inj (Option.some.inj hpos)
    have hwindow : WINDOW_LEDGERS = 32 := rfl
    omega

theorem Reached.bounds (h : Reached chain pos) (sdk : Sdk V) (pageSize : ℕ) :
    chain.oldestRetained ≤ scannedFrom sdk chain pageSize pos ∧
      scannedFrom sdk chain pageSize pos ≤ scannedTo chain pos ∧ scannedTo chain pos ≤ chain.latestLedger := by
  have hlatest := le_latest chain
  rcases pos with _ | ⟨carriedFrom, carriedTo⟩
  · have hhead : chain.oldestRetained ≤ headFrom chain ∧ headFrom chain ≤ chain.latestLedger := by
      unfold headFrom
      omega
    have hwider : chain.oldestRetained ≤ widerFrom chain ∧ widerFrom chain ≤ chain.latestLedger := by
      unfold widerFrom
      omega
    rw [scannedFrom, scannedTo]
    split_ifs
    · exact ⟨hwider.1, hwider.2, le_rfl⟩
    · exact ⟨hhead.1, hhead.2, le_rfl⟩
  · obtain ⟨-, -, hlow, hle, hhigh⟩ := h.scanned_pos
    exact ⟨hlow, hle, hhigh⟩

/-- A page reads the first events of what it scans, and the next one ends before them. -/
theorem Reached.pageOf_eq (h : Reached chain pos) (sdk : Sdk V) (pageSize : ℕ) :
    (pageOf sdk chain pageSize pos).events = readEvents sdk chain pageSize pos ∧
      ((∃ e, (readEvents sdk chain pageSize pos).head? = some e ∧
          (pageOf sdk chain pageSize pos).nextTo = e.ledger - 1) ∨
        (readEvents sdk chain pageSize pos).head? = none ∧
          ((pageOf sdk chain pageSize pos).nextTo =
              max chain.oldestRetained (scannedFrom sdk chain pageSize pos - 1) ∨
            (pageOf sdk chain pageSize pos).nextTo = chain.oldestRetained)) := by
  obtain ⟨fromLedger, hwindow, hfrom⟩ : ∃ fromLedger,
      readWindow sdk chain pageSize (pos.elim 0 Prod.fst) WINDOW_ATTEMPTS
        (if pos.elim 0 Prod.fst = 0 then headFrom chain else pos.elim 0 Prod.fst)
        (if pos.elim 0 Prod.snd = 0 then chain.latestLedger else pos.elim 0 Prod.snd) false [] =
        ⟨fromLedger, readEvents sdk chain pageSize pos⟩ ∧
      (fromLedger = scannedFrom sdk chain pageSize pos ∨ fromLedger = chain.oldestRetained) := by
    rcases pos with _ | ⟨carriedFrom, carriedTo⟩
    · exact readWindow_head
    · obtain ⟨hfrom, hto, -⟩ := h.scanned_pos
      refine ⟨carriedFrom, ?_, Or.inl rfl⟩
      show readWindow sdk chain pageSize carriedFrom WINDOW_ATTEMPTS (if carriedFrom = 0 then _ else carriedFrom)
        (if carriedTo = 0 then _ else carriedTo) false [] = _
      rw [if_neg hfrom, if_neg hto]
      exact readWindow_carried hfrom
  have hevents : (pageOf sdk chain pageSize pos).events = readEvents sdk chain pageSize pos :=
    congrArg Window.events hwindow
  have hnext : (pageOf sdk chain pageSize pos).nextTo =
      windowNextTo chain ⟨fromLedger, readEvents sdk chain pageSize pos⟩ := congrArg (windowNextTo chain) hwindow
  refine ⟨hevents, ?_⟩
  rw [hnext, windowNextTo]
  rcases hhead : (readEvents sdk chain pageSize pos).head? with _ | e
  · refine Or.inr ⟨rfl, ?_⟩
    dsimp only
    rcases hfrom with rfl | rfl
    · exact Or.inl rfl
    · exact Or.inr (max_eq_left (Nat.sub_le _ _))
  · exact Or.inl ⟨e, rfl, rfl⟩

theorem mem_scannedEvents : e ∈ scannedEvents sdk chain pageSize pos ↔
    e ∈ chain.events ∧ scannedFrom sdk chain pageSize pos ≤ e.ledger ∧ e.ledger ≤ scannedTo chain pos := mem_inRange

theorem mem_scanned_of_read (he : e ∈ readEvents sdk chain pageSize pos) : e ∈ scannedEvents sdk chain pageSize pos :=
  mem_of_windowEvents he

/-- The next window ends before what this one scans. -/
theorem Reached.nextTo_lt (h : Reached chain pos) (he : e ∈ scannedEvents sdk chain pageSize pos) :
    (pageOf sdk chain pageSize pos).nextTo < e.ledger := by
  obtain ⟨first, hfirst, hnext⟩ | ⟨hnone, -⟩ := (h.pageOf_eq sdk pageSize).2
  · have hle := head_le hfirst he
    have hmem : first ∈ chain.inRange _ _ := mem_of_windowEvents (List.mem_of_mem_head? hfirst)
    have hpos := oldestRetained_pos chain
    have hold := oldest_le (mem_inRange.mp hmem).1
    omega
  · have hempty : scannedEvents sdk chain pageSize pos = [] := head_eq_none.mp hnone
    rw [hempty] at he
    exact absurd he List.not_mem_nil

/-- Unless the rail ends, no ledger is left out between a window and the next. -/
theorem Reached.scanned_of_between (h : Reached chain pos) (he : e ∈ chain.events)
    (hmore : chain.oldestRetained < (pageOf sdk chain pageSize pos).nextTo)
    (hlow : (pageOf sdk chain pageSize pos).nextTo < e.ledger) (hhigh : e.ledger ≤ scannedTo chain pos) :
    e ∈ scannedEvents sdk chain pageSize pos := by
  refine mem_scannedEvents.mpr ⟨he, ?_, hhigh⟩
  obtain ⟨first, hfirst, hnext⟩ | ⟨-, hnext | hnext⟩ := (h.pageOf_eq sdk pageSize).2
  · have hmem : first ∈ scannedEvents sdk chain pageSize pos := mem_of_windowEvents (List.mem_of_mem_head? hfirst)
    have hlo := (mem_scannedEvents.mp hmem).2.1
    omega
  · omega
  · omega

/-- The windows go back. -/
theorem Reached.nextTo_lt_scannedTo (h : Reached chain pos)
    (hmore : chain.oldestRetained < (pageOf sdk chain pageSize pos).nextTo) :
    (pageOf sdk chain pageSize pos).nextTo < scannedTo chain pos := by
  obtain ⟨hlow, hle, -⟩ := h.bounds sdk pageSize
  have hpos := oldestRetained_pos chain
  obtain ⟨first, hfirst, hnext⟩ | ⟨-, hnext | hnext⟩ := (h.pageOf_eq sdk pageSize).2
  · have hmem : first ∈ scannedEvents sdk chain pageSize pos := mem_of_windowEvents (List.mem_of_mem_head? hfirst)
    obtain ⟨hfirst, -, hhigh⟩ := mem_scannedEvents.mp hmem
    have hold := oldest_le hfirst
    omega
  · omega
  · omega

theorem Reached.next (h : Reached chain pos) : Reached chain ((eventsRail sdk chain accountId pageSize).next pos) := by
  by_cases hmore : chain.oldestRetained < (pageOf sdk chain pageSize pos).nextTo
  · have hlt := h.nextTo_lt_scannedTo hmore
    have hhigh := (h.bounds sdk pageSize).2.2
    exact Or.inr ⟨_, hmore, by omega, if_pos hmore⟩
  · exact Or.inl (if_neg hmore)

end Page

/-! ### Rounds -/

section Rounds

variable (sdk : Sdk V) (chain : Chain V) (accountId : String) (pageSize : ℕ)

/-- The position of page `k`. -/
def windowAt (k : ℕ) : Option (ℕ × ℕ) := (eventsRail sdk chain accountId pageSize).pos k

variable {sdk chain accountId pageSize} {k : ℕ} {e : RawEvent V}

theorem windowAt_succ (k : ℕ) : windowAt sdk chain accountId pageSize (k + 1) =
    (eventsRail sdk chain accountId pageSize).next (windowAt sdk chain accountId pageSize k) := Rail.pos_succ k

theorem reached_windowAt (k : ℕ) : Reached chain (windowAt sdk chain accountId pageSize k) := by
  induction k with
  | zero => exact Or.inl rfl
  | succ k ih =>
    rw [windowAt, Rail.pos_succ]
    exact ih.next

theorem windowAt_succ_eq_none :
    windowAt sdk chain accountId pageSize (k + 1) = none ↔
      ¬ chain.oldestRetained < (pageOf sdk chain pageSize (windowAt sdk chain accountId pageSize k)).nextTo := by
  rw [windowAt, Rail.pos_succ]
  change (if _ then some _ else none) = none ↔ _
  by_cases hmore : chain.oldestRetained <
      (pageOf sdk chain pageSize ((eventsRail sdk chain accountId pageSize).pos k)).nextTo
  · rw [if_pos hmore]
    exact iff_of_false (Option.some_ne_none _) (not_not.mpr hmore)
  · rw [if_neg hmore]
    exact iff_of_true rfl hmore

/-- The window after a page that is not the last ends where the page says. -/
theorem scannedTo_succ (h : windowAt sdk chain accountId pageSize (k + 1) ≠ none) :
    scannedTo chain (windowAt sdk chain accountId pageSize (k + 1)) =
      (pageOf sdk chain pageSize (windowAt sdk chain accountId pageSize k)).nextTo := by
  have hmore := not_not.mp (windowAt_succ_eq_none.not.mp h)
  have hnext : windowAt sdk chain accountId pageSize (k + 1) = some (_, _) :=
    (windowAt_succ k).trans (if_pos hmore)
  rw [hnext]
  rfl

theorem scannedTo_succ_lt (h : windowAt sdk chain accountId pageSize (k + 1) ≠ none) :
    scannedTo chain (windowAt sdk chain accountId pageSize (k + 1)) <
      scannedTo chain (windowAt sdk chain accountId pageSize k) := by
  rw [scannedTo_succ h]
  exact (reached_windowAt k).nextTo_lt_scannedTo (not_not.mp (windowAt_succ_eq_none.not.mp h))

/-- The windows come to an end. -/
theorem exists_windowAt_eq_none : ∃ k, windowAt sdk chain accountId pageSize (k + 1) = none := by
  by_contra hend
  have hnone := not_exists.mp hend
  have hbound : ∀ k, scannedTo chain (windowAt sdk chain accountId pageSize k) + k ≤ chain.latestLedger := by
    intro k
    induction k with
    | zero => exact le_rfl
    | succ k ih =>
      have hlt := scannedTo_succ_lt (hnone k)
      omega
  have hlast := hbound (chain.latestLedger + 1)
  omega

theorem eventsRail_lawful : (eventsRail sdk chain accountId pageSize).Lawful where
  returns := exists_windowAt_eq_none
  done _ hk := decide_eq_true (windowAt_succ_eq_none.mp hk)
  last _ hk := Or.inl (windowAt_succ_eq_none.mpr (of_decide_eq_true hk))

/-- The number of windows of a round. -/
noncomputable def windows (sdk : Sdk V) (chain : Chain V) (accountId : String) (pageSize : ℕ) : ℕ :=
  (eventsRail sdk chain accountId pageSize).period

theorem windowAt_ne_none (hk : k + 1 < windows sdk chain accountId pageSize) :
    windowAt sdk chain accountId pageSize (k + 1) ≠ none := by
  intro hnone
  have hdvd := Rail.pos_eq_start_iff.mp hnone
  exact absurd (Nat.le_of_dvd (Nat.succ_pos k) hdvd) (not_le.mpr hk)

theorem windowAt_mod (k : ℕ) :
    windowAt sdk chain accountId pageSize (k % windows sdk chain accountId pageSize) =
      windowAt sdk chain accountId pageSize k := Rail.pos_mod k

theorem scannedTo_le {i j : ℕ} (hij : i ≤ j) (hj : j < windows sdk chain accountId pageSize) :
    scannedTo chain (windowAt sdk chain accountId pageSize j) ≤
      scannedTo chain (windowAt sdk chain accountId pageSize i) := by
  induction j, hij using Nat.le_induction with
  | base => exact le_rfl
  | succ j hij ih => exact (scannedTo_succ_lt (windowAt_ne_none hj)).le.trans (ih (by omega))

/-- The windows of a round are disjoint, the later below the earlier. -/
theorem scanned_lt {i j : ℕ} (hij : i < j) (hj : j < windows sdk chain accountId pageSize) {e f : RawEvent V}
    (he : e ∈ scannedEvents sdk chain pageSize (windowAt sdk chain accountId pageSize i))
    (hf : f ∈ scannedEvents sdk chain pageSize (windowAt sdk chain accountId pageSize j)) : f.ledger < e.ledger := by
  have hbefore := (reached_windowAt i).nextTo_lt he
  have hupper := (mem_scannedEvents.mp hf).2.2
  have hto := scannedTo_le (Nat.succ_le_of_lt hij) hj
  rw [Nat.succ_eq_add_one, scannedTo_succ (windowAt_ne_none (by omega))] at hto
  omega

/-- An event is scanned in the round, or lies below its last window. -/
theorem scanned_or_below (he : e ∈ chain.events) (d : ℕ) {i : ℕ}
    (hi : i + d + 1 = windows sdk chain accountId pageSize)
    (hle : e.ledger ≤ scannedTo chain (windowAt sdk chain accountId pageSize i)) :
    (∃ j < windows sdk chain accountId pageSize,
      e ∈ scannedEvents sdk chain pageSize (windowAt sdk chain accountId pageSize j)) ∨
    e.ledger < scannedFrom sdk chain pageSize
      (windowAt sdk chain accountId pageSize (windows sdk chain accountId pageSize - 1)) := by
  induction d generalizing i with
  | zero =>
    have hlast : windows sdk chain accountId pageSize - 1 = i := by omega
    rw [hlast]
    by_cases hlow : e.ledger < scannedFrom sdk chain pageSize (windowAt sdk chain accountId pageSize i)
    · exact Or.inr hlow
    · exact Or.inl ⟨i, by omega, mem_scannedEvents.mpr ⟨he, not_lt.mp hlow, hle⟩⟩
  | succ d ih =>
    have hne : windowAt sdk chain accountId pageSize (i + 1) ≠ none := windowAt_ne_none (by omega)
    have hmore := not_not.mp (windowAt_succ_eq_none.not.mp hne)
    by_cases hlow : (pageOf sdk chain pageSize (windowAt sdk chain accountId pageSize i)).nextTo < e.ledger
    · exact Or.inl ⟨i, by omega, (reached_windowAt i).scanned_of_between he hmore hlow hle⟩
    · have hnext : i + 1 + d + 1 = windows sdk chain accountId pageSize := by omega
      refine ih hnext ?_
      rw [scannedTo_succ hne]
      exact not_lt.mp hlow

theorem windows_pos (sdk : Sdk V) (chain : Chain V) (accountId : String) (pageSize : ℕ) :
    0 < windows sdk chain accountId pageSize := eventsRail_lawful.period_pos

/-- The last window of a round is the one after which the rail ends. -/
theorem windowAt_last :
    windowAt sdk chain accountId pageSize (windows sdk chain accountId pageSize - 1 + 1) = none := by
  rw [Nat.sub_add_cancel (windows_pos sdk chain accountId pageSize)]
  exact Rail.pos_eq_start_iff.mpr (dvd_refl _)

/-! ### What a round serves -/

/-- A page does its part: of what it reads, the rows are the account's transfers; what it scans and does not read holds
none; and when it is the last, what is below it holds none. -/
structure PageServes (sdk : Sdk V) (chain : Chain V) (accountId : String) (pageSize : ℕ) (pos : Option (ℕ × ℕ)) :
    Prop where
  rows : ∀ e ∈ readEvents sdk chain pageSize pos, isServed sdk accountId e = isWanted sdk accountId e
  budget : ∀ e ∈ (scannedEvents sdk chain pageSize pos).drop (MAX_SCAN_PAGES * SCAN_PAGE_SIZE),
    isWanted sdk accountId e = false
  last : (eventsRail sdk chain accountId pageSize).next pos = none →
    ∀ e ∈ chain.events, e.ledger < scannedFrom sdk chain pageSize pos → isWanted sdk accountId e = false

/-- A page of the round reads the event and gives it a row. -/
def ServedIn (sdk : Sdk V) (chain : Chain V) (accountId : String) (pageSize : ℕ) (e : RawEvent V) : Prop :=
  ∃ k < windows sdk chain accountId pageSize,
    e ∈ readEvents sdk chain pageSize (windowAt sdk chain accountId pageSize k) ∧ isServed sdk accountId e = true

theorem ServedIn.mem (h : ServedIn sdk chain accountId pageSize e) : e ∈ chain.events := by
  obtain ⟨k, -, hread, -⟩ := h
  exact (mem_scannedEvents.mp (mem_scanned_of_read hread)).1

theorem eventRowId_inj {f : RawEvent V} (he : e ∈ chain.events) (hf : f ∈ chain.events)
    (h : eventRowId e = eventRowId f) : e = f := List.inj_on_of_nodup_map chain.distinct he hf h

theorem rows_windowAt (k : ℕ) :
    (eventsRail sdk chain accountId pageSize).rows (windowAt sdk chain accountId pageSize k) =
      ((readEvents sdk chain pageSize (windowAt sdk chain accountId pageSize k)).filter
        (isServed sdk accountId)).map eventRowId := by
  show ((pageOf sdk chain pageSize _).events.filter _).map _ = _
  rw [((reached_windowAt k).pageOf_eq sdk pageSize).1]

theorem mem_events_of_read {pos : Option (ℕ × ℕ)} (he : e ∈ readEvents sdk chain pageSize pos) : e ∈ chain.events :=
  (mem_scannedEvents.mp (mem_scanned_of_read he)).1

theorem mem_cycle {id : String} : id ∈ (eventsRail sdk chain accountId pageSize).cycle ↔
    ∃ e, ServedIn sdk chain accountId pageSize e ∧ eventRowId e = id := by
  rw [Rail.cycle, Rail.served, List.mem_flatMap]
  constructor
  · rintro ⟨k, hk, hid⟩
    change id ∈ (eventsRail sdk chain accountId pageSize).rows (windowAt sdk chain accountId pageSize k) at hid
    rw [rows_windowAt] at hid
    obtain ⟨e, he, rfl⟩ := List.mem_map.mp hid
    obtain ⟨hread, hserved⟩ := List.mem_filter.mp he
    exact ⟨e, ⟨k, List.mem_range.mp hk, hread, hserved⟩, rfl⟩
  · rintro ⟨e, ⟨k, hk, hread, hserved⟩, rfl⟩
    refine ⟨k, List.mem_range.mpr hk, ?_⟩
    change eventRowId e ∈ (eventsRail sdk chain accountId pageSize).rows (windowAt sdk chain accountId pageSize k)
    rw [rows_windowAt]
    exact List.mem_map_of_mem (List.mem_filter.mpr ⟨hread, hserved⟩)

theorem nodup_cycle : (eventsRail sdk chain accountId pageSize).cycle.Nodup := by
  rw [Rail.cycle, Rail.served, List.nodup_flatMap]
  constructor
  · intro k _
    change ((eventsRail sdk chain accountId pageSize).rows (windowAt sdk chain accountId pageSize k)).Nodup
    rw [rows_windowAt]
    have hsub : (readEvents sdk chain pageSize (windowAt sdk chain accountId pageSize k)).Sublist chain.events :=
      (List.take_sublist _ _).trans List.filter_sublist
    exact ((List.filter_sublist.trans hsub).map eventRowId).nodup chain.distinct
  · refine List.pairwise_lt_range.imp_of_mem fun {i j} hi hj hij => ?_
    intro id hidi hidj
    change id ∈ (eventsRail sdk chain accountId pageSize).rows (windowAt sdk chain accountId pageSize i) at hidi
    change id ∈ (eventsRail sdk chain accountId pageSize).rows (windowAt sdk chain accountId pageSize j) at hidj
    rw [rows_windowAt] at hidi hidj
    obtain ⟨e, he, rfl⟩ := List.mem_map.mp hidi
    obtain ⟨f, hf, hid⟩ := List.mem_map.mp hidj
    have hreade := (List.mem_filter.mp he).1
    have hreadf := (List.mem_filter.mp hf).1
    obtain rfl := eventRowId_inj (mem_events_of_read hreadf) (mem_events_of_read hreade) hid
    exact absurd (scanned_lt hij (List.mem_range.mp hj) (mem_scanned_of_read hreade) (mem_scanned_of_read hreadf))
      (lt_irrefl _)

theorem mem_wantedIds {id : String} : id ∈ (wantedEvents sdk chain accountId).map eventRowId ↔
    ∃ e ∈ chain.events, isWanted sdk accountId e = true ∧ eventRowId e = id := by
  simp only [wantedEvents, List.mem_map, List.mem_filter, and_assoc]

theorem nodup_wantedIds : ((wantedEvents sdk chain accountId).map eventRowId).Nodup :=
  (List.filter_sublist.map eventRowId).nodup chain.distinct

/-- A round serves the transfers of the account when what it serves is what is wanted, event by event. -/
theorem cycle_perm_iff_served :
    (eventsRail sdk chain accountId pageSize).cycle.Perm ((wantedEvents sdk chain accountId).map eventRowId) ↔
      ∀ e ∈ chain.events, ServedIn sdk chain accountId pageSize e ↔ isWanted sdk accountId e = true := by
  rw [List.perm_ext_iff_of_nodup nodup_cycle nodup_wantedIds]
  simp only [mem_cycle, mem_wantedIds]
  constructor
  · intro h e he
    constructor
    · intro hserved
      obtain ⟨f, hf, hwanted, hid⟩ := (h (eventRowId e)).mp ⟨e, hserved, rfl⟩
      obtain rfl := eventRowId_inj hf he hid
      exact hwanted
    · intro hwanted
      obtain ⟨f, hserved, hid⟩ := (h (eventRowId e)).mpr ⟨e, he, hwanted, rfl⟩
      obtain rfl := eventRowId_inj hserved.mem he hid
      exact hserved
  · intro h rowId
    constructor
    · rintro ⟨e, hserved, rfl⟩
      exact ⟨e, hserved.mem, (h e hserved.mem).mp hserved, rfl⟩
    · rintro ⟨e, he, hwanted, rfl⟩
      exact ⟨e, (h e he).mpr hwanted, rfl⟩

/-- A window of the round that scans the event is the one that serves it. -/
theorem ServedIn.of_scanned {i : ℕ} (hi : i < windows sdk chain accountId pageSize)
    (he : e ∈ scannedEvents sdk chain pageSize (windowAt sdk chain accountId pageSize i))
    (h : ServedIn sdk chain accountId pageSize e) :
    e ∈ readEvents sdk chain pageSize (windowAt sdk chain accountId pageSize i) := by
  obtain ⟨j, hj, hread, -⟩ := h
  rcases lt_trichotomy i j with hij | rfl | hji
  · exact absurd (scanned_lt hij hj he (mem_scanned_of_read hread)) (lt_irrefl _)
  · exact hread
  · exact absurd (scanned_lt hji hi (mem_scanned_of_read hread) he) (lt_irrefl _)

/-- An event that a scan does not read is none of those that it reads. -/
theorem not_mem_read_of_drop {pos : Option (ℕ × ℕ)}
    (he : e ∈ (scannedEvents sdk chain pageSize pos).drop (MAX_SCAN_PAGES * SCAN_PAGE_SIZE)) :
    e ∉ readEvents sdk chain pageSize pos := by
  have hnodup : (scannedEvents sdk chain pageSize pos).Nodup := (chain.distinct.of_map).filter _
  rw [← List.take_append_drop (MAX_SCAN_PAGES * SCAN_PAGE_SIZE) (scannedEvents sdk chain pageSize pos)] at hnodup
  exact fun hread => List.disjoint_of_nodup_append hnodup hread he

/-- Every window before the last starts above it. -/
theorem not_served_below
    (h : ServedIn sdk chain accountId pageSize e) :
    scannedFrom sdk chain pageSize
      (windowAt sdk chain accountId pageSize (windows sdk chain accountId pageSize - 1)) ≤ e.ledger := by
  obtain ⟨j, hj, hread, -⟩ := h
  have hpos := windows_pos sdk chain accountId pageSize
  have hscanned := mem_scanned_of_read hread
  rcases Nat.lt_or_ge j (windows sdk chain accountId pageSize - 1) with hlt | hge
  · have hne : windowAt sdk chain accountId pageSize (j + 1) ≠ none := windowAt_ne_none (by omega)
    have hnext := (reached_windowAt j).nextTo_lt hscanned
    rw [← scannedTo_succ hne] at hnext
    have hto : scannedTo chain (windowAt sdk chain accountId pageSize (windows sdk chain accountId pageSize - 1)) ≤
        scannedTo chain (windowAt sdk chain accountId pageSize (j + 1)) := scannedTo_le (by omega) (by omega)
    have hlast : Reached chain
        (windowAt sdk chain accountId pageSize (windows sdk chain accountId pageSize - 1)) := reached_windowAt _
    have hle := (hlast.bounds sdk pageSize).2.1
    omega
  · obtain rfl : j = windows sdk chain accountId pageSize - 1 := by omega
    exact (mem_scannedEvents.mp hscanned).2.1

/-- A round serves each transfer of the account once, and nothing else, exactly when every page does its part. -/
theorem cycle_perm_iff :
    (eventsRail sdk chain accountId pageSize).cycle.Perm ((wantedEvents sdk chain accountId).map eventRowId) ↔
      ∀ k, PageServes sdk chain accountId pageSize (windowAt sdk chain accountId pageSize k) := by
  rw [cycle_perm_iff_served]
  constructor
  · intro h k
    rw [← windowAt_mod]
    have hk : k % windows sdk chain accountId pageSize < windows sdk chain accountId pageSize :=
      Nat.mod_lt k (windows_pos sdk chain accountId pageSize)
    generalize k % windows sdk chain accountId pageSize = k at hk
    refine ⟨fun e he => ?_, fun e he => ?_, fun hlast e he hbelow => ?_⟩
    · have hmem := mem_events_of_read he
      rw [Bool.eq_iff_iff, ← h e hmem]
      constructor
      · exact fun hserved => ⟨k, hk, he, hserved⟩
      · rintro ⟨-, -, -, hserved⟩
        exact hserved
    · have hscanned := List.mem_of_mem_drop he
      rw [← Bool.not_eq_true, ← h e (mem_scannedEvents.mp hscanned).1]
      exact fun hserved => not_mem_read_of_drop he (hserved.of_scanned hk hscanned)
    · have hend : k + 1 = windows sdk chain accountId pageSize := by
        have hnone : windowAt sdk chain accountId pageSize (k + 1) = none :=
          (windowAt_succ k).trans hlast
        have hle := Nat.le_of_dvd (Nat.succ_pos k) (Rail.pos_eq_start_iff.mp hnone)
        exact le_antisymm hk hle
      rw [← Bool.not_eq_true, ← h e he]
      intro hserved
      have habove := not_served_below hserved
      rw [← hend, Nat.add_sub_cancel] at habove
      omega
  · intro h e he
    constructor
    · rintro ⟨k, -, hread, hserved⟩
      rw [← (h k).rows e hread]
      exact hserved
    · intro hwanted
      have hpos := windows_pos sdk chain accountId pageSize
      have hsplit : 0 + (windows sdk chain accountId pageSize - 1) + 1 = windows sdk chain accountId pageSize := by
        omega
      rcases scanned_or_below he _ hsplit (ledger_le he) with ⟨k, hk, hscanned⟩ | hbelow
      · have hread : e ∈ readEvents sdk chain pageSize (windowAt sdk chain accountId pageSize k) := by
          rw [← List.take_append_drop (MAX_SCAN_PAGES * SCAN_PAGE_SIZE) (scannedEvents _ _ _ _)] at hscanned
          rcases List.mem_append.mp hscanned with hread | hdrop
          · exact hread
          · have hnone := (h k).budget e hdrop
            rw [hwanted] at hnone
            exact Bool.noConfusion hnone
        exact ⟨k, hk, hread, ((h k).rows e hread).trans hwanted⟩
      · have hlast := (h (windows sdk chain accountId pageSize - 1)).last
          ((windowAt_succ _).symm.trans windowAt_last) e he hbelow
        rw [hwanted] at hlast
        exact Bool.noConfusion hlast

end Rounds

end Vellar.Web.History
