import Vellar.Lib.Machine
import Vellar.Wallet.Replay

/-!
# Vellar.Wallet.ReplayPurge — how long a reservation is kept

`purgeExpired` of `services/wallet-service/src/db/pg-replay.ts` beside the reservations and releases of its guard, in runs
over one table.  `purge_safe_iff`: a reservation is kept until every entry of its envelope has expired exactly when
the last entry of each pair is the one that expires last.
-/

set_option autoImplicit false

namespace Vellar.Wallet.ReplayPurge

open Machine

section Guard

variable (network : String)

/-- The rows `purgeExpired` deletes. -/
def ReplayRow.expired (currentLedger : ℕ) (r : ReplayRow) : Bool :=
  r.network = network && r.expirationLedger < currentLedger

/-- The table without the expired rows, and how many they were. -/
def purgeExpired (currentLedger : ℕ) (table : ReplayTable) : ReplayTable × ℕ :=
  (table.removeWhere (ReplayRow.expired network currentLedger),
    table.rows.countP (ReplayRow.expired network currentLedger))

/-- A statement or a transaction of the guard; a release is one statement for each of its keys. -/
inductive Op where
  | reserve (tx : Option Transaction)
  | releaseKey (k : ReplayKey)
  | purgeExpired (currentLedger : ℕ)

/-- `reserve` of the keys of an envelope; none where it refuses. -/
def reserve (tx : Option Transaction) (table : ReplayTable) : Option ReplayTable :=
  (createPgReplayGuard network).reserve (extractReplayKeys tx) table

def step (table : ReplayTable) : Op → ReplayTable
  | .reserve tx => (reserve network tx table).getD table
  | .releaseKey k => ((createPgReplayGuard network).releaseNext [k] table).2
  | .purgeExpired currentLedger => (purgeExpired network currentLedger table).1

/-- The table after the operations. -/
def after (table : ReplayTable) (ops : List Op) : ReplayTable := run (step network) table ops

def IsReserved (table : ReplayTable) (pair : AuthNonce) : Prop := (createPgReplayGuard network).IsReserved table pair

def Op.ledger? : Op → Option ℕ
  | .purgeExpired currentLedger => some currentLedger
  | _ => none

/-- The ledgers of the purges do not run backwards. -/
def NonDecreasing (ops : List Op) : Prop := (ops.filterMap Op.ledger?).Pairwise (· ≤ ·)

/-- Each reserve inserts all keys of its envelope, none of which was there, or it finds one and inserts none. -/
def AllOrNone (table : ReplayTable) (ops : List Op) : Prop :=
  ∀ pre tx post, ops = pre ++ .reserve tx :: post →
    ((∀ pair, Carries tx pair → ¬ IsReserved network (after network table pre) pair) ∧
      (after network table (pre ++ [.reserve tx])).rows =
        (after network table pre).rows ++ (extractReplayKeys tx).map (·.row network)) ∨
    ((∃ pair, Carries tx pair ∧ IsReserved network (after network table pre) pair) ∧
      after network table (pre ++ [.reserve tx]) = after network table pre)

/-- What an envelope reserves and nobody releases is reserved while some entry of it with that pair has not expired. -/
def Retains (table : ReplayTable) (ops : List Op) (tx : Option Transaction) : Prop :=
  ∀ pre mid post pair, ops = pre ++ .reserve tx :: (mid ++ post) →
    (reserve network tx (after network table pre)).isSome = true → Carries tx pair →
    (∀ k, .releaseKey k ∈ mid → k.toAuthNonce ≠ pair) →
    (∃ c ∈ credentialsOf tx, c.authNonce = pair ∧
      ∀ currentLedger, .purgeExpired currentLedger ∈ mid → currentLedger ≤ c.signatureExpirationLedger) →
    IsReserved network (after network table (pre ++ .reserve tx :: mid)) pair

end Guard

/-- Of the entries with one pair, none expires after the last one in the envelope. -/
def LastHighest (tx : Option Transaction) : Prop :=
  ∀ pre c post, credentialsOf tx = pre ++ c :: post → (∀ c' ∈ post, c'.authNonce ≠ c.authNonce) →
    ∀ c' ∈ pre, c'.authNonce = c.authNonce → c'.signatureExpirationLedger ≤ c.signatureExpirationLedger

/-! ## The keys of an envelope -/

section Keys

variable {tx : Option Transaction} {k : ReplayKey} {pair : AuthNonce}

/-- The last credential of an id is the one that is kept. -/
theorem find_foldl_put_last (cs : List AddressCredentials) (i : String) :
    (cs.foldl (fun (keys : KeyMap) c => keys.put c.replayKey) Table.empty).find i =
      ((cs.filter fun c => c.authNonce.id = i).getLast?).map AddressCredentials.replayKey := by
  induction cs using List.reverseRecOn with
  | nil => rfl
  | append_singleton cs c ih =>
    rw [List.foldl_append, List.foldl_cons, List.foldl_nil, Table.find_put, List.filter_append, List.getLast?_append, ih]
    by_cases hc : c.authNonce.id = i
    · rw [if_pos (show c.replayKey.id = i from hc), List.filter_cons_of_pos (by simpa using hc)]
      rfl
    · rw [if_neg (show ¬ c.replayKey.id = i from hc), List.filter_cons_of_neg (by simpa using hc)]
      rfl

/-- A key has the ledger of the last entry with its pair. -/
theorem exists_last (hk : k ∈ extractReplayKeys tx) : ∃ pre c post, credentialsOf tx = pre ++ c :: post ∧
    c.replayKey = k ∧ ∀ c' ∈ post, c'.authNonce ≠ c.authNonce := by
  have hfind := find_foldl_put_last (credentialsOf tx) k.id
  rw [show (Table.find _ k.id) = some k from Table.find_of_mem hk] at hfind
  obtain ⟨c, hlast, rfl⟩ := Option.map_eq_some_iff.mp hfind.symm
  obtain ⟨before, hbefore⟩ := List.getLast?_eq_some_iff.mp hlast
  obtain ⟨pre, rest, hsplit, -, hrest⟩ := List.filter_eq_append_iff.mp hbefore
  obtain ⟨skipped, post, rfl, hskipped, -, hpost⟩ := List.filter_eq_cons_iff.mp hrest
  refine ⟨pre ++ skipped, c, post, by rw [hsplit, List.append_assoc], rfl, fun c' hc' hsame => ?_⟩
  have hnone := List.filter_eq_nil_iff.mp hpost c' hc'
  exact hnone (by rw [hsame]; simp [AddressCredentials.replayKey])

/-- The last entry of a pair is its key. -/
theorem eq_of_last {pre post : List AddressCredentials} {c : AddressCredentials} (hsplit : credentialsOf tx = pre ++ c :: post)
    (hpost : ∀ c' ∈ post, c'.authNonce ≠ c.authNonce) (hk : k ∈ extractReplayKeys tx) (hpair : k.toAuthNonce = c.authNonce) :
    k = c.replayKey := by
  have hnone : post.filter (fun c' => c'.authNonce.id = c.authNonce.id) = [] :=
    List.filter_eq_nil_iff.mpr fun c' hc' hid => hpost c' hc' (AuthNonce.id_injective (of_decide_eq_true hid))
  have hfind := find_foldl_put_last (credentialsOf tx) k.id
  rw [show (Table.find _ k.id) = some k from Table.find_of_mem hk, hpair, hsplit, List.filter_append,
    List.filter_cons_of_pos (by simp), hnone, List.getLast?_concat] at hfind
  exact Option.some.inj hfind

/-- The key of a pair has its highest ledger, if the last entry has it. -/
theorem LastHighest.le (h : LastHighest tx) (hk : k ∈ extractReplayKeys tx) {c : AddressCredentials}
    (hc : c ∈ credentialsOf tx) (hpair : c.authNonce = k.toAuthNonce) :
    c.signatureExpirationLedger ≤ k.signatureExpirationLedger := by
  obtain ⟨pre, last, post, hsplit, rfl, hpost⟩ := exists_last hk
  rw [hsplit] at hc
  rcases List.mem_append.mp hc with hc | hc
  · exact h pre last post hsplit hpost c hc hpair
  · rcases List.mem_cons.mp hc with rfl | hc
    · exact le_rfl
    · exact absurd hpair (hpost c hc)

theorem nodup_rows (network : String) : (((extractReplayKeys tx).map (·.row network)).map ReplayRow.key).Nodup := by
  have hpairs := nodup_extractReplayKeys tx
  rw [List.map_map]
  refine hpairs.of_map.map_on fun k hk k' hk' heq => ?_
  have hkey : (k.row network).key = (network, k'.address, k'.nonce) := heq
  exact List.inj_on_of_nodup_map hpairs hk hk' (row_key_eq.mp hkey)

end Keys

/-! ## The guard -/

section Laws

variable {network : String} {tx : Option Transaction} {pair : AuthNonce} {table table' : ReplayTable} {row : ReplayRow}

theorem isReserved_iff : IsReserved network table pair ↔ ∃ row, table.find (network, pair.address, pair.nonce) = some row :=
  Option.isSome_iff_exists

/-- No pair of the envelope is reserved. -/
theorem fresh_iff : (∀ pair, Carries tx pair → ¬ IsReserved network table pair) ↔
    ∀ row ∈ (extractReplayKeys tx).map (·.row network), table.find row.key = none := by
  constructor
  · intro h row hrow
    obtain ⟨k, hk, rfl⟩ := List.mem_map.mp hrow
    rw [row_key_eq.mpr rfl]
    exact Option.not_isSome_iff_eq_none.mp (h k.toAuthNonce (mem_extractReplayKeys.mp ⟨k, hk, rfl⟩))
  · rintro h pair hcarries
    obtain ⟨k, hk, rfl⟩ := mem_extractReplayKeys.mpr hcarries
    have hnone := h (k.row network) (List.mem_map_of_mem hk)
    rw [row_key_eq.mpr rfl] at hnone
    exact Option.not_isSome_iff_eq_none.mpr hnone

/-- A reservation goes through where no pair is reserved, and inserts all keys. -/
theorem reserve_fresh (h : ∀ pair, Carries tx pair → ¬ IsReserved network table pair) :
    ∃ table', reserve network tx table = some table' ∧
      table'.rows = table.rows ++ (extractReplayKeys tx).map (·.row network) := by
  obtain ⟨hrows, hcount⟩ := Table.insertNew_of_fresh (nodup_rows network) (fresh_iff.mp h)
  rw [List.length_map] at hcount
  exact ⟨_, if_pos hcount, hrows⟩

theorem reserve_replay (h : Carries tx pair) (hreserved : IsReserved network table pair) :
    reserve network tx table = none := by
  by_contra hsome
  obtain ⟨table', htable'⟩ := Option.ne_none_iff_exists'.mp hsome
  obtain ⟨k, hk, rfl⟩ := mem_extractReplayKeys.mpr h
  exact (createPgReplayGuard network).fresh_of_reserve htable' k hk hreserved

theorem reserve_cases (network : String) (tx : Option Transaction) (table : ReplayTable) :
    ((∀ pair, Carries tx pair → ¬ IsReserved network table pair) ∧ ∃ table', reserve network tx table = some table' ∧
      table'.rows = table.rows ++ (extractReplayKeys tx).map (·.row network)) ∨
    (∃ pair, Carries tx pair ∧ IsReserved network table pair) ∧ reserve network tx table = none := by
  by_cases h : ∀ pair, Carries tx pair → ¬ IsReserved network table pair
  · exact Or.inl ⟨h, reserve_fresh h⟩
  · push Not at h
    obtain ⟨pair, hcarries, hreserved⟩ := h
    exact Or.inr ⟨⟨pair, hcarries, hreserved⟩, reserve_replay hcarries hreserved⟩

/-- **All or none**, in every run. -/
theorem allOrNone (table : ReplayTable) (ops : List Op) : AllOrNone network table ops := by
  intro pre tx post _
  have hsnoc : after network table (pre ++ [.reserve tx]) = step network (after network table pre) (.reserve tx) := run_snoc ..
  rw [hsnoc]
  rcases reserve_cases network tx (after network table pre) with ⟨hfresh, table', hsome, hrows⟩ | ⟨hreserved, hnone⟩
  · refine Or.inl ⟨hfresh, ?_⟩
    rw [step, hsome]
    exact hrows
  · refine Or.inr ⟨hreserved, ?_⟩
    rw [step, hnone]
    rfl

/-- **Step**: a row stays while it is not released and not expired. -/
theorem find_step {op : Op} (h : table.find (network, pair.address, pair.nonce) = some row)
    (hrelease : ∀ k, op = .releaseKey k → k.toAuthNonce ≠ pair)
    (hpurge : ∀ currentLedger, op = .purgeExpired currentLedger → currentLedger ≤ row.expirationLedger) :
    (step network table op).find (network, pair.address, pair.nonce) = some row := by
  obtain ⟨hmem, hkey⟩ := Table.mem_of_find h
  cases op with
  | reserve tx =>
    rcases reserve_cases network tx table with ⟨-, table', hsome, hrows⟩ | ⟨-, hnone⟩
    · rw [step, hsome, ← hkey]
      refine Table.find_of_mem ?_
      rw [Option.getD_some, hrows]
      exact List.mem_append_left _ hmem
    · rw [step, hnone]
      exact h
  | releaseKey k =>
    have hother : ReplayRow.matches network k row = false := by
      by_contra hmatch
      simp only [ReplayRow.matches, Bool.not_eq_false, Bool.and_eq_true, decide_eq_true_eq] at hmatch
      have hrow : (k.row network).key = (network, pair.address, pair.nonce) := by
        rw [← hkey]
        unfold ReplayKey.row ReplayRow.key
        rw [hmatch.1.1, hmatch.1.2, hmatch.2]
      exact hrelease k rfl (row_key_eq.mp hrow)
    show (table.removeWhere (ReplayRow.matches network k)).find _ = some row
    rw [Table.find_removeWhere, h, Option.filter_some_pos (by rw [hother]; rfl)]
  | purgeExpired currentLedger =>
    have hvalid : ReplayRow.expired network currentLedger row = false := by
      have hle := hpurge currentLedger rfl
      simp only [ReplayRow.expired, Bool.and_eq_false_iff, decide_eq_false_iff_not, not_lt]
      exact Or.inr hle
    show (table.removeWhere (ReplayRow.expired network currentLedger)).find _ = some row
    rw [Table.find_removeWhere, h, Option.filter_some_pos (by rw [hvalid]; rfl)]

/-- **Run**: a row stays while it is not released and not expired. -/
theorem find_run {ops : List Op} (h : table.find (network, pair.address, pair.nonce) = some row)
    (hrelease : ∀ k, .releaseKey k ∈ ops → k.toAuthNonce ≠ pair)
    (hpurge : ∀ currentLedger, .purgeExpired currentLedger ∈ ops → currentLedger ≤ row.expirationLedger) :
    (after network table ops).find (network, pair.address, pair.nonce) = some row := by
  induction ops using List.reverseRecOn with
  | nil => exact h
  | append_singleton ops op ih =>
    rw [after, run_snoc, ← after]
    have hbefore := ih (fun k hk => hrelease k (List.mem_append_left _ hk))
      fun currentLedger hl => hpurge currentLedger (List.mem_append_left _ hl)
    exact find_step hbefore (fun k hk => hrelease k (by simp [hk])) fun currentLedger hl => hpurge currentLedger (by simp [hl])

/-- A pair that was just reserved has the row of its key. -/
theorem find_reserved (hsome : (reserve network tx table).isSome = true) (hcarries : Carries tx pair) :
    ∃ k ∈ extractReplayKeys tx, k.toAuthNonce = pair ∧
      (step network table (.reserve tx)).find (network, pair.address, pair.nonce) = some (k.row network) := by
  obtain ⟨k, hk, rfl⟩ := mem_extractReplayKeys.mpr hcarries
  refine ⟨k, hk, rfl, ?_⟩
  rcases reserve_cases network tx table with ⟨-, table', htable', hrows⟩ | ⟨-, hnone⟩
  · rw [step, htable', ← row_key_eq.mpr (rfl : k.toAuthNonce = k.toAuthNonce)]
    refine Table.find_of_mem ?_
    rw [Option.getD_some, hrows]
    exact List.mem_append_right _ (List.mem_map_of_mem hk)
  · rw [hnone] at hsome
    cases hsome

/-- **Retention** of an envelope whose last entries expire last. -/
theorem LastHighest.retains (h : LastHighest tx) (table : ReplayTable) (ops : List Op) : Retains network table ops tx := by
  intro pre mid post pair _ hsome hcarries hrelease hpurge
  obtain ⟨k, hk, hpair, hrow⟩ := find_reserved hsome hcarries
  obtain ⟨c, hc, hcpair, hledgers⟩ := hpurge
  have hle : c.signatureExpirationLedger ≤ k.signatureExpirationLedger := h.le hk hc (hcpair.trans hpair.symm)
  have hsplit : after network table (pre ++ .reserve tx :: mid) =
      after network (step network (after network table pre) (.reserve tx)) mid := run_append ..
  rw [hsplit]
  exact isReserved_iff.mpr ⟨_, find_run hrow hrelease fun currentLedger hl => (hledgers currentLedger hl).trans hle⟩

/-- Where another entry expires after the last one, a purge in between opens the pair again. -/
theorem lastHighest_of_retains (h : ∀ table ops, NonDecreasing ops → Retains network table ops tx) : LastHighest tx := by
  intro pre c post hsplit hpost c' hc' hsame
  by_contra hless
  have hmem : c' ∈ credentialsOf tx := by
    rw [hsplit]
    exact List.mem_append_left _ hc'
  have hcarries : Carries tx c.authNonce := ⟨c', hmem, hsame⟩
  have hsome : (reserve network tx Table.empty).isSome = true := by
    have hfresh : ∀ pair, Carries tx pair → ¬ IsReserved network Table.empty pair := by
      intro pair _ hreserved
      obtain ⟨row, hrow⟩ := isReserved_iff.mp hreserved
      cases hrow
    obtain ⟨table', htable', -⟩ := reserve_fresh hfresh
    rw [htable']
    rfl
  have hreserved := h Table.empty [.reserve tx, .purgeExpired c'.signatureExpirationLedger] (List.pairwise_singleton _ _)
    [] [.purgeExpired c'.signatureExpirationLedger] [] c.authNonce rfl hsome hcarries (by simp)
    ⟨c', hmem, hsame, fun currentLedger hl => by
      obtain rfl : currentLedger = c'.signatureExpirationLedger := by simpa using hl
      exact le_rfl⟩
  obtain ⟨k, hk, hpair, hrow⟩ := find_reserved hsome hcarries
  obtain rfl := eq_of_last hsplit hpost hk hpair
  obtain ⟨row, hfind⟩ := isReserved_iff.mp hreserved
  have hpurged : after network Table.empty ([] ++ .reserve tx :: [.purgeExpired c'.signatureExpirationLedger]) =
      (step network Table.empty (.reserve tx)).removeWhere (ReplayRow.expired network c'.signatureExpirationLedger) := rfl
  have hexpired : ReplayRow.expired network c'.signatureExpirationLedger (c.replayKey.row network) = true := by
    simp only [ReplayRow.expired, Bool.and_eq_true, decide_eq_true_eq]
    exact ⟨rfl, not_le.mp hless⟩
  rw [hpurged, Table.find_removeWhere, hrow, Option.filter_some_neg (by rw [hexpired]; decide)] at hfind
  cases hfind

/-- **Purging is safe** for the envelopes whose last entries expire last, in every run, and for no others; every
reserve inserts all or none. -/
theorem purge_safe_iff (network : String) :
    (∀ table ops, NonDecreasing ops → AllOrNone network table ops) ∧
      ∀ tx, (∀ table ops, NonDecreasing ops → Retains network table ops tx) ↔ LastHighest tx :=
  ⟨fun table ops _ => allOrNone table ops, fun _ => ⟨lastHighest_of_retains, fun h table ops _ => h.retains table ops⟩⟩

/-- One nonce in two entries; the second one expires first. -/
def twoLedgers : Option Transaction :=
  some (.transaction [.invokeHostFunction (some [.address ⟨⟨"CWALLET"⟩, 7, 200⟩, .addressV2 ⟨⟨"CWALLET"⟩, 7, 100⟩])])

/-- The pair is free at ledger 150, where its first entry is still valid. -/
theorem reopened_early : ¬ Retains "mainnet" Table.empty [.reserve twoLedgers, .purgeExpired 150] twoLedgers := by
  intro h
  have hreserved : ((after "mainnet" Table.empty [.reserve twoLedgers, .purgeExpired 150]).find
      ("mainnet", "CWALLET", "7")).isSome = true :=
    h [] [.purgeExpired 150] [] ⟨"CWALLET", "7", by decide⟩ rfl (by decide) ⟨_, List.mem_cons_self, by decide⟩
      (by simp) ⟨_, List.mem_cons_self, by decide, by simp⟩
  revert hreserved
  decide

end Laws

end Vellar.Wallet.ReplayPurge
