import Vellar.Lib.Partial
import Vellar.Lib.Table

/-!
# Vellar.Cleanup.ClassicLedger — an account of the classic ledger

Trustlines with their balances, open offers with the liabilities they bring, data entries and the sequence number, and what
the four operations of a cleanup do to them.  A transaction takes the next sequence number and applies all its operations
or none.  The native balance is left out.
-/

set_option autoImplicit false

namespace Vellar.Cleanup

open Partial

/-! ## Accounts -/

/-- An issued asset. -/
structure Credit where
  code : String
  issuer : String
deriving DecidableEq, Repr

inductive Asset where
  | native
  | credit (asset : Credit)
deriving DecidableEq, Repr

/-- What a trustline is to. -/
inductive Line where
  | credit (asset : Credit)
  | poolShare (poolId : String)
deriving DecidableEq, Repr

structure Trustline where
  line : Line
  /-- In stroops. -/
  balance : ℕ

structure Offer where
  id : String
  selling : Asset
  buying : Asset
  price : ℚ
  /-- The selling and the buying liability, in stroops. -/
  sells : ℕ
  buys : ℕ

structure Ledger where
  account : String
  sequence : ℤ
  trustlines : Table Trustline.line
  offers : Table Offer.id
  data : Table fun name : String => name

def Ledger.sellingLiabilities (l : Ledger) (asset : Asset) : ℕ :=
  (l.offers.rows.map fun o => if o.selling = asset then o.sells else 0).sum

def Ledger.buyingLiabilities (l : Ledger) (asset : Asset) : ℕ :=
  (l.offers.rows.map fun o => if o.buying = asset then o.buys else 0).sum

/-! ## Operations -/

inductive ClassicOp where
  /-- Of amount zero: the offer is cancelled. -/
  | manageSellOffer (selling buying : Asset) (offerId : String)
  | payment (destination : String) (asset : Credit) (amount : ℕ)
  /-- With limit zero: the trustline is removed. -/
  | changeTrust (asset : Credit)
  /-- Without a value: the entry is deleted. -/
  | manageData (name : String)
deriving DecidableEq

structure Transaction where
  source : String
  sequence : ℤ
  fee : ℕ
  operations : List ClassicOp

section Operations

-- Which accounts trust which assets.
variable (trusts : String → Credit → Bool)

/-- An operation of the account; none where it fails. -/
def applyOp (l : Ledger) (op : ClassicOp) : Option Ledger :=
  match op with
  | .manageSellOffer _ _ offerId =>
    (l.offers.find offerId).map fun _ => { l with offers := l.offers.removeWhere fun o => o.id = offerId }
  | .payment destination asset amount =>
    match l.trustlines.find (.credit asset) with
    | none => none
    | some t =>
      if 0 < amount ∧ amount + l.sellingLiabilities (.credit asset) ≤ t.balance ∧ trusts destination asset = true then
        if destination = l.account then some l
        else some { l with
          trustlines := l.trustlines.updateWhere (fun t => t.line = .credit asset)
            (fun t => { t with balance := t.balance - amount }) fun _ => rfl }
      else none
  | .changeTrust asset =>
    match l.trustlines.find (.credit asset) with
    | none => none
    | some t =>
      if t.balance = 0 ∧ l.sellingLiabilities (.credit asset) = 0 ∧ l.buyingLiabilities (.credit asset) = 0 then
        some { l with trustlines := l.trustlines.removeWhere fun t => t.line = .credit asset }
      else none
  | .manageData name => (l.data.find name).map fun _ => { l with data := l.data.removeWhere fun n => n = name }

def applyOps (l : Ledger) (ops : List ClassicOp) : Option Ledger := ops.foldlM (applyOp trusts) l

/-- A transaction of the account with the next sequence number. -/
def applyTx (l : Ledger) (tx : Transaction) : Option Ledger :=
  if tx.source = l.account ∧ tx.sequence = l.sequence + 1 then
    applyOps trusts { l with sequence := l.sequence + 1 } tx.operations
  else none

def applyTxs (l : Ledger) (txs : List Transaction) : Option Ledger := txs.foldlM (applyTx trusts) l

end Operations

/-! ## The sequence number -/

section Sequence

variable {trusts : String → Credit → Bool} {l l' : Ledger}

def Ledger.withSequence (l : Ledger) (sequence : ℤ) : Ledger := { l with sequence := sequence }

@[simp] theorem withSequence_trustlines (sequence : ℤ) : (l.withSequence sequence).trustlines = l.trustlines := rfl

@[simp] theorem withSequence_offers (sequence : ℤ) : (l.withSequence sequence).offers = l.offers := rfl

@[simp] theorem withSequence_data (sequence : ℤ) : (l.withSequence sequence).data = l.data := rfl

theorem applyOp_withSequence (op : ClassicOp) (sequence : ℤ) :
    applyOp trusts (l.withSequence sequence) op = (applyOp trusts l op).map (·.withSequence sequence) := by
  cases op with
  | manageSellOffer selling buying offerId =>
    simp only [applyOp, withSequence_offers]
    cases l.offers.find offerId <;> rfl
  | payment destination asset amount =>
    simp only [applyOp, withSequence_trustlines]
    cases l.trustlines.find (.credit asset) with
    | none => rfl
    | some t =>
      by_cases hpays : 0 < amount ∧ amount + l.sellingLiabilities (.credit asset) ≤ t.balance ∧ trusts destination asset = true
      · have hpays' : 0 < amount ∧ amount + (l.withSequence sequence).sellingLiabilities (.credit asset) ≤ t.balance ∧
          trusts destination asset = true := hpays
        by_cases hself : destination = l.account
        · have hself' : destination = (l.withSequence sequence).account := hself
          simp only [if_pos hpays, if_pos hpays', if_pos hself, if_pos hself', Option.map_some]
        · have hself' : destination ≠ (l.withSequence sequence).account := hself
          simp only [if_pos hpays, if_pos hpays', if_neg hself, if_neg hself', Option.map_some]
          rfl
      · have hpays' : ¬ (0 < amount ∧ amount + (l.withSequence sequence).sellingLiabilities (.credit asset) ≤ t.balance ∧
          trusts destination asset = true) := hpays
        simp only [if_neg hpays, if_neg hpays', Option.map_none]
  | changeTrust asset =>
    simp only [applyOp, withSequence_trustlines]
    cases l.trustlines.find (.credit asset) with
    | none => rfl
    | some t =>
      by_cases hempty : t.balance = 0 ∧ l.sellingLiabilities (.credit asset) = 0 ∧ l.buyingLiabilities (.credit asset) = 0
      · have hempty' : t.balance = 0 ∧ (l.withSequence sequence).sellingLiabilities (.credit asset) = 0 ∧
          (l.withSequence sequence).buyingLiabilities (.credit asset) = 0 := hempty
        simp only [if_pos hempty, if_pos hempty', Option.map_some]
        rfl
      · have hempty' : ¬ (t.balance = 0 ∧ (l.withSequence sequence).sellingLiabilities (.credit asset) = 0 ∧
          (l.withSequence sequence).buyingLiabilities (.credit asset) = 0) := hempty
        simp only [if_neg hempty, if_neg hempty', Option.map_none]
  | manageData name =>
    simp only [applyOp, withSequence_data]
    cases l.data.find name <;> rfl

theorem applyOps_withSequence (ops : List ClassicOp) (sequence : ℤ) :
    applyOps trusts (l.withSequence sequence) ops = (applyOps trusts l ops).map (·.withSequence sequence) := by
  induction ops generalizing l with
  | nil => rfl
  | cons op ops ih =>
    simp only [applyOps, List.foldlM_cons]
    rw [applyOp_withSequence]
    cases applyOp trusts l op with
    | none => rfl
    | some l' => exact ih

theorem applyOp_account {op : ClassicOp} (h : applyOp trusts l op = some l') : l'.account = l.account := by
  cases op with
  | manageSellOffer selling buying offerId | manageData name =>
    obtain ⟨_, -, rfl⟩ := Option.map_eq_some_iff.mp h
    rfl
  | payment destination asset amount =>
    simp only [applyOp] at h
    split at h
    · cases h
    · split at h
      · split at h <;> (obtain rfl := Option.some.inj h; rfl)
      · cases h
  | changeTrust asset =>
    simp only [applyOp] at h
    split at h
    · cases h
    · split at h
      · obtain rfl := Option.some.inj h
        rfl
      · cases h

theorem applyOps_account {ops : List ClassicOp} (h : applyOps trusts l ops = some l') : l'.account = l.account := by
  induction ops generalizing l with
  | nil =>
    obtain rfl := Option.some.inj h
    rfl
  | cons op ops ih =>
    obtain ⟨l₁, hop, hrest⟩ := foldlM_cons_some.mp h
    exact (ih hrest).trans (applyOp_account hop)

/-- Transactions with consecutive sequence numbers apply all their operations. -/
theorem applyTxs_of_applyOps {txs : List Transaction} {final : Ledger}
    (hnext : ∀ (k : ℕ) tx, txs[k]? = some tx → tx.source = l.account ∧ tx.sequence = l.sequence + k + 1)
    (h : applyOps trusts l (txs.flatMap (·.operations)) = some final) :
    applyTxs trusts l txs = some (final.withSequence (l.sequence + txs.length)) := by
  induction txs generalizing l final with
  | nil =>
    obtain rfl : l = final := Option.some.inj h
    simp [applyTxs, Ledger.withSequence]
  | cons tx txs ih =>
    rw [List.flatMap_cons] at h
    obtain ⟨l₁, hfirst, hrest⟩ := foldlM_append_some.mp h
    obtain ⟨hsource, hsequence⟩ := hnext 0 tx rfl
    have htx : applyTx trusts l tx = some (l₁.withSequence (l.sequence + 1)) := by
      unfold applyTx
      rw [if_pos ⟨hsource, by simpa using hsequence⟩]
      show applyOps trusts (l.withSequence (l.sequence + 1)) tx.operations = _
      rw [applyOps_withSequence, show applyOps trusts l tx.operations = some l₁ from hfirst]
      rfl
    have hrest' : applyOps trusts (l₁.withSequence (l.sequence + 1)) (txs.flatMap (·.operations)) =
        some (final.withSequence (l.sequence + 1)) := by
      rw [applyOps_withSequence, show applyOps trusts l₁ (txs.flatMap (·.operations)) = some final from hrest]
      rfl
    have haccount := applyOps_account hfirst
    have hih := ih (l := l₁.withSequence (l.sequence + 1)) (fun k tx hk => ?_) hrest'
    · rw [applyTxs, List.foldlM_cons, htx]
      show applyTxs trusts (l₁.withSequence (l.sequence + 1)) txs = _
      rw [hih]
      simp only [Ledger.withSequence, List.length_cons, Nat.cast_add, Nat.cast_one, add_assoc, add_comm (1 : ℤ)]
    · obtain ⟨hsource', hsequence'⟩ := hnext (k + 1) tx hk
      refine ⟨hsource'.trans haccount.symm, hsequence'.trans ?_⟩
      show l.sequence + ((k + 1 : ℕ) : ℤ) + 1 = l.sequence + 1 + k + 1
      push_cast
      ring

/-- Every operation of transactions that apply has applied. -/
theorem applyTxs_mem {txs : List Transaction} {tx : Transaction} {op : ClassicOp} (h : applyTxs trusts l txs = some l')
    (htx : tx ∈ txs) (hop : op ∈ tx.operations) : ∃ l₁ l₂, applyOp trusts l₁ op = some l₂ := by
  obtain ⟨before, after, h⟩ := foldlM_mem_some h tx htx
  unfold applyTx at h
  split at h
  · exact foldlM_mem_some h op hop
  · cases h

theorem applyOp_trusts {destination : String} {asset : Credit} {amount : ℕ}
    (h : applyOp trusts l (.payment destination asset amount) = some l') : trusts destination asset = true := by
  simp only [applyOp] at h
  split at h
  · cases h
  · split at h
    · rename_i hpays
      exact hpays.2.2
    · cases h

end Sequence

/-! ## What a cleanup does -/

section Cleanup

variable {trusts : String → Credit → Bool} {l : Ledger}

/-- Cancelling every offer. -/
theorem applyOps_cancel {rows : List Offer} (h : l.offers.rows = rows) :
    applyOps trusts l (rows.map fun o => .manageSellOffer o.selling o.buying o.id) =
      some { l with offers := Table.empty } := by
  induction rows generalizing l with
  | nil =>
    have hempty : l.offers = Table.empty := Table.ext_rows h
    show some l = _
    rw [← hempty]
  | cons o rows ih =>
    have hfind : l.offers.find o.id = some o := Table.find_of_mem (by rw [h]; exact List.mem_cons_self)
    rw [List.map_cons, applyOps, List.foldlM_cons]
    show (applyOp trusts l _).bind _ = _
    simp only [applyOp, hfind, Option.map_some, Option.bind_some]
    exact ih (Table.rows_removeWhere_head h)

/-- Deleting every data entry. -/
theorem applyOps_data {rows : List String} (h : l.data.rows = rows) :
    applyOps trusts l (rows.map .manageData) = some { l with data := Table.empty } := by
  induction rows generalizing l with
  | nil =>
    have hempty : l.data = Table.empty := Table.ext_rows h
    show some l = _
    rw [← hempty]
  | cons name rows ih =>
    have hfind : l.data.find name = some name := Table.find_of_mem (by rw [h]; exact List.mem_cons_self)
    rw [List.map_cons, applyOps, List.foldlM_cons]
    show (applyOp trusts l _).bind _ = _
    simp only [applyOp, hfind, Option.map_some, Option.bind_some]
    exact ih (Table.rows_removeWhere_head h)

/-- The operations that empty and remove a trustline. -/
def removeLine (destination : String) (asset : Credit) (balance : ℕ) : List ClassicOp :=
  (if 0 < balance then [.payment destination asset balance] else []) ++ [.changeTrust asset]

theorem no_liabilities (hoffers : l.offers.rows = []) (asset : Asset) :
    l.sellingLiabilities asset = 0 ∧ l.buyingLiabilities asset = 0 := by
  unfold Ledger.sellingLiabilities Ledger.buyingLiabilities
  rw [hoffers]
  exact ⟨rfl, rfl⟩

variable (trusts) in
/-- An empty trustline without liabilities goes. -/
theorem applyOp_changeTrust {asset : Credit} {rows : List Trustline} (hoffers : l.offers.rows = [])
    (h : l.trustlines.rows = ⟨.credit asset, 0⟩ :: rows) :
    ∃ trustlines : Table Trustline.line, trustlines.rows = rows ∧
      applyOp trusts l (.changeTrust asset) = some { l with trustlines := trustlines } := by
  have hfind : l.trustlines.find (.credit asset) = some ⟨.credit asset, 0⟩ :=
    Table.find_of_mem (r := (⟨.credit asset, 0⟩ : Trustline)) (by rw [h]; exact List.mem_cons_self)
  obtain ⟨hselling, hbuying⟩ := no_liabilities hoffers (.credit asset)
  refine ⟨_, Table.rows_removeWhere_head h, ?_⟩
  simp only [applyOp, hfind, hselling, hbuying, and_self, if_true]

/-- The whole balance is paid to a destination that trusts the asset. -/
theorem applyOp_payment {destination : String} {asset : Credit} {balance : ℕ} {rows : List Trustline}
    (hoffers : l.offers.rows = []) (hother : destination ≠ l.account) (hpositive : 0 < balance)
    (htrusts : trusts destination asset = true) (h : l.trustlines.rows = ⟨.credit asset, balance⟩ :: rows) :
    ∃ trustlines : Table Trustline.line, trustlines.rows = ⟨.credit asset, 0⟩ :: rows ∧
      applyOp trusts l (.payment destination asset balance) = some { l with trustlines := trustlines } := by
  have hfind : l.trustlines.find (.credit asset) = some ⟨.credit asset, balance⟩ :=
    Table.find_of_mem (r := (⟨.credit asset, balance⟩ : Trustline)) (by rw [h]; exact List.mem_cons_self)
  obtain ⟨hselling, -⟩ := no_liabilities hoffers (.credit asset)
  have hnodup : ((⟨.credit asset, balance⟩ :: rows : List Trustline).map Trustline.line).Nodup := h ▸ l.trustlines.nodup
  have hhead := (List.nodup_cons.mp hnodup).1
  refine ⟨l.trustlines.updateWhere (fun t => t.line = .credit asset)
    (fun t => { t with balance := t.balance - balance }) fun _ => rfl, ?_, ?_⟩
  · show l.trustlines.rows.map _ = _
    have hrest : ∀ t ∈ rows, t.line ≠ .credit asset := fun t ht heq =>
      hhead (List.mem_map.mpr ⟨t, ht, heq⟩)
    rw [h, List.map_cons, if_pos (by simp)]
    refine congrArg₂ List.cons ?_ ?_
    · simp only [Nat.sub_self]
    · refine (List.map_congr_left (g := id) fun t ht => ?_).trans (List.map_id rows)
      exact if_neg (by simpa using hrest t ht)
  · simp only [applyOp, hfind]
    rw [if_pos ⟨hpositive, by omega, htrusts⟩, if_neg hother]

/-- **Every trustline is emptied and removed**, once the offers are gone. -/
theorem applyOps_lines {destination : String} {lines : List (Credit × ℕ)} (hoffers : l.offers.rows = [])
    (hother : destination ≠ l.account) (htrusts : ∀ line ∈ lines, 0 < line.2 → trusts destination line.1 = true)
    (h : l.trustlines.rows = lines.map fun line => ⟨.credit line.1, line.2⟩) :
    applyOps trusts l (lines.flatMap fun line => removeLine destination line.1 line.2) =
      some { l with trustlines := Table.empty } := by
  induction lines generalizing l with
  | nil =>
    have hempty : l.trustlines = Table.empty := Table.ext_rows h
    show some l = _
    rw [← hempty]
  | cons line lines ih =>
    obtain ⟨asset, balance⟩ := line
    have hrest : ∀ trustlines : Table Trustline.line,
        trustlines.rows = (⟨.credit asset, 0⟩ :: lines.map fun line => ⟨.credit line.1, line.2⟩) →
        applyOps trusts { l with trustlines := trustlines }
          (.changeTrust asset :: lines.flatMap fun line => removeLine destination line.1 line.2) =
          some { l with trustlines := Table.empty } := fun trustlines hrows => by
      obtain ⟨trustlines', hrows', hop⟩ := applyOp_changeTrust trusts (l := { l with trustlines := trustlines }) hoffers hrows
      rw [applyOps, List.foldlM_cons, hop]
      exact ih (l := { l with trustlines := trustlines' }) hoffers hother
        (fun line hline => htrusts line (List.mem_cons_of_mem _ hline)) hrows'
    rw [List.flatMap_cons, removeLine]
    by_cases hpositive : 0 < balance
    · obtain ⟨trustlines, hrows, hop⟩ := applyOp_payment hoffers hother hpositive
        (htrusts (asset, balance) List.mem_cons_self hpositive) h
      rw [if_pos hpositive]
      show applyOps trusts l (.payment destination asset balance :: _) = _
      rw [applyOps, List.foldlM_cons, hop]
      exact hrest trustlines hrows
    · obtain rfl : balance = 0 := by omega
      rw [if_neg (by omega)]
      exact hrest l.trustlines h

end Cleanup

/-! ## A cleanup that stopped -/

section Stopped

/-- The operations on a trustline. -/
def lineOps (destination : String) (t : Trustline) : List ClassicOp :=
  match t.line with
  | .credit asset => removeLine destination asset t.balance
  | .poolShare _ => []

/-- The operations that empty the account. -/
def emptyingOps (destination : String) (l : Ledger) : List ClassicOp :=
  (l.offers.rows.map fun o => .manageSellOffer o.selling o.buying o.id) ++ l.trustlines.rows.flatMap (lineOps destination) ++
    l.data.rows.map .manageData

variable {trusts : String → Credit → Bool} {destination : String} {l l₁ l' : Ledger} {op : ClassicOp} {rest : List ClassicOp}

/-- What an operation of the cleanup does, when it comes next. -/
inductive Advances (destination : String) (l l' : Ledger) : ClassicOp → Prop where
  | cancel (o : Offer) (hoffers : l.offers.rows = o :: l'.offers.rows) (htrustlines : l'.trustlines = l.trustlines)
      (hdata : l'.data = l.data) : Advances destination l l' (.manageSellOffer o.selling o.buying o.id)
  | pay (asset : Credit) (n : ℕ) (rows : List Trustline) (hpos : 0 < n) (hnone : l.offers.rows = [])
      (hbefore : l.trustlines.rows = ⟨.credit asset, n⟩ :: rows) (hafter : l'.trustlines.rows = ⟨.credit asset, 0⟩ :: rows)
      (hoffers : l'.offers = l.offers) (hdata : l'.data = l.data) : Advances destination l l' (.payment destination asset n)
  | remove (asset : Credit) (hbefore : l.trustlines.rows = ⟨.credit asset, 0⟩ :: l'.trustlines.rows) (hnone : l.offers.rows = [])
      (hoffers : l'.offers = l.offers) (hdata : l'.data = l.data) : Advances destination l l' (.changeTrust asset)
  | delete (name : String) (hdata : l.data.rows = name :: l'.data.rows) (hnone : l.trustlines.rows = [])
      (hoffers : l'.offers = l.offers) (htrustlines : l'.trustlines = l.trustlines) : Advances destination l l' (.manageData name)

/-- **The operations that are left** after one of them are the others. -/
theorem emptyingOps_step (hcredit : ∀ t ∈ l.trustlines.rows, ∃ asset, t.line = .credit asset) (hother : destination ≠ l.account)
    (hops : emptyingOps destination l = op :: rest) (hop : applyOp trusts l op = some l') :
    emptyingOps destination l' = rest ∧ Advances destination l l' op := by
  unfold emptyingOps at hops
  cases hoffers : l.offers.rows with
  | cons o offers =>
    rw [hoffers] at hops
    obtain ⟨rfl, rfl⟩ := List.cons.inj hops
    have hfind : l.offers.find o.id = some o := Table.find_of_mem (by rw [hoffers]; exact List.mem_cons_self)
    have hrows := Table.rows_removeWhere_head hoffers
    simp only [applyOp, hfind, Option.map_some] at hop
    obtain rfl := Option.some.inj hop
    refine ⟨?_, .cancel o (by rw [hoffers, hrows]) rfl rfl⟩
    unfold emptyingOps
    rw [hrows]
    rfl
  | nil =>
    rw [hoffers, List.map_nil, List.nil_append] at hops
    cases hlines : l.trustlines.rows with
    | cons t lines =>
      obtain ⟨asset, hasset⟩ := hcredit t (by rw [hlines]; exact List.mem_cons_self)
      obtain ⟨line, n⟩ := t
      obtain rfl : line = .credit asset := hasset
      rw [hlines, List.flatMap_cons] at hops
      by_cases hpos : 0 < n
      · have hline : lineOps destination ⟨.credit asset, n⟩ = [.payment destination asset n, .changeTrust asset] := by
          show removeLine destination asset n = _
          unfold removeLine
          rw [if_pos hpos]
          rfl
        rw [hline] at hops
        obtain ⟨rfl, rfl⟩ := List.cons.inj hops
        obtain ⟨trustlines, hrows, hpays⟩ := applyOp_payment hoffers hother hpos (applyOp_trusts hop) hlines
        obtain rfl := Option.some.inj (hop.symm.trans hpays)
        refine ⟨?_, .pay asset n lines hpos hoffers hlines hrows rfl rfl⟩
        unfold emptyingOps
        rw [hoffers, show _ = _ from hrows]
        rfl
      · obtain rfl : n = 0 := by omega
        have hline : lineOps destination ⟨.credit asset, 0⟩ = [.changeTrust asset] := rfl
        rw [hline] at hops
        obtain ⟨rfl, rfl⟩ := List.cons.inj hops
        obtain ⟨trustlines, hrows, hremoves⟩ := applyOp_changeTrust trusts hoffers hlines
        obtain rfl := Option.some.inj (hop.symm.trans hremoves)
        refine ⟨?_, .remove asset (by rw [hlines]; exact congrArg _ hrows.symm) hoffers rfl rfl⟩
        unfold emptyingOps
        rw [hoffers, show _ = _ from hrows]
        rfl
    | nil =>
      rw [hlines, List.flatMap_nil, List.nil_append] at hops
      cases hdata : l.data.rows with
      | nil =>
        rw [hdata] at hops
        cases hops
      | cons name names =>
        rw [hdata] at hops
        obtain ⟨rfl, rfl⟩ := List.cons.inj hops
        have hfind : l.data.find name = some name := Table.find_of_mem (by rw [hdata]; exact List.mem_cons_self)
        have hrows := Table.rows_removeWhere_head hdata
        simp only [applyOp, hfind, Option.map_some] at hop
        obtain rfl := Option.some.inj hop
        refine ⟨?_, .delete name (by rw [hdata, hrows]) hlines rfl rfl⟩
        unfold emptyingOps
        rw [hoffers, hlines, hrows]
        rfl

/-- What is left of an account by the first operations of its cleanup, by the last of them: after a payment a trustline is
empty and still there. -/
structure Stopped (destination : String) (l l' : Ledger) (last : Option ClassicOp) : Prop where
  account : l'.account = l.account
  offers : ∀ o ∈ l'.offers.rows, o ∈ l.offers.rows
  fewer : l'.offers.rows.length ≤ l.offers.rows.length
  data : ∀ name ∈ l'.data.rows, name ∈ l.data.rows
  lines : ((∀ d a n, last ≠ some (.payment d a n)) ∧ ∀ t ∈ l'.trustlines.rows, t ∈ l.trustlines.rows) ∨
    ∃ asset n rows, last = some (.payment destination asset n) ∧ 0 < n ∧ l'.offers.rows = [] ∧
      l'.trustlines.rows = ⟨.credit asset, 0⟩ :: rows ∧ ⟨.credit asset, n⟩ ∈ l.trustlines.rows ∧ ∀ t ∈ rows, t ∈ l.trustlines.rows

theorem Stopped.credit {last : Option ClassicOp} (h : Stopped destination l l' last)
    (hcredit : ∀ t ∈ l.trustlines.rows, ∃ asset, t.line = .credit asset) :
    ∀ t ∈ l'.trustlines.rows, ∃ asset, t.line = .credit asset := by
  intro t ht
  rcases h.lines with ⟨-, hmem⟩ | ⟨asset, n, rows, -, -, -, hrows, -, hmem⟩
  · exact hcredit t (hmem t ht)
  · rw [hrows] at ht
    rcases List.mem_cons.mp ht with rfl | ht
    · exact ⟨asset, rfl⟩
    · exact hcredit t (hmem t ht)

/-- **One more operation.** -/
theorem Stopped.advance {last : Option ClassicOp} (h : Stopped destination l l₁ last) (hadvances : Advances destination l₁ l' op)
    (haccount : l'.account = l₁.account) : Stopped destination l l' (some op) := by
  obtain ⟨haccount₁, hoffers₁, hfewer₁, hdata₁, hlines₁⟩ := h
  cases hadvances with
  | cancel o hoffers htrustlines hdata =>
    rw [hoffers] at hoffers₁ hfewer₁
    rw [List.length_cons] at hfewer₁
    refine ⟨haccount.trans haccount₁, fun o' ho' => hoffers₁ o' (List.mem_cons_of_mem _ ho'), by omega, hdata ▸ hdata₁, .inl ⟨?_, ?_⟩⟩
    · exact fun d a n heq => (nomatch heq)
    · rcases hlines₁ with ⟨-, hmem⟩ | ⟨asset, n, rows, -, -, hnone, -⟩
      · rw [htrustlines]
        exact hmem
      · rw [hnone] at hoffers
        cases hoffers
  | pay asset n rows hpos hnone hbefore hafter hoffers hdata =>
    refine ⟨haccount.trans haccount₁, hoffers ▸ hoffers₁, hoffers ▸ hfewer₁, hdata ▸ hdata₁, .inr ⟨asset, n, rows, rfl, hpos, ?_, hafter, ?_⟩⟩
    · rw [hoffers]
      exact hnone
    · rcases hlines₁ with ⟨-, hmem⟩ | ⟨asset', n', rows', -, -, -, hrows, -⟩
      · rw [hbefore] at hmem
        exact ⟨hmem _ List.mem_cons_self, fun t ht => hmem t (List.mem_cons_of_mem _ ht)⟩
      · rw [hrows] at hbefore
        obtain ⟨hhead, -⟩ := List.cons.inj hbefore
        obtain rfl : 0 = n := congrArg Trustline.balance hhead
        omega
  | remove asset hbefore hnone hoffers hdata =>
    refine ⟨haccount.trans haccount₁, hoffers ▸ hoffers₁, hoffers ▸ hfewer₁, hdata ▸ hdata₁, .inl ⟨?_, fun t ht => ?_⟩⟩
    · exact fun d a n heq => (nomatch heq)
    · rcases hlines₁ with ⟨-, hmem⟩ | ⟨asset', n', rows', -, -, -, hrows, -, hmem⟩
      · exact hmem t (by rw [hbefore]; exact List.mem_cons_of_mem _ ht)
      · rw [hrows] at hbefore
        obtain ⟨-, htail⟩ := List.cons.inj hbefore
        exact hmem t (htail ▸ ht)
  | delete name hdata hnone hoffers htrustlines =>
    rw [hdata] at hdata₁
    refine ⟨haccount.trans haccount₁, hoffers ▸ hoffers₁, hoffers ▸ hfewer₁, fun n hn => hdata₁ n (List.mem_cons_of_mem _ hn),
      .inl ⟨fun d a n heq => (nomatch heq), fun t ht => ?_⟩⟩
    rw [htrustlines, hnone] at ht
    exact absurd ht List.not_mem_nil

/-- **The first operations of a cleanup** leave the others to be done. -/
theorem emptyingOps_run (hcredit : ∀ t ∈ l.trustlines.rows, ∃ asset, t.line = .credit asset) (hother : destination ≠ l.account)
    {done : List ClassicOp} (hops : emptyingOps destination l = done ++ rest) (hrun : applyOps trusts l done = some l') :
    emptyingOps destination l' = rest ∧ Stopped destination l l' done.getLast? := by
  induction done using List.reverseRecOn generalizing rest l' with
  | nil =>
    obtain rfl : l = l' := Option.some.inj hrun
    refine ⟨hops, rfl, fun o ho => ho, le_rfl, fun n hn => hn, .inl ⟨fun d a n heq => (nomatch heq), fun t ht => ht⟩⟩
  | append_singleton done op ih =>
    rw [List.append_assoc] at hops
    obtain ⟨l₁, hdone, hlast⟩ := foldlM_append_some.mp hrun
    obtain ⟨l₂, hop, hnil⟩ := foldlM_cons_some.mp hlast
    obtain rfl : l₂ = l' := Option.some.inj hnil
    obtain ⟨hops₁, hstopped⟩ := ih hops hdone
    have hother₁ : destination ≠ l₁.account := by
      rw [hstopped.account]
      exact hother
    obtain ⟨hops', hadvances⟩ := emptyingOps_step (hstopped.credit hcredit) hother₁ hops₁ hop
    rw [List.getLast?_concat]
    exact ⟨hops', hstopped.advance hadvances (applyOp_account hop)⟩

/-- Transactions that apply have applied all their operations. -/
theorem applyOps_of_applyTxs {txs : List Transaction} (h : applyTxs trusts l txs = some l') :
    ∃ final, applyOps trusts l (txs.flatMap (·.operations)) = some final ∧ l' = final.withSequence (l.sequence + txs.length) := by
  induction txs generalizing l with
  | nil =>
    obtain rfl : l = l' := Option.some.inj h
    exact ⟨l, rfl, by simp [Ledger.withSequence]⟩
  | cons tx txs ih =>
    obtain ⟨l₁, htx, hrest⟩ := foldlM_cons_some.mp h
    unfold applyTx at htx
    split at htx
    · change applyOps trusts (l.withSequence (l.sequence + 1)) tx.operations = some l₁ at htx
      rw [applyOps_withSequence] at htx
      obtain ⟨l₂, hfirst, rfl⟩ := Option.map_eq_some_iff.mp htx
      obtain ⟨final, hfinal, rfl⟩ := ih hrest
      rw [applyOps_withSequence] at hfinal
      obtain ⟨final', hfinal', rfl⟩ := Option.map_eq_some_iff.mp hfinal
      refine ⟨final', ?_, ?_⟩
      · rw [List.flatMap_cons]
        exact foldlM_append_some.mpr ⟨l₂, hfirst, hfinal'⟩
      · show final'.withSequence (l.sequence + 1 + txs.length) = _
        rw [List.length_cons, Nat.cast_add, Nat.cast_one, add_assoc, add_comm (1 : ℤ)]
    · cases htx

end Stopped

end Vellar.Cleanup
