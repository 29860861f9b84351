import Vellar.Lib.Machine
import Vellar.Lib.Partial

/-!
# Vellar.Web.SignerModel — the signers of an account, and which of them may be revoked

`apps/web/lib/signer-model.ts`: the rows of the indexer become entries, and `canRevokeSigner` decides on the list whether
an entry may be removed.  `revocations_iff`: whatever removals it allows, one after another, keep a live passkey and a live
durable admin, exactly for the lists whose durable admins are all live or whose live passkeys are all durable admins.
-/

set_option autoImplicit false

namespace Vellar.Web.SignerModel

open Machine Partial

/-! ## The rows of the indexer -/

/-- The declared kinds, and what else an indexer may report. -/
inductive SignerKeyKind where
  | secp256r1
  | ed25519
  | policy
  | other (kind : String)
deriving DecidableEq

def SignerKeyKind.text : SignerKeyKind → String
  | .secp256r1 => "Secp256r1"
  | .ed25519 => "Ed25519"
  | .policy => "Policy"
  | .other kind => kind

structure SignerKeyRef where
  kind : SignerKeyKind
  value : String
deriving DecidableEq

inductive SignerKind where
  | passkey
  | deviceSession
  | agent
  | policy
  | unknown
deriving DecidableEq

inductive SignerStatus where
  | live
  | expired
  | evicted
  | removed
deriving DecidableEq

inductive SignerStorage where
  | persistent
  | temporary
deriving DecidableEq

structure SignerLimitEntry where
  contract : String
  requiredCoSigners : Option (List SignerKeyRef)
deriving DecidableEq

structure RawSigner where
  key : SignerKeyRef
  /-- Unix seconds. -/
  expiration : Option ℕ
  /-- The entries of the map in its order. -/
  limits : Option (List (String × Option (List SignerKeyRef)))
  storage : SignerStorage
  status : SignerStatus
deriving DecidableEq

structure SignerEntry where
  id : String
  kind : SignerKind
  key : SignerKeyRef
  status : SignerStatus
  storage : SignerStorage
  expiresAt : Option String
  limits : Option (List SignerLimitEntry)
  isCurrent : Bool
  isDurableAdmin : Bool
deriving DecidableEq

structure ClassifyOptions where
  currentKeyId : Option String
  walletAddress : String

/-! ## Classification -/

section Classify

-- the ISO text of a date in milliseconds; none where it throws
variable (toISOString : ℕ → Option String)

def kindOf (raw : RawSigner) (unlimited : Bool) : SignerKind :=
  match raw.key.kind with
  | .secp256r1 => .passkey
  | .policy => .policy
  | .ed25519 => if unlimited && raw.storage = .temporary then .deviceSession else .agent
  | .other _ => .unknown

/-- A limits entry for the wallet itself that no co-signer must approve. -/
def SignerLimitEntry.grantsAdmin (walletAddress : String) (l : SignerLimitEntry) : Bool :=
  l.contract = walletAddress && (l.requiredCoSigners = none || l.requiredCoSigners = some [])

def limitsOf (raw : RawSigner) : Option (List SignerLimitEntry) :=
  raw.limits.map fun entries => entries.map fun (contract, cosigners) => ⟨contract, cosigners⟩

def adminGrant (limits : Option (List SignerLimitEntry)) (walletAddress : String) : Bool :=
  match limits with
  | none => true
  | some limits => limits.any (SignerLimitEntry.grantsAdmin walletAddress)

def expiresAtOf (raw : RawSigner) : Option (Option String) :=
  match raw.expiration with
  | none => some none
  | some expiration => (toISOString (expiration * 1000)).map some

/-- None where the date of the expiration throws. -/
def classifySigner (raw : RawSigner) (opts : ClassifyOptions) : Option SignerEntry := do
  let limits := limitsOf raw
  let expiresAt ← expiresAtOf toISOString raw
  return {
    id := raw.key.kind.text ++ ":" ++ raw.key.value
    kind := kindOf raw limits.isNone
    key := raw.key
    status := raw.status
    storage := raw.storage
    expiresAt := expiresAt
    limits := limits
    isCurrent := raw.key.kind = .secp256r1 && opts.currentKeyId = some raw.key.value
    isDurableAdmin := raw.storage = .persistent && raw.expiration = none && adminGrant limits opts.walletAddress }

def order : SignerKind → ℕ
  | .passkey => 0
  | .deviceSession => 1
  | .agent => 2
  | .policy => 3
  | .unknown => 4

/-- What the comparison of `sort` leaves in their order. -/
def Before (a b : SignerEntry) : Prop :=
  order a.kind < order b.kind ∨ order a.kind = order b.kind ∧ (a.isCurrent = true ∨ b.isCurrent = false)

instance (a b : SignerEntry) : Decidable (Before a b) := inferInstanceAs (Decidable (_ ∨ _))

def classifySigners (rows : List RawSigner) (opts : ClassifyOptions) : Option (List SignerEntry) :=
  ((rows.filter fun r => r.status ≠ .removed).mapM fun r => classifySigner toISOString r opts).map
    (List.insertionSort Before)

variable {toISOString : ℕ → Option String} {raw : RawSigner} {rows : List RawSigner} {opts : ClassifyOptions}
  {e : SignerEntry} {entries : List SignerEntry}

/-- The flag is the contract's rule, told from the fields of the entry itself. -/
theorem isDurableAdmin_iff (h : classifySigner toISOString raw opts = some e) : e.isDurableAdmin = true ↔
    e.storage = .persistent ∧ e.expiresAt = none ∧ ∀ limits, e.limits = some limits →
      ∃ l ∈ limits, l.contract = opts.walletAddress ∧ (l.requiredCoSigners = none ∨ l.requiredCoSigners = some []) := by
  obtain ⟨expiresAt, hexpires, hentry⟩ := Option.bind_eq_some_iff.mp h
  obtain rfl := Option.some.inj hentry
  have hnone : raw.expiration = none ↔ expiresAt = none := by
    unfold expiresAtOf at hexpires
    cases hraw : raw.expiration with
    | none => simp_all
    | some expiration =>
      rw [hraw] at hexpires
      obtain ⟨text, -, rfl⟩ := Option.map_eq_some_iff.mp hexpires
      simp
  have hgrant : adminGrant (limitsOf raw) opts.walletAddress = true ↔ ∀ limits, limitsOf raw = some limits →
      ∃ l ∈ limits, l.contract = opts.walletAddress ∧ (l.requiredCoSigners = none ∨ l.requiredCoSigners = some []) := by
    cases limitsOf raw with
    | none => simp [adminGrant]
    | some limits => simp [adminGrant, SignerLimitEntry.grantsAdmin]
  simp only [Bool.and_eq_true, decide_eq_true_eq, hnone, hgrant, and_assoc]

/-- The entries are those of the rows that the chain still has. -/
theorem mem_classifySigners (h : classifySigners toISOString rows opts = some entries) :
    e ∈ entries ↔ ∃ r ∈ rows, r.status ≠ .removed ∧ classifySigner toISOString r opts = some e := by
  obtain ⟨classified, hmap, rfl⟩ := Option.map_eq_some_iff.mp h
  have hrelated := mapM_eq_some.mp hmap
  rw [List.mem_insertionSort]
  constructor
  · intro he
    obtain ⟨r, hr, hclassified⟩ := exists_left hrelated e he
    obtain ⟨hmem, hstatus⟩ := List.mem_filter.mp hr
    exact ⟨r, hmem, of_decide_eq_true hstatus, hclassified⟩
  · rintro ⟨r, hmem, hstatus, hclassified⟩
    obtain ⟨e', he', heq⟩ := exists_right hrelated r (List.mem_filter.mpr ⟨hmem, decide_eq_true hstatus⟩)
    rwa [Option.some.inj (hclassified.symm.trans heq)]

end Classify

/-! ## Revocation -/

def livePasskeys (entries : List SignerEntry) : List SignerEntry :=
  entries.filter fun e => e.kind = .passkey && e.status = .live

def isLastPasskey (entry : SignerEntry) (entries : List SignerEntry) : Bool :=
  if entry.kind ≠ .passkey then false
  else ((livePasskeys entries).filter fun e => e.id ≠ entry.id).length = 0

inductive RevokeReason where
  | lastPasskey
  | lastDurableAdmin
  | notLive
deriving DecidableEq

inductive RevokeVerdict where
  | allowed
  | refused (reason : RevokeReason)
deriving DecidableEq

def canRevokeSigner (entry : SignerEntry) (entries : List SignerEntry) : RevokeVerdict :=
  if entry.status = .removed then .refused .notLive
  else if isLastPasskey entry entries then .refused .lastPasskey
  else if entry.isDurableAdmin ∧ (entries.filter fun e => e.isDurableAdmin && e.id ≠ entry.id).length = 0 then
    .refused .lastDurableAdmin
  else .allowed

/-- The list without the entry, as the chain reports it next. -/
def revoke (entries : List SignerEntry) (entry : SignerEntry) : List SignerEntry :=
  entries.filter fun e => e.id ≠ entry.id

/-- An entry of the list that may be revoked. -/
def Allowed (entries : List SignerEntry) (entry : SignerEntry) : Prop :=
  entry ∈ entries ∧ canRevokeSigner entry entries = .allowed

def liveDurableAdmins (entries : List SignerEntry) : List SignerEntry :=
  entries.filter fun e => e.isDurableAdmin && e.status = .live

/-- A live passkey and a live durable admin remain. -/
structure Recoverable (entries : List SignerEntry) : Prop where
  passkey : livePasskeys entries ≠ []
  admin : liveDurableAdmins entries ≠ []

/-- An entry whose removal leaves the account recoverable is refused for what it is. -/
def RefusedOnly (entries : List SignerEntry) : Prop :=
  ∀ e ∈ entries, Recoverable (revoke entries e) → canRevokeSigner e entries ≠ .allowed →
    e.status = .removed ∨ e.kind = .passkey ∨ e.isDurableAdmin = true

/-! ## What is allowed, and what a removal leaves -/

section Removal

variable {entries : List SignerEntry} {entry e : SignerEntry}

theorem mem_livePasskeys : e ∈ livePasskeys entries ↔ e ∈ entries ∧ e.kind = .passkey ∧ e.status = .live := by
  simp [livePasskeys]

theorem mem_liveDurableAdmins :
    e ∈ liveDurableAdmins entries ↔ e ∈ entries ∧ e.isDurableAdmin = true ∧ e.status = .live := by
  simp [liveDurableAdmins]

theorem mem_revoke : e ∈ revoke entries entry ↔ e ∈ entries ∧ e.id ≠ entry.id := by
  simp [revoke]

theorem recoverable_iff :
    Recoverable entries ↔ (∃ p, p ∈ livePasskeys entries) ∧ ∃ a, a ∈ liveDurableAdmins entries :=
  ⟨fun h => ⟨List.exists_mem_of_ne_nil _ h.passkey, List.exists_mem_of_ne_nil _ h.admin⟩,
    fun ⟨⟨_, hp⟩, ⟨_, ha⟩⟩ => ⟨List.ne_nil_of_mem hp, List.ne_nil_of_mem ha⟩⟩

theorem isLastPasskey_iff : isLastPasskey entry entries = true ↔
    entry.kind = .passkey ∧ ∀ p ∈ livePasskeys entries, p.id = entry.id := by
  unfold isLastPasskey
  split_ifs with hkind
  · simp [hkind]
  · simp [not_not.mp hkind, List.filter_eq_nil_iff]

/-- What `canRevokeSigner` asks for: another live passkey beside a passkey, another durable admin of any status beside a
durable admin. -/
theorem canRevokeSigner_allowed : canRevokeSigner entry entries = .allowed ↔ entry.status ≠ .removed ∧
    (entry.kind = .passkey → ∃ p ∈ livePasskeys entries, p.id ≠ entry.id) ∧
    (entry.isDurableAdmin = true → ∃ a ∈ entries, a.isDurableAdmin = true ∧ a.id ≠ entry.id) := by
  unfold canRevokeSigner
  split_ifs with hremoved hlast hadmin
  · simp [hremoved]
  · obtain ⟨hkind, hall⟩ := isLastPasskey_iff.mp hlast
    refine iff_of_false (by simp) fun ⟨_, hpasskey, _⟩ => ?_
    obtain ⟨p, hp, hne⟩ := hpasskey hkind
    exact hne (hall p hp)
  · obtain ⟨hdurable, hnone⟩ := hadmin
    refine iff_of_false (by simp) fun ⟨_, _, hother⟩ => ?_
    obtain ⟨a, ha, hisAdmin, hne⟩ := hother hdurable
    have hmem : a ∈ entries.filter fun e => e.isDurableAdmin && e.id ≠ entry.id := by simp [ha, hisAdmin, hne]
    exact absurd (List.length_eq_zero_iff.mp hnone) (List.ne_nil_of_mem hmem)
  · refine iff_of_true rfl ⟨hremoved, fun hkind => ?_, fun hdurable => ?_⟩
    · by_contra hnone
      exact hlast (isLastPasskey_iff.mpr ⟨hkind, fun p hp => by_contra fun hne => hnone ⟨p, hp, hne⟩⟩)
    · by_contra hnone
      refine hadmin ⟨hdurable, List.length_eq_zero_iff.mpr (List.filter_eq_nil_iff.mpr fun a ha hboth => hnone ?_)⟩
      simp only [Bool.and_eq_true, decide_eq_true_eq] at hboth
      exact ⟨a, ha, hboth⟩

theorem refusedOnly (entries : List SignerEntry) : RefusedOnly entries := by
  intro e _ _ hrefused
  by_contra hnot
  push Not at hnot
  obtain ⟨hremoved, hkind, hdurable⟩ := hnot
  refine hrefused (canRevokeSigner_allowed.mpr ⟨hremoved, fun h => absurd h hkind, fun h => absurd h ?_⟩)
  simpa using hdurable

/-! ## Distinct ids -/

def DistinctIds (entries : List SignerEntry) : Prop := (entries.map SignerEntry.id).Nodup

theorem DistinctIds.eq (h : DistinctIds entries) {a b : SignerEntry} (ha : a ∈ entries) (hb : b ∈ entries)
    (hid : a.id = b.id) : a = b :=
  List.inj_on_of_nodup_map h ha hb hid

theorem DistinctIds.revoke (h : DistinctIds entries) : DistinctIds (revoke entries entry) :=
  h.sublist (List.filter_sublist.map _)

/-- What is another entry stays. -/
theorem DistinctIds.mem_revoke_of_ne (h : DistinctIds entries) (hentry : entry ∈ entries) (he : e ∈ entries)
    (hne : e ≠ entry) : e ∈ SignerModel.revoke entries entry :=
  mem_revoke.mpr ⟨he, fun hid => hne (h.eq he hentry hid)⟩

/-- **Step**: an allowed removal leaves a live passkey. -/
theorem passkey_revoke (h : DistinctIds entries) (hallowed : Allowed entries entry)
    (hpasskey : ∃ p, p ∈ livePasskeys entries) : ∃ p, p ∈ livePasskeys (revoke entries entry) := by
  obtain ⟨hentry, hverdict⟩ := hallowed
  by_cases hkind : entry.kind = .passkey
  · obtain ⟨p, hp, hne⟩ := (canRevokeSigner_allowed.mp hverdict).2.1 hkind
    obtain ⟨hmem, hlive⟩ := mem_livePasskeys.mp hp
    exact ⟨p, mem_livePasskeys.mpr ⟨mem_revoke.mpr ⟨hmem, hne⟩, hlive⟩⟩
  · obtain ⟨p, hp⟩ := hpasskey
    obtain ⟨hmem, hpkind, hlive⟩ := mem_livePasskeys.mp hp
    have hne : p ≠ entry := fun he => hkind (he ▸ hpkind)
    exact ⟨p, mem_livePasskeys.mpr ⟨h.mem_revoke_of_ne hentry hmem hne, hpkind, hlive⟩⟩

/-- **Step**: where all durable admins are live, an allowed removal leaves one. -/
theorem admin_revoke (h : DistinctIds entries) (hallowed : Allowed entries entry)
    (hlive : ∀ a ∈ entries, a.isDurableAdmin = true → a.status = .live)
    (hadmin : ∃ a, a ∈ liveDurableAdmins entries) : ∃ a, a ∈ liveDurableAdmins (revoke entries entry) := by
  obtain ⟨hentry, hverdict⟩ := hallowed
  by_cases hdurable : entry.isDurableAdmin = true
  · obtain ⟨a, ha, hisAdmin, hne⟩ := (canRevokeSigner_allowed.mp hverdict).2.2 hdurable
    exact ⟨a, mem_liveDurableAdmins.mpr ⟨mem_revoke.mpr ⟨ha, hne⟩, hisAdmin, hlive a ha hisAdmin⟩⟩
  · obtain ⟨a, ha⟩ := hadmin
    obtain ⟨hmem, hisAdmin, hstatus⟩ := mem_liveDurableAdmins.mp ha
    have hne : a ≠ entry := fun he => hdurable (he ▸ hisAdmin)
    exact ⟨a, mem_liveDurableAdmins.mpr ⟨h.mem_revoke_of_ne hentry hmem hne, hisAdmin, hstatus⟩⟩

end Removal

/-! ## Sequences of removals -/

section Runs

variable {entries : List SignerEntry}

/-- Every durable admin is live, or every live passkey is a durable admin. -/
def Shielded (entries : List SignerEntry) : Prop :=
  (∀ a ∈ entries, a.isDurableAdmin = true → a.status = .live) ∨ ∀ p ∈ livePasskeys entries, p.isDurableAdmin = true

/-- What the removals keep. -/
structure Kept (entries : List SignerEntry) : Prop where
  distinct : DistinctIds entries
  shielded : Shielded entries
  recoverable : Recoverable entries

theorem Shielded.revoke {entry : SignerEntry} (h : Shielded entries) : Shielded (revoke entries entry) := by
  rcases h with hlive | hdurable
  · exact .inl fun a ha => hlive a (mem_revoke.mp ha).1
  · refine .inr fun p hp => ?_
    obtain ⟨hmem, hkind, hlive⟩ := mem_livePasskeys.mp hp
    exact hdurable p (mem_livePasskeys.mpr ⟨(mem_revoke.mp hmem).1, hkind, hlive⟩)

theorem kept_revoke {entry : SignerEntry} (h : Kept entries) (hallowed : Allowed entries entry) :
    Kept (revoke entries entry) := by
  obtain ⟨hpasskey, hadmin⟩ := recoverable_iff.mp h.recoverable
  obtain ⟨p, hp⟩ := passkey_revoke h.distinct hallowed hpasskey
  have hshielded : Shielded (revoke entries entry) := h.shielded.revoke
  refine ⟨h.distinct.revoke, hshielded, recoverable_iff.mpr ⟨⟨p, hp⟩, ?_⟩⟩
  rcases h.shielded with hlive | hdurable
  · exact admin_revoke h.distinct hallowed hlive hadmin
  · obtain ⟨hmem, hkind, hstatus⟩ := mem_livePasskeys.mp hp
    have hp' : p ∈ livePasskeys entries := mem_livePasskeys.mpr ⟨(mem_revoke.mp hmem).1, hkind, hstatus⟩
    exact ⟨p, mem_liveDurableAdmins.mpr ⟨hmem, hdurable p hp', hstatus⟩⟩

theorem mem_run_revoke {removals : List SignerEntry} {e : SignerEntry} :
    e ∈ run revoke entries removals ↔ e ∈ entries ∧ ∀ a ∈ removals, e.id ≠ a.id := by
  induction removals generalizing entries with
  | nil => simp
  | cons a removals ih => rw [run_cons, ih, mem_revoke]; simp [and_assoc]

/-- Beside a durable admin that is not live and a live passkey that is no durable admin, every live durable admin may be
revoked, one after another. -/
theorem along_liveDurableAdmins {x p : SignerEntry} {removals : List SignerEntry} (hids : DistinctIds entries)
    (hx : x ∈ entries) (hxAdmin : x.isDurableAdmin = true) (hxLive : x.status ≠ .live)
    (hp : p ∈ livePasskeys entries) (hpAdmin : p.isDurableAdmin ≠ true) (hdistinct : removals.Nodup)
    (hall : ∀ a ∈ removals, a ∈ liveDurableAdmins entries) : Along revoke Allowed entries removals := by
  induction removals generalizing entries with
  | nil => trivial
  | cons a removals ih =>
    obtain ⟨ha, haAdmin, haLive⟩ := mem_liveDurableAdmins.mp (hall a List.mem_cons_self)
    obtain ⟨hpmem, hpkind, hplive⟩ := mem_livePasskeys.mp hp
    have hxa : x ≠ a := fun he => hxLive (he ▸ haLive)
    have hpa : p ≠ a := fun he => hpAdmin (he ▸ haAdmin)
    have hx' : x ∈ revoke entries a := hids.mem_revoke_of_ne ha hx hxa
    have hp' : p ∈ revoke entries a := hids.mem_revoke_of_ne ha hpmem hpa
    have hallowed : canRevokeSigner a entries = .allowed := by
      refine canRevokeSigner_allowed.mpr ⟨by simp [haLive], fun _ => ?_, fun _ => ?_⟩
      · exact ⟨p, hp, (mem_revoke.mp hp').2⟩
      · exact ⟨x, hx, hxAdmin, (mem_revoke.mp hx').2⟩
    refine ⟨⟨ha, hallowed⟩, ?_⟩
    refine ih hids.revoke hx' (mem_livePasskeys.mpr ⟨hp', hpkind, hplive⟩) hdistinct.of_cons fun b hb => ?_
    obtain ⟨hbmem, hb'⟩ := mem_liveDurableAdmins.mp (hall b (List.mem_cons_of_mem a hb))
    have hba : b ≠ a := fun he => (List.nodup_cons.mp hdistinct).1 (he ▸ hb)
    exact mem_liveDurableAdmins.mpr ⟨hids.mem_revoke_of_ne ha hbmem hba, hb'⟩

/-- After them no live durable admin is left. -/
theorem liveDurableAdmins_run : liveDurableAdmins (run revoke entries (liveDurableAdmins entries)) = [] := by
  refine List.eq_nil_iff_forall_not_mem.mpr fun e he => ?_
  obtain ⟨hmem, hboth⟩ := mem_liveDurableAdmins.mp he
  obtain ⟨hin, hne⟩ := mem_run_revoke.mp hmem
  exact hne e (mem_liveDurableAdmins.mpr ⟨hin, hboth⟩) rfl

/-- **Revocations**: of a list with distinct ids, a live passkey and a live durable admin, the removals that
`canRevokeSigner` allows on the list of the moment keep a live passkey and a live durable admin, whatever their number and
order, exactly if every durable admin of the list is live or every live passkey of it is a durable admin; an entry that
could go is refused only for what it is. -/
theorem revocations_iff (entries : List SignerEntry) (hids : DistinctIds entries) (h : Recoverable entries) :
    (∀ removals, Along revoke Allowed entries removals →
      Recoverable (run revoke entries removals) ∧ RefusedOnly (run revoke entries removals)) ↔ Shielded entries := by
  constructor
  · intro hall
    by_contra hnot
    simp only [Shielded, not_or, not_forall] at hnot
    obtain ⟨⟨x, hx, hxAdmin, hxLive⟩, p, hp, hpAdmin⟩ := hnot
    have hdistinct : (liveDurableAdmins entries).Nodup := (List.Nodup.of_map _ hids).filter _
    have halong := along_liveDurableAdmins hids hx hxAdmin hxLive hp hpAdmin hdistinct fun _ ha => ha
    exact (hall _ halong).1.admin liveDurableAdmins_run
  · intro hshielded removals halong
    have hkept : Kept (run revoke entries removals) :=
      inv_run (fun _ _ hk ha => kept_revoke hk ha) (Kept.mk hids hshielded h) halong
    exact ⟨hkept.recoverable, refusedOnly _⟩

/-- Two passkeys without limits. -/
def twoPasskeys : List RawSigner :=
  [⟨⟨.secp256r1, "cred-1"⟩, none, none, .persistent, .live⟩, ⟨⟨.secp256r1, "cred-2"⟩, none, none, .persistent, .live⟩]

theorem revocations_iff_twoPasskeys : ∃ entries,
    classifySigners (fun _ => none) twoPasskeys ⟨none, "CWALLET"⟩ = some entries ∧ ∀ removals, Along revoke Allowed entries removals →
      Recoverable (run revoke entries removals) ∧ RefusedOnly (run revoke entries removals) := by
  refine ⟨_, rfl, (revocations_iff _ (by unfold DistinctIds; decide) ⟨by decide, by decide⟩).mpr (.inl ?_)⟩
  decide

/-- A passkey with an expiration, a key with full authority, and an evicted passkey without limits. -/
def evictedAdmin : List RawSigner :=
  [⟨⟨.secp256r1, "cred-1"⟩, some 4102444800, none, .persistent, .live⟩,
    ⟨⟨.ed25519, "GFULL"⟩, none, none, .persistent, .live⟩,
    ⟨⟨.secp256r1, "cred-2"⟩, none, none, .persistent, .evicted⟩]

/-- The evicted passkey stands for another durable admin: the only live one may be revoked. -/
theorem last_live_admin_revoked : ∃ entries entry,
    classifySigners (fun _ => some "2100-01-01T00:00:00.000Z") evictedAdmin ⟨none, "CWALLET"⟩ = some entries ∧
      DistinctIds entries ∧ Recoverable entries ∧ Along revoke Allowed entries [entry] ∧
      ¬ Recoverable (run revoke entries [entry]) := by
  refine ⟨_, ⟨"Ed25519:GFULL", .agent, ⟨.ed25519, "GFULL"⟩, .live, .persistent, none, none, false, true⟩, rfl, ?_, ?_, ?_,
    ?_⟩
  · unfold DistinctIds; decide
  · exact ⟨by decide, by decide⟩
  · refine ⟨⟨by decide, by decide⟩, trivial⟩
  · exact fun h => h.admin (by decide)

end Runs

end Vellar.Web.SignerModel
