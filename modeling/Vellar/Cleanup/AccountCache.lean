import Vellar.Cleanup.Planner
import Vellar.Lib.Machine

/-!
# Vellar.Cleanup.AccountCache — the cached account reader

`services/lifecycle-service/src/account-cache.ts`.  A run is a list of calls and of the moments when underlying reads settle, in
any order; reads are numbered as they start.  An entry is stored whenever its read settles, also after an invalidation:
`fresh_of_orderly` says that without such late reads no invalidation is undone.
-/

set_option autoImplicit false

namespace Vellar.Cleanup.AccountCache

open Machine

structure CacheEntry where
  value : Option HorizonAccount
  expiresAt : ℤ
  /-- The read that got the value; the code does not keep it. -/
  read : ℕ

structure CachedAccountReader where
  store : String → Option CacheEntry
  /-- The accounts of the underlying reads. -/
  started : List String
  inFlight : List ℕ
  /-- How many reads had started when an account was last invalidated. -/
  invalidatedAt : String → ℕ

inductive Event where
  | getAccount (accountId : String) (now : ℤ)
  /-- A read in flight ends, with a value or an error. -/
  | settle (read : ℕ) (result : Except String (Option HorizonAccount)) (now : ℤ)
  | invalidate (accountId : String)
  | invalidateAll

def Event.Invalidates (accountId : String) : Event → Prop
  | .invalidate a => a = accountId
  | .invalidateAll => True
  | _ => False

def DEFAULT_TTL_MS : ℤ := 30000

def createCachedAccountReader : CachedAccountReader := ⟨fun _ => none, [], [], fun _ => 0⟩

namespace CachedAccountReader

/-- The entry that a call is served from. -/
def cached (s : CachedAccountReader) (accountId : String) (now : ℤ) : Option CacheEntry :=
  (s.store accountId).filter fun entry => now < entry.expiresAt

def getAccount (s : CachedAccountReader) (accountId : String) (now : ℤ) : CachedAccountReader :=
  match s.cached accountId now with
  | some _ => s
  | none => { s with started := s.started ++ [accountId], inFlight := s.inFlight ++ [s.started.length] }

/-- The read whose value a call returns, the call's own unless it is served from the store. -/
def source (s : CachedAccountReader) (accountId : String) (now : ℤ) : ℕ :=
  ((s.cached accountId now).map CacheEntry.read).getD s.started.length

def settle (ttlMs : Option ℤ) (s : CachedAccountReader) (read : ℕ) (result : Except String (Option HorizonAccount)) (now : ℤ) :
    CachedAccountReader :=
  if read ∈ s.inFlight then
    let s := { s with inFlight := s.inFlight.erase read }
    match s.started[read]?, result with
    | some accountId, .ok value =>
      { s with store := Function.update s.store accountId (some ⟨value, now + ttlMs.getD DEFAULT_TTL_MS, read⟩) }
    | _, _ => s
  else s

def invalidate (s : CachedAccountReader) (accountId : String) : CachedAccountReader :=
  { s with
    store := Function.update s.store accountId none
    invalidatedAt := Function.update s.invalidatedAt accountId s.started.length }

def invalidateAll (s : CachedAccountReader) : CachedAccountReader :=
  { s with store := fun _ => none, invalidatedAt := fun _ => s.started.length }

def step (ttlMs : Option ℤ) (s : CachedAccountReader) : Event → CachedAccountReader
  | .getAccount accountId now => s.getAccount accountId now
  | .settle read result now => s.settle ttlMs read result now
  | .invalidate accountId => s.invalidate accountId
  | .invalidateAll => s.invalidateAll

end CachedAccountReader

/-! ## The law -/

section Law

variable (ttlMs : Option ℤ)

/-- The state after the events. -/
abbrev after (l : List Event) : CachedAccountReader := run (CachedAccountReader.step ttlMs) createCachedAccountReader l

/-- What a caller of `invalidate` counts on. -/
structure Fresh (l : List Event) : Prop where
  /-- A call after an invalidation is not served by a read from before it. -/
  notUndone : ∀ pre e mid accountId now post, l = pre ++ e :: mid ++ .getAccount accountId now :: post → e.Invalidates accountId →
    (after ttlMs pre).started.length ≤ (after ttlMs (pre ++ e :: mid)).source accountId now
  /-- A value gives way to those of later reads only. -/
  notReplaced : ∀ pre read value now post accountId, l = pre ++ .settle read (.ok value) now :: post →
    read ∈ (after ttlMs pre).inFlight → (after ttlMs pre).started[read]? = some accountId →
    ∀ entry, (after ttlMs pre).store accountId = some entry → entry.read < read

/-- No value arrives of a read that an invalidation of its account or a value of a later read has overtaken. -/
def InTime (s : CachedAccountReader) : Event → Prop
  | .settle read (.ok _) _ => ∀ accountId, s.started[read]? = some accountId → read ∈ s.inFlight →
      s.invalidatedAt accountId ≤ read ∧ ∀ entry, s.store accountId = some entry → entry.read < read
  | _ => True

end Law

/-! ## Every step keeps the entries fresh -/

variable {ttlMs : Option ℤ} {s : CachedAccountReader} {accountId : String}

structure Inv (s : CachedAccountReader) : Prop where
  inFlight : ∀ read ∈ s.inFlight, read < s.started.length
  invalidatedAt : ∀ a, s.invalidatedAt a ≤ s.started.length
  entries : ∀ a entry, s.store a = some entry → s.invalidatedAt a ≤ entry.read ∧ entry.read < s.started.length

theorem inv_create : Inv createCachedAccountReader :=
  ⟨fun _ h => absurd h List.not_mem_nil, fun _ => le_rfl, fun _ _ h => nomatch h⟩

theorem cached_eq_some {now : ℤ} {entry : CacheEntry} (h : s.cached accountId now = some entry) : s.store accountId = some entry :=
  (Option.filter_eq_some_iff.mp h).1

theorem inv_getAccount (h : Inv s) (now : ℤ) : Inv (s.getAccount accountId now) := by
  unfold CachedAccountReader.getAccount
  split
  · exact h
  · refine ⟨fun read hread => ?_, fun a => ?_, fun a entry hentry => ?_⟩
    · rw [List.length_append, List.length_singleton]
      rcases List.mem_append.mp hread with hread | hread
      · have := h.inFlight read hread
        omega
      · rw [List.mem_singleton.mp hread]
        exact Nat.lt_succ_self _
    · have := h.invalidatedAt a
      rw [List.length_append]
      exact Nat.le_add_right_of_le this
    · obtain ⟨hfresh, hlt⟩ := h.entries a entry hentry
      rw [List.length_append]
      exact ⟨hfresh, Nat.lt_add_right _ hlt⟩

theorem inv_settle {read : ℕ} {result : Except String (Option HorizonAccount)} {now : ℤ} (h : Inv s)
    (htime : InTime s (.settle read result now)) : Inv (s.settle ttlMs read result now) := by
  unfold CachedAccountReader.settle
  split
  · rename_i hflight
    have herase : ∀ r ∈ s.inFlight.erase read, r < s.started.length := fun r hr => h.inFlight r (List.mem_of_mem_erase hr)
    dsimp only
    split
    · rename_i a value hstarted
      refine ⟨herase, h.invalidatedAt, fun b entry hentry => ?_⟩
      simp only [Function.update_apply] at hentry
      split_ifs at hentry with hb
      · subst hb
        obtain rfl := Option.some.inj hentry
        exact ⟨(htime b hstarted hflight).1, h.inFlight read hflight⟩
      · exact h.entries b entry hentry
    · exact ⟨herase, h.invalidatedAt, h.entries⟩
  · exact h

theorem inv_invalidate (h : Inv s) : Inv (s.invalidate accountId) := by
  unfold CachedAccountReader.invalidate
  refine ⟨h.inFlight, fun a => ?_, fun a entry hentry => ?_⟩
  · simp only [Function.update_apply]
    split_ifs
    · exact le_rfl
    · exact h.invalidatedAt a
  · simp only [Function.update_apply] at hentry ⊢
    split_ifs at hentry with ha
    rw [if_neg ha]
    exact h.entries a entry hentry

theorem inv_step {e : Event} (h : Inv s) (htime : InTime s e) : Inv (s.step ttlMs e) := by
  cases e with
  | getAccount accountId now => exact inv_getAccount h now
  | settle read result now => exact inv_settle h htime
  | invalidate accountId => exact inv_invalidate h
  | invalidateAll => exact ⟨h.inFlight, fun _ => le_rfl, fun _ _ hentry => nomatch hentry⟩

/-- A call is served by a read since the last invalidation. -/
theorem source_ge (h : Inv s) (now : ℤ) : s.invalidatedAt accountId ≤ s.source accountId now := by
  unfold CachedAccountReader.source
  cases hcached : s.cached accountId now with
  | none => exact h.invalidatedAt accountId
  | some entry => exact (h.entries accountId entry (cached_eq_some hcached)).1

/-! ## Invalidations are not forgotten -/

theorem invalidatedAt_step {e : Event} (h : Inv s) : s.invalidatedAt accountId ≤ (s.step ttlMs e).invalidatedAt accountId := by
  have hle := h.invalidatedAt accountId
  cases e with
  | getAccount a now =>
    show _ ≤ (s.getAccount a now).invalidatedAt accountId
    unfold CachedAccountReader.getAccount
    split <;> exact le_rfl
  | settle read result now =>
    show _ ≤ (s.settle ttlMs read result now).invalidatedAt accountId
    unfold CachedAccountReader.settle
    split
    · dsimp only
      split <;> exact le_rfl
    · exact le_rfl
  | invalidate a =>
    show _ ≤ Function.update s.invalidatedAt a s.started.length accountId
    by_cases ha : accountId = a
    · rw [ha, Function.update_self]
      exact ha ▸ hle
    · rw [Function.update_of_ne ha]
  | invalidateAll => exact hle

theorem invalidatedAt_of_invalidates {e : Event} (he : e.Invalidates accountId) :
    (s.step ttlMs e).invalidatedAt accountId = s.started.length := by
  cases e with
  | getAccount => exact he.elim
  | settle => exact he.elim
  | invalidate a =>
    obtain rfl : a = accountId := he
    exact Function.update_self ..
  | invalidateAll => rfl

/-- What an invalidation noted is a lower bound for good. -/
theorem invalidatedAt_run {l : List Event} {n : ℕ} (h : Inv s) (hn : n ≤ s.invalidatedAt accountId)
    (hl : Along (CachedAccountReader.step ttlMs) InTime s l) : n ≤ (run (CachedAccountReader.step ttlMs) s l).invalidatedAt accountId :=
  (inv_run (P := fun s => Inv s ∧ n ≤ s.invalidatedAt accountId)
    (fun _ _ hs htime => ⟨inv_step hs.1 htime, hs.2.trans (invalidatedAt_step hs.1)⟩) ⟨h, hn⟩ hl).2

/-- **No invalidation is undone** while no read is late. -/
theorem fresh_of_orderly (ttlMs : Option ℤ) {l : List Event}
    (h : Along (CachedAccountReader.step ttlMs) InTime createCachedAccountReader l) : Fresh ttlMs l := by
  have hinv : ∀ {pre rest}, l = pre ++ rest → Inv (after ttlMs pre) := fun hl =>
    inv_prefix (fun s e => inv_step) inv_create h _ ⟨_, hl.symm⟩
  refine ⟨fun pre e mid a now post hl he => ?_, fun pre read value now post a hl hflight hstarted entry hentry => ?_⟩
  · have hmid : l = pre ++ (e :: (mid ++ .getAccount a now :: post)) := by
      rw [hl, List.append_assoc, List.cons_append]
    obtain ⟨-, htime, hrest⟩ := along_append.mp (hmid ▸ h)
    have hlast : (after ttlMs pre).started.length ≤ (after ttlMs (pre ++ e :: mid)).invalidatedAt a := by
      have hnoted : ((after ttlMs pre).step ttlMs e).invalidatedAt a = _ := invalidatedAt_of_invalidates he
      have hkept := invalidatedAt_run (inv_step (hinv hmid) htime) hnoted.ge (along_append.mp hrest).1
      rwa [← run_cons, ← run_append] at hkept
    exact hlast.trans (source_ge (hinv hl) now)
  · obtain ⟨-, htime, -⟩ := along_append.mp (hl ▸ h)
    exact (htime a hstarted hflight).2 entry hentry

theorem fresh_merge : Fresh none [.getAccount "G" 0, .settle 0 (.ok none) 1, .invalidate "G", .getAccount "G" 2] :=
  fresh_of_orderly none ⟨trivial, fun _ _ _ => ⟨Nat.zero_le _, fun _ h => nomatch h⟩, trivial, trivial, trivial⟩

/-- A read from before the merge lands after the invalidation and serves the next call. -/
theorem late_read_served :
    ¬ Fresh none [.getAccount "G" 0, .invalidate "G", .settle 0 (.ok none) 1, .getAccount "G" 2] := by
  intro h
  have hserved := h.notUndone [.getAccount "G" 0] (.invalidate "G") [.settle 0 (.ok none) 1] "G" 2 [] rfl rfl
  exact absurd hserved (by decide)

end Vellar.Cleanup.AccountCache
