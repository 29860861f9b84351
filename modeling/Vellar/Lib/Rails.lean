import Mathlib

/-!
# Vellar.Lib.Rails — two readers under one cursor

A rail serves the rows of a page at each position, goes on from it, and says at some positions that it is done.  After
its last page it is back at its start, so a reader that goes on is served the same rows again.  Two rails that are
followed side by side end at the first page at which both are done: `copies_of_done` is how often each has been served
by then, and `once_iff` when that is once.  `Reads` follows the cursors of a paging function; `reads_perm` is its rule
when the function moves two rails.
-/

set_option autoImplicit false

namespace Vellar.Rails

universe u v

structure Rail (P : Type u) (R : Type v) where
  start : P
  rows : P → List R
  next : P → P
  done : P → Bool

section OneRail

variable {P : Type u} {R : Type v} (r : Rail P R)

namespace Rail

/-- The position of page `k`. -/
def pos (k : ℕ) : P := r.next^[k] r.start

/-- The rows of the first `n` pages. -/
def served (n : ℕ) : List R := (List.range n).flatMap fun k => r.rows (r.pos k)

/-- The number of pages until the rail is back at its start. -/
noncomputable def period : ℕ := Function.minimalPeriod r.next r.start

/-- The rows of one round. -/
noncomputable def cycle : List R := r.served r.period

/-- The rail comes back to its start, and a page at which it is done is its last but for an empty one. -/
structure Lawful : Prop where
  returns : ∃ k, r.pos (k + 1) = r.start
  done : ∀ k, r.pos (k + 1) = r.start → r.done (r.pos k) = true
  last : ∀ k, r.done (r.pos k) = true →
    r.pos (k + 1) = r.start ∨ r.rows (r.pos (k + 1)) = [] ∧ r.pos (k + 2) = r.start

variable {r}

theorem pos_succ (k : ℕ) : r.pos (k + 1) = r.next (r.pos k) := Function.iterate_succ_apply' _ _ _

theorem pos_eq_start_iff {n : ℕ} : r.pos n = r.start ↔ r.period ∣ n := Function.isPeriodicPt_iff_minimalPeriod_dvd

theorem pos_mod (n : ℕ) : r.pos (n % r.period) = r.pos n := Function.iterate_mod_minimalPeriod_eq

theorem pos_add (c k : ℕ) : r.pos (c * r.period + k) = r.pos k := by
  rw [← pos_mod, Nat.mul_comm, Nat.mul_add_mod, pos_mod]

theorem Lawful.period_pos (h : r.Lawful) : 0 < r.period := by
  obtain ⟨k, hk⟩ := h.returns
  exact Nat.pos_of_dvd_of_pos (pos_eq_start_iff.mp hk) (Nat.succ_pos k)

theorem served_succ (n : ℕ) : r.served (n + 1) = r.served n ++ r.rows (r.pos n) := by
  rw [served, List.range_succ, List.flatMap_append, List.flatMap_singleton, served]

theorem served_add (c n : ℕ) : r.served (c * r.period + n) = r.served (c * r.period) ++ r.served n := by
  induction n with
  | zero => exact (List.append_nil _).symm
  | succ n ih => rw [← Nat.add_assoc, served_succ, served_succ, ih, pos_add, List.append_assoc]

theorem served_mul (c : ℕ) : r.served (c * r.period) = (List.replicate c r.cycle).flatten := by
  induction c with
  | zero => rw [Nat.zero_mul]; rfl
  | succ c ih => rw [Nat.succ_mul, served_add, ih, List.replicate_succ', List.flatten_append, List.flatten_singleton, cycle]

/-- By a page at which the rail is done a round is complete. -/
theorem Lawful.served_of_lt (h : r.Lawful) {k : ℕ} (hk : k < r.period) (hdone : r.done (r.pos k) = true) :
    r.served (k + 1) = r.cycle := by
  rcases h.last k hdone with hstart | ⟨hempty, hstart⟩
  · have hle := Nat.le_of_dvd (Nat.succ_pos k) (pos_eq_start_iff.mp hstart)
    rw [cycle, show r.period = k + 1 by omega]
  · obtain ⟨m, hm⟩ := pos_eq_start_iff.mp hstart
    by_cases hone : r.period = k + 1
    · rw [cycle, hone]
    · -- the empty page is the last of the round
      have hperiod : r.period = k + 2 := by
        have hle := Nat.le_of_dvd (by omega) (pos_eq_start_iff.mp hstart)
        omega
      rw [cycle, hperiod, served_succ (k + 1), hempty, List.append_nil]

/-- What has been served by a page at which the rail is done. -/
theorem Lawful.copies_of_done (h : r.Lawful) {n : ℕ} (hdone : r.done (r.pos n) = true) :
    r.served (n + 1) = (List.replicate (n / r.period + 1) r.cycle).flatten := by
  have hlt : n % r.period < r.period := Nat.mod_lt n h.period_pos
  rw [← pos_mod] at hdone
  have hsplit : n + 1 = n / r.period * r.period + (n % r.period + 1) := by
    rw [← Nat.add_assoc, Nat.div_add_mod']
  rw [hsplit, served_add, served_mul, h.served_of_lt hlt hdone, List.replicate_succ', List.flatten_append,
    List.flatten_singleton]

/-- A page before the start is one at which the rail is done. -/
theorem Lawful.done_of_dvd (h : r.Lawful) {n : ℕ} (hn : r.period ∣ n + 1) : r.done (r.pos n) = true :=
  h.done n (pos_eq_start_iff.mpr hn)

end Rail

/-- Copies of a list are a list without repetitions only when it is empty or there is one. -/
theorem copies_perm_iff {c : ℕ} {l xs : List R} (hc : 0 < c) (hxs : xs.Nodup) :
    (List.replicate c l).flatten.Perm xs ↔ l.Perm xs ∧ (l = [] ∨ c = 1) := by
  obtain ⟨c, rfl⟩ := Nat.exists_eq_succ_of_ne_zero hc.ne'
  rw [List.replicate_succ, List.flatten_cons]
  constructor
  · intro h
    have hdisjoint := (List.nodup_append.mp (h.nodup_iff.mpr hxs)).2.2
    rcases Nat.eq_zero_or_pos c with rfl | hpos
    · rw [List.replicate_zero, List.flatten_nil, List.append_nil] at h
      exact ⟨h, Or.inr rfl⟩
    · have hempty : l = [] := by
        rw [List.eq_nil_iff_forall_not_mem]
        intro a ha
        have hagain : a ∈ (List.replicate c l).flatten :=
          List.mem_flatten.mpr ⟨l, List.mem_replicate.mpr ⟨hpos.ne', rfl⟩, ha⟩
        exact hdisjoint a ha a hagain rfl
      subst hempty
      rw [List.flatten_replicate_nil, List.append_nil] at h
      exact ⟨h, Or.inl rfl⟩
  · rintro ⟨h, rfl | hone⟩
    · rw [List.flatten_replicate_nil]
      exact h
    · obtain rfl : c = 0 := by omega
      rw [List.replicate_zero, List.flatten_nil, List.append_nil]
      exact h

theorem filter_kinds {p : R → Bool} {l l' : List R} (hl : ∀ a ∈ l, p a = true) (hl' : ∀ a ∈ l', p a = false) :
    (l ++ l').filter p = l ∧ (l ++ l').filter (fun a => !p a) = l' := by
  constructor
  · rw [List.filter_append, List.filter_eq_self.mpr hl, List.filter_eq_nil_iff.mpr fun a ha => by simp [hl' a ha],
      List.append_nil]
  · rw [List.filter_append, List.filter_eq_nil_iff.mpr fun a ha => by simp [hl a ha],
      List.filter_eq_self.mpr fun a ha => by simp [hl' a ha], List.nil_append]

/-- Two kinds of elements are arranged apart. -/
theorem append_perm_iff {p : R → Bool} {l l' xs ys : List R} (hl : ∀ a ∈ l, p a = true) (hxs : ∀ a ∈ xs, p a = true)
    (hl' : ∀ a ∈ l', p a = false) (hys : ∀ a ∈ ys, p a = false) :
    (l ++ l').Perm (xs ++ ys) ↔ l.Perm xs ∧ l'.Perm ys := by
  constructor
  · intro h
    obtain ⟨hkeep, hdrop⟩ := filter_kinds hl hl'
    obtain ⟨hkeep', hdrop'⟩ := filter_kinds hxs hys
    constructor
    · rw [← hkeep, ← hkeep']
      exact h.filter p
    · rw [← hdrop, ← hdrop']
      exact h.filter _
  · rintro ⟨h, h'⟩
    exact h.append h'

end OneRail

/-! ## Side by side -/

section TwoRails

variable {P Q : Type u} {R : Type v} {a : Rail P R} {b : Rail Q R} {n : ℕ}

/-- Page `n` is one at which both rails are done. -/
def BothDone (a : Rail P R) (b : Rail Q R) (n : ℕ) : Prop := a.done (a.pos n) = true ∧ b.done (b.pos n) = true

instance (a : Rail P R) (b : Rail Q R) : DecidablePred (BothDone a b) := fun _ => inferInstanceAs (Decidable (_ ∧ _))

theorem exists_bothDone (ha : a.Lawful) (hb : b.Lawful) : ∃ n, BothDone a b n := by
  have hpos : 0 < a.period * b.period := Nat.mul_pos ha.period_pos hb.period_pos
  refine ⟨a.period * b.period - 1, ha.done_of_dvd ?_, hb.done_of_dvd ?_⟩
  · rw [Nat.sub_add_cancel hpos]
    exact Nat.dvd_mul_right _ _
  · rw [Nat.sub_add_cancel hpos]
    exact Nat.dvd_mul_left _ _

/-- The first page at which both are done. -/
def FirstDone (a : Rail P R) (b : Rail Q R) (n : ℕ) : Prop := BothDone a b n ∧ ∀ k < n, ¬ BothDone a b k

theorem exists_firstDone (ha : a.Lawful) (hb : b.Lawful) : ∃ n, FirstDone a b n :=
  ⟨_, Nat.find_spec (exists_bothDone ha hb), fun _ hk => Nat.find_min (exists_bothDone ha hb) hk⟩

theorem FirstDone.lt_iff (h : FirstDone a b n) (m : ℕ) : n < m ↔ ∃ k < m, BothDone a b k := by
  constructor
  · intro hn
    exact ⟨n, hn, h.1⟩
  · rintro ⟨k, hk, hdone⟩
    by_contra hn
    exact h.2 k (by omega) hdone

/-- Each rail is served once when it makes one round, and when it makes no second round unless it has no rows. -/
theorem once_iff (ha : a.Lawful) (hb : b.Lawful) (h : FirstDone a b n) {xs ys : List R} (hxs : xs.Nodup)
    (hys : ys.Nodup) :
    (a.served (n + 1)).Perm xs ∧ (b.served (n + 1)).Perm ys ↔
      (a.cycle.Perm xs ∧ (a.cycle = [] ∨ ∃ k < a.period, BothDone a b k)) ∧
        (b.cycle.Perm ys ∧ (b.cycle = [] ∨ ∃ k < b.period, BothDone a b k)) := by
  have hround : ∀ p, 0 < p → (n / p + 1 = 1 ↔ n < p) := by
    intro p hp
    rw [Nat.add_eq_right, Nat.div_eq_zero_iff]
    omega
  rw [ha.copies_of_done h.1.1, hb.copies_of_done h.1.2, copies_perm_iff (Nat.succ_pos _) hxs,
    copies_perm_iff (Nat.succ_pos _) hys, hround _ ha.period_pos, hround _ hb.period_pos, h.lt_iff, h.lt_iff]

end TwoRails

/-! ## Cursors -/

section Cursors

variable {T : Type u} {R : Type v}

/-- What is read by following the cursors of `fetch` until there is none; `fetch` may fail. -/
inductive Reads (fetch : Option T → Option (List R × Option T)) : Option T → List R → Prop
  | last {cursor : Option T} {rows : List R} (h : fetch cursor = some (rows, none)) : Reads fetch cursor rows
  | more {cursor : Option T} {rows rest : List R} {next : T} (h : fetch cursor = some (rows, some next))
      (hrest : Reads fetch (some next) rest) : Reads fetch cursor (rows ++ rest)

variable {fetch : Option T → Option (List R × Option T)}

theorem Reads.unique {cursor : Option T} {rows rows' : List R} (h : Reads fetch cursor rows)
    (h' : Reads fetch cursor rows') : rows = rows' := by
  induction h generalizing rows' with
  | last h =>
    rcases h' with h' | ⟨h', -⟩
    · exact (Prod.mk.inj (Option.some.inj (h.symm.trans h'))).1
    · exact absurd (Prod.mk.inj (Option.some.inj (h.symm.trans h'))).2 (by simp)
  | more h hrest ih =>
    rcases h' with h' | ⟨h', hrest'⟩
    · exact absurd (Prod.mk.inj (Option.some.inj (h.symm.trans h'))).2 (by simp)
    · obtain ⟨rfl, hnext⟩ := Prod.mk.inj (Option.some.inj (h.symm.trans h'))
      obtain rfl := Option.some.inj hnext
      rw [ih hrest']

variable {P Q : Type u} {a : Rail P R} {b : Rail Q R} {at? : Option T → P × Q}

/-- `fetch` serves a page of each rail and hands out the cursor of the next pages, until both rails are done. -/
structure Moves (fetch : Option T → Option (List R × Option T)) (a : Rail P R) (b : Rail Q R)
    (at? : Option T → P × Q) : Prop where
  start : at? none = (a.start, b.start)
  page : ∀ cursor n, at? cursor = (a.pos n, b.pos n) → ∃ rows next, fetch cursor = some (rows, next) ∧
    rows.Perm (a.rows (a.pos n) ++ b.rows (b.pos n)) ∧ (next = none ↔ BothDone a b n) ∧
    ∀ c ∈ next, at? (some c) = (a.pos (n + 1), b.pos (n + 1))

theorem served_append_page {m : ℕ} {rows : List R} (h : rows.Perm (a.rows (a.pos m) ++ b.rows (b.pos m))) :
    (a.served m ++ b.served m ++ rows).Perm (a.served (m + 1) ++ b.served (m + 1)) := by
  rw [Rail.served_succ, Rail.served_succ]
  refine (h.append_left _).trans ?_
  rw [List.append_assoc, List.append_assoc]
  exact List.Perm.append_left _ (List.perm_append_comm_assoc _ _ _)

/-- From page `m` on, what is left to read. -/
theorem Moves.reads_from (h : Moves fetch a b at?) {n : ℕ} (hn : FirstDone a b n) (d : ℕ) {m : ℕ} (hm : m + d = n)
    {cursor : Option T} (hcursor : at? cursor = (a.pos m, b.pos m)) :
    ∃ rows, Reads fetch cursor rows ∧
      (a.served m ++ b.served m ++ rows).Perm (a.served (n + 1) ++ b.served (n + 1)) := by
  induction d generalizing m cursor with
  | zero =>
    obtain ⟨rows, next, hfetch, hrows, hnext, -⟩ := h.page cursor m hcursor
    obtain rfl : m = n := hm
    rw [hnext.mpr hn.1] at hfetch
    exact ⟨rows, .last hfetch, served_append_page hrows⟩
  | succ d ih =>
    obtain ⟨rows, next, hfetch, hrows, hnext, hat⟩ := h.page cursor m hcursor
    rcases next with _ | c
    · exact absurd (hnext.mp rfl) (hn.2 m (by omega))
    · obtain ⟨rest, hrest, hperm⟩ := ih (by omega) (hat c rfl)
      refine ⟨rows ++ rest, .more hfetch hrest, ?_⟩
      rw [← List.append_assoc]
      exact ((served_append_page hrows).append_right rest).trans hperm

/-- What is read is what the two rails have served by the first page at which both are done. -/
theorem Moves.reads_perm (h : Moves fetch a b at?) {n : ℕ} (hn : FirstDone a b n) :
    ∃ rows, Reads fetch none rows ∧ rows.Perm (a.served (n + 1) ++ b.served (n + 1)) := by
  obtain ⟨rows, hreads, hperm⟩ := h.reads_from hn n (Nat.zero_add n) h.start
  exact ⟨rows, hreads, hperm⟩

end Cursors

end Vellar.Rails
