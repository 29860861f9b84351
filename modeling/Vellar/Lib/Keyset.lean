import Mathlib

/-!
# Vellar.Lib.Keyset — pages of a list by the key of the last row

Rows with the greatest key first, read page by page: a page is what follows the cursor, cut off at the limit, and its cursor is
the key of its last row when there is more.  `pages_eq`: the pages of a list without equal keys are its consecutive pieces;
`pages_agree_iff`: two lists have the same pages exactly when they are the same.  A `Walk` follows the cursors while rows are
added: `Walked.fetch` is what every page keeps.
-/

set_option autoImplicit false

namespace Vellar.Keyset

variable {ρ ρ' κ κ' α : Type*} (key : ρ → κ) (key' : ρ' → κ')

/-! ## Pieces -/

/-- The first rows of a list, with the cursor of the next page when there are more. -/
def piece (limit : ℕ) (rest : List ρ) : List ρ × Option κ :=
  (rest.take limit, if limit < rest.length then (rest.take limit).getLast?.map key else none)

variable {key key'} {l : List ρ} {l' : List ρ'} {limit : ℕ}

/-- The cursor of a piece, when there is one. -/
theorem piece_cursor {rest : List ρ} {k : κ} (h : (piece key limit rest).2 = some k) :
    (0 < limit ∧ limit < rest.length) ∧ ∃ a, (rest.take limit).getLast? = some a ∧ key a = k := by
  unfold piece at h
  dsimp only at h
  by_cases hmore : limit < rest.length
  · rw [if_pos hmore] at h
    obtain ⟨a, ha, hk⟩ := Option.map_eq_some_iff.mp h
    refine ⟨⟨?_, hmore⟩, a, ha, hk⟩
    by_contra hzero
    obtain rfl : limit = 0 := by omega
    simp at ha
  · rw [if_neg hmore] at h
    cases h

variable (key) in
theorem piece_cursor_isSome {rest : List ρ} (hpos : 0 < limit) (hmore : limit < rest.length) :
    ∃ a, (rest.take limit).getLast? = some a ∧ (piece key limit rest).2 = some (key a) := by
  have hne : rest.take limit ≠ [] := by
    rw [ne_eq, List.take_eq_nil_iff]
    rintro (h | rfl)
    · omega
    · simp at hmore
  refine ⟨(rest.take limit).getLast hne, List.getLast?_eq_getLast_of_ne_nil hne, ?_⟩
  unfold piece
  rw [if_pos hmore, List.getLast?_eq_getLast_of_ne_nil hne, Option.map_some]

variable (key) in
/-- A row more than the limit is fetched to see whether there is one. -/
theorem piece_fetched (limit : ℕ) (rest : List ρ) :
    (limit < (rest.take (limit + 1)).length ↔ limit < rest.length) ∧
      (if limit < (rest.take (limit + 1)).length then (rest.take (limit + 1)).take limit else rest.take (limit + 1)) =
        (piece key limit rest).1 := by
  have hiff : limit < (rest.take (limit + 1)).length ↔ limit < rest.length := by
    rw [List.length_take]
    omega
  refine ⟨hiff, ?_⟩
  by_cases hmore : limit < rest.length
  · rw [if_pos (hiff.mpr hmore), List.take_take, Nat.min_eq_left (Nat.le_succ limit)]
    rfl
  · rw [if_neg (mt hiff.mp hmore), List.take_of_length_le (by omega)]
    exact (List.take_of_length_le (by omega)).symm

/-! ## Sorting and paging -/

section Paging

variable [LinearOrder κ] [LinearOrder κ']

section Definitions

variable (key)

/-- Greatest key first. -/
def descending (l : List ρ) : List ρ := l.mergeSort fun a b => decide (key b ≤ key a)

/-- What follows a cursor. -/
def past : Option κ → List ρ → List ρ
  | none, l => l
  | some k, l => l.filter fun a => decide (key a < k)

def page (limit : ℕ) (l : List ρ) (after : Option κ) : List ρ × Option κ := piece key limit (past key after l)

/-- The page that is reached by `n` cursors. -/
def pages (limit : ℕ) (l : List ρ) : ℕ → Option (List ρ × Option κ)
  | 0 => some (page key limit l none)
  | n + 1 => (pages limit l n).bind fun p => p.2.map fun k => page key limit l (some k)

end Definitions

theorem descending_perm (l : List ρ) : (descending key l).Perm l := List.mergeSort_perm _ _

theorem descending_le (l : List ρ) : (descending key l).Pairwise fun a b => key b ≤ key a := by
  have h : (descending key l).Pairwise fun a b => decide (key b ≤ key a) = true := List.pairwise_mergeSort
    (fun a b c hab hbc => by
      rw [decide_eq_true_eq] at hab hbc ⊢
      exact hbc.trans hab)
    (fun a b => by
      rw [Bool.or_eq_true, decide_eq_true_eq, decide_eq_true_eq]
      exact le_total _ _) l
  exact h.imp fun hab => of_decide_eq_true hab

/-- Sorted rows with different keys. -/
theorem descending_lt (hl : (l.map key).Nodup) : (descending key l).Pairwise fun a b => key b < key a := by
  have hkeys : ((descending key l).map key).Nodup := ((descending_perm l).map key).nodup_iff.mpr hl
  rw [List.Nodup, List.pairwise_map] at hkeys
  exact (descending_le l).imp₂ (fun a b hle hne => lt_of_le_of_ne hle (Ne.symm hne)) hkeys

/-- Sorting what is kept, or keeping of what is sorted. -/
theorem descending_filter (hl : (l.map key).Nodup) (p : ρ → Bool) : descending key (l.filter p) = (descending key l).filter p := by
  have hkept : ((l.filter p).map key).Nodup := hl.sublist (List.filter_sublist.map _)
  refine List.Perm.eq_of_pairwise (fun a b _ _ hab hba => absurd (hab.trans hba) (lt_irrefl _)) (descending_lt hkept)
    ((descending_lt hl).sublist List.filter_sublist) ?_
  exact (descending_perm _).trans ((descending_perm l).symm.filter p)

/-- Rows in ascending order are turned round. -/
theorem descending_of_lt (hl : l.Pairwise fun a b => key a < key b) : descending key l = l.reverse := by
  have hrev : l.reverse.Pairwise fun a b => key b < key a := List.pairwise_reverse.mpr hl
  have hnodup : (l.map key).Nodup := List.pairwise_map.mpr (hl.imp fun h => h.ne)
  refine List.Perm.eq_of_pairwise (fun a b _ _ hab hba => absurd (hab.trans hba) (lt_irrefl _)) (descending_lt hnodup) hrev ?_
  exact (descending_perm l).trans (List.reverse_perm l).symm

/-- What follows the last of the first `n` rows. -/
theorem past_getLast (hl : l.Pairwise fun a b => key b < key a) {n : ℕ} {a : ρ} (ha : (l.take n).getLast? = some a) :
    past key (some (key a)) l = l.drop n := by
  have hsplit : l = l.take n ++ l.drop n := (List.take_append_drop n l).symm
  obtain ⟨init, hinit⟩ := List.getLast?_eq_some_iff.mp ha
  rw [hsplit, hinit, List.append_assoc] at hl
  obtain ⟨-, htail, hbefore⟩ := List.pairwise_append.mp hl
  have hafter : ∀ b ∈ l.drop n, key b < key a := fun b hb => (List.pairwise_cons.mp htail).1 b hb
  have hnone : (l.take n).filter (fun b => decide (key b < key a)) = [] := by
    refine List.filter_eq_nil_iff.mpr fun b hb => ?_
    rw [hinit] at hb
    rcases List.mem_append.mp hb with hb | hb
    · have hgt := hbefore b hb a (List.mem_cons_self)
      rw [decide_eq_true_eq]
      exact hgt.asymm
    · rw [List.mem_singleton.mp hb, decide_eq_true_eq]
      exact lt_irrefl _
  have hall : (l.drop n).filter (fun b => decide (key b < key a)) = l.drop n :=
    List.filter_eq_self.mpr fun b hb => decide_eq_true (hafter b hb)
  show l.filter _ = _
  conv_lhs => rw [hsplit]
  rw [List.filter_append, hnone, hall, List.nil_append]

/-- **The pages are the consecutive pieces** of the list. -/
theorem pages_eq (hl : l.Pairwise fun a b => key b < key a) (n : ℕ) :
    pages key limit l n =
      if n = 0 ∨ (0 < limit ∧ n * limit < l.length) then some (piece key limit (l.drop (n * limit))) else none := by
  induction n with
  | zero =>
    rw [if_pos (.inl rfl), Nat.zero_mul, List.drop_zero]
    rfl
  | succ n ih =>
    unfold pages
    rw [ih]
    by_cases hmore : 0 < limit ∧ (n + 1) * limit < l.length
    · have hle : n * limit + limit < l.length := by
        rw [← Nat.succ_mul]
        exact hmore.2
      have hrest : limit < (l.drop (n * limit)).length := by
        rw [List.length_drop]
        omega
      obtain ⟨a, ha, hcursor⟩ := piece_cursor_isSome key hmore.1 hrest
      rw [if_pos (.inr ⟨hmore.1, by omega⟩), if_pos (.inr hmore), Option.bind_some, hcursor, Option.map_some]
      have htake : (l.take (n * limit + limit)).getLast? = some a := by
        rw [List.take_add, List.getLast?_append_of_ne_nil _ (fun hnil => by rw [hnil] at ha; cases ha), ha]
      show some (piece key limit (past key (some (key a)) l)) = _
      rw [past_getLast hl htake, Nat.succ_mul]
    · have hlast : ¬ (n + 1 = 0 ∨ (0 < limit ∧ (n + 1) * limit < l.length)) := fun h => h.elim (Nat.succ_ne_zero n) hmore
      rw [if_neg hlast]
      by_cases hthere : n = 0 ∨ (0 < limit ∧ n * limit < l.length)
      · rw [if_pos hthere, Option.bind_some]
        cases hcursor : (piece key limit (l.drop (n * limit))).2 with
        | none => rfl
        | some k =>
          obtain ⟨⟨hpos, hlt⟩, -⟩ := piece_cursor hcursor
          rw [List.length_drop] at hlt
          exact absurd ⟨hpos, by rw [Nat.succ_mul]; omega⟩ hmore
      · rw [if_neg hthere, Option.bind_none]

/-- A page that is there follows some cursor. -/
theorem pages_some {n : ℕ} {p : List ρ × Option κ} (h : pages key limit l n = some p) : ∃ after, p = page key limit l after := by
  cases n with
  | zero => exact ⟨none, (Option.some.inj h).symm⟩
  | succ n =>
    obtain ⟨p', -, hp⟩ := Option.bind_eq_some_iff.mp h
    obtain ⟨k, -, hk⟩ := Option.map_eq_some_iff.mp hp
    exact ⟨some k, hk.symm⟩

/-- A cursor is the key of a row. -/
theorem page_cursor {after : Option κ} {k : κ} (h : (page key limit l after).2 = some k) : ∃ a ∈ l, key a = k := by
  obtain ⟨-, a, ha, hk⟩ := piece_cursor h
  have hmem : a ∈ past key after l := List.mem_of_mem_take (List.mem_of_getLast? ha)
  cases after with
  | none => exact ⟨a, hmem, hk⟩
  | some k' => exact ⟨a, List.mem_of_mem_filter hmem, hk⟩

/-- **Same pages, same list**: what two lists show, page by page under every limit, against what they show at once. -/
theorem pages_agree_iff (hl : l.Pairwise fun a b => key b < key a) (hl' : l'.Pairwise fun a b => key' b < key' a) (f : ρ → α)
    (f' : ρ' → α) :
    (∀ limit n, (pages key limit l n).map (fun p => p.1.map f) = (pages key' limit l' n).map fun p => p.1.map f') ↔
      l.map f = l'.map f' := by
  constructor
  · intro h
    have hfirst := h (max l.length l'.length) 0
    simp only [pages, Option.map_some, Option.some.injEq, page, past, piece] at hfirst
    rwa [List.take_of_length_le (le_max_left _ _), List.take_of_length_le (le_max_right _ _)] at hfirst
  · intro h limit n
    have hlength : l.length = l'.length := by
      have := congrArg List.length h
      rwa [List.length_map, List.length_map] at this
    rw [pages_eq hl, pages_eq hl', hlength]
    by_cases hthere : n = 0 ∨ (0 < limit ∧ n * limit < l'.length)
    · rw [if_pos hthere, if_pos hthere, Option.map_some, Option.map_some]
      unfold piece
      rw [List.map_take, List.map_drop, h, List.map_take, List.map_drop]
    · rw [if_neg hthere, if_neg hthere]
      rfl

end Paging

/-! ## Following the cursors of a list that grows -/

section Walks

variable [LinearOrder κ]

/-- What a reader has: the cursor to pass next, the rows so far, and whether there are more. -/
structure Walk (ρ κ : Type*) where
  after : Option κ
  rows : List ρ
  more : Bool

def Walk.start : Walk ρ κ := ⟨none, [], true⟩

variable (key) in
/-- The next page, of the list as it now is. -/
def Walk.fetch (limit : ℕ) (l : List ρ) (w : Walk ρ κ) : Walk ρ κ :=
  if w.more then
    let p := page key limit (descending key l) w.after
    ⟨p.2, w.rows ++ p.1, p.2.isSome⟩
  else w

variable (key) in
/-- The rows so far go down to the cursor, and no row of `base` above it is left out. -/
structure Walked (base : List ρ) (w : Walk ρ κ) : Prop where
  falling : w.rows.Pairwise fun a b => key b < key a
  above : ∀ k ∈ w.after, ∀ a ∈ w.rows, k ≤ key a
  fresh : w.more = true → w.after = none → w.rows = []
  served : ∀ a ∈ base, a ∈ w.rows ∨ (w.more = true ∧ ∀ k ∈ w.after, key a < k)

variable {base : List ρ} {w : Walk ρ κ}

theorem walked_start : Walked key base (Walk.start : Walk ρ κ) :=
  ⟨List.Pairwise.nil, fun _ hk => (nomatch hk), fun _ _ => rfl, fun _ _ => .inr ⟨rfl, fun _ hk => (nomatch hk)⟩⟩

theorem mem_past {after : Option κ} {a : ρ} : a ∈ past key after l ↔ a ∈ l ∧ ∀ k ∈ after, key a < k := by
  cases after with
  | none => exact ⟨fun h => ⟨h, fun _ hk => (nomatch hk)⟩, fun h => h.1⟩
  | some k => simp [past]

/-- **A page** of a list that still has the rows of `base`. -/
theorem Walked.fetch (h : Walked key base w) (hpos : 0 < limit) (hl : (l.map key).Nodup) (hbase : ∀ a ∈ base, a ∈ l) :
    Walked key base (w.fetch key limit l) := by
  unfold Walk.fetch
  split
  · next hmore =>
    have hfalling : (past key w.after (descending key l)).Pairwise fun a b => key b < key a := by
      cases w.after with
      | none => exact descending_lt hl
      | some k => exact (descending_lt hl).filter _
    have hbelow : ∀ a ∈ past key w.after (descending key l), ∀ k ∈ w.after, key a < k := fun a ha => (mem_past.mp ha).2
    have hpage : ∀ a ∈ (past key w.after (descending key l)).take limit, ∀ b ∈ w.rows, key a < key b := by
      intro a ha b hb
      cases hafter : w.after with
      | none =>
        rw [h.fresh hmore hafter] at hb
        cases hb
      | some k =>
        exact lt_of_lt_of_le (hbelow a (List.mem_of_mem_take ha) k (by rw [hafter]; rfl)) (h.above k (by rw [hafter]; rfl) b hb)
    -- The cursor of the page is the key of its last row.
    have hcursor : ∀ k ∈ (page key limit (descending key l) w.after).2,
        (∀ a ∈ (past key w.after (descending key l)).take limit, k ≤ key a) ∧
          (∀ a ∈ (past key w.after (descending key l)).drop limit, key a < k) ∧ ∀ k' ∈ w.after, k < k' := by
      intro k hk
      obtain ⟨-, last, hlast, rfl⟩ := piece_cursor hk
      obtain ⟨init, hinit⟩ := List.getLast?_eq_some_iff.mp hlast
      have hsplit := (List.take_append_drop limit (past key w.after (descending key l))).symm
      have hmem : last ∈ (past key w.after (descending key l)).take limit := List.mem_of_getLast? hlast
      refine ⟨fun a ha => ?_, fun a ha => ?_, fun k' hk' => hbelow last (List.mem_of_mem_take hmem) k' hk'⟩
      · have htake := hfalling.sublist (List.take_sublist limit _)
        rw [hinit] at ha htake
        rcases List.mem_append.mp ha with ha | ha
        · exact ((List.pairwise_append.mp htake).2.2 a ha last (List.mem_singleton_self last)).le
        · rw [List.mem_singleton.mp ha]
      · rw [hsplit] at hfalling
        exact (List.pairwise_append.mp hfalling).2.2 last hmem a ha
    refine ⟨List.pairwise_append.mpr ⟨h.falling, hfalling.sublist (List.take_sublist _ _), fun a ha b hb => hpage b hb a ha⟩,
      fun k hk a ha => ?_, fun hsome hnone => ?_, fun a ha => ?_⟩
    · obtain ⟨htake, -, hlow⟩ := hcursor k hk
      rcases List.mem_append.mp ha with ha | ha
      · cases hafter : w.after with
        | none =>
          rw [h.fresh hmore hafter] at ha
          cases ha
        | some k' => exact (hlow k' (by rw [hafter]; rfl)).le.trans (h.above k' (by rw [hafter]; rfl) a ha)
      · exact htake a ha
    · dsimp only at hsome hnone
      rw [hnone] at hsome
      cases hsome
    · rcases h.served a ha with hrows | ⟨-, hlow⟩
      · exact .inl (List.mem_append_left _ hrows)
      · have hmem : a ∈ past key w.after (descending key l) :=
          mem_past.mpr ⟨(descending_perm l).symm.subset (hbase a ha), hlow⟩
        cases hnext : (page key limit (descending key l) w.after).2 with
        | none =>
          refine .inl (List.mem_append_right _ ?_)
          have hall : ¬ limit < (past key w.after (descending key l)).length := by
            intro hlt
            obtain ⟨last, -, hsome⟩ := piece_cursor_isSome key hpos hlt
            have hno : (piece key limit (past key w.after (descending key l))).2 = none := hnext
            rw [hno] at hsome
            cases hsome
          show a ∈ (past key w.after (descending key l)).take limit
          rwa [List.take_of_length_le (by omega)]
        | some k =>
          obtain ⟨-, hdrop, -⟩ := hcursor k hnext
          rw [← List.take_append_drop limit (past key w.after (descending key l))] at hmem
          rcases List.mem_append.mp hmem with hmem | hmem
          · exact .inl (List.mem_append_right _ hmem)
          · have hsome : (page key limit (descending key l) w.after).2.isSome = true := by
              rw [hnext]
              rfl
            refine .inr ⟨hsome, fun k' hk' => ?_⟩
            dsimp only at hk'
            rw [hnext] at hk'
            obtain rfl := Option.some.inj hk'
            exact hdrop a hmem
  · exact h

/-- A page that is not the last adds a row. -/
theorem Walk.length_fetch (hpos : 0 < limit) (h : (w.fetch key limit l).more = true) :
    w.rows.length < (w.fetch key limit l).rows.length := by
  unfold Walk.fetch at h ⊢
  split at h
  · next hmore =>
    rw [if_pos hmore]
    obtain ⟨k, hk⟩ := Option.isSome_iff_exists.mp h
    obtain ⟨⟨-, hlt⟩, -⟩ := piece_cursor hk
    show w.rows.length < (w.rows ++ (past key w.after (descending key l)).take limit).length
    rw [List.length_append, List.length_take]
    omega
  · next hmore => exact absurd h hmore

theorem Walk.mem_fetch {a : ρ} (h : a ∈ (w.fetch key limit l).rows) : a ∈ w.rows ∨ a ∈ l := by
  unfold Walk.fetch at h
  split at h
  · rcases List.mem_append.mp h with h | h
    · exact .inl h
    · exact .inr ((descending_perm l).subset (mem_past.mp (List.mem_of_mem_take h)).1)
  · exact .inl h

end Walks

/-! ## Two selections from one list -/

section Selections

variable {R : List ρ} {p q : ρ → Bool} {f g : ρ → α} {τ : Type*} {tag : ρ → τ} {tagOf : α → τ}

/-- Two selections that show the same, in any order, select the same rows and show the same of each; `tag` tells the rows apart
in what is shown. -/
theorem same_of_perm (hR : (R.map tag).Nodup) (hf : ∀ r, tagOf (f r) = tag r) (hg : ∀ r, tagOf (g r) = tag r)
    (h : ((R.filter p).map f).Perm ((R.filter q).map g)) : ∀ r ∈ R, (p r = true ∨ q r = true) → p r = true ∧ q r = true ∧ f r = g r := by
  have hunique : ∀ r ∈ R, ∀ r' ∈ R, f r = g r' → r = r' := fun r hr r' hr' heq =>
    List.inj_on_of_nodup_map hR hr hr' (by rw [← hf r, heq, hg r'])
  rintro r hr (hp | hq)
  · have hmem : f r ∈ (R.filter q).map g := h.subset (List.mem_map_of_mem (List.mem_filter.mpr ⟨hr, hp⟩))
    obtain ⟨r', hr', heq⟩ := List.mem_map.mp hmem
    obtain ⟨hr', hq⟩ := List.mem_filter.mp hr'
    obtain rfl := hunique r hr r' hr' heq.symm
    exact ⟨hp, hq, heq.symm⟩
  · have hmem : g r ∈ (R.filter p).map f := h.symm.subset (List.mem_map_of_mem (List.mem_filter.mpr ⟨hr, hq⟩))
    obtain ⟨r', hr', heq⟩ := List.mem_map.mp hmem
    obtain ⟨hr', hp⟩ := List.mem_filter.mp hr'
    obtain rfl := hunique r' hr' r hr heq
    exact ⟨hp, hq, heq⟩

theorem filter_map_eq (h : ∀ r ∈ R, (p r = true ∨ q r = true) → p r = true ∧ q r = true ∧ f r = g r) :
    (R.filter p).map f = (R.filter q).map g := by
  have hfilter : R.filter p = R.filter q := List.filter_congr fun r hr =>
    Bool.eq_iff_iff.mpr ⟨fun hp => (h r hr (.inl hp)).2.1, fun hq => (h r hr (.inr hq)).1⟩
  rw [hfilter]
  exact List.map_congr_left fun r hr => (h r (List.mem_of_mem_filter hr) (.inr (List.of_mem_filter hr))).2.2

end Selections

end Vellar.Keyset
