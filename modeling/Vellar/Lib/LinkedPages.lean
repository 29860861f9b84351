import Vellar.Lib.Effect

/-!
# Vellar.Lib.LinkedPages — following next links up to a cap

A page has records and a link to the next one; a page without records or without a link is the last.  `follow` reads a number
of pages at most, `pageAt` is the page that a reading without a cap gets to: `mem_follow` says which records are read, and
`covers_iff` when they are all.  `Within` counts what a computation costs.
-/

set_option autoImplicit false

namespace Vellar.LinkedPages

open Effect

variable {ε σ α β U ρ : Type}

structure Page (U ρ : Type) where
  records : List ρ
  next : Option U

section Definitions

variable (fetch : U → Effect ε σ (Page U ρ))

/-- The records of at most `n` pages. -/
def follow : ℕ → U → Effect ε σ (List ρ)
  | 0, _ => pure []
  | n + 1, url => do
    let page ← fetch url
    if page.records = [] then pure []
    else match page.next with
      | none => pure page.records
      | some next => do
        let rest ← follow n next
        pure (page.records ++ rest)

/-- The page `k` links on, for a reader that starts in state `s`; none when the reading ends before or fails. -/
def pageAt : ℕ → U → σ → Option (Page U ρ)
  | 0, url, s =>
    match fetch url s with
    | .ok page _ => some page
    | .error _ _ => none
  | k + 1, url, s =>
    match fetch url s with
    | .ok page s' => if page.records = [] then none else page.next.bind fun next => pageAt k next s'
    | .error _ _ => none

end Definitions

variable {fetch : U → Effect ε σ (Page U ρ)} {n k : ℕ} {url : U} {s s' : σ} {page : Page U ρ} {rs base : List ρ}

theorem pageAt_zero (h : Returns (fetch url) s page s') : pageAt fetch 0 url s = some page := by
  unfold pageAt
  rw [show fetch url s = .ok page s' from h]

theorem pageAt_succ (h : Returns (fetch url) s page s') :
    pageAt fetch (k + 1) url s = if page.records = [] then none else page.next.bind fun next => pageAt fetch k next s' := by
  unfold pageAt
  rw [show fetch url s = .ok page s' from h]
  cases k <;> rfl

/-- **What is read** is what is on the pages before the cap. -/
theorem mem_follow (h : Returns (follow fetch n url) s rs s') (r : ρ) :
    r ∈ rs ↔ ∃ k, k < n ∧ ∃ page, pageAt fetch k url s = some page ∧ r ∈ page.records := by
  induction n generalizing url s rs s' with
  | zero =>
    obtain ⟨rfl, -⟩ := returns_pure.mp h
    refine iff_of_false List.not_mem_nil ?_
    rintro ⟨k, hk, -⟩
    omega
  | succ n ih =>
    obtain ⟨page, s₁, hpage, hrest⟩ := returns_bind.mp h
    -- Page zero, and the others along its link.
    have hsplit : (∃ k, k < n + 1 ∧ ∃ p, pageAt fetch k url s = some p ∧ r ∈ p.records) ↔
        r ∈ page.records ∨ ∃ k, k < n ∧ ∃ p, pageAt fetch (k + 1) url s = some p ∧ r ∈ p.records := by
      constructor
      · rintro ⟨k, hk, p, hp, hr⟩
        cases k with
        | zero =>
          rw [pageAt_zero hpage] at hp
          exact .inl (Option.some.inj hp ▸ hr)
        | succ k => exact .inr ⟨k, by omega, p, hp, hr⟩
      · rintro (hr | ⟨k, hk, p, hp, hr⟩)
        · exact ⟨0, by omega, page, pageAt_zero hpage, hr⟩
        · exact ⟨k + 1, by omega, p, hp, hr⟩
    rw [hsplit]
    simp only [pageAt_succ hpage]
    by_cases hempty : page.records = []
    · rw [if_pos hempty] at hrest
      obtain ⟨rfl, -⟩ := returns_pure.mp hrest
      simp [hempty]
    · rw [if_neg hempty] at hrest
      cases hnext : page.next with
      | none =>
        rw [hnext] at hrest
        obtain ⟨rfl, -⟩ := returns_pure.mp hrest
        simp
      | some next =>
        rw [hnext] at hrest
        obtain ⟨rest, s₂, hread, hdone⟩ := returns_bind.mp hrest
        obtain ⟨rfl, -⟩ := returns_pure.mp hdone
        rw [List.mem_append, ih hread]
        simp only [if_neg hempty, Option.bind_some]

variable (base) in
/-- **All is read** exactly when the pages past the cap have nothing that was not read before. -/
theorem covers_iff (h : Returns (follow fetch n url) s rs s') :
    (∀ k page, pageAt fetch k url s = some page → ∀ r ∈ page.records, r ∈ base ++ rs) ↔
      ∀ k page, n ≤ k → pageAt fetch k url s = some page → ∀ r ∈ page.records,
        r ∈ base ∨ ∃ j, j < n ∧ ∃ page', pageAt fetch j url s = some page' ∧ r ∈ page'.records := by
  simp only [List.mem_append, mem_follow h]
  constructor
  · exact fun hall k page _ hpage r hr => hall k page hpage r hr
  · intro hpast k page hpage r hr
    by_cases hk : k < n
    · exact .inr ⟨k, hk, page, hpage, hr⟩
    · exact hpast k page (by omega) hpage r hr

/-! ## What a reading costs -/

/-- However the computation ends, it costs `c` at most. -/
def Within (cost : σ → ℕ) (c : ℕ) (x : Effect ε σ α) : Prop := ∀ s, cost (x.after s) ≤ cost s + c

variable {cost : σ → ℕ} {c d : ℕ}

theorem within_pure {a : α} : Within cost 0 (pure a : Effect ε σ α) := fun _ => le_rfl

theorem within_throw {e : ε} : Within cost 0 (throw e : Effect ε σ α) := fun _ => le_rfl

theorem Within.mono {x : Effect ε σ α} (h : Within cost c x) (hle : c ≤ d) : Within cost d x := fun s =>
  (h s).trans (Nat.add_le_add_left hle _)

theorem Within.bind {x : Effect ε σ α} {f : α → Effect ε σ β} (hx : Within cost c x) (hf : ∀ a, Within cost d (f a)) :
    Within cost (c + d) (x >>= f) := by
  intro s
  have hx' := hx s
  show cost (Effect.after (EStateM.bind x f) s) ≤ _
  unfold after EStateM.bind at *
  cases hres : x s with
  | ok a s' =>
    rw [hres] at hx'
    have hf' := hf a s'
    unfold after at hf'
    dsimp only at hx' hf' ⊢
    omega
  | error e s' =>
    rw [hres] at hx'
    dsimp only at hx' ⊢
    omega

theorem Within.attempt {x : Effect ε σ α} {handler : ε → Effect ε σ α} (hx : Within cost c x)
    (hh : ∀ e, Within cost d (handler e)) : Within cost (c + d) (attempt x handler) := by
  intro s
  have hx' := hx s
  unfold after Effect.attempt at *
  cases hres : x s with
  | ok a s' =>
    rw [hres] at hx'
    dsimp only at hx' ⊢
    omega
  | error e s' =>
    rw [hres] at hx'
    have hh' := hh e s'
    unfold after at hh'
    dsimp only at hx' hh' ⊢
    omega

/-- Pages cost a fetch each. -/
theorem within_follow (hfetch : ∀ url, Within cost c (fetch url)) (n : ℕ) (url : U) : Within cost (n * c) (follow fetch n url) := by
  induction n generalizing url with
  | zero =>
    rw [Nat.zero_mul]
    exact within_pure
  | succ n ih =>
    rw [Nat.succ_mul, Nat.add_comm]
    refine (hfetch url).bind fun page => ?_
    split
    · exact within_pure.mono (Nat.zero_le _)
    · cases page.next with
      | none => exact within_pure.mono (Nat.zero_le _)
      | some next => exact (ih next).bind fun rest => within_pure

end Vellar.LinkedPages
