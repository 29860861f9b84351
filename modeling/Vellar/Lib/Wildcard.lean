import Mathlib.Data.List.Forall2
import Mathlib.Data.List.Infix
import Mathlib.Tactic.Common

/-!
# Vellar.Lib.Wildcard — patterns with gaps

A pattern is a list of atoms: one element of a kind, or any number of them.  `Matches` says which words a pattern takes,
`test` decides it by trying every length of a gap, and a pattern whose atoms allow more takes more words.
-/

set_option autoImplicit false

namespace Wildcard

variable {α : Type*}

inductive Atom (α : Type*) where
  | one (ok : α → Bool)
  | many (ok : α → Bool)

abbrev Pattern (α : Type*) := List (Atom α)

def Atom.Takes : Atom α → List α → Prop
  | .one ok, u => ∃ a, u = [a] ∧ ok a
  | .many ok, u => ∀ a ∈ u, ok a

/-- The word is one piece for each atom, in order. -/
def Matches : Pattern α → List α → Prop
  | [], s => s = []
  | atom :: p, s => ∃ u t, s = u ++ t ∧ atom.Takes u ∧ Matches p t

/-- Every word of the one is a word of the other. -/
def Atom.Le (a b : Atom α) : Prop := ∀ u, a.Takes u → b.Takes u

section Rules

variable {p q : Pattern α} {atom : Atom α} {ok : α → Bool} {s t : List α} {a : α}

@[simp] theorem matches_nil : Matches ([] : Pattern α) s ↔ s = [] := Iff.rfl

@[simp] theorem not_matches_one_nil : ¬ Matches (.one ok :: p) [] := by
  rintro ⟨u, t, hs, ⟨a, rfl, _⟩, _⟩
  exact List.cons_ne_nil _ _ hs.symm

@[simp] theorem matches_one_cons : Matches (.one ok :: p) (a :: s) ↔ ok a ∧ Matches p s := by
  constructor
  · rintro ⟨u, t, hs, ⟨b, rfl, hb⟩, ht⟩
    obtain ⟨rfl, rfl⟩ := List.cons.inj hs
    exact ⟨hb, ht⟩
  · rintro ⟨ha, hs⟩
    exact ⟨[a], s, rfl, ⟨a, rfl, ha⟩, hs⟩

/-- A gap is closed, or takes one more element. -/
theorem matches_many : Matches (.many ok :: p) s ↔
    Matches p s ∨ ∃ a t, s = a :: t ∧ ok a ∧ Matches (.many ok :: p) t := by
  constructor
  · rintro ⟨u, t, rfl, hu, ht⟩
    cases u with
    | nil => exact .inl ht
    | cons a u =>
      have hrest : Matches (.many ok :: p) (u ++ t) := ⟨u, t, rfl, fun b hb => hu b (List.mem_cons_of_mem _ hb), ht⟩
      exact .inr ⟨a, u ++ t, rfl, hu a List.mem_cons_self, hrest⟩
  · rintro (hs | ⟨a, t, rfl, ha, u, v, rfl, hu, hv⟩)
    · exact ⟨[], s, rfl, fun _ h => absurd h List.not_mem_nil, hs⟩
    · exact ⟨a :: u, v, rfl, List.forall_mem_cons.mpr ⟨ha, hu⟩, hv⟩

@[simp] theorem matches_many_nil : Matches (.many ok :: p) [] ↔ Matches p [] := by
  rw [matches_many]
  simp

@[simp] theorem matches_many_cons : Matches (.many ok :: p) (a :: s) ↔
    Matches p (a :: s) ∨ ok a ∧ Matches (.many ok :: p) s := by
  rw [matches_many]
  simp

/-- **A pattern that allows more takes more.** -/
theorem Matches.mono (hle : List.Forall₂ Atom.Le p q) (h : Matches p s) : Matches q s := by
  induction hle generalizing s with
  | nil => exact h
  | cons hatom _ ih =>
    obtain ⟨u, t, hs, hu, ht⟩ := h
    exact ⟨u, t, hs, hatom u hu, ih ht⟩

/-- Only the elements of the word matter. -/
theorem matches_congr {f g : α → Atom α} (hfg : ∀ c u, (∀ a ∈ u, a ∈ t) → ((f c).Takes u ↔ (g c).Takes u))
    (cs : List α) (hs : ∀ a ∈ s, a ∈ t) : Matches (cs.map f) s ↔ Matches (cs.map g) s := by
  induction cs generalizing s with
  | nil => exact Iff.rfl
  | cons c cs ih =>
    constructor
    all_goals
      rintro ⟨u, v, rfl, hu, hv⟩
      have hpiece : ∀ a ∈ u, a ∈ t := fun a ha => hs a (List.mem_append_left _ ha)
      have hrest : ∀ a ∈ v, a ∈ t := fun a ha => hs a (List.mem_append_right _ ha)
    · exact ⟨u, v, rfl, (hfg c u hpiece).mp hu, (ih hrest).mp hv⟩
    · exact ⟨u, v, rfl, (hfg c u hpiece).mpr hu, (ih hrest).mpr hv⟩

end Rules

/-! ## The test -/

/-- Try the rest of a pattern after each part of the word that a gap may take. -/
def scan (ok : α → Bool) (rest : List α → Bool) : List α → Bool
  | [] => rest []
  | a :: s => rest (a :: s) || ok a && scan ok rest s

def test : Pattern α → List α → Bool
  | [], s => s.isEmpty
  | .one _ :: _, [] => false
  | .one ok :: p, a :: s => ok a && test p s
  | .many ok :: p, s => scan ok (test p) s

theorem scan_iff {ok : α → Bool} {p : Pattern α} {rest : List α → Bool}
    (hrest : ∀ s, rest s = true ↔ Matches p s) (s : List α) : scan ok rest s = true ↔ Matches (.many ok :: p) s := by
  induction s with
  | nil => rw [scan, hrest, matches_many_nil]
  | cons a s ih => rw [scan, Bool.or_eq_true, Bool.and_eq_true, hrest, ih, matches_many_cons]

/-- **The test decides** what a pattern takes. -/
theorem test_iff (p : Pattern α) (s : List α) : test p s = true ↔ Matches p s := by
  induction p generalizing s with
  | nil => rw [test, List.isEmpty_iff, matches_nil]
  | cons atom p ih =>
    cases atom with
    | one ok =>
      cases s with
      | nil => simp only [test, Bool.false_eq_true, not_matches_one_nil]
      | cons a s => rw [test, Bool.and_eq_true, ih, matches_one_cons]
    | many ok => exact scan_iff ih s

/-! ## Parts of a word -/

/-- A word that a separator is not in lies on one side of it. -/
theorem infix_append_cons {p s t : List α} {x : α} (h : x ∉ p) : p <:+: s ++ x :: t ↔ p <:+: s ∨ p <:+: t := by
  constructor
  · intro hp
    rcases List.infix_append_iff_ne_nil.mp hp with hs | ht | ⟨u, v, _, hv, rfl, _, hprefix⟩
    · exact .inl hs
    · rcases List.infix_cons_iff.mp ht with hprefix | ht
      · cases p with
        | nil => exact .inl List.nil_infix
        | cons a p =>
          have ha := (List.cons_prefix_cons.mp hprefix).1
          exact absurd (ha ▸ List.mem_cons_self) h
      · exact .inr ht
    · obtain ⟨b, v, rfl⟩ := List.exists_cons_of_ne_nil hv
      have hb := (List.cons_prefix_cons.mp hprefix).1
      exact absurd (List.mem_append_right u (hb ▸ List.mem_cons_self)) h
  · rintro (hs | ht)
    · exact hs.trans (List.prefix_append s _).isInfix
    · exact ht.trans ((List.suffix_cons x t).trans (List.suffix_append s _)).isInfix

end Wildcard
