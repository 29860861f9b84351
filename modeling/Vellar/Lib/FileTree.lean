import Mathlib

/-!
# Vellar.Lib.FileTree — paths through a tree of files with links

A path is the list of its names, read from a place of the tree on.  `walk` follows it through at most so many links; with
`create` a name that is missing is made on the way.  `Leads` is a walk without a bound.  `leads_nil` to `leads_missing` say
what each kind of name does, `leads_append` that a path goes on from where its first part leads, and `Settled` is what a
place is that some path leads to.  `normalize` and `relative` look at the names alone.
-/

set_option autoImplicit false

namespace Vellar.FileTree

abbrev Path := List String

inductive Entry where
  | dir
  | file
  | link (target : String)
deriving DecidableEq

/-- What is where; whatever is there stands in a directory. -/
structure Tree where
  entry : Path → Option Entry
  root : entry [] = some .dir
  parent : ∀ place name, (entry (place ++ [name])).isSome → entry place = some .dir

/-- The tree of a table of its entries. -/
def Tree.ofTable (table : List (Path × Entry)) (hroot : table.lookup [] = some .dir)
    (hparent : ∀ x ∈ table, x.1 ≠ [] → table.lookup x.1.dropLast = some .dir) : Tree where
  entry place := table.lookup place
  root := hroot
  parent := by
    intro place name hsome
    obtain ⟨e, he⟩ := Option.isSome_iff_exists.mp hsome
    obtain ⟨before, after, hsplit, -⟩ := List.lookup_eq_some_iff.mp he
    have hdir := hparent (place ++ [name], e) (by simp [hsplit]) (by simp)
    rwa [List.dropLast_concat] at hdir

/-! ## Following a path -/

def segments (text : String) : Path := (text.toList.splitOn '/').map String.ofList

def isAbsolute (text : String) : Bool := text.toList.head? == some '/'

/-- Where a path starts that is met at the place. -/
def start (place : Path) (text : String) : Path := if isAbsolute text then [] else place

/-- A name that stands for an entry. -/
def Plain (name : String) : Prop := ¬ (name = "" ∨ name = ".") ∧ name ≠ ".."

section Walk

variable (t : Tree) (create : Bool)

/-- Up to the first link, which `onLink` follows with the rest. -/
def walkFrom (onLink : Path → Path → Option Path) : Path → Path → Option Path
  | place, [] => some place
  | place, name :: rest =>
    if name = "" ∨ name = "." then walkFrom onLink place rest
    else if name = ".." then walkFrom onLink place.dropLast rest
    else
      match t.entry (place ++ [name]) with
      | some .dir => walkFrom onLink (place ++ [name]) rest
      | some .file => if rest = [] then some (place ++ [name]) else none
      | some (.link target) => onLink (start place target) (segments target ++ rest)
      | none => if create then walkFrom onLink (place ++ [name]) rest else none

/-- Through at most `links` links. -/
def walk : ℕ → Path → Path → Option Path
  | 0 => walkFrom t create fun _ _ => none
  | links + 1 => walkFrom t create (walk links)

/-- The path leads there from the place. -/
def Leads (place rest loc : Path) : Prop := ∃ links, walk t create links place rest = some loc

end Walk

/-! ## Names alone -/

/-- The names of a path without `.` and `..`. -/
def normalize : Path → Path → Path
  | base, [] => base
  | base, name :: rest =>
    if name = "" ∨ name = "." then normalize base rest
    else if name = ".." then normalize base.dropLast rest
    else normalize (base ++ [name]) rest

/-- A path in text, read from a base that is a path of plain names. -/
def resolve (base : Path) (text : String) : Path := normalize (start base text) (segments text)

/-- The way from one path to another. -/
def relative : Path → Path → Path
  | [], target => target
  | name :: base, [] => List.replicate (name :: base).length ".."
  | name :: base, name' :: target =>
    if name = name' then relative base target
    else List.replicate (name :: base).length ".." ++ name' :: target

/-! ## One name -/

section Walk

variable {t : Tree} {create : Bool} {links : ℕ} {place rest loc : Path} {name : String}

/-- What a walk does with the first link. -/
def through (t : Tree) (create : Bool) : ℕ → Path → Path → Option Path
  | 0 => fun _ _ => none
  | links + 1 => walk t create links

theorem walk_eq : walk t create links = walkFrom t create (through t create links) := by
  cases links <;> rfl

attribute [local simp] walkFrom

theorem walk_nil : walk t create links place [] = some place := by
  simp [walk_eq]

theorem walk_stay (h : name = "" ∨ name = ".") :
    walk t create links place (name :: rest) = walk t create links place rest := by
  simp [walk_eq, h]

theorem walk_up : walk t create links place (".." :: rest) = walk t create links place.dropLast rest := by
  simp [walk_eq]

theorem walk_dir (h : Plain name) (he : t.entry (place ++ [name]) = some .dir) :
    walk t create links place (name :: rest) = walk t create links (place ++ [name]) rest := by
  simp [walk_eq, h.1, h.2, he]

theorem walk_file (h : Plain name) (he : t.entry (place ++ [name]) = some .file) :
    walk t create links place (name :: rest) = if rest = [] then some (place ++ [name]) else none := by
  simp [walk_eq, h.1, h.2, he]

theorem walk_link {target : String} (h : Plain name) (he : t.entry (place ++ [name]) = some (.link target)) :
    walk t create links place (name :: rest) = through t create links (start place target) (segments target ++ rest) := by
  simp [walk_eq, h.1, h.2, he]

theorem walk_missing (h : Plain name) (he : t.entry (place ++ [name]) = none) :
    walk t create links place (name :: rest) = if create then walk t create links (place ++ [name]) rest else none := by
  simp [walk_eq, h.1, h.2, he]

/-- **Walk rule**: what holds of the end, and is passed back by every kind of name, holds where the walk starts. -/
theorem walk_induct {P : ℕ → Path → Path → Prop} (nil : ∀ links, P links loc [])
    (stay : ∀ links place name rest, name = "" ∨ name = "." → P links place rest → P links place (name :: rest))
    (up : ∀ links place rest, P links place.dropLast rest → P links place (".." :: rest))
    (dir : ∀ links place name rest, Plain name → t.entry (place ++ [name]) = some .dir →
      P links (place ++ [name]) rest → P links place (name :: rest))
    (file : ∀ links place name, Plain name → t.entry (place ++ [name]) = some .file → loc = place ++ [name] →
      P links place [name])
    (link : ∀ links place name rest target, Plain name → t.entry (place ++ [name]) = some (.link target) →
      P links (start place target) (segments target ++ rest) → P (links + 1) place (name :: rest))
    (missing : ∀ links place name rest, Plain name → t.entry (place ++ [name]) = none → create = true →
      P links (place ++ [name]) rest → P links place (name :: rest))
    (h : walk t create links place rest = some loc) : P links place rest := by
  induction links using Nat.strong_induction_on generalizing place rest with
  | _ links ihLinks =>
    induction rest generalizing place with
    | nil =>
      rw [walk_nil] at h
      obtain rfl := Option.some.inj h
      exact nil links
    | cons name rest ih =>
      by_cases hstay : name = "" ∨ name = "."
      · rw [walk_stay hstay] at h
        exact stay links place name rest hstay (ih h)
      by_cases hup : name = ".."
      · subst hup
        rw [walk_up] at h
        exact up links place rest (ih h)
      have hplain : Plain name := ⟨hstay, hup⟩
      cases he : t.entry (place ++ [name]) with
      | none =>
        rw [walk_missing hplain he] at h
        obtain ⟨hcreate, hnext⟩ := Option.ite_none_right_eq_some.mp h
        exact missing links place name rest hplain he hcreate (ih hnext)
      | some e =>
        cases e with
        | dir =>
          rw [walk_dir hplain he] at h
          exact dir links place name rest hplain he (ih h)
        | file =>
          rw [walk_file hplain he] at h
          obtain ⟨rfl, hloc⟩ := Option.ite_none_right_eq_some.mp h
          exact file links place name hplain he (Option.some.inj hloc).symm
        | link target =>
          rw [walk_link hplain he] at h
          cases links with
          | zero => cases h
          | succ links => exact link links place name rest target hplain he (ihLinks links links.lt_succ_self h)

end Walk

section Rules

variable {t : Tree} {create : Bool} {place rest loc : Path} {name : String}

@[simp] theorem leads_nil : Leads t create place [] loc ↔ loc = place := by
  simp [Leads, walk_nil, eq_comm]

theorem leads_stay (h : name = "" ∨ name = ".") :
    Leads t create place (name :: rest) loc ↔ Leads t create place rest loc := by
  simp only [Leads, walk_stay h]

theorem leads_up : Leads t create place (".." :: rest) loc ↔ Leads t create place.dropLast rest loc := by
  simp only [Leads, walk_up]

theorem leads_dir (h : Plain name) (he : t.entry (place ++ [name]) = some .dir) :
    Leads t create place (name :: rest) loc ↔ Leads t create (place ++ [name]) rest loc := by
  simp only [Leads, walk_dir h he]

theorem leads_file (h : Plain name) (he : t.entry (place ++ [name]) = some .file) :
    Leads t create place (name :: rest) loc ↔ rest = [] ∧ loc = place ++ [name] := by
  simp [Leads, walk_file h he, eq_comm]

theorem leads_link {target : String} (h : Plain name) (he : t.entry (place ++ [name]) = some (.link target)) :
    Leads t create place (name :: rest) loc ↔ Leads t create (start place target) (segments target ++ rest) loc := by
  simp only [Leads, walk_link h he]
  constructor
  · rintro ⟨links, hwalk⟩
    cases links with
    | zero => cases hwalk
    | succ links => exact ⟨links, hwalk⟩
  · rintro ⟨links, hwalk⟩
    exact ⟨links + 1, hwalk⟩

theorem leads_missing (h : Plain name) (he : t.entry (place ++ [name]) = none) :
    Leads t create place (name :: rest) loc ↔ create = true ∧ Leads t create (place ++ [name]) rest loc := by
  cases create <;> simp [Leads, walk_missing h he]

/-- **A path leads to one place**. -/
theorem Leads.unique {loc' : Path} (h : Leads t create place rest loc) (h' : Leads t create place rest loc') :
    loc' = loc := by
  obtain ⟨links, hwalk⟩ := h
  refine walk_induct (P := fun _ place rest => ∀ loc', Leads t create place rest loc' → loc' = loc)
    ?_ ?_ ?_ ?_ ?_ ?_ ?_ hwalk loc' h'
  · intro _ loc' h
    exact leads_nil.mp h
  · intro _ place name rest hstay ih loc' h
    exact ih loc' ((leads_stay hstay).mp h)
  · intro _ place rest ih loc' h
    exact ih loc' (leads_up.mp h)
  · intro _ place name rest hplain he ih loc' h
    exact ih loc' ((leads_dir hplain he).mp h)
  · intro _ place name hplain he hloc loc' h
    exact ((leads_file hplain he).mp h).2.trans hloc.symm
  · intro _ place name rest target hplain he ih loc' h
    exact ih loc' ((leads_link hplain he).mp h)
  · intro _ place name rest hplain he hcreate ih loc' h
    exact ih loc' ((leads_missing hplain he).mp h).2

/-- What is followed without making anything is followed the same where names may be made. -/
theorem Leads.of_existing (h : Leads t false place rest loc) : Leads t create place rest loc := by
  obtain ⟨links, hwalk⟩ := h
  refine walk_induct (P := fun _ place rest => Leads t create place rest loc) ?_ ?_ ?_ ?_ ?_ ?_ ?_ hwalk
  · intro _
    exact leads_nil.mpr rfl
  · intro _ place name rest hstay ih
    exact (leads_stay hstay).mpr ih
  · intro _ place rest ih
    exact leads_up.mpr ih
  · intro _ place name rest hplain he ih
    exact (leads_dir hplain he).mpr ih
  · intro _ place name hplain he hloc
    exact (leads_file hplain he).mpr ⟨rfl, hloc⟩
  · intro _ place name rest target hplain he ih
    exact (leads_link hplain he).mpr ih
  · intro _ place name rest hplain he hfalse
    cases hfalse

end Rules

/-! ## Places that paths lead to -/

section Places

variable {t : Tree} {create : Bool} {links : ℕ} {place rest loc : Path} {name : String}

/-- On the way: every part of the place is a directory, or is made. -/
def Open (t : Tree) (create : Bool) (place : Path) : Prop :=
  (∀ name ∈ place, Plain name) ∧ ∀ pre, pre <+: place → t.entry pre = some .dir ∨ (create = true ∧ t.entry pre = none)

/-- At the end: the same, or a file. -/
def Settled (t : Tree) (create : Bool) (loc : Path) : Prop :=
  Open t create loc ∨
    ∃ place name, loc = place ++ [name] ∧ Open t create place ∧ Plain name ∧ t.entry loc = some .file

theorem open_root : Open t create [] := by
  refine ⟨by simp, fun pre hpre => .inl ?_⟩
  rw [List.prefix_nil.mp hpre]
  exact t.root

theorem Open.up (h : Open t create place) : Open t create place.dropLast :=
  ⟨fun name hname => h.1 name (List.dropLast_subset place hname),
    fun pre hpre => h.2 pre (hpre.trans (List.dropLast_prefix place))⟩

theorem Open.snoc (h : Open t create place) (hname : Plain name)
    (he : t.entry (place ++ [name]) = some .dir ∨ (create = true ∧ t.entry (place ++ [name]) = none)) :
    Open t create (place ++ [name]) := by
  refine ⟨fun n hn => ?_, fun pre hpre => ?_⟩
  · rcases List.mem_append.mp hn with hn | hn
    · exact h.1 n hn
    · exact List.mem_singleton.mp hn ▸ hname
  · rcases List.prefix_concat_iff.mp hpre with rfl | hpre
    · exact he
    · exact h.2 pre hpre

theorem Open.start {target : String} (h : Open t create place) : Open t create (start place target) := by
  unfold FileTree.start
  split_ifs
  · exact open_root
  · exact h

/-- **What a path leads to** is settled. -/
theorem Leads.settled (hplace : Open t create place) (h : Leads t create place rest loc) : Settled t create loc := by
  obtain ⟨links, hwalk⟩ := h
  refine walk_induct (P := fun _ place _ => Open t create place → Settled t create loc)
    ?_ ?_ ?_ ?_ ?_ ?_ ?_ hwalk hplace
  · intro _ hopen
    exact .inl hopen
  · intro _ place name rest _ ih hopen
    exact ih hopen
  · intro _ place rest ih hopen
    exact ih hopen.up
  · intro _ place name rest hplain he ih hopen
    exact ih (hopen.snoc hplain (.inl he))
  · intro _ place name hplain he hloc hopen
    exact .inr ⟨place, name, hloc, hopen, hplain, hloc ▸ he⟩
  · intro _ place name rest target _ _ ih hopen
    exact ih hopen.start
  · intro _ place name rest hplain he hcreate ih hopen
    exact ih (hopen.snoc hplain (.inr ⟨hcreate, he⟩))

/-- Names that are directories, or are made, are passed one by one. -/
theorem Open.walk_through {way : Path} (h : Open t create (place ++ way)) :
    walk t create links place (way ++ rest) = walk t create links (place ++ way) rest := by
  induction way generalizing place with
  | nil => rw [List.append_nil, List.nil_append]
  | cons name way ih =>
    have hcons : place ++ name :: way = (place ++ [name]) ++ way := (List.append_assoc place [name] way).symm
    have hplain : Plain name := h.1 name (by simp)
    rw [hcons] at h ⊢
    rw [List.cons_append, ← ih h]
    rcases h.2 (place ++ [name]) (List.prefix_append _ _) with hdir | ⟨hcreate, hnone⟩
    · exact walk_dir hplain hdir
    · rw [walk_missing hplain hnone, if_pos hcreate]

/-- **A settled place** leads to itself, however many links may be met. -/
theorem Settled.leads_self (h : Settled t create loc) : walk t create links [] loc = some loc := by
  rcases h with hopen | ⟨place, name, rfl, hopen, hplain, hfile⟩
  · have hwalk : walk t create links [] (loc ++ []) = walk t create links ([] ++ loc) [] := Open.walk_through hopen
    rwa [List.append_nil, walk_nil] at hwalk
  · have hwalk : walk t create links [] (place ++ [name]) = walk t create links ([] ++ place) [name] :=
      Open.walk_through hopen
    rw [hwalk, List.nil_append, walk_file hplain hfile, if_pos rfl]

/-- **A path goes on** from the directory that its first part leads to. -/
theorem leads_append {pre mid : Path} (h : walk t false links place pre = some mid) (hmid : t.entry mid = some .dir) :
    Leads t create place (pre ++ rest) loc ↔ Leads t create mid rest loc := by
  refine walk_induct (P := fun _ place pre => Leads t create place (pre ++ rest) loc ↔ Leads t create mid rest loc)
    ?_ ?_ ?_ ?_ ?_ ?_ ?_ h
  · intro _
    exact Iff.rfl
  · intro _ place name pre hstay ih
    exact (leads_stay hstay).trans ih
  · intro _ place pre ih
    exact leads_up.trans ih
  · intro _ place name pre hplain he ih
    exact (leads_dir hplain he).trans ih
  · intro _ place name _ he hloc
    rw [← hloc, hmid] at he
    cases he
  · intro _ place name pre target hplain he ih
    rw [List.append_assoc] at ih
    exact (leads_link hplain he).trans ih
  · intro _ place name pre _ _ hfalse
    cases hfalse

/-- Nothing is below a file. -/
theorem not_leads_file {pre mid : Path} (hplace : Open t false place) (h : walk t false links place pre = some mid)
    (hmid : t.entry mid = some .file) (hrest : rest ≠ []) : ¬ Leads t create place (pre ++ rest) loc := by
  refine walk_induct (P := fun _ place pre => Open t false place → ¬ Leads t create place (pre ++ rest) loc)
    ?_ ?_ ?_ ?_ ?_ ?_ ?_ h hplace
  · intro _ hopen
    rcases hopen.2 mid List.prefix_rfl with hdir | ⟨hfalse, -⟩
    · rw [hmid] at hdir
      cases hdir
    · cases hfalse
  · intro _ place name pre hstay ih hopen hleads
    exact ih hopen ((leads_stay hstay).mp hleads)
  · intro _ place pre ih hopen hleads
    exact ih hopen.up (leads_up.mp hleads)
  · intro _ place name pre hplain he ih hopen hleads
    exact ih (hopen.snoc hplain (.inl he)) ((leads_dir hplain he).mp hleads)
  · intro _ place name hplain he _ _ hleads
    exact hrest ((leads_file hplain he).mp hleads).1
  · intro _ place name pre target hplain he ih hopen hleads
    rw [List.append_assoc] at ih
    exact ih hopen.start ((leads_link hplain he).mp hleads)
  · intro _ place name pre _ _ hfalse
    cases hfalse

theorem walk_append {pre mid : Path} (h : walk t false links place pre = some mid) (hmid : t.entry mid = some .dir)
    (hrest : ∀ links, walk t false links mid rest = some loc) : walk t false links place (pre ++ rest) = some loc := by
  refine walk_induct (P := fun links place pre => walk t false links place (pre ++ rest) = some loc)
    ?_ ?_ ?_ ?_ ?_ ?_ ?_ h
  · intro links
    exact hrest links
  · intro _ place name pre hstay ih
    exact (walk_stay hstay).trans ih
  · intro _ place pre ih
    exact walk_up.trans ih
  · intro _ place name pre hplain he ih
    exact (walk_dir hplain he).trans ih
  · intro _ place name _ he hloc
    rw [← hloc, hmid] at he
    cases he
  · intro _ place name pre target hplain he ih
    rw [List.append_assoc] at ih
    exact (walk_link hplain he).trans ih
  · intro _ place name pre _ _ hfalse
    cases hfalse

/-- What leads somewhere does so up to each of its names. -/
theorem walk_prefix {pre : Path} (h : walk t false links place (pre ++ rest) = some loc) :
    (walk t false links place pre).isSome := by
  refine walk_induct
    (P := fun links place path => ∀ pre rest, path = pre ++ rest → (walk t false links place pre).isSome)
    ?_ ?_ ?_ ?_ ?_ ?_ ?_ h pre rest rfl
  · intro _ pre rest heq
    rw [(List.append_eq_nil_iff.mp heq.symm).1, walk_nil]
    rfl
  · intro _ place name path hstay ih pre rest heq
    rcases List.cons_eq_append_iff.mp heq with ⟨rfl, -⟩ | ⟨pre, rfl, rfl⟩
    · rw [walk_nil]
      rfl
    · rw [walk_stay hstay]
      exact ih pre rest rfl
  · intro _ place path ih pre rest heq
    rcases List.cons_eq_append_iff.mp heq with ⟨rfl, -⟩ | ⟨pre, rfl, rfl⟩
    · rw [walk_nil]
      rfl
    · rw [walk_up]
      exact ih pre rest rfl
  · intro _ place name path hplain he ih pre rest heq
    rcases List.cons_eq_append_iff.mp heq with ⟨rfl, -⟩ | ⟨pre, rfl, rfl⟩
    · rw [walk_nil]
      rfl
    · rw [walk_dir hplain he]
      exact ih pre rest rfl
  · intro _ place name hplain he _ pre rest heq
    rcases List.cons_eq_append_iff.mp heq with ⟨rfl, -⟩ | ⟨pre, rfl, hnil⟩
    · rw [walk_nil]
      rfl
    · rw [(List.append_eq_nil_iff.mp hnil.symm).1, walk_file hplain he]
      rfl
  · intro _ place name path target hplain he ih pre rest heq
    rcases List.cons_eq_append_iff.mp heq with ⟨rfl, -⟩ | ⟨pre, rfl, rfl⟩
    · rw [walk_nil]
      rfl
    · rw [walk_link hplain he]
      exact ih (segments target ++ pre) rest (List.append_assoc _ _ _).symm
  · intro _ place name path _ _ hfalse
    cases hfalse

theorem entry_below {below : Path} (h : t.entry place = none) : t.entry (place ++ below) = none := by
  induction below using List.reverseRecOn with
  | nil => rwa [List.append_nil]
  | append_singleton below name ih =>
    rw [← List.append_assoc]
    by_contra hsome
    have hdir := t.parent _ name (Option.isSome_iff_ne_none.mpr hsome)
    rw [ih] at hdir
    cases hdir

theorem Open.made (h : Open t false place) : Open t true place := by
  refine ⟨h.1, fun pre hpre => ?_⟩
  rcases h.2 pre hpre with hdir | ⟨hfalse, -⟩
  · exact .inl hdir
  · cases hfalse

/-- Names that are not there can be made. -/
theorem Open.make (h : Open t false place) (hplain : ∀ n ∈ name :: rest, Plain n)
    (hnone : t.entry (place ++ [name]) = none) : Open t true (place ++ name :: rest) := by
  induction rest using List.reverseRecOn with
  | nil => exact h.made.snoc (hplain name (List.mem_singleton_self _)) (.inr ⟨rfl, hnone⟩)
  | append_singleton rest last ih =>
    have hassoc : place ++ name :: (rest ++ [last]) = (place ++ name :: rest) ++ [last] := by simp
    have hbelow : place ++ name :: (rest ++ [last]) = (place ++ [name]) ++ (rest ++ [last]) := by simp
    rw [hassoc]
    refine (ih fun n hn => hplain n ?_).snoc (hplain last (by simp)) (.inr ⟨rfl, ?_⟩)
    · rw [← List.cons_append]
      exact List.mem_append_left _ hn
    · rw [← hassoc, hbelow]
      exact entry_below hnone

theorem Settled.entry (h : Settled t false loc) : t.entry loc = some .dir ∨ t.entry loc = some .file := by
  rcases h with hopen | ⟨place, name, -, -, -, hfile⟩
  · rcases hopen.2 loc List.prefix_rfl with hdir | ⟨hfalse, -⟩
    · exact .inl hdir
    · cases hfalse
  · exact .inr hfile

theorem Settled.before (h : Settled t create (place ++ name :: rest)) :
    t.entry place = some .dir ∨ (create = true ∧ t.entry place = none) := by
  rcases h with hopen | ⟨init, last, heq, hopen, -⟩
  · exact hopen.2 place (List.prefix_append _ _)
  · have hprefix : place <+: init := by
      have hplace : place <+: init ++ [last] := heq ▸ List.prefix_append _ _
      refine List.prefix_of_prefix_length_le hplace (List.prefix_append _ _) ?_
      have hlength := congrArg List.length heq
      simp only [List.length_append, List.length_cons, List.length_nil] at hlength
      omega
    exact hopen.2 place hprefix

/-- No part of a settled place is a link. -/
theorem Settled.not_link {target : String} (h : Settled t create (place ++ rest)) :
    t.entry place ≠ some (.link target) := by
  intro hlink
  cases rest with
  | nil =>
    rw [List.append_nil] at h
    rcases h with hopen | ⟨_, _, -, -, -, hfile⟩
    · rcases hopen.2 place List.prefix_rfl with hdir | ⟨-, hnone⟩
      · rw [hlink] at hdir
        cases hdir
      · rw [hlink] at hnone
        cases hnone
    · rw [hlink] at hfile
      cases hfile
  | cons name rest =>
    rcases h.before with hdir | ⟨-, hnone⟩
    · rw [hlink] at hdir
      cases hdir
    · rw [hlink] at hnone
      cases hnone

end Places

/-! ## Names -/

section Names

variable {base rest target : Path}

theorem normalize_plain (h : ∀ n ∈ rest, Plain n) : normalize base rest = base ++ rest := by
  induction rest generalizing base with
  | nil => simp [normalize]
  | cons name rest ih =>
    obtain ⟨hname, hrest⟩ := List.forall_mem_cons.mp h
    rw [normalize, if_neg hname.1, if_neg hname.2, ih hrest, List.append_assoc, List.singleton_append]

theorem plain_normalize (h : ∀ n ∈ base, Plain n) : ∀ n ∈ normalize base rest, Plain n := by
  induction rest generalizing base with
  | nil => exact h
  | cons name rest ih =>
    rw [normalize]
    split_ifs with hstay hup
    · exact ih h
    · exact ih fun n hn => h n (List.dropLast_subset base hn)
    · refine ih fun n hn => ?_
      rcases List.mem_append.mp hn with hn | hn
      · exact h n hn
      · exact List.mem_singleton.mp hn ▸ ⟨hstay, hup⟩

theorem plain_resolve {text : String} (h : ∀ n ∈ base, Plain n) : ∀ n ∈ resolve base text, Plain n := by
  refine plain_normalize ?_
  unfold start
  split_ifs
  · simp
  · exact h

/-- **The way** goes up first, unless it stays below. -/
theorem relative_cases (base target : Path) :
    (∃ rest, target = base ++ rest ∧ relative base target = rest) ∨ (relative base target).head? = some ".." := by
  induction base generalizing target with
  | nil => exact .inl ⟨target, rfl, by cases target <;> rfl⟩
  | cons name base ih =>
    cases target with
    | nil => exact .inr rfl
    | cons name' target =>
      by_cases heq : name = name'
      · subst heq
        have hrel : relative (name :: base) (name :: target) = relative base target := if_pos rfl
        rw [hrel]
        rcases ih target with ⟨rest, rfl, hrest⟩ | hup
        · exact .inl ⟨rest, rfl, hrest⟩
        · exact .inr hup
      · right
        rw [relative, if_neg heq]
        rfl

theorem relative_append : relative base (base ++ rest) = rest := by
  induction base with
  | nil => cases rest <;> rfl
  | cons name base ih => exact (if_pos rfl).trans ih

end Names

end Vellar.FileTree
