import Vellar.Lib.Checked
import Vellar.Lib.FileTree
import Vellar.Worker.JsText

/-!
# Vellar.Worker.ImportPath — import paths stay inside the crate

`resolveThroughSymlinks` and `resolveImportPathWithinCrate` of `services/worker-service/src/import-validation.ts`, over any
tree of files with links.  An absolute path is the list of its names.  `import_paths_iff`: what is accepted leads into the
crate and what leads into the crate is accepted, exactly for the paths that meet no link to nothing and whose names read the
same as the tree does.
-/

set_option autoImplicit false

namespace Vellar.Worker

open Checked FileTree

structure ImportPathError where
  message : String
  importPath : String
deriving DecidableEq

section Model

variable (t : Tree) (maxLinks : ℕ)

/-- The real path of what exists, with `ELOOP` after so many links. -/
def realpathSync (path : Path) : Option Path := walk t false maxLinks [] path

/-- The loop of `resolveThroughSymlinks`: `current` from its last name on, and the names taken off. -/
def resolveThroughSymlinksFrom : Path → Path → Path
  | [], suffix =>
    match realpathSync t maxLinks [] with
    | some real => normalize real suffix
    | none => normalize [] suffix
  | basename :: parent, suffix =>
    match realpathSync t maxLinks (basename :: parent).reverse with
    | some real => normalize real suffix
    | none => resolveThroughSymlinksFrom parent (basename :: suffix)

def resolveThroughSymlinks (target : Path) : Path := resolveThroughSymlinksFrom t maxLinks target.reverse []

/-- `rel.startsWith("..")`, by the first name. -/
def startsWithDots (name : String) : Bool := ['.', '.'].isPrefixOf name.toList

/-- The check of a relative path, which is never absolute here. -/
def leaves : Path → Bool
  | [] => true
  | name :: _ => startsWithDots name

def resolveImportPathWithinCrate (cwd : Path) (crateDir importPath : String) : Except ImportPathError Path := do
  ensure (trim importPath ≠ "") ⟨"import path must be a non-empty string", importPath⟩
  ensure (isAbsolute importPath = false)
    ⟨"import path must be relative to the crate directory, got an absolute path: " ++ importPath, importPath⟩
  let crateRoot := resolve cwd crateDir
  let resolved := resolve crateRoot importPath
  ensure (leaves (relative crateRoot resolved) = false)
    ⟨"import path resolves outside the crate directory: " ++ importPath, importPath⟩
  let realCrate := resolveThroughSymlinks t maxLinks crateRoot
  let realImport := resolveThroughSymlinks t maxLinks resolved
  ensure (leaves (relative realCrate realImport) = false)
    ⟨"import path resolves outside the crate directory via symlink: " ++ importPath, importPath⟩
  return realImport

/-! ## What import paths must keep to -/

/-- Strictly inside. -/
def Inside (root loc : Path) : Prop := root <+: loc ∧ loc ≠ root

/-- The crate directory leads to the root, also in its normal form. -/
structure Crate (cwd : Path) (crateDir : String) (root : Path) : Prop where
  real : Open t false cwd
  leads : Leads t false (start cwd crateDir) (segments crateDir) root
  normal : realpathSync t maxLinks (resolve cwd crateDir) = some root
  dir : t.entry root = some .dir

/-- What is returned leads into the crate, and what leads there is returned. -/
structure Kept (cwd : Path) (crateDir importPath : String) (root : Path) : Prop where
  safe : ∀ p, resolveImportPathWithinCrate t maxLinks cwd crateDir importPath = .ok p →
    ∃ loc, Leads t true [] p loc ∧ Inside root loc
  accepted : isAbsolute importPath = false → ∀ loc, Leads t true root (segments importPath) loc → Inside root loc →
    resolveImportPathWithinCrate t maxLinks cwd crateDir importPath = .ok loc

/-! ## When they do -/

/-- Below the base, by a name that does not begin with two dots. -/
def Below (base path : Path) : Prop := ∃ name rest, path = base ++ name :: rest ∧ startsWithDots name = false

/-- The path is there up to the place, and not with the next name. -/
def StopsAt (path place : Path) (name : String) (rest : Path) : Prop :=
  ∃ pre, path = pre ++ name :: rest ∧ realpathSync t maxLinks pre = some place ∧
    realpathSync t maxLinks (pre ++ [name]) = none

/-- The next name is no missing name of a directory: it is a link to nothing, or the place is a file. -/
def Blocked (place : Path) (name : String) : Prop := t.entry place = some .dir → t.entry (place ++ [name]) ≠ none

/-- The path meets nothing that blocks. -/
def Unblocked (path : Path) : Prop := ∀ place name rest, StopsAt t maxLinks path place name rest → ¬ Blocked t place name

/-- What blocks a path inside the crate leads into it, and a path that leads into the crate is one in its names too and is
not blocked. -/
structure Regular (cwd : Path) (crateDir importPath : String) (root : Path) : Prop where
  blocked : trim importPath ≠ "" → isAbsolute importPath = false →
    Below (resolve cwd crateDir) (resolve (resolve cwd crateDir) importPath) → ∀ place name rest,
    StopsAt t maxLinks (resolve (resolve cwd crateDir) importPath) place name rest → Blocked t place name →
    Below root (place ++ name :: rest) →
    ∃ loc, Leads t true [] (resolve (resolve cwd crateDir) importPath) loc ∧ Inside root loc
  inside : isAbsolute importPath = false → ∀ loc, Leads t true root (segments importPath) loc → Inside root loc →
    trim importPath ≠ "" ∧ Below (resolve cwd crateDir) (resolve (resolve cwd crateDir) importPath) ∧ Below root loc ∧
    Leads t true [] (resolve (resolve cwd crateDir) importPath) loc ∧
    Unblocked t maxLinks (resolve (resolve cwd crateDir) importPath)

end Model

/-! ## Paths through links -/

section Paths

variable {t : Tree} {maxLinks : ℕ} {path place rest loc root : Path} {name : String}

variable (t maxLinks) in
theorem resolveThroughSymlinksFrom_cases {current suffix : Path} (hsuffix : ∀ n ∈ suffix, Plain n)
    (hcurrent : ∀ n ∈ current, Plain n) :
    (∃ real, realpathSync t maxLinks current.reverse = some real ∧
      resolveThroughSymlinksFrom t maxLinks current suffix = real ++ suffix) ∨
    ∃ place name rest, StopsAt t maxLinks current.reverse place name rest ∧
      resolveThroughSymlinksFrom t maxLinks current suffix = place ++ name :: rest ++ suffix := by
  induction current generalizing suffix with
  | nil =>
    have hroot : realpathSync t maxLinks [] = some [] := walk_nil
    refine .inl ⟨[], hroot, ?_⟩
    rw [resolveThroughSymlinksFrom, hroot]
    exact normalize_plain hsuffix
  | cons basename parent ih =>
    obtain ⟨hbasename, hparent⟩ := List.forall_mem_cons.mp hcurrent
    rw [resolveThroughSymlinksFrom]
    cases hreal : realpathSync t maxLinks (basename :: parent).reverse with
    | some real => exact .inl ⟨real, rfl, normalize_plain hsuffix⟩
    | none =>
      right
      rw [List.reverse_cons] at hreal ⊢
      rcases ih (List.forall_mem_cons.mpr ⟨hbasename, hsuffix⟩) hparent with
        ⟨real, hparentReal, heq⟩ | ⟨place, name, rest, ⟨pre, hpre, hplace, hnone⟩, heq⟩
      · refine ⟨real, basename, [], ⟨parent.reverse, rfl, hparentReal, hreal⟩, ?_⟩
        rw [heq, List.append_assoc]
        rfl
      · refine ⟨place, name, rest ++ [basename], ⟨pre, ?_, hplace, hnone⟩, ?_⟩
        · rw [hpre, List.append_assoc]
          rfl
        · rw [heq]
          simp

variable (t maxLinks) in
/-- **What is resolved** is the real path, or the real path of the last part that is there with the names after it. -/
theorem resolveThroughSymlinks_cases (hplain : ∀ n ∈ path, Plain n) :
    realpathSync t maxLinks path = some (resolveThroughSymlinks t maxLinks path) ∨
    ∃ place name rest, StopsAt t maxLinks path place name rest ∧
      resolveThroughSymlinks t maxLinks path = place ++ name :: rest := by
  have hreverse : ∀ n ∈ path.reverse, Plain n := fun n hn => hplain n (List.mem_reverse.mp hn)
  have hcases := resolveThroughSymlinksFrom_cases t maxLinks (List.forall_mem_nil Plain) hreverse
  rw [List.reverse_reverse] at hcases
  rcases hcases with ⟨real, hreal, heq⟩ | ⟨place, name, rest, hstops, heq⟩
  · left
    rw [hreal, resolveThroughSymlinks, heq, List.append_nil]
  · exact .inr ⟨place, name, rest, hstops, by rw [resolveThroughSymlinks, heq, List.append_nil]⟩

theorem settled_real (h : realpathSync t maxLinks path = some place) : Settled t false place :=
  Leads.settled open_root ⟨maxLinks, h⟩

theorem open_real (h : realpathSync t maxLinks path = some place) (hdir : t.entry place = some .dir) :
    Open t false place := by
  rcases settled_real h with hopen | ⟨_, _, -, -, -, hfile⟩
  · exact hopen
  · rw [hdir] at hfile
    cases hfile

/-- Following what is resolved leads where the path leads. -/
theorem leads_resolveThroughSymlinks (hplain : ∀ n ∈ path, Plain n) :
    Leads t true [] (resolveThroughSymlinks t maxLinks path) loc ↔ Leads t true [] path loc := by
  rcases resolveThroughSymlinks_cases t maxLinks hplain with
    hreal | ⟨place, name, rest, ⟨pre, rfl, hplace, -⟩, heq⟩
  · have hpath : Leads t true [] path (resolveThroughSymlinks t maxLinks path) := Leads.of_existing ⟨maxLinks, hreal⟩
    have hself : Leads t true [] (resolveThroughSymlinks t maxLinks path) (resolveThroughSymlinks t maxLinks path) :=
      Leads.of_existing ⟨maxLinks, (settled_real hreal).leads_self⟩
    constructor
    · intro h
      exact hself.unique h ▸ hpath
    · intro h
      exact hpath.unique h ▸ hself
  · rw [heq]
    have hself : walk t false maxLinks [] place = some place := (settled_real hplace).leads_self
    rcases (settled_real hplace).entry with hdir | hfile
    · rw [leads_append hself hdir, leads_append hplace hdir]
    · exact iff_of_false (not_leads_file open_root hself hfile (List.cons_ne_nil _ _))
        (not_leads_file open_root hplace hfile (List.cons_ne_nil _ _))

/-- A path that is not blocked leads to what is resolved. -/
theorem Unblocked.leads (hplain : ∀ n ∈ path, Plain n) (h : Unblocked t maxLinks path) :
    Leads t true [] path (resolveThroughSymlinks t maxLinks path) := by
  rcases resolveThroughSymlinks_cases t maxLinks hplain with
    hreal | ⟨place, name, rest, hstops, heq⟩
  · exact Leads.of_existing ⟨maxLinks, hreal⟩
  · have hfree := h place name rest hstops
    obtain ⟨pre, rfl, hplace, -⟩ := hstops
    obtain ⟨hdir, hnone⟩ : t.entry place = some .dir ∧ t.entry (place ++ [name]) = none := by
      simpa only [Blocked, Classical.not_imp, not_not] using hfree
    have hopen : Open t true (place ++ name :: rest) :=
      (open_real hplace hdir).make (fun n hn => hplain n (List.mem_append_right _ hn)) hnone
    rw [← leads_resolveThroughSymlinks hplain, heq]
    exact ⟨0, Settled.leads_self (.inl hopen)⟩

/-- What is real is so up to each of its names. -/
theorem realpathSync_parent {pre : Path} (hnone : realpathSync t maxLinks (pre ++ [name]) = none) :
    realpathSync t maxLinks (pre ++ name :: rest) = none := by
  by_contra hsome
  obtain ⟨loc, hloc⟩ := Option.ne_none_iff_exists'.mp hsome
  have hwhole : walk t false maxLinks [] (pre ++ [name] ++ rest) = some loc := by rwa [List.append_assoc]
  have hpre := walk_prefix hwhole
  rw [realpathSync] at hnone
  rw [hnone] at hpre
  cases hpre

theorem StopsAt.not_real (h : StopsAt t maxLinks path place name rest) : realpathSync t maxLinks path = none := by
  obtain ⟨pre, rfl, -, hnone⟩ := h
  exact realpathSync_parent hnone

/-- A path stops at one place. -/
theorem StopsAt.unique {place' : Path} {name' : String} {rest' : Path} (h : StopsAt t maxLinks path place name rest)
    (h' : StopsAt t maxLinks path place' name' rest') : place = place' ∧ name = name' ∧ rest = rest' := by
  obtain ⟨pre, rfl, hplace, hnone⟩ := h
  obtain ⟨pre', heq, hplace', hnone'⟩ := h'
  obtain rfl : pre = pre' := by
    rcases List.append_eq_append_iff.mp heq with ⟨between, rfl, hrest⟩ | ⟨between, rfl, hrest⟩
    · rcases List.cons_eq_append_iff.mp hrest with ⟨rfl, -⟩ | ⟨between, rfl, -⟩
      · rw [List.append_nil]
      · rw [realpathSync_parent hnone] at hplace'
        cases hplace'
    · rcases List.cons_eq_append_iff.mp hrest with ⟨rfl, -⟩ | ⟨between, rfl, -⟩
      · rw [List.append_nil]
      · rw [realpathSync_parent hnone'] at hplace
        cases hplace
  obtain ⟨hname, hrest⟩ := List.cons_eq_cons.mp (List.append_cancel_left heq)
  exact ⟨Option.some.inj (hplace.symm.trans hplace'), hname, hrest⟩

theorem StopsAt.resolved (hplain : ∀ n ∈ path, Plain n) (h : StopsAt t maxLinks path place name rest) :
    resolveThroughSymlinks t maxLinks path = place ++ name :: rest := by
  rcases resolveThroughSymlinks_cases t maxLinks hplain with
    hreal | ⟨place', name', rest', hstops', heq⟩
  · cases h.not_real.symm.trans hreal
  · obtain ⟨rfl, rfl, rfl⟩ := h.unique hstops'
    exact heq

/-- **A blocked path** is not resolved to where a path leads. -/
theorem unblocked_of_settled (hplain : ∀ n ∈ path, Plain n)
    (h : Settled t true (resolveThroughSymlinks t maxLinks path)) : Unblocked t maxLinks path := by
  intro place name rest hstops hblocked
  rw [hstops.resolved hplain] at h
  obtain ⟨pre, rfl, hplace, hnone⟩ := hstops
  have hname : Plain name := hplain name (by simp)
  have hdir : t.entry place = some .dir := by
    rcases (settled_real hplace).entry with hdir | hfile
    · exact hdir
    · rcases h.before with hdir | ⟨-, hmissing⟩
      · exact hdir
      · rw [hfile] at hmissing
        cases hmissing
  have hwalk : ∀ links, walk t false links place [name] = some (place ++ [name]) := by
    intro links
    cases he : t.entry (place ++ [name]) with
    | none => exact absurd he (hblocked hdir)
    | some e =>
      cases e with
      | dir => rw [walk_dir hname he, walk_nil]
      | file => rw [walk_file hname he, if_pos rfl]
      | link target =>
        have hsplit : Settled t true (place ++ [name] ++ rest) := by rwa [List.append_assoc]
        exact absurd he hsplit.not_link
  have hsome := walk_append hplace hdir hwalk
  rw [realpathSync] at hnone
  rw [hnone] at hsome
  cases hsome

theorem startsWithDots_up : startsWithDots ".." = true := by decide

theorem leaves_iff : leaves (relative root path) = false ↔ Below root path := by
  constructor
  · intro hstays
    rcases relative_cases root path with ⟨rest, rfl, hrest⟩ | hup
    · rw [hrest] at hstays
      cases rest with
      | nil => cases hstays
      | cons name rest => exact ⟨name, rest, rfl, hstays⟩
    · cases hrel : relative root path with
      | nil =>
        rw [hrel] at hup
        cases hup
      | cons name rest =>
        rw [hrel] at hup hstays
        obtain rfl := Option.some.inj hup
        cases startsWithDots_up.symm.trans hstays
  · rintro ⟨name, rest, rfl, hdots⟩
    rw [relative_append]
    exact hdots

end Paths

/-! ## The crate -/

section Crates

variable {t : Tree} {maxLinks : ℕ} {cwd root p : Path} {crateDir importPath : String}

theorem Crate.plain (h : Crate t maxLinks cwd crateDir root) :
    ∀ n ∈ resolve (resolve cwd crateDir) importPath, Plain n := plain_resolve (plain_resolve h.real.1)

theorem Crate.resolved (h : Crate t maxLinks cwd crateDir root) :
    resolveThroughSymlinks t maxLinks (resolve cwd crateDir) = root := by
  have hplain : ∀ n ∈ resolve cwd crateDir, Plain n := plain_resolve h.real.1
  rcases resolveThroughSymlinks_cases t maxLinks hplain with
    hreal | ⟨place, name, rest, hstops, -⟩
  · exact Option.some.inj (hreal.symm.trans h.normal)
  · cases hstops.not_real.symm.trans h.normal

/-- **What is accepted**: a relative path that stays below the crate, in its names and in what they resolve to. -/
theorem Crate.ok_iff (h : Crate t maxLinks cwd crateDir root) :
    resolveImportPathWithinCrate t maxLinks cwd crateDir importPath = .ok p ↔
      trim importPath ≠ "" ∧ isAbsolute importPath = false ∧
      Below (resolve cwd crateDir) (resolve (resolve cwd crateDir) importPath) ∧ Below root p ∧
      resolveThroughSymlinks t maxLinks (resolve (resolve cwd crateDir) importPath) = p := by
  unfold resolveImportPathWithinCrate
  simp only [check_bind_ok, ensure_ok, pure_ok, leaves_iff, h.resolved]
  constructor
  · rintro ⟨hblank, hrelative, hbelow, hreal, rfl⟩
    exact ⟨hblank, hrelative, hbelow, hreal, rfl⟩
  · rintro ⟨hblank, hrelative, hbelow, hreal, rfl⟩
    exact ⟨hblank, hrelative, hbelow, hreal, rfl⟩

theorem Below.inside {base path : Path} (h : Below base path) : Inside base path := by
  obtain ⟨name, rest, rfl, -⟩ := h
  exact ⟨List.prefix_append _ _, fun heq => List.cons_ne_nil _ _ (List.append_right_eq_self.mp heq)⟩

/-- **Import paths**: what is accepted leads strictly into the crate, and every relative path that leads strictly into the
crate is accepted and resolved to where it leads, exactly for the regular ones. -/
theorem import_paths_iff (t : Tree) (maxLinks : ℕ) (cwd : Path) (crateDir importPath : String) (root : Path)
    (h : Crate t maxLinks cwd crateDir root) :
    Kept t maxLinks cwd crateDir importPath root ↔ Regular t maxLinks cwd crateDir importPath root := by
  constructor
  · rintro ⟨hsafe, haccepted⟩
    constructor
    · intro hblank hrelative hbelow place name rest hstops hblocked hreal
      have heq := hstops.resolved h.plain
      obtain ⟨loc, hloc, hinside⟩ := hsafe _ (h.ok_iff.mpr ⟨hblank, hrelative, hbelow, heq ▸ hreal, rfl⟩)
      exact ⟨loc, (leads_resolveThroughSymlinks h.plain).mp hloc, hinside⟩
    · intro hrelative loc hleads hinside
      obtain ⟨hblank, -, hbelow, hreal, heq⟩ := h.ok_iff.mp (haccepted hrelative loc hleads hinside)
      have hroot : Open t true root := (open_real h.normal h.dir).made
      have hfree := unblocked_of_settled h.plain (heq ▸ hleads.settled hroot)
      exact ⟨hblank, hbelow, hreal, heq ▸ hfree.leads h.plain, hfree⟩
  · intro hregular
    constructor
    · intro p hp
      obtain ⟨hblank, hrelative, hbelow, hreal, rfl⟩ := h.ok_iff.mp hp
      by_cases hfree : Unblocked t maxLinks (resolve (resolve cwd crateDir) importPath)
      · exact ⟨_, (leads_resolveThroughSymlinks h.plain).mpr (hfree.leads h.plain), hreal.inside⟩
      · simp only [Unblocked, not_forall, not_not] at hfree
        obtain ⟨place, name, rest, hstops, hblocked⟩ := hfree
        obtain ⟨loc, hloc, hinside⟩ :=
          hregular.blocked hblank hrelative hbelow place name rest hstops hblocked (hstops.resolved h.plain ▸ hreal)
        exact ⟨loc, (leads_resolveThroughSymlinks h.plain).mpr hloc, hinside⟩
    · intro hrelative loc hleads hinside
      obtain ⟨hblank, hbelow, hreal, hresolved, hfree⟩ := hregular.inside hrelative loc hleads hinside
      exact h.ok_iff.mpr ⟨hblank, hrelative, hbelow, hreal, hresolved.unique (hfree.leads h.plain)⟩

end Crates

/-! ## A crate with a link to nothing -/

/-- A crate with a source, a link to nothing outside, and a directory whose name begins with two dots. -/
def sampleTree : Tree :=
  Tree.ofTable
    [([], .dir), (["crate"], .dir), (["crate", "src"], .dir), (["crate", "src", "lib.rs"], .file),
      (["crate", "new"], .link "/outside/new"), (["crate", "..cache"], .dir), (["outside"], .dir)]
    (by decide) (by decide)

theorem sampleTree_crate : Crate sampleTree 40 [] "/crate" ["crate"] :=
  ⟨open_root, ⟨40, by decide⟩, by decide, by decide⟩

/-- The source is regular: it is accepted and resolved to where it is. -/
theorem import_paths_iff_source : Kept sampleTree 40 [] "/crate" "src/lib.rs" ["crate"] := by
  have hreal : realpathSync sampleTree 40 (resolve (resolve [] "/crate") "src/lib.rs") = some ["crate", "src", "lib.rs"] := by
    decide
  have hnever : ∀ place name rest,
      ¬ StopsAt sampleTree 40 (resolve (resolve [] "/crate") "src/lib.rs") place name rest := by
    intro place name rest hstops
    cases hstops.not_real.symm.trans hreal
  have hleads : Leads sampleTree true ["crate"] (segments "src/lib.rs") ["crate", "src", "lib.rs"] := ⟨0, by decide⟩
  refine (import_paths_iff _ _ _ _ _ _ sampleTree_crate).mpr ⟨?_, ?_⟩
  · intro _ _ _ place name rest hstops
    exact absurd hstops (hnever place name rest)
  · intro _ loc hloc _
    obtain rfl := hleads.unique hloc
    refine ⟨by decide, ⟨"src", ["lib.rs"], by decide, by decide⟩, ⟨"src", ["lib.rs"], rfl, by decide⟩,
      Leads.of_existing ⟨40, hreal⟩, fun place name rest hstops => absurd hstops (hnever place name rest)⟩

/-- A link to a file that is not there yet is accepted and leads out of the crate; a directory whose name begins with two
dots is in the crate and refused. -/
theorem link_to_nothing_escapes :
    resolveImportPathWithinCrate sampleTree 40 [] "/crate" "new" = .ok ["crate", "new"] ∧
    Leads sampleTree true [] ["crate", "new"] ["outside", "new"] ∧
    ¬ Kept sampleTree 40 [] "/crate" "new" ["crate"] ∧ ¬ Kept sampleTree 40 [] "/crate" "..cache" ["crate"] := by
  have haccepted : resolveImportPathWithinCrate sampleTree 40 [] "/crate" "new" = .ok ["crate", "new"] := by decide
  have hleads : Leads sampleTree true [] ["crate", "new"] ["outside", "new"] := ⟨1, by decide⟩
  refine ⟨haccepted, hleads, fun h => ?_, fun h => ?_⟩
  · obtain ⟨loc, hloc, hprefix, -⟩ := h.safe _ haccepted
    obtain rfl := hleads.unique hloc
    revert hprefix
    decide
  · have hok := h.accepted (by decide) ["crate", "..cache"] ⟨0, by decide⟩ ⟨by decide, by decide⟩
    revert hok
    decide

end Vellar.Worker
