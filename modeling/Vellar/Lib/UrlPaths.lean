import Vellar.Lib.UrlParser

/-!
# Vellar.Lib.UrlPaths — what a URL has behind its host

A URL with a host has the segments of what follows it (`parse_host`), and more of them when more is written behind
(`parse_append`).  The first segment that is not empty stays the first one (`lead_behind`), unless what is written runs
into it (`lead_gap`).  A serialized host with a plain segment is read as it is (`parse_plain`).
-/

set_option autoImplicit false

namespace Vellar.UrlParser

/-! ## Segments -/

section Segments

/-- Printable, without a slash. -/
def Plain (seg : Chars) : Prop := ∀ c ∈ seg, 0x20 < c.toNat ∧ c.toNat < 0x7f ∧ c ≠ '/'

theorem mem_splitOnP {p : Char → Bool} {cs seg : Chars} (hseg : seg ∈ cs.splitOnP p) : ∀ c ∈ seg, p c = false := by
  induction cs generalizing seg with
  | nil =>
    rw [List.splitOnP_nil, List.mem_singleton] at hseg
    simp [hseg]
  | cons c cs ih =>
    rw [List.splitOnP_cons_eq_if_modifyHead] at hseg
    split_ifs at hseg with hc
    · rcases List.mem_cons.mp hseg with rfl | hmem
      · simp
      · exact ih hmem
    · cases hsplit : cs.splitOnP p with
      | nil =>
        rw [hsplit] at hseg
        cases hseg
      | cons seg' segs =>
        rw [hsplit, List.modifyHead_cons] at hseg
        rcases List.mem_cons.mp hseg with rfl | hmem
        · intro d hd
          rcases List.mem_cons.mp hd with rfl | hd
          · exact Bool.eq_false_iff.mpr hc
          · exact ih (hsplit ▸ List.mem_cons_self) d hd
        · exact ih (hsplit ▸ List.mem_cons_of_mem _ hmem)

theorem plain_escape (b : UInt8) : Plain (escape b) := by
  have hdigit : ∀ n < 16, 0x20 < (hexDigit n).toNat ∧ (hexDigit n).toNat < 0x7f ∧ hexDigit n ≠ '/' := by decide
  have hb : b.toNat < 256 := b.toNat_lt
  intro c hc
  simp only [escape, List.mem_cons, List.not_mem_nil, or_false] at hc
  rcases hc with rfl | rfl | rfl
  · decide
  · exact hdigit _ (by omega)
  · exact hdigit _ (by omega)

theorem plain_encode {seg : Chars} (hseg : '/' ∉ seg) : Plain (encode inPathSet seg) := by
  intro c hc
  obtain ⟨d, hd, hc⟩ := List.mem_flatMap.mp hc
  rw [encodeChar] at hc
  split_ifs at hc with hset
  · obtain ⟨b, -, hc⟩ := List.mem_flatMap.mp hc
    exact plain_escape b c hc
  · rw [List.mem_singleton] at hc
    subst hc
    have hne : c ≠ '/' := fun h => hseg (h ▸ hd)
    have hspace : c ≠ ' ' := fun h => hset (by rw [h]; rfl)
    have hsixteen : c.toNat ≠ 0x20 := fun h => hspace (Char.toNat_inj.mp h)
    rw [inPathSet, inControlSet, Bool.or_eq_true, Bool.or_eq_true, decide_eq_true_eq, decide_eq_true_eq] at hset
    refine ⟨?_, ?_, hne⟩ <;> omega

theorem plain_segment (k : Kind) (path : List Chars) {seg : Chars} (hseg : '/' ∉ seg) : Plain (segment k path seg) := by
  have hplain := plain_encode hseg
  unfold segment
  split_ifs
  · intro c hc
    rcases List.mem_append.mp hc with hc | hc
    · exact hplain c (List.mem_of_mem_take hc)
    · rw [List.mem_singleton] at hc
      subst hc
      decide
  · exact hplain

theorem mem_shorten {k : Kind} {path : List Chars} {seg : Chars} (h : seg ∈ shorten k path) : seg ∈ path := by
  unfold shorten at h
  split_ifs at h
  · exact h
  · exact List.mem_of_mem_dropLast h

theorem mem_midStep {k : Kind} {path : List Chars} {seg x : Chars} (h : x ∈ midStep k path seg) :
    x ∈ path ∨ x = segment k path seg := by
  unfold midStep at h
  split_ifs at h
  · exact Or.inl (mem_shorten h)
  · exact Or.inl h
  · simpa using h

theorem mem_lastStep {k : Kind} {path : List Chars} {seg x : Chars} (h : x ∈ lastStep k path seg) :
    x ∈ path ∨ x = [] ∨ x = segment k path seg := by
  unfold lastStep at h
  split_ifs at h
  · rcases List.mem_append.mp h with h | h
    · exact Or.inl (mem_shorten h)
    · exact Or.inr (Or.inl (List.mem_singleton.mp h))
  · rcases List.mem_append.mp h with h | h
    · exact Or.inl h
    · exact Or.inr (Or.inl (List.mem_singleton.mp h))
  · rcases List.mem_append.mp h with h | h
    · exact Or.inl h
    · exact Or.inr (Or.inr (List.mem_singleton.mp h))

theorem plain_resolvePath (k : Kind) {segs : List Chars} (hsegs : ∀ seg ∈ segs, '/' ∉ seg) :
    ∀ seg ∈ resolvePath k segs, Plain seg := by
  have hfold : ∀ (todo path : List Chars), (∀ seg ∈ todo, '/' ∉ seg) → (∀ seg ∈ path, Plain seg) →
      ∀ seg ∈ todo.foldl (midStep k) path, Plain seg := by
    intro todo
    induction todo with
    | nil => exact fun path _ hpath => hpath
    | cons seg todo ih =>
      intro path htodo hpath
      refine ih _ (fun x hx => htodo x (List.mem_cons_of_mem _ hx)) fun x hx => ?_
      rcases mem_midStep hx with hx | rfl
      · exact hpath x hx
      · exact plain_segment k path (htodo seg List.mem_cons_self)
  intro seg hseg
  rcases mem_lastStep hseg with hmem | rfl | rfl
  · exact hfold _ [] (fun x hx => hsegs x (List.mem_of_mem_dropLast hx)) (by simp) seg hmem
  · simp [Plain]
  · refine plain_segment k _ ?_
    cases hlast : segs.getLast? with
    | none => simp
    | some x => exact hsegs x (List.mem_of_getLast? hlast)

theorem plain_pathSegments (k : Kind) (tail : Chars) : ∀ seg ∈ pathSegments k tail, Plain seg := by
  unfold pathSegments
  split_ifs
  · simp
  · refine plain_resolvePath k fun seg hseg hmem => ?_
    have := mem_splitOnP hseg '/' hmem
    simp [isSlash] at this

/-- Segments that are written behind a text are told apart. -/
theorem splitOnP_flatMap {p : Char → Bool} (hslash : p '/' = true) (w : Chars) {segs : List Chars}
    (hsegs : ∀ seg ∈ segs, ∀ c ∈ seg, p c = false) :
    (w ++ segs.flatMap ('/' :: ·)).splitOnP p = w.splitOnP p ++ segs := by
  induction segs generalizing w with
  | nil => simp
  | cons seg segs ih =>
    have hseg := List.splitOnP_eq_singleton (hsegs seg List.mem_cons_self)
    rw [List.flatMap_cons, List.cons_append, List.splitOnP_append_cons _ _ hslash,
      ih seg fun x hx => hsegs x (List.mem_cons_of_mem _ hx), hseg]
    rfl

theorem splitOn_pathname {path : List Chars} (hpath : ∀ seg ∈ path, Plain seg) :
    (path.flatMap ('/' :: ·)).splitOn '/' = [] :: path := by
  have := @splitOnP_flatMap (· == '/') rfl [] path fun seg hseg c hc =>
    beq_eq_false_iff_ne.mpr (hpath seg hseg c hc).2.2
  rwa [List.nil_append, List.splitOnP_nil] at this

end Segments

/-! ## What follows the host -/

section Behind

/-- The first segment that is not empty. -/
def lead (path : List Chars) : Option Chars := path.find? (· ≠ [])

theorem lead_append (p q : List Chars) : lead (p ++ q) = (lead p).or (lead q) := List.find?_append

theorem lead_append_of {p : List Chars} {o : Chars} (h : lead p = some o) (q : List Chars) : lead (p ++ q) = some o := by
  rw [lead_append, h, Option.some_or]

theorem lead_snoc_nil (p : List Chars) : lead (p ++ [[]]) = lead p := by
  rw [lead_append]
  exact Option.or_none

theorem lead_snoc {p : List Chars} (h : lead p = none) {seg : Chars} (hseg : seg ≠ []) : lead (p ++ [seg]) = some seg := by
  rw [lead_append, h, Option.none_or]
  simp [lead, hseg]

variable {k : Kind} {p : List Chars} {o seg : Chars}

theorem lead_of_shorten (h : lead (shorten k p) = some o) : lead p = some o := by
  unfold shorten at h
  split_ifs at h
  · exact h
  · rcases List.eq_nil_or_concat' p with rfl | ⟨init, last, rfl⟩
    · exact h
    · rw [List.dropLast_concat] at h
      exact lead_append_of h _

theorem lead_midStep (hp : lead p = some o) (hseg : isDoubleDot seg = false) : lead (midStep k p seg) = some o := by
  rw [midStep, hseg, if_neg Bool.false_ne_true]
  split_ifs
  · exact hp
  · exact lead_append_of hp _

theorem lead_lastStep (hp : lead p = some o) (hseg : isDoubleDot seg = false) : lead (lastStep k p seg) = some o := by
  rw [lastStep, hseg, if_neg Bool.false_ne_true]
  split_ifs
  · rwa [lead_snoc_nil]
  · exact lead_append_of hp _

/-- A slash behind the last segment keeps the first one. -/
theorem lead_midStep_of_last (h : lead (lastStep k p seg) = some o) : lead (midStep k p seg) = some o := by
  unfold lastStep at h
  unfold midStep
  split_ifs at h ⊢
  · rwa [lead_snoc_nil] at h
  · rwa [lead_snoc_nil] at h
  · exact h

/-- The first segment is there before the last one, or it is the last one. -/
theorem lead_lastStep_cases (h : lead (lastStep k p seg) = some o) :
    lead p = some o ∨ (lead p = none ∧ isDoubleDot seg = false ∧ isSingleDot seg = false ∧ o = segment k p seg) := by
  unfold lastStep at h
  split_ifs at h with hdouble hsingle
  · rw [lead_snoc_nil] at h
    exact Or.inl (lead_of_shorten h)
  · rw [lead_snoc_nil] at h
    exact Or.inl h
  · cases hp : lead p with
    | some x =>
      rw [lead_append_of hp] at h
      exact Or.inl h
    | none =>
      rw [lead_append, hp, Option.none_or] at h
      refine Or.inr ⟨rfl, Bool.eq_false_iff.mpr hdouble, Bool.eq_false_iff.mpr hsingle, ?_⟩
      have := List.mem_of_find?_eq_some h
      exact List.mem_singleton.mp this

theorem lead_foldl_midStep {segs : List Chars} (hp : lead p = some o) (hsegs : ∀ seg ∈ segs, isDoubleDot seg = false) :
    lead (segs.foldl (midStep k) p) = some o := by
  induction segs generalizing p with
  | nil => exact hp
  | cons seg segs ih =>
    exact ih (lead_midStep hp (hsegs seg List.mem_cons_self)) fun x hx => hsegs x (List.mem_cons_of_mem _ hx)

/-- What follows a first segment, without `..`, keeps it. -/
theorem lead_resolvePath {init segs : List Chars} {last : Chars} (hsegs : ∀ seg ∈ segs, isDoubleDot seg = false)
    (hmid : segs ≠ [] → lead (midStep k (init.foldl (midStep k) []) last) = some o)
    (hlast : segs = [] → lead (lastStep k (init.foldl (midStep k) []) last) = some o) :
    lead (resolvePath k (init ++ last :: segs)) = some o := by
  rcases List.eq_nil_or_concat' segs with rfl | ⟨segs, final, rfl⟩
  · rw [resolvePath, List.dropLast_concat, List.getLast?_concat]
    exact hlast rfl
  · have happ : init ++ last :: (segs ++ [final]) = (init ++ last :: segs) ++ [final] := by simp
    rw [happ, resolvePath, List.dropLast_concat, List.getLast?_concat, List.foldl_append, List.foldl_cons]
    refine lead_lastStep (lead_foldl_midStep (hmid (by simp)) fun x hx => hsegs x (List.mem_append_left _ hx)) ?_
    exact hsegs final (by simp)

end Behind

/-! ## Text around a text -/

section Around

variable {p : Char → Bool} {cs ds : Chars}

theorem rdropWhile_append_of (h : ds.rdropWhile p ≠ []) : (cs ++ ds).rdropWhile p = cs ++ ds.rdropWhile p := by
  have hne : ds.reverse.dropWhile p ≠ [] := fun hnil => h (by rw [List.rdropWhile, hnil, List.reverse_nil])
  rw [List.rdropWhile, List.reverse_append, List.dropWhile_append, if_neg (by simpa using hne), List.reverse_append,
    List.reverse_reverse, List.rdropWhile]

/-- No more is cut than what is behind. -/
theorem rdropWhile_append_none (h : ∀ c ∈ cs, p c = false) : (cs ++ ds).rdropWhile p = cs ++ ds.rdropWhile p := by
  by_cases hnil : ds.rdropWhile p = []
  · have hself : cs.rdropWhile p = cs := by
      rw [List.rdropWhile_eq_self_iff]
      intro hne
      rw [h _ (List.getLast_mem hne)]
      exact Bool.false_ne_true
    have hempty : ds.reverse.dropWhile p = [] := List.reverse_eq_nil_iff.mp hnil
    rw [hnil, List.append_nil, List.rdropWhile, List.reverse_append, List.dropWhile_append, hempty]
    exact hself
  · exact rdropWhile_append_of hnil

theorem dropWhile_append_of (h : cs.dropWhile p ≠ []) : (cs ++ ds).dropWhile p = cs.dropWhile p ++ ds := by
  rw [List.dropWhile_append, if_neg (by simpa using h)]

/-- What is cut in front is not cut behind. -/
theorem rtakeWhile_dropWhile (h : cs.dropWhile p ≠ []) : (cs.dropWhile p).rtakeWhile p = cs.rtakeWhile p := by
  have hlast : ∀ ds : Chars, (∃ c ∈ ds, p c = false) → (cs.takeWhile p ++ ds).rtakeWhile p = ds.rtakeWhile p := by
    intro ds ⟨c, hc, hpc⟩
    have hne : ds.reverse.takeWhile p ≠ ds.reverse := fun heq => by
      have hmem : c ∈ ds.reverse.takeWhile p := by rwa [heq, List.mem_reverse]
      rw [List.mem_takeWhile_imp hmem] at hpc
      cases hpc
    have hlen : (ds.reverse.takeWhile p).length ≠ ds.reverse.length := fun hlen =>
      hne ((List.takeWhile_prefix p).eq_of_length hlen)
    rw [List.rtakeWhile, List.reverse_append, List.takeWhile_append, if_neg hlen, List.rtakeWhile]
  have hhead : ∃ c ∈ cs.dropWhile p, p c = false :=
    ⟨_, List.head_mem h, Bool.eq_false_iff.mpr (by simpa using List.head_dropWhile_not p h)⟩
  rw [← hlast _ hhead, List.takeWhile_append_dropWhile]

/-- A query or a fragment, or nothing. -/
def IsMore (more : Chars) : Prop := ∀ q ∈ more.head?, q = '?' ∨ q = '#'

/-- White space behind is cut from the query. -/
theorem rdropWhile_more {more : Chars} (hcs : ∀ c ∈ cs, p c = false) (hp : p '?' = false ∧ p '#' = false)
    (hmore : IsMore more) :
    ∃ more', IsMore more' ∧ (more' = [] ↔ more = []) ∧ (cs ++ more).rdropWhile p = cs ++ more' := by
  suffices h : IsMore (more.rdropWhile p) ∧ (more.rdropWhile p = [] ↔ more = []) from
    ⟨more.rdropWhile p, h.1, h.2, rdropWhile_append_none hcs⟩
  cases more with
  | nil => exact ⟨hmore, Iff.rfl⟩
  | cons q rest =>
    have hq : ∀ c ∈ [q], p c = false := fun c hc => by
      rw [List.mem_singleton.mp hc]
      rcases hmore q rfl with rfl | rfl
      · exact hp.1
      · exact hp.2
    have hcut : (q :: rest).rdropWhile p = q :: rest.rdropWhile p := @rdropWhile_append_none p [q] rest hq
    rw [hcut]
    exact ⟨fun d hd => hmore d hd, by simp⟩

theorem filter_more {more : Chars} (hp : p '?' = true ∧ p '#' = true) (hmore : IsMore more) :
    IsMore (more.filter p) ∧ (more.filter p = [] ↔ more = []) := by
  cases more with
  | nil => exact ⟨hmore, Iff.rfl⟩
  | cons q rest =>
    have hq : p q = true := by
      rcases hmore q rfl with rfl | rfl
      · exact hp.1
      · exact hp.2
    rw [List.filter_cons_of_pos hq]
    exact ⟨fun d hd => hmore d hd, by simp⟩

end Around

theorem isBlank_of_isBreak {c : Char} (h : isBreak c = true) : isBlank c = true := by
  simp only [isBreak, Bool.or_eq_true, beq_iff_eq] at h
  rcases h with (rfl | rfl) | rfl <;> rfl

/-- What is written behind a text, cleaned. -/
theorem clean_append {text gap path more : Chars} (htext : text.dropWhile isBlank ≠ [])
    (hpath : ∀ c ∈ path, isBlank c = false) (hmore : IsMore more) (hne : path ++ more ≠ []) :
    ∃ more', IsMore more' ∧ (more' = [] ↔ more = []) ∧ clean (text ++ gap ++ (path ++ more)) =
      clean text ++ (text.rtakeWhile isBlank ++ gap).filter (!isBreak ·) ++ (path ++ more') := by
  obtain ⟨more', hmore', hnil, hcut⟩ := rdropWhile_more hpath ⟨rfl, rfl⟩ hmore
  have hcutne : (path ++ more).rdropWhile isBlank ≠ [] := by
    rw [hcut]
    intro h
    obtain ⟨hp, hm⟩ := List.append_eq_nil_iff.mp h
    exact hne (by rw [hp, hnil.mp hm]; rfl)
  obtain ⟨hfilter, hfilternil⟩ := filter_more (p := (!isBreak ·)) ⟨rfl, rfl⟩ hmore'
  refine ⟨more'.filter (!isBreak ·), hfilter, hfilternil.trans hnil, ?_⟩
  have hbehind : (path ++ more').filter (!isBreak ·) = path ++ more'.filter (!isBreak ·) := by
    rw [List.filter_append, List.filter_eq_self.mpr fun c hc => ?_]
    rw [Bool.not_eq_true', Bool.eq_false_iff]
    intro hbreak
    have := hpath c hc
    rw [isBlank_of_isBreak hbreak] at this
    cases this
  have hsplit : text.dropWhile isBlank =
      (text.dropWhile isBlank).rdropWhile isBlank ++ text.rtakeWhile isBlank := by
    rw [← rtakeWhile_dropWhile htext, List.rdropWhile_append_rtakeWhile]
  rw [clean, List.append_assoc, dropWhile_append_of htext, ← List.append_assoc, rdropWhile_append_of hcutne, hcut,
    List.filter_append, hbehind, List.filter_append, hsplit]
  simp [clean]

/-! ## URLs with a host -/

section Host

variable {hosts : HostParser} {k : Kind} {scheme body text : Chars} {r : Record}

theorem hostText_nil : HostText [] := ⟨by simp, Or.inl (by simp)⟩

theorem hostText_lower {h : Chars} (hh : HostText h) : HostText (lower h) := by
  constructor
  · intro d hd
    obtain ⟨c, hc, rfl⟩ := List.mem_map.mp hd
    obtain ⟨hgt, hlt, hne⟩ := hh.chars c hc
    have hrange : 0x20 < c.toLower.toNat ∧ c.toLower.toNat < 0x7f := by
      by_cases halpha : c.isAlpha = true
      · have := isAlpha_iff.mp ((Char.isAlpha_toLower_eq_isAlpha (c := c)).trans halpha)
        omega
      · rw [Char.toLower_eq_of_not_isUpper fun hu => halpha (by rw [Char.isAlpha, hu, Bool.true_or])]
        exact ⟨hgt, hlt⟩
    exact ⟨hrange.1, hrange.2, by simpa [toLower_eq_iff] using hne⟩
  · have hmem : ∀ {d : Char} {cs : Chars}, d.isAlpha = false → (d ∈ lower cs ↔ d ∈ cs) := fun {d cs} hd => by
      simp only [lower, List.mem_map, toLower_eq_iff hd, exists_eq_right]
    rcases hh.colon with hcolon | ⟨address, rfl, haddress⟩
    · exact Or.inl fun h => hcolon ((hmem rfl).mp h)
    · exact Or.inr ⟨lower address, lower_append _ _, fun h => haddress ((hmem rfl).mp h)⟩

theorem hostText_hostOf {host h : Chars} (hh : hostOf hosts k host = some h) : HostText h := by
  unfold hostOf at hh
  split_ifs at hh
  · rw [← Option.some_inj.mp hh]
    exact hostText_nil
  · cases k with
    | other => exact hosts.other_text _ _ hh
    | web | file => exact (hosts.web_text _ _ hh).1

theorem authority_host {a : Authority} (ha : authority hosts k text = some a) :
    hostOf hosts k (splitPort false (text.rtakeWhile (· != '@'))).1 = some a.host := by
  unfold authority at ha
  dsimp only at ha
  split_ifs at ha
  obtain ⟨h, hh, rfl⟩ := Option.map_eq_some_iff.mp ha
  exact hh

/-- A URL with a host has it before the first slash, the query and the fragment. -/
theorem parseBody_eq_some (hr : parseBody hosts k scheme body = some r) (hhost : r.hostname ≠ []) :
    HostText r.hostname ∧ body.takeWhile (!endsHost k ·) ≠ [] ∧ ¬ (k = .file ∧ isDrive (body.takeWhile (!endsHost k ·))) ∧
      r.path = .segments (pathSegments k (body.dropWhile (!endsHost k ·))) := by
  unfold parseBody at hr
  set text := body.takeWhile (!endsHost k ·) with htext
  have hnil : ∀ h, hostOf hosts k [] = some h → h = [] := fun h hh => (Option.some_inj.mp hh).symm
  by_cases hk : k = .file
  · rw [if_pos hk] at hr
    obtain ⟨a, ha, rfl⟩ := Option.map_eq_some_iff.mp hr
    have hdrive : ¬ isDrive text = true := fun hdrive => by
      rw [fileAuthority, if_pos hdrive] at ha
      exact hhost (by rw [← Option.some_inj.mp ha])
    rw [fileAuthority, if_neg hdrive] at ha
    obtain ⟨h, hh, rfl⟩ := Option.map_eq_some_iff.mp ha
    have hlocal : h ≠ ['l', 'o', 'c', 'a', 'l', 'h', 'o', 's', 't'] := fun heq => hhost (if_pos heq)
    simp only [if_neg hlocal] at hhost ⊢
    refine ⟨hostText_hostOf hh, fun hempty => hhost (hnil h ?_), fun hand => hdrive hand.2, by rw [if_neg hdrive]⟩
    rwa [hempty, ← hk] at hh
  · rw [if_neg hk] at hr
    obtain ⟨a, ha, rfl⟩ := Option.map_eq_some_iff.mp hr
    have hh := authority_host ha
    refine ⟨hostText_hostOf hh, fun hempty => hhost (hnil _ ?_), fun hand => hk hand.1, rfl⟩
    rw [hempty] at hh
    exact hh

theorem parse_eq_some (hr : parse hosts text = some r) (hhost : r.hostname ≠ []) :
    ∃ scheme rest body, scheme? (clean text) = some (scheme, rest) ∧ body? (kindOf scheme) rest = some body ∧
      parseBody hosts (kindOf scheme) scheme body = some r := by
  unfold parse at hr
  cases hscheme : scheme? (clean text) with
  | none =>
    rw [hscheme] at hr
    cases hr
  | some s =>
    obtain ⟨scheme, rest⟩ := s
    simp only [hscheme] at hr
    cases hbody : body? (kindOf scheme) rest with
    | none =>
      simp only [hbody] at hr
      exact absurd (by rw [← Option.some_inj.mp hr]) hhost
    | some body =>
      simp only [hbody] at hr
      exact ⟨scheme, rest, body, rfl, hbody, hr⟩

/-- A host of the web is read to itself. -/
theorem parse_web (hr : parse hosts text = some r) (hhost : r.hostname ≠ []) (hkind : kindOf r.scheme ≠ .other) :
    hosts.web r.hostname = some r.hostname := by
  obtain ⟨scheme, rest, body, -, -, hr⟩ := parse_eq_some hr hhost
  have hself : ∀ {k : Kind} {host h : Chars}, k ≠ .other → hostOf hosts k host = some h → h ≠ [] →
      hosts.web h = some h := by
    intro k host h hk hh hne
    unfold hostOf at hh
    split_ifs at hh
    · exact absurd (Option.some_inj.mp hh).symm hne
    · cases k with
      | other => exact absurd rfl hk
      | web | file => exact hosts.web_self _ _ hh
  unfold parseBody at hr
  dsimp only at hr
  split_ifs at hr with hfile hdrive
  · obtain ⟨a, ha, rfl⟩ := Option.map_eq_some_iff.mp hr
    rw [fileAuthority, if_pos hdrive] at ha
    exact absurd (by rw [← Option.some_inj.mp ha]) hhost
  · obtain ⟨a, ha, rfl⟩ := Option.map_eq_some_iff.mp hr
    rw [fileAuthority, if_neg hdrive] at ha
    obtain ⟨h, hh, rfl⟩ := Option.map_eq_some_iff.mp ha
    have hlocal : h ≠ ['l', 'o', 'c', 'a', 'l', 'h', 'o', 's', 't'] := fun heq => hhost (if_pos heq)
    simp only [if_neg hlocal] at hhost ⊢
    exact hself (by decide) hh hhost
  · obtain ⟨a, ha, rfl⟩ := Option.map_eq_some_iff.mp hr
    exact hself hkind (authority_host ha) hhost

theorem scheme?_append {cs rest : Chars} (h : scheme? cs = some (scheme, rest)) (ds : Chars) :
    scheme? (cs ++ ds) = some (scheme, rest ++ ds) := by
  cases cs with
  | nil => cases h
  | cons c cs =>
    rw [List.cons_append, scheme?]
    rw [scheme?] at h
    split_ifs at h ⊢
    cases hdrop : cs.dropWhile isSchemeChar with
    | nil =>
      rw [hdrop] at h
      cases h
    | cons d tail =>
      have hne : cs.dropWhile isSchemeChar ≠ [] := by simp [hdrop]
      have htake : (cs ++ ds).takeWhile isSchemeChar = cs.takeWhile isSchemeChar := by
        have hlen : (cs.takeWhile isSchemeChar).length ≠ cs.length := fun hlen => hne (by
          have := congrArg List.length (List.takeWhile_append_dropWhile (p := isSchemeChar) (l := cs))
          rw [List.length_append, hlen] at this
          exact List.length_eq_zero_iff.mp (by omega))
        rw [List.takeWhile_append, if_neg hlen]
      rw [dropWhile_append_of hne, htake, hdrop]
      rw [hdrop] at h
      by_cases hd : d = ':'
      · subst hd
        simp only [Option.some_inj, Prod.mk.injEq] at h
        simp [h.1, h.2]
      · split at h
        · next heq => exact absurd (List.cons_eq_cons.mp heq).1 hd
        · cases h

theorem body?_append {rest : Chars} (h : body? k rest = some body) (hbody : body ≠ []) (ds : Chars) :
    body? k (rest ++ ds) = some (body ++ ds) := by
  cases k with
  | web =>
    have hdrop : rest.dropWhile (isSlash .web) = body := Option.some_inj.mp h
    exact congrArg some (by rw [dropWhile_append_of (by rwa [hdrop]), hdrop])
  | file | other =>
    rcases rest with _ | ⟨c, _ | ⟨d, rest⟩⟩
    · cases h
    · cases h
    · simp only [List.cons_append, body?] at h ⊢
      split_ifs at h ⊢
      rw [Option.some_inj.mp h]

theorem parseBody_append (hr : parseBody hosts k scheme body = some r) (hhost : r.hostname ≠ [])
    (htail : body.dropWhile (!endsHost k ·) ≠ []) (ds : Chars) :
    parseBody hosts k scheme (body ++ ds) =
      some { r with path := .segments (pathSegments k (body.dropWhile (!endsHost k ·) ++ ds)) } := by
  obtain ⟨-, -, hdrive, hpath⟩ := parseBody_eq_some hr hhost
  have hlen : (body.takeWhile (!endsHost k ·)).length ≠ body.length := fun hlen => htail (by
    have := congrArg List.length (List.takeWhile_append_dropWhile (p := (!endsHost k ·)) (l := body))
    rw [List.length_append, hlen] at this
    exact List.length_eq_zero_iff.mp (by omega))
  have htake : (body ++ ds).takeWhile (!endsHost k ·) = body.takeWhile (!endsHost k ·) := by
    rw [List.takeWhile_append, if_neg hlen]
  unfold parseBody at hr ⊢
  rw [htake, dropWhile_append_of htail]
  by_cases hk : k = .file
  · have hnot : ¬ isDrive (body.takeWhile (!endsHost k ·)) = true := fun h => hdrive ⟨hk, h⟩
    simp only [if_pos hk, if_neg hnot] at hr ⊢
    obtain ⟨a, ha, rfl⟩ := Option.map_eq_some_iff.mp hr
    rw [ha, Option.map_some]
  · simp only [if_neg hk] at hr ⊢
    obtain ⟨a, ha, rfl⟩ := Option.map_eq_some_iff.mp hr
    rw [ha, Option.map_some]

/-- What follows the host, for a URL that may have one. -/
def tail? (text : Chars) : Option (Kind × Chars) :=
  (scheme? (clean text)).bind fun s =>
    (body? (kindOf s.1) s.2).map fun body => (kindOf s.1, body.dropWhile (!endsHost (kindOf s.1) ·))

/-- A URL with a host has the segments of what follows it. -/
theorem parse_host (hr : parse hosts text = some r) (hhost : r.hostname ≠ []) :
    HostText r.hostname ∧ ∃ k tail, tail? text = some (k, tail) ∧ r.path = .segments (pathSegments k tail) := by
  obtain ⟨scheme, rest, body, hscheme, hbody, hr⟩ := parse_eq_some hr hhost
  obtain ⟨htext, -, -, hpath⟩ := parseBody_eq_some hr hhost
  refine ⟨htext, kindOf scheme, _, ?_, hpath⟩
  rw [tail?, hscheme, Option.bind_some, hbody, Option.map_some]

/-- **What is written behind a host that is closed goes to the path.** -/
theorem parse_append (hr : parse hosts text = some r) (hhost : r.hostname ≠ []) {tail : Chars}
    (htail : tail? text = some (k, tail)) (hne : tail ≠ []) {longer ds : Chars} (hclean : clean longer = clean text ++ ds) :
    parse hosts longer = some { r with path := .segments (pathSegments k (tail ++ ds)) } := by
  obtain ⟨scheme, rest, body, hscheme, hbody, hr⟩ := parse_eq_some hr hhost
  obtain ⟨-, htext, -, -⟩ := parseBody_eq_some hr hhost
  rw [tail?, hscheme, Option.bind_some, hbody, Option.map_some, Option.some_inj, Prod.mk.injEq] at htail
  obtain ⟨rfl, rfl⟩ := htail
  have hbodyne : body ≠ [] := fun hnil => htext (by rw [hnil, List.takeWhile_nil])
  rw [parse, hclean, scheme?_append hscheme]
  simp only [body?_append hbody hbodyne]
  exact parseBody_append hr hhost hne ds

end Host

/-! ## Segments behind segments -/

section Lead

variable {k : Kind} {tail gap more o : Chars} {segs : List Chars}

/-- Without delimiters, and not `..`. -/
structure IsSegment (seg : Chars) : Prop where
  chars : ∀ c ∈ seg, c ∉ ['/', '\\', '?', '#']
  dots : isDoubleDot seg = false

/-- What a path has percent-encoded. -/
def Encoded (gap : Chars) : Prop := ∀ c ∈ gap, inPathSet c = true ∧ c ≠ '?' ∧ c ≠ '#'

/-- The first segment that is not empty is the last one, with neither a query nor a fragment behind it. -/
def leadIsLast (k : Kind) (tail : Chars) : Bool :=
  decide (pathText tail = tail ∧ lead (((tail.drop 1).splitOnP (isSlash k)).dropLast.foldl (midStep k) []) = none)

theorem tail_ne_nil (hlead : lead (pathSegments k tail) = some o) : tail ≠ [] := by
  rintro rfl
  cases k <;> cases hlead

theorem isSlash_encoded (hgap : Encoded gap) : ∀ c ∈ gap, isSlash k c = false := by
  intro c hc
  have hset := (hgap c hc).1
  have hslash : c ≠ '/' := by
    rintro rfl
    cases hset
  have hback : c ≠ '\\' := by
    rintro rfl
    cases hset
  rw [isSlash, beq_eq_false_iff_ne.mpr hslash, beq_eq_false_iff_ne.mpr hback]
  rfl

theorem isSlash_segment {seg : Chars} (hseg : IsSegment seg) : ∀ c ∈ seg, isSlash k c = false := by
  intro c hc
  have hnot := hseg.chars c hc
  simp only [List.mem_cons, not_or] at hnot
  rw [isSlash, beq_eq_false_iff_ne.mpr hnot.1, beq_eq_false_iff_ne.mpr hnot.2.1]
  rfl

/-- Dots are not encoded. -/
theorem inPathSet_dots {seg : Chars} (hseg : isSingleDot seg = true ∨ isDoubleDot seg = true) :
    ∀ c ∈ seg, inPathSet c = false := by
  intro c hc
  have hblind : inPathSet c.toLower = inPathSet c := blind_of false (fun _ => inPathSet_letter) c
  have hmem : c.toLower ∈ lower seg := List.mem_map_of_mem hc
  have hall : (lower seg).all (!inPathSet ·) = true := by
    simp only [isSingleDot, isDoubleDot, decide_eq_true_eq] at hseg
    rcases hseg with (heq | heq) | heq | heq | heq | heq
    all_goals
      rw [heq]
      rfl
  rw [← hblind, ← Bool.not_eq_true']
  exact List.all_eq_true.mp hall _ hmem

theorem not_dots_append (hgap : Encoded gap) (hne : gap ≠ []) (seg : Chars) :
    isSingleDot (seg ++ gap) = false ∧ isDoubleDot (seg ++ gap) = false := by
  obtain ⟨c, rest, rfl⟩ := List.exists_cons_of_ne_nil hne
  have hset := (hgap c List.mem_cons_self).1
  have hmem : c ∈ seg ++ c :: rest := by simp
  constructor <;>
  · rw [Bool.eq_false_iff]
    intro hdots
    rw [inPathSet_dots (by simp [hdots]) c hmem] at hset
    cases hset

theorem splitOnP_append {p : Char → Bool} {cs last : Chars} {init : List Chars} (h : cs.splitOnP p = init ++ [last])
    (hgap : ∀ c ∈ gap, p c = false) : (cs ++ gap).splitOnP p = init ++ [last ++ gap] := by
  induction cs generalizing init last with
  | nil =>
    rw [List.splitOnP_nil] at h
    obtain ⟨rfl, hlast⟩ := @List.append_inj' _ [] _ _ _ h rfl
    rw [List.nil_append, List.splitOnP_eq_singleton hgap, ← (List.cons_eq_cons.mp hlast).1]
    rfl
  | cons c cs ih =>
    obtain ⟨init', last', hcs⟩ : ∃ init' last', cs.splitOnP p = init' ++ [last'] :=
      (List.eq_nil_or_concat' _).resolve_left (List.splitOnP_ne_nil p cs)
    rw [List.splitOnP_cons_eq_if_modifyHead, hcs] at h
    rw [List.cons_append, List.splitOnP_cons_eq_if_modifyHead]
    split_ifs at h ⊢
    · rw [← List.cons_append] at h
      obtain ⟨rfl, hlast⟩ := List.append_inj' h rfl
      obtain rfl := (List.cons_eq_cons.mp hlast).1
      rw [ih hcs]
      rfl
    · rw [ih hcs]
      cases init' with
      | nil =>
        obtain ⟨rfl, hlast⟩ := @List.append_inj' _ [] _ _ _ h rfl
        obtain rfl := (List.cons_eq_cons.mp hlast).1
        rfl
      | cons seg init' =>
        rw [List.cons_append, List.modifyHead_cons, ← List.cons_append] at h
        obtain ⟨rfl, hlast⟩ := List.append_inj' h rfl
        obtain rfl := (List.cons_eq_cons.mp hlast).1
        rfl

theorem pathText_closed (htail : pathText tail ≠ tail) (ds : Chars) : pathText (tail ++ ds) = pathText tail := by
  unfold pathText at htail ⊢
  rw [List.takeWhile_append, if_neg fun hlen => htail ((List.takeWhile_prefix _).eq_of_length hlen)]

theorem pathText_open (htail : pathText tail = tail) (hgap : Encoded gap) (hsegs : ∀ seg ∈ segs, IsSegment seg)
    (hmore : IsMore more) :
    pathText (tail ++ gap ++ (segs.flatMap ('/' :: ·) ++ more)) = tail ++ gap ++ segs.flatMap ('/' :: ·) := by
  have hpath : ∀ c ∈ tail ++ gap ++ segs.flatMap ('/' :: ·), (c != '?' && c != '#') = true := by
    intro c hc
    rcases List.mem_append.mp hc with hc | hc
    · rcases List.mem_append.mp hc with hc | hc
      · rw [← htail] at hc
        exact List.mem_takeWhile_imp (p := fun c => c != '?' && c != '#') hc
      · simp [(hgap c hc).2]
    · obtain ⟨seg, hseg, hc⟩ := List.mem_flatMap.mp hc
      rcases List.mem_cons.mp hc with rfl | hc
      · rfl
      · have hnot := (hsegs seg hseg).chars c hc
        simp only [List.mem_cons, not_or] at hnot
        simp [hnot.2.2.1, hnot.2.2.2.1]
  rw [← List.append_assoc, pathText, List.takeWhile_append_of_pos hpath]
  cases more with
  | nil => simp
  | cons q rest => rcases hmore q rfl with rfl | rfl <;> simp

/-- The segments of a path that goes on. -/
theorem pathSegments_open (htail : pathText tail = tail) (hne : tail ≠ []) {init : List Chars} {last : Chars}
    (hsplit : (tail.drop 1).splitOnP (isSlash k) = init ++ [last]) (hgap : Encoded gap)
    (hsegs : ∀ seg ∈ segs, IsSegment seg) (hmore : IsMore more) :
    pathSegments k (tail ++ gap ++ (segs.flatMap ('/' :: ·) ++ more)) = resolvePath k (init ++ (last ++ gap) :: segs) := by
  obtain ⟨d, rest, rfl⟩ := List.exists_cons_of_ne_nil hne
  rw [pathSegments, pathText_open htail hgap hsegs hmore, if_neg (by simp)]
  simp only [List.cons_append, List.drop_one, List.tail_cons] at hsplit ⊢
  rw [splitOnP_flatMap rfl _ fun seg hseg => isSlash_segment (hsegs seg hseg),
    splitOnP_append hsplit (isSlash_encoded hgap), List.append_assoc]
  rfl

theorem pathSegments_self (htail : pathText tail = tail) (hne : tail ≠ []) {init : List Chars} {last : Chars}
    (hsplit : (tail.drop 1).splitOnP (isSlash k) = init ++ [last]) :
    pathSegments k tail = resolvePath k (init ++ [last]) := by
  have := @pathSegments_open k tail [] [] [] htail hne init last hsplit (by simp [Encoded]) (by simp) (by simp [IsMore])
  simpa using this

/-- **What is written behind a path keeps its first segment**, unless it runs into it. -/
theorem lead_behind (hlead : lead (pathSegments k tail) = some o) (hgap : Encoded gap)
    (hsegs : ∀ seg ∈ segs, IsSegment seg) (hmore : IsMore more) (hlast : leadIsLast k tail = true → gap = []) :
    lead (pathSegments k (tail ++ gap ++ (segs.flatMap ('/' :: ·) ++ more))) = some o := by
  by_cases htail : pathText tail = tail
  · obtain ⟨init, last, hsplit⟩ : ∃ init last, (tail.drop 1).splitOnP (isSlash k) = init ++ [last] :=
      (List.eq_nil_or_concat' _).resolve_left (List.splitOnP_ne_nil _ _)
    have hne := tail_ne_nil hlead
    rw [pathSegments_self htail hne hsplit, resolvePath, List.dropLast_concat, List.getLast?_concat] at hlead
    rw [pathSegments_open htail hne hsplit hgap hsegs hmore]
    by_cases hnil : gap = []
    · subst hnil
      rw [List.append_nil]
      exact lead_resolvePath (fun seg hseg => (hsegs seg hseg).dots) (fun _ => lead_midStep_of_last hlead) fun _ => hlead
    · have hsome : lead (init.foldl (midStep k) []) ≠ none := fun hnone => hnil (hlast (decide_eq_true
        ⟨htail, by rwa [hsplit, List.dropLast_concat]⟩))
      have hbefore := (lead_lastStep_cases hlead).resolve_right fun h => hsome h.1
      have hdots := (not_dots_append hgap hnil last).2
      exact lead_resolvePath (fun seg hseg => (hsegs seg hseg).dots) (fun _ => lead_midStep hbefore hdots)
        fun _ => lead_lastStep hbefore hdots
  · rw [pathSegments, List.append_assoc, pathText_closed htail]
    exact hlead

theorem exists_escape (hgap : Encoded gap) (hne : gap ≠ []) (seg : Chars) :
    ∃ w b, encode inPathSet (seg ++ gap) = w ++ escape b := by
  obtain ⟨init, c, rfl⟩ := (List.eq_nil_or_concat' gap).resolve_left hne
  have hset := (hgap c (by simp)).1
  have hbytes : String.utf8EncodeChar c ≠ [] := by
    have := String.length_utf8EncodeChar c
    intro hnil
    rw [hnil] at this
    have := c.utf8Size_pos
    simp_all
  obtain ⟨bytes, b, hb⟩ := (List.eq_nil_or_concat' (String.utf8EncodeChar c)).resolve_left hbytes
  have hc : encodeChar inPathSet c = bytes.flatMap escape ++ escape b := by
    rw [encodeChar, if_pos hset, hb, List.flatMap_append, List.flatMap_singleton]
  refine ⟨encode inPathSet (seg ++ init) ++ bytes.flatMap escape, b, ?_⟩
  rw [← List.append_assoc, encode, List.flatMap_append, List.flatMap_singleton, hc, ← List.append_assoc]
  rfl

/-- **What runs into the first segment is encoded in it.** -/
theorem lead_gap (hlead : lead (pathSegments k tail) = some o) (hgap : Encoded gap) (hne : gap ≠ [])
    (hlast : leadIsLast k tail = true) : ∃ w b, lead (pathSegments k (tail ++ gap ++ ['/'])) = some (w ++ escape b) := by
  obtain ⟨htail, hnone⟩ := of_decide_eq_true hlast
  obtain ⟨init, last, hsplit⟩ : ∃ init last, (tail.drop 1).splitOnP (isSlash k) = init ++ [last] :=
    (List.eq_nil_or_concat' _).resolve_left (List.splitOnP_ne_nil _ _)
  rw [hsplit, List.dropLast_concat] at hnone
  obtain ⟨w, b, hw⟩ := exists_escape hgap hne last
  have hdots := not_dots_append hgap hne last
  have hsegment : segment k (init.foldl (midStep k) []) (last ++ gap) = w ++ escape b := by
    have hlong : isDrive (w ++ escape b) = false := by
      rcases w with _ | ⟨c, _ | ⟨d, _ | ⟨e, w⟩⟩⟩ <;> rfl
    rw [segment, hw, hlong]
    simp
  refine ⟨w, b, ?_⟩
  have hopen := @pathSegments_open k tail gap [] [[]] htail (tail_ne_nil hlead) init last hsplit hgap
    (fun seg hseg => by rw [List.mem_singleton.mp hseg]; exact ⟨by simp, rfl⟩) (by simp [IsMore])
  rw [show tail ++ gap ++ ['/'] = tail ++ gap ++ ([[]].flatMap ('/' :: ·) ++ []) from rfl, hopen]
  refine lead_resolvePath (fun seg hseg => by rw [List.mem_singleton.mp hseg]; rfl) (fun _ => ?_) fun h => by cases h
  rw [midStep, hdots.1, hdots.2, if_neg Bool.false_ne_true, if_neg Bool.false_ne_true, hsegment]
  exact lead_snoc hnone (by simp [escape])

end Lead

/-! ## Serialized hosts and plain segments -/

section Serialized

variable {host seg : Chars}

/-- What a path leaves as it is. -/
structure IsPlainSegment (seg : Chars) : Prop where
  chars : ∀ c ∈ seg, inPathSet c = false ∧ c ≠ '/' ∧ c ≠ '\\'
  single : isSingleDot seg = false
  double : isDoubleDot seg = false

theorem isBlank_of_not_inPathSet {c : Char} (hc : inPathSet c = false) : isBlank c = false := by
  have hspace : c.toNat ≠ 0x20 := fun h => by
    have : c = ' ' := Char.toNat_inj.mp h
    rw [this] at hc
    cases hc
  simp only [inPathSet, inControlSet, Bool.or_eq_false_iff, decide_eq_false_iff_not] at hc
  simp only [isBlank, decide_eq_false_iff_not]
  omega

theorem clean_of {cs : Chars} (hcs : ∀ c ∈ cs, isBlank c = false) : clean cs = cs := by
  have hdrop : cs.dropWhile isBlank = cs := by
    cases cs with
    | nil => rfl
    | cons c cs => exact List.dropWhile_cons_of_neg (by simp [hcs c List.mem_cons_self])
  have hrdrop : cs.rdropWhile isBlank = cs := by
    rw [List.rdropWhile_eq_self_iff]
    intro hne
    rw [hcs _ (List.getLast_mem hne)]
    exact Bool.false_ne_true
  rw [clean, hdrop, hrdrop, List.filter_eq_self]
  intro c hc
  rw [Bool.not_eq_true', Bool.eq_false_iff]
  intro hbreak
  have := isBlank_of_isBreak hbreak
  rw [hcs c hc] at this
  cases this

theorem splitPort_inside {cs rest : Chars} (hcs : ']' ∉ cs) :
    splitPort true (cs ++ ']' :: rest) = (splitPort false rest).map (cs ++ ']' :: ·) id := by
  induction cs with
  | nil => rfl
  | cons c cs ih =>
    have hne : c ≠ ']' := fun h => hcs (h ▸ List.mem_cons_self)
    rw [List.cons_append, splitPort, if_neg (by simp), if_neg hne, ite_id, ih fun h => hcs (List.mem_cons_of_mem _ h)]
    rfl

theorem splitPort_plain (inside : Bool) {cs : Chars} (hcs : ':' ∉ cs) : splitPort inside cs = (cs, none) := by
  induction cs generalizing inside with
  | nil => rfl
  | cons c cs ih =>
    have hne : c ≠ ':' := fun h => hcs (h ▸ List.mem_cons_self)
    rw [splitPort, if_neg fun h => hne h.1, ih _ fun h => hcs (List.mem_cons_of_mem _ h)]
    rfl

/-- A serialized host has no port. -/
theorem splitPort_host (h : HostText host) : splitPort false host = (host, none) := by
  rcases h.colon with hcolon | ⟨address, rfl, haddress⟩
  · exact splitPort_plain false hcolon
  · rw [List.cons_append, splitPort, if_neg (by decide), if_pos rfl, splitPort_inside haddress]
    rfl

theorem authority_host_text (hosts : HostParser) (h : HostText host) (hne : host ≠ []) :
    authority hosts .web host = (hosts.web host).map fun name => ⟨[], [], name⟩ := by
  have hat : ∀ c ∈ host, (c != '@') = true := fun c hc => by simp [(h.chars c hc).2.2.2.2.2.2]
  have hmem : '@' ∉ host := fun hc => by simpa using hat _ hc
  have htake : host.rtakeWhile (· != '@') = host := List.rtakeWhile_eq_self_iff.mpr hat
  have hdrop : host.rdropWhile (· != '@') = [] := List.rdropWhile_eq_nil_iff.mpr hat
  unfold authority
  simp only [htake, hdrop, splitPort_host h]
  rw [if_neg (by simp [hne]), hostOf, if_neg hne]
  rfl

theorem endsHost_host (h : HostText host) : ∀ c ∈ host, endsHost .web c = false ∧ isSlash .web c = false := by
  intro c hc
  obtain ⟨-, -, hslash, hback, hquery, hfragment, -⟩ := h.chars c hc
  simp [endsHost, isSlash, hslash, hback, hquery, hfragment]

theorem encode_self {cs : Chars} {set : Char → Bool} (hcs : ∀ c ∈ cs, set c = false) : encode set cs = cs := by
  induction cs with
  | nil => rfl
  | cons c cs ih =>
    rw [encode, List.flatMap_cons, encodeChar, hcs c List.mem_cons_self, if_neg Bool.false_ne_true]
    exact congrArg (c :: ·) (ih fun d hd => hcs d (List.mem_cons_of_mem _ hd))

theorem pathSegments_plain (hseg : IsPlainSegment seg) : pathSegments .web ('/' :: seg) = [seg] := by
  have htext : pathText ('/' :: seg) = '/' :: seg := by
    refine List.takeWhile_eq_self_iff.mpr fun c hc => ?_
    rcases List.mem_cons.mp hc with rfl | hc
    · rfl
    · have hset := (hseg.chars c hc).1
      have hquery : c ≠ '?' := by
        rintro rfl
        cases hset
      have hfragment : c ≠ '#' := by
        rintro rfl
        cases hset
      simp [hquery, hfragment]
  have hsplit : seg.splitOnP (isSlash .web) = [seg] :=
    List.splitOnP_eq_singleton fun c hc => by simp [isSlash, (hseg.chars c hc).2]
  rw [pathSegments, htext, if_neg (by simp), List.drop_one, List.tail_cons, hsplit]
  change lastStep .web [] seg = [seg]
  rw [lastStep, hseg.double, hseg.single, if_neg Bool.false_ne_true, if_neg Bool.false_ne_true, segment,
    if_neg (by simp), encode_self fun c hc => (hseg.chars c hc).1]
  rfl

/-- **A serialized host and a plain segment are read as they are**, when the host is one of the web. -/
theorem parse_plain (hosts : HostParser) (h : HostText host) (hne : host ≠ []) (hseg : IsPlainSegment seg) :
    parse hosts (['h', 't', 't', 'p', 's', ':', '/', '/'] ++ (host ++ '/' :: seg)) =
      (hosts.web host).map fun name => ⟨['h', 't', 't', 'p', 's'], [], [], name, .segments [seg]⟩ := by
  have hclean : clean (['h', 't', 't', 'p', 's', ':', '/', '/'] ++ (host ++ '/' :: seg)) =
      ['h', 't', 't', 'p', 's', ':', '/', '/'] ++ (host ++ '/' :: seg) := by
    refine clean_of fun c hc => ?_
    rcases List.mem_append.mp hc with hc | hc
    · have hall : ['h', 't', 't', 'p', 's', ':', '/', '/'].all (!isBlank ·) = true := rfl
      simpa using List.all_eq_true.mp hall c hc
    · rcases List.mem_append.mp hc with hc | hc
      · have := (h.chars c hc).1
        simp only [isBlank, decide_eq_false_iff_not]
        omega
      · rcases List.mem_cons.mp hc with rfl | hc
        · rfl
        · exact isBlank_of_not_inPathSet (hseg.chars c hc).1
  have hbody : (host ++ '/' :: seg).dropWhile (isSlash .web) = host ++ '/' :: seg := by
    obtain ⟨c, rest, rfl⟩ := List.exists_cons_of_ne_nil hne
    exact List.dropWhile_cons_of_neg (by simp [(endsHost_host h c List.mem_cons_self).2])
  have hnot : ∀ c ∈ host, (!endsHost .web c) = true := fun c hc => by simp [(endsHost_host h c hc).1]
  have htake : (host ++ '/' :: seg).takeWhile (!endsHost .web ·) = host := by
    rw [List.takeWhile_append_of_pos hnot, List.takeWhile_cons_of_neg (by decide), List.append_nil]
  have hdrop : (host ++ '/' :: seg).dropWhile (!endsHost .web ·) = '/' :: seg := by
    rw [List.dropWhile_append_of_pos hnot, List.dropWhile_cons_of_neg (by decide)]
  rw [parse, hclean]
  change parseBody hosts .web ['h', 't', 't', 'p', 's'] ((host ++ '/' :: seg).dropWhile (isSlash .web)) = _
  rw [hbody, parseBody, htake, hdrop, if_neg (by decide), authority_host_text hosts h hne, pathSegments_plain hseg,
    Option.map_map]
  rfl

end Serialized

end Vellar.UrlParser
