import CodeAtlas.Proofs.Links.Published

/-!
# Chains of releases

A project's graph is published by an analysis and then by one sync after the other. A node that
a sync passes over keeps the links that it had, so its links go back to the last run that
examined it. This file proves what has become of them since then, and when that is what the
files as they are now would make.
-/

namespace CodeAtlas

/-! ## Links that are kept -/

namespace Graph

/-- What is kept twice is what is kept by both. -/
theorem keepLinks_keepLinks (p q : String → Bool) (d : Dict String (List ParameterLink)) :
    keepLinks p (keepLinks q d) = keepLinks (fun j => p j && q j) d := by
  unfold keepLinks
  refine congrArg Dict.mk ?_
  dsimp only
  induction d.entries with
  | nil => rfl
  | cons e rest ih =>
    have hboth : e.2.filter (fun l => p l.target && q l.target) =
        (e.2.filter fun l => q l.target).filter fun l => p l.target := by
      rw [List.filter_filter]
    rw [List.map_cons, List.map_cons, List.filter_cons, List.filter_cons, hboth]
    cases hempty : e.2.filter fun l => q l.target with
    | nil => simpa [hempty] using ih
    | cons l ls => simp [ih, List.filter_cons]

/-- Nothing is lost if all targets are kept and no method is without links. -/
theorem keepLinks_eq_self {keep : String → Bool} {d : Dict String (List ParameterLink)}
    (h : ∀ e ∈ d.entries, e.2 ≠ [] ∧ ∀ l ∈ e.2, keep l.target = true) : keepLinks keep d = d := by
  obtain ⟨es⟩ := d
  unfold keepLinks
  refine congrArg Dict.mk ?_
  have hmap : (es.map fun e => (e.1, e.2.filter fun l => keep l.target)) = es := by
    refine (List.map_congr_left fun e he => ?_).trans (List.map_id es)
    rw [List.filter_eq_self.2 (h e he).2]
    rfl
  dsimp only
  rw [hmap]
  refine List.filter_eq_self.2 fun e he => ?_
  simpa using (h e he).1

end Graph

/-- The links of recorded targets stay if all that the targets can be are kept. -/
theorem MethodTargets.All.keepLinks_links {P : String → Prop} {r : MethodTargets} (h : r.All P)
    {keep : String → Bool} (hkeep : ∀ t, P t → keep t = true) :
    Graph.keepLinks keep r.links = r.links := by
  refine Graph.keepLinks_eq_self fun e' he' => ?_
  obtain ⟨e, he, rfl⟩ := List.mem_map.1 he'
  obtain ⟨hnonempty, htargets⟩ := h.of_mem he
  refine ⟨?_, fun l hl => ?_⟩
  · simpa [MethodTargets.linksOfMethod] using hnonempty
  · obtain ⟨p, hp, rfl⟩ := List.mem_map.1 hl
    exact hkeep _ (htargets _ (List.fst_mem_of_mem_zipIdx hp))

/-! ## Releases -/

/-- A graph that was published, with the files as they were then and the units that the run
examined. -/
structure Release where
  files : FileTree
  graph : Graph
  examined : List String

namespace Release

/-- The last of some releases, newest first, that examined a unit. -/
def lastExamining? (id : String) (rs : List Release) : Option Release :=
  rs.find? fun r => r.examined.contains id

/-- The releases since then, newest first. -/
def since (id : String) (rs : List Release) : List Release :=
  rs.takeWhile fun r => !r.examined.contains id

/-- Whether a unit has been a node in all of some releases. -/
def persists (rs : List Release) (id : String) : Bool := rs.all fun r => r.graph.contains id

variable {id : String} {r : Release} {rs : List Release}

theorem lastExamining?_of_mem (h : id ∈ r.examined) : lastExamining? id (r :: rs) = some r :=
  List.find?_cons_of_pos (List.contains_iff_mem.2 h)

theorem lastExamining?_of_not_mem (h : id ∉ r.examined) :
    lastExamining? id (r :: rs) = lastExamining? id rs :=
  List.find?_cons_of_neg fun hmem => h (List.contains_iff_mem.1 hmem)

theorem since_of_mem (h : id ∈ r.examined) : since id (r :: rs) = [] :=
  List.takeWhile_cons_of_neg (by simpa using h)

theorem since_of_not_mem (h : id ∉ r.examined) : since id (r :: rs) = r :: since id rs :=
  List.takeWhile_cons_of_pos (by simpa using h)

/-- An analysis of a Java repository and the syncs that followed it, newest first. The differences
of each sync miss nothing between its files and those of the release before. -/
inductive Chain (platform : Platform) (repository : Path) : List Release → Prop where
  | fresh {r : Release} (hlegible : r.files.Legible platform repository)
      (hlinked : r.graph.LinkedFrom r.files platform repository)
      (hexamined : r.examined = r.graph.identifiers) : Chain platform repository [r]
  | sync {r latest : Release} {older : List Release} {diff : Diff}
      (hbefore : Chain platform repository (latest :: older))
      (hlegible : r.files.Legible platform repository)
      (hmisses : diff.MissesNothing platform repository latest.files r.files)
      (hsynced : latest.graph.SyncedFrom r.graph r.files platform repository diff r.examined) :
      Chain platform repository (r :: latest :: older)

/-- A release whose nodes are the units of its files, those that were examined being linked as
the files say. -/
structure Faithful (r : Release) (platform : Platform) (repository : Path) : Prop where
  legible : r.files.Legible platform repository
  surveyable : r.files.Surveyable platform repository
  contains : ∀ j, r.graph.contains j = true ↔
    j ∈ (r.files.javaUnits platform repository).map (·.identifier)
  examined : ∀ u ∈ r.files.javaUnits platform repository, u.identifier ∈ r.examined →
    r.graph.linksOf u.identifier = r.files.javaLinks platform repository u

variable {repository : Path} {latest : Release} {older : List Release} {u : SourceUnit}

theorem Chain.faithful (h : Chain platform repository rs) :
    ∀ r ∈ rs, r.Faithful platform repository := by
  induction h with
  | fresh hlegible hlinked hexamined =>
    intro s hs
    obtain rfl := List.mem_singleton.1 hs
    exact ⟨hlegible, hlinked.surveyable, hlinked.contains, fun u hu _ => hlinked.links u hu⟩
  | sync hbefore hlegible hmisses hsynced ih =>
    intro s hs
    rcases List.mem_cons.1 hs with rfl | hs
    · exact ⟨hlegible, hsynced.surveyable, hsynced.contains, hsynced.examined⟩
    · exact ih s hs

/-- The units of the newest release's files are its nodes. -/
theorem Chain.contains (h : Chain platform repository (latest :: older))
    (hu : u ∈ latest.files.javaUnits platform repository) :
    latest.graph.contains u.identifier = true :=
  ((h.faithful latest (List.mem_cons_self ..)).contains _).2 (List.mem_map_of_mem hu)

/-- The links that a file makes are all kept while all that its parameter types could mean is
kept of the known units. -/
theorem Faithful.keepLinks_javaLinks (h : r.Faithful platform repository)
    (hu : u ∈ r.files.javaUnits platform repository) {keep : String → Bool}
    (hkeep : ∀ f, SourceFile.read r.files u.path = .ok f →
      ∀ j ∈ (JavaFile.ofSource f).parameterMeanings, r.graph.contains j = true → keep j = true) :
    Graph.keepLinks keep (r.files.javaLinks platform repository u) =
      r.files.javaLinks platform repository u := by
  obtain ⟨f, hf⟩ := h.legible.readable u hu
  rw [FileTree.javaLinks_of_read hf]
  refine ((JavaFile.ofSource f).parameterTargets_all _).keepLinks_links fun t ht => ?_
  have hnode := (h.contains t).2 (List.contains_iff_mem.1 ht.1)
  exact hkeep f hf t ht.2 hnode

/-- A node that has just been examined has the links that its file makes. -/
theorem Faithful.links_of_examined (h : r.Faithful platform repository)
    (hu : u ∈ r.files.javaUnits platform repository) (hin : u.identifier ∈ r.examined) :
    r.graph.linksOf u.identifier = Graph.keepLinks (persists (since u.identifier (r :: rs)))
      (r.files.javaLinks platform repository u) := by
  have hall : ∀ j, persists [] j = true := fun _ => rfl
  rw [since_of_mem hin, h.keepLinks_javaLinks hu fun _ _ j _ _ => hall j]
  exact h.examined u hu hin

/-- The links of a node are those that its file made when it was last examined, less the ones to
units that have not been there all the time since then. -/
theorem Chain.links (h : Chain platform repository (latest :: older))
    (hu : latest.graph.contains id = true) :
    ∃ r ∈ latest :: older, lastExamining? id (latest :: older) = some r ∧
      ∃ u ∈ r.files.javaUnits platform repository, u.identifier = id ∧
        latest.graph.linksOf id = Graph.keepLinks (persists (since id (latest :: older)))
          (r.files.javaLinks platform repository u) := by
  generalize hrs : latest :: older = rs at h
  induction h generalizing latest older with
  | @fresh r hlegible hlinked hexamined =>
    obtain ⟨rfl, rfl⟩ := List.cons.inj hrs
    obtain ⟨u, hmem, rfl⟩ := List.mem_map.1 ((hlinked.contains id).1 hu)
    have hfaithful := (Chain.fresh hlegible hlinked hexamined).faithful latest
      (List.mem_singleton_self _)
    have hin : u.identifier ∈ latest.examined := by
      rw [hexamined]
      exact (Dict.contains_iff_mem_keys latest.graph.nodes _).1 hu
    exact ⟨latest, List.mem_singleton_self _, lastExamining?_of_mem hin, u, hmem, rfl,
      hfaithful.links_of_examined hmem hin⟩
  | @sync r before rest diff hbefore hlegible hmisses hsynced ih =>
    obtain ⟨rfl, rfl⟩ := List.cons.inj hrs
    obtain ⟨u, hmem, rfl⟩ := List.mem_map.1 ((hsynced.contains id).1 hu)
    by_cases hin : u.identifier ∈ latest.examined
    · have hfaithful := (Chain.sync hbefore hlegible hmisses hsynced).faithful latest
        (List.mem_cons_self ..)
      exact ⟨latest, List.mem_cons_self .., lastExamining?_of_mem hin, u, hmem, rfl,
        hfaithful.links_of_examined hmem hin⟩
    · obtain ⟨hnode, hkept, -⟩ := hsynced.passed u hmem hin
      obtain ⟨r, hr, hlast, v, hv, heq, hlinks⟩ := ih hnode rfl
      refine ⟨r, List.mem_cons_of_mem _ hr, ?_, v, hv, heq, ?_⟩
      · rw [lastExamining?_of_not_mem hin]
        exact hlast
      · rw [hkept, hlinks, Graph.keepLinks_keepLinks, since_of_not_mem hin]
        rfl

/-! ## Units whose setting stays the same -/

/-- A unit's setting in one release is the same in another: the unit is there, its file stands at
the same place in the repository, and of all that its parameter types could mean there are the
same units. -/
structure SameSetting (platform : Platform) (repository : Path) (u : SourceUnit) (r s : Release) :
    Prop where
  unit : u ∈ s.files.javaUnits platform repository
  file : u.relativePath s.files repository = u.relativePath r.files repository
  meanings : ∀ f, SourceFile.read r.files u.path = .ok f →
    ∀ j ∈ (JavaFile.ofSource f).parameterMeanings, s.graph.contains j = r.graph.contains j

theorem SameSetting.refl (hu : u ∈ r.files.javaUnits platform repository) :
    SameSetting platform repository u r r :=
  ⟨hu, rfl, fun _ _ _ _ => rfl⟩

/-- A file that has been read has the path by which it was read. -/
theorem path_of_read {t : FileTree} {p : Path} {f : SourceFile}
    (h : SourceFile.read t p = .ok f) : f.path = p := by
  unfold SourceFile.read at h
  split at h
  · cases h
  · split at h
    · cases h
      rfl
    · cases h

/-- Files with the same contents are read alike. -/
theorem read_eq_of_sameContent {old new : FileTree} (hold : old.Legible platform repository)
    (hnew : new.Legible platform repository) (hu : u ∈ old.javaUnits platform repository)
    (hu' : u ∈ new.javaUnits platform repository) (h : SourceUnit.SameContent old new u u) :
    SourceFile.read new u.path = SourceFile.read old u.path := by
  obtain ⟨f, hf⟩ := hold.readable u hu
  obtain ⟨g, hg⟩ := hnew.readable u hu'
  obtain ⟨hcontent, htree⟩ := h f g hf hg
  have hpath : g.path = f.path := (path_of_read hg).trans (path_of_read hf).symm
  rw [hf, hg]
  obtain ⟨path, content, tree⟩ := f
  obtain ⟨path', content', tree'⟩ := g
  obtain rfl : path' = path := hpath
  obtain rfl : content = content' := hcontent
  obtain rfl : tree = tree' := htree
  rfl

/-- A file whose setting has stayed the same since it was examined has not changed either. -/
theorem Chain.read_eq (h : Chain platform repository (latest :: older))
    (hlast : lastExamining? u.identifier (latest :: older) = some r)
    (hu : u ∈ r.files.javaUnits platform repository)
    (hsame : ∀ s ∈ since u.identifier (latest :: older), SameSetting platform repository u r s) :
    SameSetting platform repository u r latest ∧
      SourceFile.read latest.files u.path = SourceFile.read r.files u.path := by
  generalize hrs : latest :: older = rs at h hlast hsame
  induction h generalizing latest older with
  | @fresh s hlegible hlinked hexamined =>
    obtain ⟨rfl, rfl⟩ := List.cons.inj hrs
    obtain rfl := List.mem_singleton.1 (List.mem_of_find?_eq_some hlast)
    exact ⟨.refl hu, rfl⟩
  | @sync s before rest diff hbefore hlegible hmisses hsynced ih =>
    obtain ⟨rfl, rfl⟩ := List.cons.inj hrs
    by_cases hin : u.identifier ∈ latest.examined
    · rw [lastExamining?_of_mem hin] at hlast
      obtain rfl := Option.some.inj hlast
      exact ⟨.refl hu, rfl⟩
    · rw [lastExamining?_of_not_mem hin] at hlast
      rw [since_of_not_mem hin] at hsame
      have hnow := hsame latest (List.mem_cons_self ..)
      obtain ⟨hthen, hread⟩ := ih rfl hlast fun s hs => hsame s (List.mem_cons_of_mem _ hs)
      obtain ⟨-, -, hfull, file, hfile, hunlisted⟩ := hsynced.passed u hnow.unit hin
      have hfile' : u.relativePath before.files repository = .ok file := by
        rw [hthen.file, ← hnow.file]
        exact hfile
      have hcontent := hmisses hfull u hthen.unit u hnow.unit file hfile' hfile hunlisted
      have hlegible' := (hbefore.faithful before (List.mem_cons_self ..)).legible
      exact ⟨hnow,
        (read_eq_of_sameContent hlegible' hlegible hthen.unit hnow.unit hcontent).trans hread⟩

/-- Such a file makes the same links as when it was examined. -/
theorem Chain.javaLinks_eq (h : Chain platform repository (latest :: older))
    (hlast : lastExamining? u.identifier (latest :: older) = some r)
    (hu : u ∈ r.files.javaUnits platform repository)
    (hsame : ∀ s ∈ since u.identifier (latest :: older), SameSetting platform repository u r s) :
    latest.files.javaLinks platform repository u = r.files.javaLinks platform repository u := by
  obtain ⟨hnow, hread⟩ := h.read_eq hlast hu hsame
  have hr := h.faithful r (List.mem_of_find?_eq_some hlast)
  have hlatest := h.faithful latest (List.mem_cons_self ..)
  obtain ⟨f, hf⟩ := hr.legible.readable u hu
  rw [FileTree.javaLinks_of_read (hread.trans hf), FileTree.javaLinks_of_read hf]
  refine congrArg MethodTargets.links ((JavaFile.ofSource f).parameterTargets_congr fun j hj => ?_)
  have hcontains := hnow.meanings f hf j hj
  rw [Bool.eq_iff_iff, List.contains_iff_mem, List.contains_iff_mem, ← hlatest.contains,
    ← hr.contains, hcontains]

/-- A unit whose setting has stayed the same since it was examined is linked as its file says
now. -/
theorem Chain.links_of_sameSetting (h : Chain platform repository (latest :: older))
    (hlast : lastExamining? u.identifier (latest :: older) = some r)
    (hu : u ∈ r.files.javaUnits platform repository)
    (hsame : ∀ s ∈ since u.identifier (latest :: older), SameSetting platform repository u r s) :
    u ∈ latest.files.javaUnits platform repository ∧
      latest.graph.linksOf u.identifier = latest.files.javaLinks platform repository u := by
  obtain ⟨hnow, -⟩ := h.read_eq hlast hu hsame
  refine ⟨hnow.unit, ?_⟩
  obtain ⟨r', -, hlast', v, hv, heq, hlinks⟩ := h.links (h.contains hnow.unit)
  obtain rfl : r = r' := Option.some.inj (hlast.symm.trans hlast')
  have hr := h.faithful r (List.mem_of_find?_eq_some hlast)
  obtain rfl : v = u := hr.legible.eq_of_identifier hv hu heq
  rw [hlinks, h.javaLinks_eq hlast hu hsame]
  refine hr.keepLinks_javaLinks hu fun f hf j hj hnode => ?_
  unfold persists
  rw [List.all_eq_true]
  intro s hs
  exact ((hsame s hs).meanings f hf j hj).trans hnode

end Release

end CodeAtlas
