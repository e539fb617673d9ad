import CodeAtlas.Ignore.Patterns
import CodeAtlas.Proofs.Source.Discovered
import CodeAtlas.Proofs.Source.Found
import CodeAtlas.Proofs.Source.Shape
import Mathlib.Data.List.Basic
import Mathlib.Data.List.Nodup

/-!
# Which files are discovered

Discovery prunes directories while it walks and filters the files that it meets. This file says,
without a walk, which files are sought, and proves that discovery finds exactly these, each once
and in ascending order, however the entries of directories are listed.
-/

namespace CodeAtlas

/-! ## Sorting -/

/-- Whatever is sorted stands in order, if any two items can stand in some order. -/
theorem pairwise_sortBy {α : Type} {before : α → α → Bool}
    (htotal : ∀ a b, before a b = false → before b a = true)
    (htrans : ∀ a b c, before a b = true → before b c = true → before a c = true) (xs : List α) :
    (sortBy before xs).Pairwise fun a b => before a b = true := by
  have hinsert (x : α) {ys : List α} (hys : ys.Pairwise fun a b => before a b = true) :
      (insertBy before x ys).Pairwise fun a b => before a b = true := by
    induction hys with
    | nil => exact List.pairwise_singleton _ x
    | @cons y ys hy hys ih =>
      unfold insertBy
      split
      · next hxy =>
        refine .cons (fun z hz => ?_) (.cons hy hys)
        rcases List.mem_cons.1 hz with rfl | hz
        · exact hxy
        · exact htrans x y z hxy (hy z hz)
      · next hxy =>
        refine .cons (fun z hz => ?_) ih
        rcases List.mem_cons.1 ((insertBy_perm before x ys).mem_iff.1 hz) with rfl | hz
        · exact htotal z y (Bool.eq_false_iff.2 hxy)
        · exact hy z hz
  induction xs with
  | nil => exact .nil
  | cons x xs ih => exact hinsert x ih

namespace Path

/-- One path comes before another one: their components are compared one by one, and components
by their characters. -/
def Before (p q : Path) : Prop := List.Lex (fun a b : String => a < b) p.parts q.parts

theorem Before.trans {p q s : Path} (hpq : p.Before q) (hqs : q.Before s) : p.Before s :=
  List.lt_trans hpq hqs

theorem Before.asymm {p q : Path} (hpq : p.Before q) : ¬q.Before p := fun hqp =>
  List.lt_asymm hpq hqp

theorem Before.total (p q : Path) : p.Before q ∨ p.parts = q.parts ∨ q.Before p := by
  by_cases hlt : p.Before q
  · exact Or.inl hlt
  · rcases List.le_iff_lt_or_eq.1 (List.not_lt.1 hlt) with hqp | heq
    · exact Or.inr (Or.inr hqp)
    · exact Or.inr (Or.inl heq.symm)

theorem partsBefore_iff {as bs : List String} :
    partsBefore as bs = true ↔ as = bs ∨ List.Lex (fun a b : String => a < b) as bs := by
  induction as generalizing bs with
  | nil =>
    cases bs with
    | nil => simp [partsBefore]
    | cons b bs => exact iff_of_true rfl (Or.inr .nil)
  | cons a as ih =>
    cases bs with
    | nil => exact iff_of_false nofun (by rintro (h | h) <;> cases h)
    | cons b bs =>
      unfold partsBefore
      split
      · next hab =>
        rw [ih, hab, List.cons_inj_right, List.lex_cons_iff]
      · next hab =>
        rw [decide_eq_true_eq]
        constructor
        · exact fun hlt => Or.inr (.rel hlt)
        · rintro (heq | hlt)
          · exact absurd (List.cons.inj heq).1 hab
          · cases hlt with
            | rel hlt => exact hlt
            | cons => exact absurd rfl hab

/-- Sorted paths that differ in their components ascend. -/
theorem pairwise_before_sorted {ps : List Path} (h : (ps.map (·.parts)).Nodup) :
    (sorted ps).Pairwise Before := by
  have hsorted : (sorted ps).Pairwise fun p q => partsBefore p.parts q.parts = true := by
    refine pairwise_sortBy (fun p q hpq => ?_) (fun p q s hpq hqs => ?_) ps
    · rw [← Bool.not_eq_true, partsBefore_iff, not_or] at hpq
      rw [partsBefore_iff]
      rcases Before.total p q with hlt | heq | hlt
      · exact absurd hlt hpq.2
      · exact absurd heq hpq.1
      · exact Or.inr hlt
    · rw [partsBefore_iff] at hpq hqs ⊢
      rcases hpq with heq | hpq
      · rwa [heq]
      · rcases hqs with heq | hqs
        · exact Or.inr (heq ▸ hpq)
        · exact Or.inr (Before.trans hpq hqs)
  have hnodup : ((sorted ps).map (·.parts)).Nodup := (((sortBy_perm _ ps).map _).nodup_iff).2 h
  rw [List.Nodup, List.pairwise_map] at hnodup
  refine (hsorted.and hnodup).imp fun {p q} hpq => ?_
  exact (partsBefore_iff.1 hpq.1).resolve_left hpq.2

/-- Of the same paths there is one ascending list. -/
theorem eq_of_pairwise_before {ps qs : List Path} (hps : ps.Pairwise Before)
    (hqs : qs.Pairwise Before) (h : ∀ p, p ∈ ps ↔ p ∈ qs) : ps = qs := by
  have hnodup {ps : List Path} (hps : ps.Pairwise Before) : ps.Nodup :=
    hps.imp fun {p q} hpq heq => (heq ▸ hpq).asymm (heq ▸ hpq)
  exact List.Perm.eq_of_pairwise (fun p q _ _ hpq hqp => absurd hqp hpq.asymm) hps hqs
    ((List.perm_ext_iff_of_nodup (hnodup hps) (hnodup hqs)).2 h)

/-- A path from the root is below a directory if it continues the directory's components. -/
theorem relativeTo?_eq_some_iff {parts relative : List String} {dir : Path}
    (hdir : dir.absolute = true) :
    Path.relativeTo? ⟨true, parts⟩ dir = some relative ↔ parts = dir.parts ++ relative := by
  unfold relativeTo?
  rw [hdir, decide_eq_true rfl, Bool.true_and]
  split
  · next hprefix =>
    obtain ⟨rest, rfl⟩ := List.isPrefixOf_iff_prefix.1 hprefix
    simp
  · next hprefix =>
    refine iff_of_false nofun fun heq => hprefix ?_
    exact List.isPrefixOf_iff_prefix.2 ⟨relative, heq.symm⟩

end Path

/-! ## Names -/

namespace Ignore

/-- A name fits a pattern: a star stands for any characters, all else for itself. -/
inductive StarMatches : List Char → List Char → Prop
  | done : StarMatches [] []
  | star {ps rest : List Char} (passed : List Char) (h : StarMatches ps rest) :
    StarMatches ('*' :: ps) (passed ++ rest)
  | char {p : Char} {ps cs : List Char} (hp : p ≠ '*') (h : StarMatches ps cs) :
    StarMatches (p :: ps) (p :: cs)

/-- What stands for itself fits nothing else. -/
theorem starMatches_cons_iff {p : Char} {ps cs : List Char} (hp : p ≠ '*') :
    StarMatches (p :: ps) cs ↔ ∃ rest, cs = p :: rest ∧ StarMatches ps rest := by
  constructor
  · intro h
    cases h with
    | star => exact absurd rfl hp
    | @char _ _ rest _ h => exact ⟨rest, rfl, h⟩
  · rintro ⟨rest, rfl, h⟩
    exact .char hp h

theorem starMatches_star_iff {ps cs : List Char} :
    StarMatches ('*' :: ps) cs ↔ ∃ passed rest, cs = passed ++ rest ∧ StarMatches ps rest := by
  constructor
  · intro h
    cases h with
    | @star _ rest passed h => exact ⟨passed, rest, rfl, h⟩
    | char hp => exact absurd rfl hp
  · rintro ⟨passed, rest, rfl, h⟩
    exact .star passed h

theorem starMatch_iff {ps cs : List Char} : starMatch ps cs = true ↔ StarMatches ps cs := by
  induction ps generalizing cs with
  | nil =>
    cases cs with
    | nil => exact iff_of_true rfl .done
    | cons c cs => exact iff_of_false nofun nofun
  | cons p ps ih =>
    by_cases hp : p = '*'
    · rw [hp, starMatch, List.any_eq_true, starMatches_star_iff]
      constructor
      · rintro ⟨n, -, hmatch⟩
        exact ⟨cs.take n, cs.drop n, (List.take_append_drop n cs).symm, ih.1 hmatch⟩
      · rintro ⟨passed, rest, rfl, h⟩
        refine ⟨passed.length, List.mem_range.2 ?_, ?_⟩
        · rw [List.length_append]
          omega
        · rw [List.drop_left]
          exact ih.2 h
    · rw [starMatches_cons_iff hp]
      cases cs with
      | nil =>
        rw [starMatch]
        · exact iff_of_false nofun nofun
        · exact fun heq => absurd heq hp
      | cons c cs =>
        rw [starMatch]
        · rw [Bool.and_eq_true, beq_iff_eq, ih]
          constructor
          · rintro ⟨rfl, h⟩
            exact ⟨cs, rfl, h⟩
          · rintro ⟨rest, heq, h⟩
            obtain ⟨rfl, rfl⟩ := List.cons.inj heq
            exact ⟨rfl, h⟩
        · exact fun heq => absurd heq hp

/-- A directory is passed over by a name of its own or by one that was added. -/
theorem isIgnoredDirectory_eq_false_iff {name : String} {extra : List String} :
    isIgnoredDirectory name extra = false ↔ name ∉ directoryNames ∧ name ∉ extra := by
  unfold isIgnoredDirectory
  rw [Bool.or_eq_false_iff, List.contains_eq_mem, List.contains_eq_mem, decide_eq_false_iff_not,
    decide_eq_false_iff_not]

theorem isIgnoredFile_eq_false_iff {name : String} :
    isIgnoredFile name = false ↔ ∀ p ∈ filePatterns, ¬StarMatches p.toList name.toList := by
  unfold isIgnoredFile
  rw [List.any_eq_false]
  exact forall₂_congr fun p _ => not_congr starMatch_iff

end Ignore

namespace FileTree

variable {t : FileTree}

/-! ## Walks -/

/-- Directories lead down from another one; none of them is a link. -/
def Leads (t : FileTree) (dir way : List String) : Prop :=
  ∀ above, above <+: way → above ≠ [] → t.node? (dir ++ above) = some .directory

theorem leads_nil (dir : List String) : t.Leads dir [] := fun _ habove hne =>
  absurd (List.prefix_nil.1 habove) hne

theorem leads_cons_iff {dir way : List String} {name : String} :
    t.Leads dir (name :: way) ↔
      t.node? (dir ++ [name]) = some .directory ∧ t.Leads (dir ++ [name]) way := by
  constructor
  · intro h
    refine ⟨h [name] ⟨way, rfl⟩ (List.cons_ne_nil _ _), fun above habove _ => ?_⟩
    rw [List.append_assoc]
    exact h (name :: above) ((List.prefix_cons_inj name).2 habove) (List.cons_ne_nil _ _)
  · rintro ⟨hname, h⟩ above habove hne
    obtain rfl | ⟨rest, rfl, hrest⟩ := List.prefix_cons_iff.1 habove
    · exact absurd rfl hne
    · by_cases hnil : rest = []
      · rwa [hnil]
      · have hbelow := h rest hrest hnil
        rwa [List.append_assoc] at hbelow

/-- There cannot be more directories on a way than there are in the tree. -/
theorem Leads.length_le {dir way : List String} (h : t.Leads dir way) :
    way.length ≤ t.nodes.size := by
  let places := (List.range way.length).map fun k => dir ++ way.take (k + 1)
  have hlength (k : Nat) (hk : k < way.length) : (way.take (k + 1)).length = k + 1 := by
    rw [List.length_take]
    omega
  have hnodup : places.Nodup := by
    refine List.nodup_range.map_on fun i hi j hj heq => ?_
    have htake := congrArg List.length (List.append_cancel_left heq)
    rw [hlength i (List.mem_range.1 hi), hlength j (List.mem_range.1 hj)] at htake
    exact Nat.succ_injective htake
  have hkeys : places ⊆ t.nodes.keys := by
    intro place hplace
    obtain ⟨k, hk, rfl⟩ := List.mem_map.1 hplace
    have hne : way.take (k + 1) ≠ [] := by
      rw [Ne, ← List.length_eq_zero_iff, hlength k (List.mem_range.1 hk)]
      exact Nat.succ_ne_zero k
    exact mem_keys_of_node? (by simp [hne]) (h _ (List.take_prefix _ _) hne)
  have hle := (hnodup.subperm hkeys).length_le
  rwa [List.length_map, List.length_range, Dict.keys, List.length_map] at hle

/-- What is named below a directory stands right below it. -/
theorem nameBelow_eq_some_iff {dir key : List String} {name : String} :
    (if key.length = dir.length + 1 && dir.isPrefixOf key then key.getLast? else none) = some name ↔
      key = dir ++ [name] := by
  constructor
  · intro h
    split at h
    · next hbelow =>
      obtain ⟨hlength, hprefix⟩ := Bool.and_eq_true_iff.1 hbelow
      obtain ⟨rest, rfl⟩ := List.isPrefixOf_iff_prefix.1 hprefix
      have hone : rest.length = 1 := by
        have hlength := of_decide_eq_true hlength
        rw [List.length_append] at hlength
        omega
      obtain ⟨last, rfl⟩ := List.length_eq_one_iff.1 hone
      rw [List.getLast?_concat, Option.some.injEq] at h
      rw [h]
    · cases h
  · rintro rfl
    rw [if_pos (by simp), List.getLast?_concat]

theorem mem_namesBelow_of_node? {dir : List String} {name : String} {n : FileNode}
    (h : t.node? (dir ++ [name]) = some n) : name ∈ t.namesBelow dir :=
  List.mem_filterMap.2 ⟨_, mem_keys_of_node? (by simp) h, nameBelow_eq_some_iff.2 rfl⟩

theorem nodup_namesBelow (hkeys : t.nodes.keys.Nodup) (dir : List String) :
    (t.namesBelow dir).Nodup := by
  refine hkeys.filterMap fun key other name hkey hother => ?_
  rw [nameBelow_eq_some_iff.1 hkey, nameBelow_eq_some_iff.1 hother]

theorem exists_node?_of_listed {parts : List String} (h : t.Listed parts) :
    ∃ n, t.node? parts = some n := by
  rcases h with ⟨_, _, hfile⟩ | ⟨⟨_, hlink⟩, -⟩
  · exact ⟨_, hfile⟩
  · exact ⟨_, hlink⟩

/-- A walk meets what stands at the end of a way through directories that it enters. -/
theorem mem_walk_iff {r : DiscoveryRule} {depth : Nat} {dir parts : List String} :
    parts ∈ t.walk r depth dir ↔ ∃ way name, parts = dir ++ way ++ [name] ∧ way.length < depth ∧
      t.Leads dir way ∧ (∀ d ∈ way, r.enters d = true) ∧ t.Listed parts := by
  induction depth generalizing dir with
  | zero => exact iff_of_false List.not_mem_nil fun ⟨_, _, _, hdepth, _⟩ => Nat.not_lt_zero _ hdepth
  | succ depth ih =>
    rw [walk_succ, List.mem_flatMap]
    simp only [mem_walkInto_iff, ih]
    constructor
    · rintro ⟨name, -, ⟨hnode, henters, way, last, rfl, hdepth, hleads, hway, hlisted⟩ |
        ⟨rfl, hlisted⟩⟩
      · refine ⟨name :: way, last, ?_, Nat.succ_lt_succ hdepth, leads_cons_iff.2 ⟨hnode, hleads⟩,
          List.forall_mem_cons.2 ⟨henters, hway⟩, hlisted⟩
        simp only [List.append_assoc, List.cons_append, List.nil_append]
      · exact ⟨[], name, by rw [List.append_nil], Nat.succ_pos _, leads_nil dir, nofun, hlisted⟩
    · rintro ⟨way, name, rfl, hdepth, hleads, hway, hlisted⟩
      cases way with
      | nil =>
        rw [List.append_nil] at hlisted ⊢
        obtain ⟨n, hnode⟩ := exists_node?_of_listed hlisted
        exact ⟨name, mem_namesBelow_of_node? hnode, Or.inr ⟨rfl, hlisted⟩⟩
      | cons d way =>
        obtain ⟨hnode, hbelow⟩ := leads_cons_iff.1 hleads
        obtain ⟨henters, hway⟩ := List.forall_mem_cons.1 hway
        refine ⟨d, mem_namesBelow_of_node? hnode, Or.inl ⟨hnode, henters, way, name, ?_,
          Nat.lt_of_succ_lt_succ hdepth, hbelow, hway, hlisted⟩⟩
        simp only [List.append_assoc, List.cons_append, List.nil_append]

/-- What a walk meets under a name stands there or below. -/
theorem prefix_of_mem_walkInto {r : DiscoveryRule} {depth : Nat} {dir parts : List String}
    {name : String} (h : parts ∈ t.walkInto r depth dir name) : dir ++ [name] <+: parts := by
  rcases mem_walkInto_iff.1 h with ⟨-, -, hmet⟩ | ⟨rfl, -⟩
  · obtain ⟨way, last, rfl, -⟩ := mem_walk_iff.1 hmet
    rw [List.append_assoc]
    exact List.prefix_append _ _
  · exact List.prefix_rfl

/-- A walk meets nothing twice. -/
theorem nodup_walk (hkeys : t.nodes.keys.Nodup) (r : DiscoveryRule) (depth : Nat)
    (dir : List String) : (t.walk r depth dir).Nodup := by
  induction depth generalizing dir with
  | zero => exact List.nodup_nil
  | succ depth ih =>
    rw [walk_succ, List.nodup_flatMap]
    refine ⟨fun name _ => ?_, (nodup_namesBelow hkeys dir).imp fun {a b} hne parts ha hb => ?_⟩
    · unfold walkInto
      split
      · split
        · exact ih _
        · exact List.nodup_nil
      · exact List.nodup_singleton _
      · split
        · exact List.nodup_nil
        · exact List.nodup_singleton _
      · exact List.nodup_nil
    · have hlength : (dir ++ [a]).length = (dir ++ [b]).length := by simp
      have heq := (List.prefix_of_prefix_length_le (prefix_of_mem_walkInto ha)
        (prefix_of_mem_walkInto hb) hlength.le).eq_of_length hlength
      exact hne (List.cons.inj (List.append_cancel_left heq)).1

/-- A walk with all depth there is meets a file wherever directories lead to it. -/
theorem mem_whole_walk_iff {r : DiscoveryRule} {dir parts : List String} :
    parts ∈ t.walk r (t.nodes.size + 1) dir ↔ ∃ way name, parts = dir ++ way ++ [name] ∧
      t.Leads dir way ∧ (∀ d ∈ way, r.enters d = true) ∧ t.Listed parts := by
  rw [mem_walk_iff]
  refine exists_congr fun way => exists_congr fun name => and_congr_right fun _ => ?_
  exact and_iff_right_of_imp fun h => Nat.lt_succ_of_le h.1.length_le

/-! ## Files that are kept -/

theorem shouldIgnore_eq_ok_false_iff {compile : List String → Outcome (String → Bool)}
    {path : Path} {lines extra : List String} {ignores : String → Bool}
    (hmeaning : Ignore.meaning compile lines = .ok ignores) :
    Ignore.shouldIgnore compile path lines extra = .ok false ↔
      (∀ d ∈ path.parts.dropLast, Ignore.isIgnoredDirectory d extra = false) ∧
        Ignore.isIgnoredFile path.name = false ∧ ignores path.text = false := by
  unfold Ignore.shouldIgnore
  split
  · next hdirectory =>
    obtain ⟨d, hd, hignored⟩ := List.any_eq_true.1 hdirectory
    exact iff_of_false nofun fun h => Bool.eq_false_iff.1 (h.1 d hd) hignored
  · next hdirectory =>
    have hentered : ∀ d ∈ path.parts.dropLast, Ignore.isIgnoredDirectory d extra = false :=
      fun d hd => Bool.eq_false_iff.2 fun hignored =>
        hdirectory (List.any_eq_true.2 ⟨d, hd, hignored⟩)
    rw [and_iff_right hentered]
    split
    · next hfile => exact iff_of_false nofun fun h => Bool.eq_false_iff.1 h.1 hfile
    · next hfile =>
      rw [hmeaning, and_iff_right (Bool.eq_false_iff.2 hfile)]
      exact ⟨Except.ok.inj, congrArg Except.ok⟩

theorem fits_iff {r : DiscoveryRule} {p : Path} :
    r.fits t p = true ↔ ∃ n : Nat, t.size? p = some n ∧ (n : Int) ≤ r.maxSize := by
  unfold DiscoveryRule.fits
  split
  · next n hn => rw [hn, decide_eq_true_eq]; simp
  · next hnone => exact iff_of_false nofun (by rw [hnone]; rintro ⟨_, h, -⟩; cases h)

/-- What a walk keeps in a repository: what has a wanted suffix, is not skipped and fits. -/
theorem keeps_eq_ok_true_iff {r : DiscoveryRule} {repository : Path} {lines parts : List String}
    (habsolute : repository.absolute = true) :
    r.keeps t repository lines parts = .ok true ↔
      r.suffixes.contains (Path.suffix ⟨true, parts⟩) = true ∧
      ∃ relative, parts = repository.parts ++ relative ∧
        Ignore.shouldIgnore r.compile (Path.relative relative) lines r.extraDirectories =
          .ok false ∧
        r.fits t ⟨true, parts⟩ = true := by
  simp only [← Path.relativeTo?_eq_some_iff habsolute]
  unfold DiscoveryRule.keeps
  dsimp only
  split
  · next hsuffix =>
    refine iff_of_false nofun fun h => ?_
    rw [h.1] at hsuffix
    cases hsuffix
  · next hsuffix =>
    rw [and_iff_right (by simpa using hsuffix)]
    split
    · next hnone =>
      refine iff_of_false nofun ?_
      rintro ⟨relative, hrelative, -⟩
      cases hnone.symm.trans hrelative
    · next relative hrelative =>
      rw [hrelative, Outcome.bind_eq_ok]
      constructor
      · rintro ⟨skips, hskips, hkept⟩
        cases skips with
        | true => cases hkept
        | false => exact ⟨relative, rfl, hskips, Except.ok.inj hkept⟩
      · rintro ⟨other, heq, hskips, hfits⟩
        obtain rfl := Option.some.inj heq
        exact ⟨false, hskips, congrArg Except.ok hfits⟩

/-! ## Sought files -/

/-- A file stands at a place, or a link that leads to one. -/
def HoldsFile (t : FileTree) (parts : List String) : Prop :=
  (∃ content tree, t.node? parts = some (.file content tree)) ∨
    (∃ target, t.node? parts = some (.link target)) ∧ t.isFile ⟨true, parts⟩ = true

/-- A file is sought below a source root: `inner` leads from the repository to the root, `way` from
the root to the file. -/
structure Sought (t : FileTree) (r : DiscoveryRule) (ignores : String → Bool)
    (root inner way : List String) (name : String) : Prop where
  /-- It is reached through directories, none of which is a link. -/
  reached : t.Leads root way
  file : t.HoldsFile (root ++ way ++ [name])
  suffix : Path.suffixOf name ∈ r.suffixes
  /-- No directory below the root is hidden. -/
  visible : ∀ d ∈ way, d.toList.head? ≠ some '.'
  /-- No directory of the repository has an ignored name or one that was added. -/
  entered : ∀ d ∈ inner ++ way, d ∉ Ignore.directoryNames ∧ d ∉ r.extraDirectories
  examined : ∀ p ∈ Ignore.filePatterns, ¬Ignore.StarMatches p.toList name.toList
  included : ignores (Path.joined (inner ++ way ++ [name])) = false
  size : ∃ n : Nat, t.size? ⟨true, root ++ way ++ [name]⟩ = some n ∧ (n : Int) ≤ r.maxSize

/-- A directory is entered if it is neither hidden nor ignored. -/
theorem enters_iff {r : DiscoveryRule} {d : String} :
    r.enters d = true ↔ d.toList.head? ≠ some '.' ∧
      Ignore.isIgnoredDirectory d r.extraDirectories = false := by
  have hhidden : Text.startsWith d "." = false ↔ d.toList.head? ≠ some '.' := by
    have hdot : ".".toList = ['.'] := rfl
    unfold Text.startsWith
    rw [hdot]
    cases d.toList with
    | nil => exact iff_of_true rfl nofun
    | cons c cs =>
      rw [List.isPrefixOf_cons_cons, List.isPrefixOf_nil_left, Bool.and_true,
        beq_eq_false_iff_ne, List.head?_cons, Ne, Ne, Option.some.injEq, eq_comm]
  unfold DiscoveryRule.enters
  rw [Bool.and_eq_true, Bool.not_eq_true', Bool.not_eq_true', hhidden]

/-- A link that leads to a file is listed and has a size, and only such a link is and has. -/
theorem listed_and_fits_iff {r : DiscoveryRule} {parts : List String} :
    t.Listed parts ∧ r.fits t ⟨true, parts⟩ = true ↔
      t.HoldsFile parts ∧ r.fits t ⟨true, parts⟩ = true := by
  refine and_congr_left fun hfits => or_congr_right (and_congr_right fun _ => ?_)
  refine ⟨fun hdirectory => isFile_of_fits hfits hdirectory, fun hfile => ?_⟩
  unfold isFile at hfile
  unfold isDirectory
  split at hfile
  · next hfound => rw [hfound]
  · cases hfile

/-- What a walk meets and keeps is what is sought. -/
theorem met_and_kept_iff {r : DiscoveryRule} {repository : Path} {lines : List String}
    {ignores : String → Bool} {root inner parts : List String}
    (habsolute : repository.absolute = true) (hinside : root = repository.parts ++ inner)
    (hmeaning : Ignore.meaning r.compile lines = .ok ignores) :
    parts ∈ t.walk r (t.nodes.size + 1) root ∧ r.keeps t repository lines parts = .ok true ↔
      ∃ way name, parts = root ++ way ++ [name] ∧
        t.Sought r ignores root inner way name := by
  rw [mem_whole_walk_iff, keeps_eq_ok_true_iff habsolute, ← exists_and_right]
  refine exists_congr fun way => ?_
  rw [← exists_and_right]
  refine exists_congr fun name => ?_
  rw [and_assoc]
  refine and_congr_right fun hparts => ?_
  have hrelative (relative : List String) :
      parts = repository.parts ++ relative ↔ relative = inner ++ way ++ [name] := by
    rw [hparts, hinside, List.append_assoc, List.append_assoc, List.append_cancel_left_eq,
      List.append_assoc, eq_comm]
  have hname : Path.suffix ⟨true, parts⟩ = Path.suffixOf name := by
    rw [hparts]
    unfold Path.suffix Path.name
    rw [List.getLast?_concat, Option.getD_some]
  have htext : (Path.relative (inner ++ way ++ [name])).text =
      Path.joined (inner ++ way ++ [name]) := by
    unfold Path.text Path.relative
    simp
  have hlast : (Path.relative (inner ++ way ++ [name])).name = name := by
    unfold Path.name Path.relative
    rw [List.getLast?_concat, Option.getD_some]
  have hdirectories : (Path.relative (inner ++ way ++ [name])).parts.dropLast = inner ++ way :=
    List.dropLast_concat
  simp only [hrelative, exists_eq_left, shouldIgnore_eq_ok_false_iff hmeaning, hname, htext, hlast,
    hdirectories, enters_iff, Ignore.isIgnoredDirectory_eq_false_iff,
    Ignore.isIgnoredFile_eq_false_iff, List.contains_iff_mem]
  constructor
  · rintro ⟨⟨hleads, hway, hlisted⟩, hsuffix, ⟨hentered, hexamined, hincluded⟩, hfits⟩
    obtain ⟨hfile, -⟩ := listed_and_fits_iff.1 ⟨hlisted, hfits⟩
    subst hparts
    exact ⟨hleads, hfile, hsuffix, fun d hd => (hway d hd).1, hentered, hexamined, hincluded,
      fits_iff.1 hfits⟩
  · intro h
    subst hparts
    have hfits := fits_iff.2 h.size
    obtain ⟨hlisted, -⟩ := listed_and_fits_iff.2 ⟨h.file, hfits⟩
    exact ⟨⟨h.reached, fun d hd => ⟨h.visible d hd, h.entered d (List.mem_append_right _ hd)⟩,
      hlisted⟩, h.suffix, ⟨h.entered, h.examined, h.included⟩, hfits⟩

/-! ## Relisted trees -/

/-- Whether a tree has the same entries as another one, perhaps listed in another order. -/
structure Relists (u t : FileTree) : Prop where
  entries : u.nodes.entries.Perm t.nodes.entries
  workingDirectory : u.workingDirectory = t.workingDirectory

namespace Relists

variable {u : FileTree} (h : u.Relists t) (hkeys : t.nodes.keys.Nodup)
include h

theorem nodup_keys (hkeys : t.nodes.keys.Nodup) : u.nodes.keys.Nodup :=
  ((h.entries.map _).nodup_iff).2 hkeys

include hkeys

theorem node?_eq (parts : List String) : u.node? parts = t.node? parts := by
  unfold node?
  split
  · rfl
  · refine Option.ext fun n => ?_
    rw [← Dict.mem_entries_iff (h.nodup_keys hkeys), ← Dict.mem_entries_iff hkeys]
    exact h.entries.mem_iff

theorem samePlaces : t.SamePlaces u :=
  ⟨h.workingDirectory, fun parts => Or.inl (h.node?_eq hkeys parts)⟩

theorem size?_eq (p : Path) : u.size? p = t.size? p := by
  unfold size? target?
  rw [(h.samePlaces hkeys).locate_eq]
  cases t.locate p with
  | error kind => rfl
  | ok parts => simp only [h.node?_eq hkeys]

theorem load_eq (repository : Path) :
    Ignore.load u (u.resolve repository) = Ignore.load t (t.resolve repository) := by
  unfold Ignore.load
  dsimp only
  rw [(h.samePlaces hkeys).resolve_eq, (h.samePlaces hkeys).isFile_eq,
    (h.samePlaces hkeys).readBytes_eq fun parts _ => h.node?_eq hkeys parts]

theorem sought_iff {r : DiscoveryRule} {ignores : String → Bool} {root inner way : List String}
    {name : String} : u.Sought r ignores root inner way name ↔
      t.Sought r ignores root inner way name := by
  have hleads : u.Leads root way ↔ t.Leads root way := by
    unfold Leads
    simp only [h.node?_eq hkeys]
  have hfile (parts : List String) : u.HoldsFile parts ↔ t.HoldsFile parts := by
    unfold HoldsFile
    simp only [h.node?_eq hkeys, (h.samePlaces hkeys).isFile_eq]
  constructor
  · intro hu
    exact ⟨hleads.1 hu.reached, (hfile _).1 hu.file, hu.suffix, hu.visible, hu.entered, hu.examined,
      hu.included, by simpa only [h.size?_eq hkeys] using hu.size⟩
  · intro ht
    exact ⟨hleads.2 ht.reached, (hfile _).2 ht.file, ht.suffix, ht.visible, ht.entered, ht.examined,
      ht.included, by simpa only [h.size?_eq hkeys] using ht.size⟩

end Relists

/-! ## Discovery -/

/-- By a rule's library, the patterns of the rule ignore the paths of a predicate, or if it has none
those of the repository's ignore file do. -/
def IgnoresBy (t : FileTree) (r : DiscoveryRule) (repository : Path) (ignores : String → Bool) :
    Prop :=
  ∃ lines, (r.patterns = some lines ∨
      r.patterns = none ∧ Ignore.load t (t.resolve repository) = .ok lines) ∧
    Ignore.meaning r.compile lines = .ok ignores

theorem discover_eq {repository root : Path} {r : DiscoveryRule} {lines : List String}
    (hdirectory : t.isDirectory (t.resolve root) = true) (hlines : r.patterns = some lines ∨
      r.patterns = none ∧ Ignore.load t (t.resolve repository) = .ok lines) :
    t.discover repository root r = do
      let kept ← (t.walk r (t.nodes.size + 1) (t.resolve root).parts).filterM fun parts =>
        r.keeps t (t.resolve repository) lines parts
      return Path.sorted (kept.map fun parts => ⟨true, parts⟩) := by
  unfold discover
  dsimp only
  rw [if_neg (by simpa using hdirectory)]
  rcases hlines with hown | ⟨hnone, hload⟩
  · rw [hown]
    rfl
  · rw [hnone, hload]
    rfl

/-- Discovery succeeds in a repository whose patterns have a meaning, and finds what is sought. -/
theorem exists_discover_sought (hkeys : t.nodes.keys.Nodup) {repository root : Path}
    {inner : List String}
    (hinside : (t.resolve root).parts = (t.resolve repository).parts ++ inner)
    {r : DiscoveryRule} {ignores : String → Bool} (hignores : t.IgnoresBy r repository ignores) :
    ∃ files, t.discover repository root r = .ok files ∧ files.Pairwise Path.Before ∧
      ∀ p, p ∈ files ↔ t.isDirectory (t.resolve root) = true ∧ ∃ way name,
        p = ⟨true, (t.resolve root).parts ++ way ++ [name]⟩ ∧
        t.Sought r ignores (t.resolve root).parts inner way name := by
  obtain ⟨lines, hlines, hmeaning⟩ := hignores
  by_cases hdirectory : t.isDirectory (t.resolve root) = true
  · have hjudged : ∀ parts ∈ t.walk r (t.nodes.size + 1) (t.resolve root).parts,
        ∃ keep, r.keeps t (t.resolve repository) lines parts = .ok keep := by
      intro parts hparts
      obtain ⟨way, name, rfl, -⟩ := mem_whole_walk_iff.1 hparts
      refine (r.exists_keeps_ok t _ lines _).2 fun _ => ⟨inner ++ way ++ [name], ?_,
        Or.inr ⟨ignores, hmeaning⟩⟩
      rw [Path.relativeTo?_eq_some_iff rfl, hinside]
      simp only [List.append_assoc]
    obtain ⟨kept, hkept⟩ := Outcome.exists_filterM_ok.2 hjudged
    have hfilter := eq_filter_of_filterM hkept
    refine ⟨Path.sorted (kept.map fun parts => ⟨true, parts⟩), ?_,
      Path.pairwise_before_sorted ?_, fun p => ?_⟩
    · rw [discover_eq hdirectory hlines, hkept]
      rfl
    · rw [List.map_map, hfilter]
      exact ((nodup_walk hkeys r _ _).filter _).map fun _ _ heq => heq
    · rw [and_iff_right hdirectory]
      refine (sortBy_perm _ _).mem_iff.trans (List.mem_map.trans ?_)
      constructor
      · rintro ⟨parts, hparts, rfl⟩
        obtain ⟨hmet, hkeeps⟩ := mem_of_filterM_eq_ok hkept parts hparts
        obtain ⟨way, name, rfl, hsought⟩ := (met_and_kept_iff rfl hinside hmeaning).1 ⟨hmet, hkeeps⟩
        exact ⟨way, name, rfl, hsought⟩
      · rintro ⟨way, name, rfl, hsought⟩
        obtain ⟨hmet, hkeeps⟩ := (met_and_kept_iff rfl hinside hmeaning).2 ⟨way, name, rfl, hsought⟩
        refine ⟨_, ?_, rfl⟩
        rw [hfilter]
        exact List.mem_filter.2 ⟨hmet, by rw [hkeeps]⟩
  · refine ⟨[], ?_, .nil, fun p => iff_of_false List.not_mem_nil fun h => hdirectory h.1⟩
    unfold discover
    dsimp only
    rw [if_pos (by simpa using hdirectory)]
    rfl

/-- Below a source root in its repository exactly the sought files are discovered, each once and in
ascending order of their components, in whatever order the entries of the tree are listed. -/
theorem discover_exact (hkeys : t.nodes.keys.Nodup) {repository root : Path}
    {inner : List String}
    (hinside : (t.resolve root).parts = (t.resolve repository).parts ++ inner)
    {r : DiscoveryRule} {ignores : String → Bool} (hignores : t.IgnoresBy r repository ignores) :
    ∃ files, (∀ u : FileTree, u.Relists t → u.discover repository root r = .ok files) ∧
      files.Pairwise Path.Before ∧
      ∀ p, p ∈ files ↔ t.isDirectory (t.resolve root) = true ∧ ∃ way name,
        p = ⟨true, (t.resolve root).parts ++ way ++ [name]⟩ ∧
        t.Sought r ignores (t.resolve root).parts inner way name := by
  obtain ⟨files, -, hsorted, hfiles⟩ := exists_discover_sought hkeys hinside hignores
  refine ⟨files, fun u hu => ?_, hsorted, hfiles⟩
  have hsame := hu.samePlaces hkeys
  have hinsideThere : (u.resolve root).parts = (u.resolve repository).parts ++ inner := by
    rw [hsame.resolve_eq, hsame.resolve_eq, hinside]
  have hignoresThere : u.IgnoresBy r repository ignores := by
    unfold IgnoresBy
    rw [hu.load_eq hkeys]
    exact hignores
  obtain ⟨found, hfound, hascends, hmem⟩ :=
    exists_discover_sought (hu.nodup_keys hkeys) hinsideThere hignoresThere
  rw [hfound, Path.eq_of_pairwise_before hascends hsorted fun p => ?_]
  rw [hmem, hfiles, hsame.resolve_eq, hsame.isDirectory_eq]
  simp only [hu.sought_iff hkeys]

/-- A repository in which one directory is hidden, one is ignored, one is a link to another one, and
a link leads to a file. -/
def prunedTree : FileTree :=
  ⟨⟨[(["r"], .directory), (["r", "src"], .directory),
    (["r", "src", "b.py"], .file ⟨#[0]⟩ none), (["r", "src", "a-c.py"], .link "b.py"),
    (["r", "src", "a"], .directory), (["r", "src", "a", "z.py"], .file ⟨#[]⟩ none),
    (["r", "src", ".h"], .directory), (["r", "src", ".h", "x.py"], .file ⟨#[]⟩ none),
    (["r", "src", "dist"], .directory), (["r", "src", "dist", "y.py"], .file ⟨#[]⟩ none),
    (["r", "src", "l"], .link "a")]⟩, []⟩

/-- The same repository with its entries listed the other way round. -/
def prunedTreeReversed : FileTree := ⟨⟨prunedTree.nodes.entries.reverse⟩, []⟩

/-- A rule that wants small modules of any name but one. -/
def prunedRule : DiscoveryRule := ⟨[".py"], [], some ["b.py"], 1, IgnorePattern.compile⟩

/-- What is left of it, in either order. -/
theorem discover_exact_of_prunedTree :
    prunedTree.nodes.keys.Nodup ∧
    (prunedTree.resolve (.ofText "/r/src")).parts =
      (prunedTree.resolve (.ofText "/r")).parts ++ ["src"] ∧
    (∃ ignores, prunedTree.IgnoresBy prunedRule (.ofText "/r") ignores) ∧
    prunedTree.discover (.ofText "/r") (.ofText "/r/src") prunedRule =
      .ok [.ofText "/r/src/a/z.py", .ofText "/r/src/a-c.py"] ∧
    prunedTreeReversed.discover (.ofText "/r") (.ofText "/r/src") prunedRule =
      .ok [.ofText "/r/src/a/z.py", .ofText "/r/src/a-c.py"] := by
  have hkeys : prunedTree.nodes.keys.Nodup := by decide
  have hinside : (prunedTree.resolve (.ofText "/r/src")).parts =
      (prunedTree.resolve (.ofText "/r")).parts ++ ["src"] := by decide +kernel
  obtain ⟨ignores, hmeaning⟩ : ∃ ignores, Ignore.meaning prunedRule.compile ["b.py"] =
      .ok ignores := ⟨_, rfl⟩
  have hignores : prunedTree.IgnoresBy prunedRule (.ofText "/r") ignores :=
    ⟨["b.py"], Or.inl rfl, hmeaning⟩
  refine ⟨hkeys, hinside, ⟨ignores, hignores⟩, ?_⟩
  obtain ⟨files, hfound, -⟩ := discover_exact hkeys hinside hignores
  have hhere : (prunedTree.discover (.ofText "/r") (.ofText "/r/src") prunedRule).toOption =
      some [.ofText "/r/src/a/z.py", .ofText "/r/src/a-c.py"] := by
    decide +kernel
  rw [hfound prunedTree ⟨.refl _, rfl⟩] at hhere
  obtain rfl := Option.some.inj hhere
  exact ⟨hfound _ ⟨.refl _, rfl⟩, hfound prunedTreeReversed ⟨List.reverse_perm _, rfl⟩⟩

end FileTree

end CodeAtlas
