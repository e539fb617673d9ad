import CodeAtlas.Proofs.Files.Straight
import CodeAtlas.Proofs.Graph.WellFormed
import CodeAtlas.Source.Discovery

/-!
# Files that are discovered

Discovery walks through directories and follows no link to another directory. This file proves
that in a tree whose files stand in directories every path that is discovered leads to a file.
-/

namespace CodeAtlas

namespace FileTree

variable {t : FileTree}

/-- A tree as file systems have them: whatever stands somewhere stands in a directory, and its
name is not a pair of dots. -/
structure WellFormed (t : FileTree) : Prop where
  names : ∀ parts ∈ t.nodes.keys, ".." ∉ parts
  parents : ∀ parts ∈ t.nodes.keys, t.hasDirectory parts.dropLast = true

instance (t : FileTree) : Decidable t.WellFormed :=
  decidable_of_iff ((∀ parts ∈ t.nodes.keys, ".." ∉ parts) ∧
      ∀ parts ∈ t.nodes.keys, t.hasDirectory parts.dropLast = true)
    ⟨fun h => ⟨h.1, h.2⟩, fun h => ⟨h.names, h.parents⟩⟩

/-- What stands somewhere is listed. -/
theorem mem_keys_of_node? {parts : List String} (hparts : parts ≠ []) {n : FileNode}
    (h : t.node? parts = some n) : parts ∈ t.nodes.keys := by
  unfold node? at h
  rw [if_neg (by simpa using hparts)] at h
  exact (Dict.contains_iff_mem_keys _ _).1 (Dict.contains_of_get?_eq_some h)

/-- Above what stands somewhere there are directories only. -/
theorem WellFormed.directory_above (ht : t.WellFormed) {done rest : List String}
    (hrest : rest ≠ []) {n : FileNode} (h : t.node? (done ++ rest) = some n) :
    t.node? done = some .directory := by
  induction rest using List.reverseRecOn generalizing n with
  | nil => exact absurd rfl hrest
  | append_singleton rest name ih =>
    have hkey := mem_keys_of_node? (by simp) h
    have hparent := hasDirectory_iff.1 (ht.parents _ hkey)
    rw [← List.append_assoc, List.dropLast_concat] at hparent
    by_cases hnil : rest = []
    · rwa [hnil, List.append_nil] at hparent
    · exact ih hnil hparent

/-- A path to what is no link is straight. -/
theorem WellFormed.straight (ht : t.WellFormed) {parts : List String} {n : FileNode}
    (h : t.node? parts = some n) (hlink : ∀ target, n ≠ .link target) : t.Straight parts := by
  refine ⟨fun hmem => ?_, fun above habove target heq => ?_⟩
  · have hne : parts ≠ [] := by
      rintro rfl
      cases hmem
    exact ht.names _ (mem_keys_of_node? hne h) hmem
  · obtain ⟨rest, rfl⟩ := habove
    by_cases hrest : rest = []
    · rw [hrest, List.append_nil, heq] at h
      exact hlink target (Option.some.inj h).symm
    · rw [ht.directory_above hrest h] at heq
      cases heq

/-- A path along directories is walked as it is written. -/
theorem WellFormed.locateWith_eq (ht : t.WellFormed)
    (follow : Option (List String → List String → Except FileErrorKind (List String)))
    (done rest : List String) {n : FileNode} (h : t.node? (done ++ rest) = some n)
    (hlink : ∀ target, n ≠ .link target) :
    t.locateWith follow done rest = .ok (done ++ rest) := by
  refine (ht.straight h hlink).locateWith_eq fun parts hparts hne => ?_
  obtain ⟨below, heq⟩ := hparts
  rw [← heq] at h
  exact ht.directory_above (fun hnil => hne (by rw [← heq, hnil, List.append_nil])) h

/-- What stands at a path without being a link is found there. -/
theorem WellFormed.target?_eq (ht : t.WellFormed) {parts : List String} {n : FileNode}
    (h : t.node? parts = some n) (hlink : ∀ target, n ≠ .link target) :
    t.target? ⟨true, parts⟩ = some n := by
  have hlocated : t.locate ⟨true, parts⟩ = .ok parts := ht.locateWith_eq _ [] parts h hlink
  unfold target?
  rw [hlocated]
  exact h

/-- What a walk takes for a file: a file, or a link that does not lead to a directory. -/
def Listed (t : FileTree) (parts : List String) : Prop :=
  (∃ content tree, t.node? parts = some (.file content tree)) ∨
    (∃ target, t.node? parts = some (.link target)) ∧ t.isDirectory ⟨true, parts⟩ = false

/-- What a walk meets under one name below a directory. -/
def walkInto (t : FileTree) (r : DiscoveryRule) (depth : Nat) (dir : List String) (name : String) :
    List (List String) :=
  match t.node? (dir ++ [name]) with
  | some .directory => if r.enters name then t.walk r depth (dir ++ [name]) else []
  | some (.file ..) => [dir ++ [name]]
  | some (.link _) => if t.isDirectory ⟨true, dir ++ [name]⟩ then [] else [dir ++ [name]]
  | none => []

theorem walk_succ (t : FileTree) (r : DiscoveryRule) (depth : Nat) (dir : List String) :
    t.walk r (depth + 1) dir = (t.namesBelow dir).flatMap (t.walkInto r depth dir) := rfl

theorem mem_walkInto_iff {r : DiscoveryRule} {depth : Nat} {dir parts : List String}
    {name : String} :
    parts ∈ t.walkInto r depth dir name ↔
      (t.node? (dir ++ [name]) = some .directory ∧ r.enters name = true ∧
        parts ∈ t.walk r depth (dir ++ [name])) ∨
      (parts = dir ++ [name] ∧ t.Listed parts) := by
  have hhere : (parts = dir ++ [name] ∧ t.Listed parts) ↔
      parts = dir ++ [name] ∧ t.Listed (dir ++ [name]) :=
    and_congr_right fun heq => by rw [heq]
  rw [hhere]
  unfold walkInto Listed
  cases t.node? (dir ++ [name]) with
  | none => simp
  | some n =>
    cases n with
    | file content tree => simp
    | directory => by_cases henters : r.enters name = true <;> simp [henters]
    | link target =>
      by_cases hleads : t.isDirectory ⟨true, dir ++ [name]⟩ = true <;> simp [hleads]

/-- What a walk meets is taken for a file. -/
theorem listed_of_mem_walk {r : DiscoveryRule} {depth : Nat} {dir parts : List String}
    (h : parts ∈ t.walk r depth dir) : t.Listed parts := by
  induction depth generalizing dir with
  | zero => cases h
  | succ depth ih =>
    rw [walk_succ] at h
    obtain ⟨name, -, h⟩ := List.mem_flatMap.1 h
    rcases mem_walkInto_iff.1 h with ⟨-, -, hmet⟩ | ⟨-, hlisted⟩
    · exact ih hmet
    · exact hlisted

/-- What is small enough and no directory is a file. -/
theorem isFile_of_fits {r : DiscoveryRule} {p : Path} (h : r.fits t p = true)
    (hdirectory : t.isDirectory p = false) : t.isFile p = true := by
  unfold DiscoveryRule.fits size? at h
  unfold isDirectory at hdirectory
  unfold isFile
  cases hfound : t.target? p with
  | none =>
    rw [hfound] at h
    cases h
  | some n =>
    rw [hfound] at h hdirectory
    cases n with
    | file content tree => rfl
    | directory => cases hdirectory
    | link target => cases h

/-- A filter that can fail and does not lets through what passes it. -/
theorem eq_filter_of_filterM {α : Type} {f : α → Outcome Bool} {xs ys : List α}
    (h : xs.filterM f = .ok ys) : ys = xs.filter fun x => f x matches .ok true := by
  have hmain (xs acc zs : List α) (h : List.filterAuxM f xs acc = .ok zs) :
      zs = (xs.filter fun x => f x matches .ok true).reverse ++ acc := by
    induction xs generalizing acc with
    | nil =>
      cases h
      rfl
    | cons a rest ih =>
      obtain ⟨b, hb, h⟩ := Outcome.bind_eq_ok.1 h
      rw [ih _ h]
      cases b with
      | false => rw [List.filter_cons_of_neg (by rw [hb]; nofun)]; rfl
      | true =>
        rw [List.filter_cons_of_pos (by rw [hb]), List.reverse_cons, List.append_assoc]
        rfl
  obtain ⟨zs, hzs, h⟩ := Outcome.bind_eq_ok.1 h
  cases h
  rw [hmain xs [] zs hzs, List.append_nil, List.reverse_reverse]

/-- What a filter that can fail lets through has passed it. -/
theorem mem_of_filterM_eq_ok {α : Type} {f : α → Outcome Bool} {xs ys : List α}
    (h : xs.filterM f = .ok ys) : ∀ x ∈ ys, x ∈ xs ∧ f x = .ok true := by
  intro x hx
  rw [eq_filter_of_filterM h, List.mem_filter] at hx
  refine ⟨hx.1, ?_⟩
  split at hx
  · assumption
  · cases hx.2

/-- What a walk keeps has a wanted suffix and is small enough. -/
theorem suffix_fits_of_keeps {r : DiscoveryRule} {repository : Path} {patterns parts : List String}
    (h : r.keeps t repository patterns parts = .ok true) :
    r.suffixes.contains (Path.suffix ⟨true, parts⟩) = true ∧ r.fits t ⟨true, parts⟩ = true := by
  unfold DiscoveryRule.keeps at h
  dsimp only at h
  split at h
  · cases h
  · next hsuffix =>
    refine ⟨by simpa using hsuffix, ?_⟩
    split at h
    · cases h
    · obtain ⟨ignored, -, h⟩ := Outcome.bind_eq_ok.1 h
      cases ignored with
      | true => cases h
      | false => exact Except.ok.inj h

/-- What is discovered has been met by a walk, and was kept. -/
theorem mem_of_mem_discover {repository root : Path} {r : DiscoveryRule} {files : List Path}
    (h : t.discover repository root r = .ok files) {p : Path} (hp : p ∈ files) :
    ∃ patterns parts, p = ⟨true, parts⟩ ∧
      parts ∈ t.walk r (t.nodes.size + 1) (t.resolve root).parts ∧
      r.keeps t (t.resolve repository) patterns parts = .ok true := by
  unfold discover at h
  dsimp only at h
  split at h
  · cases h
    cases hp
  · obtain ⟨patterns, kept, hkept, rfl⟩ : ∃ patterns kept,
        ((t.walk r (t.nodes.size + 1) (t.resolve root).parts).filterM fun parts =>
          r.keeps t (t.resolve repository) patterns parts) = .ok kept ∧
        files = Path.sorted (kept.map fun parts => ⟨true, parts⟩) := by
      split at h <;>
      · obtain ⟨patterns, -, h⟩ := Outcome.bind_eq_ok.1 h
        obtain ⟨kept, hkept, h⟩ := Outcome.bind_eq_ok.1 h
        exact ⟨patterns, kept, hkept, (Except.ok.inj h).symm⟩
    obtain ⟨parts, hparts, rfl⟩ := List.mem_map.1 ((sortBy_perm _ _).mem_iff.1 hp)
    obtain ⟨hwalked, hpassed⟩ := mem_of_filterM_eq_ok hkept parts hparts
    exact ⟨patterns, parts, rfl, hwalked, hpassed⟩

/-- Every path that is discovered leads to a file. -/
theorem WellFormed.isFile_of_discover (ht : t.WellFormed) {repository root : Path}
    {r : DiscoveryRule} {files : List Path} (h : t.discover repository root r = .ok files) :
    ∀ p ∈ files, t.isFile p = true := by
  intro p hp
  obtain ⟨patterns, parts, rfl, hwalked, hpassed⟩ := mem_of_mem_discover h hp
  rcases listed_of_mem_walk hwalked with ⟨content, tree, hnode⟩ | ⟨-, hdirectory⟩
  · unfold isFile
    rw [ht.target?_eq hnode nofun]
  · exact isFile_of_fits (suffix_fits_of_keeps hpassed).2 hdirectory

end FileTree

end CodeAtlas
