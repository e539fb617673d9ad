import CodeAtlas.Proofs.Text.Split
import CodeAtlas.Trace.Context

/-!
# The node of a frame

A frame is matched by the name of its class, by its file, or by the simple name of its class. The
search for a file keeps the best node met so far. This file proves that what it ends with is the
first node with the longest source file in which the path ends, component by component, and from
that which node a frame is matched to and where the order of the nodes counts.
-/

namespace CodeAtlas

namespace Graph

/-! ## Paths that end in a file -/

/-- A path ends in a file that has a name: the last components of the path are those of the
file. -/
def EndsIn (path file : String) : Prop :=
  file ≠ "" ∧ Text.split file '/' <:+ Text.split path '/'

/-- The last components of a text are those of another one if the two are equal or a slash stands
in front of the other one. -/
theorem split_suffix_iff {path file : String} :
    Text.split file '/' <:+ Text.split path '/' ↔
      path = file ∨ ∃ start, path = start ++ "/" ++ file := by
  have hslash : "/".toList = ['/'] := rfl
  constructor
  · rintro ⟨above, habove⟩
    cases above with
    | nil => exact Or.inl (Text.split_injective '/' habove).symm
    | cons part parts =>
      have hjoined : Text.join "/" (Text.split path '/') =
          Text.join "/" ((part :: parts) ++ [file]) := by
        rw [← habove, ← Text.join_flatMap_split hslash ((part :: parts) ++ [file]),
          ← Text.join_flatMap_split hslash (part :: parts ++ Text.split file '/'),
          List.flatMap_append, List.flatMap_append, List.flatMap_singleton,
          List.flatMap_congr fun p hp => Text.split_of_mem_split hp, List.flatMap_singleton']
      rw [Text.join_split hslash, Text.join_concat "/" (List.cons_ne_nil part parts)] at hjoined
      exact Or.inr ⟨_, hjoined⟩
  · rintro (rfl | ⟨start, rfl⟩)
    · exact List.suffix_rfl
    · rw [Text.split_append hslash]
      exact List.suffix_append _ _

theorem endsInFile_iff {path file : String} :
    endsInFile path file = true ↔ Text.split file '/' <:+ Text.split path '/' := by
  rw [split_suffix_iff, endsInFile, Bool.or_eq_true, beq_iff_eq, Text.endsWith_iff]
  simp only [String.append_assoc]

/-- Of two files in which a path ends, neither of which is longer, there is only one. -/
theorem EndsIn.eq_of_length {path file other : String} (hfile : EndsIn path file)
    (hother : EndsIn path other) (hlength : file.length = other.length) : file = other := by
  have hsuffix {name : String} (hname : EndsIn path name) : name.toList <:+ path.toList := by
    rcases split_suffix_iff.1 hname.2 with rfl | ⟨start, rfl⟩
    · exact List.suffix_rfl
    · rw [String.toList_append]
      exact List.suffix_append _ _
  refine String.toList_injective ?_
  exact (List.suffix_of_suffix_length_le (hsuffix hfile) (hsuffix hother)
    (Nat.le_of_eq hlength)).eq_of_length hlength

/-! ## The longest file -/

/-- A node is the first one with the longest source file in which a path ends. -/
def FirstLongest (nodes : List (String × String)) (path id : String) : Prop :=
  ∃ file, EndsIn path file ∧ (∀ n ∈ nodes, EndsIn path n.2 → n.2.length ≤ file.length) ∧
    nodes.find? (fun n => n.2 = file) = some (id, file)

/-- What is known about the best node met so far. -/
def Scanned (nodes : List (String × String)) (path : String) : Option (String × Nat) → Prop
  | none => ∀ n ∈ nodes, ¬EndsIn path n.2
  | some (id, length) => ∃ file, length = file.length ∧ EndsIn path file ∧
      (∀ n ∈ nodes, EndsIn path n.2 → n.2.length ≤ length) ∧
      nodes.find? (fun n => n.2 = file) = some (id, file)

/-- A node with a longer file than any in which the path ends is the best one. -/
theorem Scanned.longer {nodes : List (String × String)} {path : String}
    {best : Option (String × Nat)} (h : Scanned nodes path best) {node : String × String}
    (hnode : EndsIn path node.2) (hlength : (best.map (·.2)).getD 0 < node.2.length) :
    Scanned (nodes ++ [node]) path (some (node.1, node.2.length)) := by
  have hshorter : ∀ n ∈ nodes, EndsIn path n.2 → n.2.length < node.2.length := by
    intro n hn hendsIn
    cases best with
    | none => exact absurd hendsIn (h n hn)
    | some found =>
      obtain ⟨file, -, -, hbound, -⟩ := h
      exact Nat.lt_of_le_of_lt (hbound n hn hendsIn) hlength
  refine ⟨node.2, rfl, hnode, fun n hn hendsIn => ?_, ?_⟩
  · rcases List.mem_append.1 hn with hn | hn
    · exact Nat.le_of_lt (hshorter n hn hendsIn)
    · rw [List.mem_singleton.1 hn]
  · have hnone : nodes.find? (fun n => n.2 = node.2) = none := by
      rw [List.find?_eq_none]
      intro n hn heq
      have heq : n.2 = node.2 := of_decide_eq_true heq
      exact Nat.lt_irrefl _ (heq ▸ hshorter n hn (heq.symm ▸ hnode))
    rw [List.find?_append, hnone]
    simp

/-- A node with no longer file leaves the best one. -/
theorem Scanned.shorter {nodes : List (String × String)} {path : String}
    {best : Option (String × Nat)} (h : Scanned nodes path best) {node : String × String}
    (hbound : EndsIn path node.2 → node.2.length ≤ (best.map (·.2)).getD 0) :
    Scanned (nodes ++ [node]) path best := by
  cases best with
  | none =>
    intro n hn hendsIn
    rcases List.mem_append.1 hn with hn | hn
    · exact h n hn hendsIn
    · rw [List.mem_singleton.1 hn] at hendsIn
      exact hendsIn.1 (String.length_eq_zero_iff.1 (Nat.le_zero.1 (hbound hendsIn)))
  | some found =>
    obtain ⟨file, hlength, hfile, hlongest, hfirst⟩ := h
    refine ⟨file, hlength, hfile, fun n hn hendsIn => ?_, ?_⟩
    · rcases List.mem_append.1 hn with hn | hn
      · exact hlongest n hn hendsIn
      · rw [List.mem_singleton.1 hn] at hendsIn ⊢
        exact hbound hendsIn
    · rw [List.find?_append, hfirst, Option.some_or]

/-- A node replaces the best one only with a longer file, which no earlier node can have. -/
theorem Scanned.longerMatch {nodes : List (String × String)} {path : String}
    {best : Option (String × Nat)} (h : Scanned nodes path best) (node : String × String) :
    Scanned (nodes ++ [node]) path (longerMatch path best node) := by
  unfold Graph.longerMatch
  split
  · next hbetter =>
    obtain ⟨hends, hlength⟩ := Bool.and_eq_true_iff.1 hbetter
    have hlength : (best.map (·.2)).getD 0 < node.2.length := of_decide_eq_true hlength
    refine h.longer ⟨fun hempty => ?_, endsInFile_iff.1 hends⟩ hlength
    rw [hempty] at hlength
    exact Nat.not_lt_zero _ hlength
  · next hworse =>
    refine h.shorter fun hnode => ?_
    by_contra hlonger
    refine hworse (Bool.and_eq_true_iff.2 ⟨endsInFile_iff.2 hnode.2, ?_⟩)
    exact decide_eq_true (Nat.lt_of_not_le hlonger)

theorem scanned_foldl (nodes : List (String × String)) (path : String) :
    Scanned nodes path (nodes.foldl (longerMatch path) none) := by
  induction nodes using List.reverseRecOn with
  | nil => exact fun n hn => absurd hn List.not_mem_nil
  | append_singleton nodes node ih =>
    rw [List.foldl_append]
    exact ih.longerMatch node

/-- The files of two nodes that are both longest are the same, and so are the first nodes. -/
theorem FirstLongest.unique {nodes : List (String × String)} {path id other : String}
    (hid : FirstLongest nodes path id) (hother : FirstLongest nodes path other) : id = other := by
  obtain ⟨file, hfile, hlongest, hfirst⟩ := hid
  obtain ⟨file', hfile', hlongest', hfirst'⟩ := hother
  have hle := hlongest _ (List.mem_of_find?_eq_some hfirst') hfile'
  have hle' := hlongest' _ (List.mem_of_find?_eq_some hfirst) hfile
  obtain rfl := hfile.eq_of_length hfile' (Nat.le_antisymm hle' hle)
  rw [hfirst] at hfirst'
  exact (Prod.ext_iff.1 (Option.some.inj hfirst')).1

theorem matchFile?_eq_none_iff {g : Graph} {path : String} :
    g.matchFile? path = none ↔ ∀ n ∈ g.nodes.toList, ¬EndsIn path n.2 := by
  have hscanned := scanned_foldl g.nodes.toList path
  unfold matchFile?
  rw [Option.map_eq_none_iff]
  constructor
  · intro hnone
    rwa [hnone] at hscanned
  · intro hnever
    cases hbest : g.nodes.toList.foldl (longerMatch path) none with
    | none => rfl
    | some found =>
      rw [hbest] at hscanned
      obtain ⟨file, -, hfile, -, hfirst⟩ := hscanned
      exact absurd hfile (hnever _ (List.mem_of_find?_eq_some hfirst))

/-- The search for a file finds the first node with the longest one. -/
theorem matchFile?_eq_some_iff {g : Graph} {path id : String} :
    g.matchFile? path = some id ↔ FirstLongest g.nodes.toList path id := by
  have hfound {id : String} (h : g.matchFile? path = some id) :
      FirstLongest g.nodes.toList path id := by
    have hscanned := scanned_foldl g.nodes.toList path
    obtain ⟨⟨found, length⟩, hbest, rfl⟩ := Option.map_eq_some_iff.1 h
    rw [hbest] at hscanned
    obtain ⟨file, rfl, hfile, hlongest, hfirst⟩ := hscanned
    exact ⟨file, hfile, hlongest, hfirst⟩
  refine ⟨hfound, fun hfirst => ?_⟩
  cases hmatch : g.matchFile? path with
  | none =>
    obtain ⟨file, hfile, -, hmem⟩ := hfirst
    exact absurd hfile (matchFile?_eq_none_iff.1 hmatch _ (List.mem_of_find?_eq_some hmem))
  | some other => rw [(hfound hmatch).unique hfirst]

/-! ## Frames -/

/-- The path that a frame names, with slashes between its components. -/
def slashed (path : String) : String := Text.replaceChar path '\\' "/"

/-- The class of a frame is a node. -/
def Named (g : Graph) (f : Frame) : Prop := f.className ≠ "" ∧ f.className ∈ g.identifiers

/-- The file of a frame leads to a node. -/
def FiledAt (g : Graph) (f : Frame) (id : String) : Prop :=
  ∃ path, f.filePath = some path ∧ FirstLongest g.nodes.toList (slashed path) id

/-- A frame of a class that has its source in a file for Java. -/
def OfJavaClass (f : Frame) : Prop :=
  f.className ≠ "" ∧ ∃ path stem, f.filePath = some path ∧
    (Path.ofText (slashed path)).name = stem ++ ".java"

/-- The first node that has the simple name of a frame's class. -/
def FirstNamesake (g : Graph) (f : Frame) (id : String) : Prop :=
  g.identifiers.find? (fun other => simpleName other = simpleName f.className) = some id

theorem FirstNamesake.simpleName_eq {g : Graph} {f : Frame} {id : String}
    (h : g.FirstNamesake f id) : simpleName id = simpleName f.className :=
  of_decide_eq_true
    (List.find?_some (p := fun other => simpleName other = simpleName f.className) h)

/-- Which node a frame is matched to: the node of its class; else the one to which its file leads;
else, for a class in a file for Java, the first one with the class's simple name; else none. -/
inductive Matches (g : Graph) (f : Frame) : Option String → Prop
  | named (hnamed : g.Named f) : Matches g f (some f.className)
  | filed (hnamed : ¬g.Named f) {id : String} (hfiled : g.FiledAt f id) : Matches g f (some id)
  | namesake (hnamed : ¬g.Named f) (hfiled : ∀ id, ¬g.FiledAt f id) (hjava : OfJavaClass f)
      {id : String} (hfirst : g.FirstNamesake f id) : Matches g f (some id)
  | unmatched (hnamed : ¬g.Named f) (hfiled : ∀ id, ¬g.FiledAt f id)
      (hother : OfJavaClass f → ∀ id, ¬g.FirstNamesake f id) : Matches g f none

theorem named_iff {g : Graph} {f : Frame} :
    (decide (f.className ≠ "") && g.contains f.className) = true ↔ g.Named f := by
  rw [Bool.and_eq_true, decide_eq_true_eq]
  exact and_congr_right' (Dict.contains_iff_mem_keys _ _)

/-- A path of no characters ends in no file. -/
theorem not_endsIn_empty (file : String) : ¬EndsIn "" file := by
  rintro ⟨hheld, hends⟩
  rcases split_suffix_iff.1 hends with heq | ⟨start, heq⟩
  · exact hheld heq.symm
  · have hlength := congrArg String.length heq
    have hslash : "/".length = 1 := rfl
    rw [String.length_append, String.length_append, hslash, String.length_empty] at hlength
    omega

theorem filed_iff {g : Graph} {f : Frame} {path id : String} (hpath : f.filePath = some path) :
    g.FiledAt f id ↔ g.matchFile? (slashed path) = some id := by
  rw [matchFile?_eq_some_iff]
  constructor
  · rintro ⟨other, hother, hfirst⟩
    rw [hpath] at hother
    rwa [Option.some.inj hother]
  · exact fun hfirst => ⟨path, hpath, hfirst⟩

theorem ofJavaClass_iff {f : Frame} {path : String} (hpath : f.filePath = some path) :
    (decide (f.className ≠ "") &&
      Text.endsWith (Path.ofText (slashed path)).name ".java") = true ↔ OfJavaClass f := by
  rw [Bool.and_eq_true, decide_eq_true_eq, Text.endsWith_iff]
  refine and_congr_right' ⟨fun ⟨stem, hstem⟩ => ⟨path, stem, hpath, hstem⟩, ?_⟩
  rintro ⟨other, stem, hother, hstem⟩
  rw [hpath] at hother
  rw [Option.some.inj hother]
  exact ⟨stem, hstem⟩

/-- Without a path there is neither a file nor a class in one. -/
theorem not_filed_of_no_path {g : Graph} {f : Frame}
    (hpath : ∀ path, f.filePath = some path → path = "") :
    (∀ id, ¬g.FiledAt f id) ∧ ¬OfJavaClass f := by
  constructor
  · rintro id ⟨path, hsome, file, hends, -⟩
    obtain rfl := hpath path hsome
    exact not_endsIn_empty file hends
  · rintro ⟨-, path, stem, hsome, hname⟩
    obtain rfl := hpath path hsome
    have hlength := congrArg String.length hname
    have hempty : (Path.ofText (slashed "")).name.length = 0 := by decide
    rw [hempty, String.length_append] at hlength
    have hjava : ".java".length = 5 := by decide
    omega

/-- The search for a frame's node does what it should. -/
theorem matches_matchFrame? (g : Graph) (f : Frame) : g.Matches f (g.matchFrame? f) := by
  unfold matchFrame?
  split
  · next hnamed => exact .named (named_iff.1 hnamed)
  · next hnamed =>
    have hnamed : ¬g.Named f := fun h => hnamed (named_iff.2 h)
    split
    · next path hpath =>
      split
      · next hempty =>
        obtain ⟨hfiled, hjava⟩ := not_filed_of_no_path (g := g) (f := f) (by
          intro other hother
          rw [hpath] at hother
          rw [← Option.some.inj hother, hempty])
        exact .unmatched hnamed hfiled fun h => absurd h hjava
      · unfold matchPath?
        dsimp only
        split
        · next id hid => exact .filed hnamed ((filed_iff hpath).2 hid)
        · next hnone =>
          have hfiled (id : String) : ¬g.FiledAt f id := by
            rw [filed_iff hpath, slashed, hnone]
            nofun
          split
          · next hjava =>
            cases hfirst : g.matchSimpleName? f.className with
            | none =>
              refine .unmatched hnamed hfiled fun _ id hid => ?_
              exact absurd (hfirst.symm.trans hid) nofun
            | some id => exact .namesake hnamed hfiled ((ofJavaClass_iff hpath).1 hjava) hfirst
          · next hjava =>
            exact .unmatched hnamed hfiled fun h => absurd ((ofJavaClass_iff hpath).2 h) hjava
    · next hpath =>
      obtain ⟨hfiled, hjava⟩ := not_filed_of_no_path (g := g) (f := f) (by
        intro other hother
        rw [hpath] at hother
        cases hother)
      exact .unmatched hnamed hfiled fun h => absurd h hjava

/-- What a frame is matched to is a node. -/
theorem Matches.mem {g : Graph} {f : Frame} {id : String} (h : g.Matches f (some id)) :
    id ∈ g.identifiers := by
  cases h with
  | named hnamed => exact hnamed.2
  | filed _ hfiled =>
    obtain ⟨path, -, file, -, -, hfirst⟩ := hfiled
    exact List.mem_map.2 ⟨_, List.mem_of_find?_eq_some hfirst, rfl⟩
  | namesake _ _ _ hfirst => exact List.mem_of_find?_eq_some hfirst

theorem FiledAt.unique {g : Graph} {f : Frame} {id other : String} (hid : g.FiledAt f id)
    (hother : g.FiledAt f other) : id = other := by
  obtain ⟨path, hpath, hfirst⟩ := hid
  rw [filed_iff hpath, matchFile?_eq_some_iff] at hother
  exact hfirst.unique hother

/-- A frame is matched in one way only. -/
theorem Matches.unique {g : Graph} {f : Frame} {answer other : Option String}
    (h : g.Matches f answer) (hother : g.Matches f other) : answer = other := by
  cases h with
  | named hnamed =>
    cases hother with
    | named => rfl
    | filed hnot | namesake hnot | unmatched hnot => exact absurd hnamed hnot
  | filed hnot hfiled =>
    cases hother with
    | named hnamed => exact absurd hnamed hnot
    | filed _ hfiled' => rw [hfiled.unique hfiled']
    | namesake _ hnone | unmatched _ hnone => exact absurd hfiled (hnone _)
  | namesake hnot hnone hjava hfirst =>
    cases hother with
    | named hnamed => exact absurd hnamed hnot
    | filed _ hfiled => exact absurd hfiled (hnone _)
    | namesake _ _ _ hfirst' => exact hfirst.symm.trans hfirst'
    | unmatched _ _ hother => exact absurd hfirst (hother hjava _)
  | unmatched hnot hnone hnobody =>
    cases hother with
    | named hnamed => exact absurd hnamed hnot
    | filed _ hfiled => exact absurd hfiled (hnone _)
    | namesake _ _ hjava hfirst => exact absurd hfirst (hnobody hjava _)
    | unmatched => rfl

/-! ## The order of nodes -/

/-- Two nodes come from one file or share their simple name. -/
def Akin (g : Graph) (a b : String) : Prop :=
  (∃ file, (a, file) ∈ g.nodes.toList ∧ (b, file) ∈ g.nodes.toList) ∨ simpleName a = simpleName b

/-- Two graphs have the same nodes, and those that are akin stand in the same order. -/
structure SameAmongKin (g h : Graph) : Prop where
  files : ∀ file, h.nodes.toList.filter (fun n => n.2 = file) =
    g.nodes.toList.filter fun n => n.2 = file
  names : ∀ name, h.identifiers.filter (fun id => simpleName id = name) =
    g.identifiers.filter fun id => simpleName id = name

section Reordered

variable {g h : Graph} (hsame : ∀ n, n ∈ h.nodes.toList ↔ n ∈ g.nodes.toList)
include hsame

theorem mem_identifiers_of_sameNodes {id : String} : id ∈ h.identifiers ↔ id ∈ g.identifiers := by
  simp only [identifiers, Dict.keys, List.mem_map]
  exact exists_congr fun n => and_congr_left' (hsame n)

/-- Among the same nodes the longest file is the same. -/
theorem FirstLongest.reordered {path id : String} (hid : FirstLongest g.nodes.toList path id) :
    ∃ file other, FirstLongest h.nodes.toList path other ∧
      g.nodes.toList.find? (fun n => n.2 = file) = some (id, file) ∧
      h.nodes.toList.find? (fun n => n.2 = file) = some (other, file) := by
  obtain ⟨file, hfile, hlongest, hfirst⟩ := hid
  have hmem : (id, file) ∈ h.nodes.toList := (hsame _).2 (List.mem_of_find?_eq_some hfirst)
  obtain ⟨⟨other, found⟩, hother⟩ := Option.isSome_iff_exists.1
    (List.find?_isSome.2 ⟨_, hmem, decide_eq_true rfl⟩ :
      (h.nodes.toList.find? fun n => n.2 = file).isSome)
  obtain rfl : found = file := of_decide_eq_true (List.find?_some hother :)
  exact ⟨found, other, ⟨found, hfile, fun n hn => hlongest n ((hsame n).1 hn), hother⟩, hfirst,
    hother⟩

theorem named_of_sameNodes {f : Frame} : h.Named f ↔ g.Named f :=
  and_congr_right' (mem_identifiers_of_sameNodes hsame)

theorem FiledAt.reordered {f : Frame} {id : String} (hid : g.FiledAt f id) :
    ∃ file other, h.FiledAt f other ∧
      g.nodes.toList.find? (fun n => n.2 = file) = some (id, file) ∧
      h.nodes.toList.find? (fun n => n.2 = file) = some (other, file) := by
  obtain ⟨path, hpath, hfirst⟩ := hid
  obtain ⟨file, other, hother, hfirsts⟩ := hfirst.reordered hsame
  exact ⟨file, other, ⟨path, hpath, hother⟩, hfirsts⟩

theorem FirstNamesake.reordered {f : Frame} {id : String} (hid : g.FirstNamesake f id) :
    ∃ other, h.FirstNamesake f other := by
  refine Option.isSome_iff_exists.1 (List.find?_isSome.2 ⟨id, ?_, decide_eq_true hid.simpleName_eq⟩)
  exact (mem_identifiers_of_sameNodes hsame).2 (List.mem_of_find?_eq_some hid)

/-- Where the same nodes stand in another order, a frame is matched in the same way, to another
first node with the same file or with the same simple name. -/
theorem Matches.reordered {f : Frame} {answer : Option String} (hanswer : g.Matches f answer)
    {R : String → String → Prop} (hnamed : R f.className f.className)
    (hfile : ∀ file a b, g.nodes.toList.find? (fun n => n.2 = file) = some (a, file) →
      h.nodes.toList.find? (fun n => n.2 = file) = some (b, file) → R a b)
    (hname : ∀ a b, g.FirstNamesake f a → h.FirstNamesake f b → R a b) :
    ∃ other, h.Matches f other ∧ Option.Rel R answer other := by
  have hback : ∀ n, n ∈ g.nodes.toList ↔ n ∈ h.nodes.toList := fun n => (hsame n).symm
  have hunfiled (hnone : ∀ id, ¬g.FiledAt f id) (id : String) : ¬h.FiledAt f id := fun hid => by
    obtain ⟨-, other, hother, -⟩ := hid.reordered hback
    exact hnone other hother
  cases hanswer with
  | named hg => exact ⟨_, .named ((named_of_sameNodes hsame).2 hg), .some hnamed⟩
  | filed hg hid =>
    obtain ⟨file, other, hother, hfirst, hfirst'⟩ := hid.reordered hsame
    exact ⟨_, .filed (fun hh => hg ((named_of_sameNodes hsame).1 hh)) hother,
      .some (hfile file _ _ hfirst hfirst')⟩
  | namesake hg hnone hjava hfirst =>
    obtain ⟨other, hother⟩ := hfirst.reordered hsame
    exact ⟨_, .namesake (fun hh => hg ((named_of_sameNodes hsame).1 hh)) (hunfiled hnone) hjava
      hother, .some (hname _ _ hfirst hother)⟩
  | unmatched hg hnone hnobody =>
    refine ⟨none, .unmatched (fun hh => hg ((named_of_sameNodes hsame).1 hh)) (hunfiled hnone)
      fun hjava id hid => ?_, .none⟩
    obtain ⟨other, hother⟩ := hid.reordered hback
    exact hnobody hjava other hother

end Reordered

theorem SameAmongKin.sameNodes {g h : Graph} (hkin : SameAmongKin g h) (n : String × String) :
    n ∈ h.nodes.toList ↔ n ∈ g.nodes.toList := by
  have hfile := congrArg (n ∈ ·) (hkin.files n.2)
  simpa [List.mem_filter] using hfile

/-- Whatever the graph and the frame, a frame is matched to the node of its class, else to the
first node with the longest source file in which its path ends, else, for a class in a file for
Java, to the first node with its simple name, else to none. The answer is a node. In another order
of the same nodes the answer is one that is akin to it, and it is the same if nodes that are akin
stand in the same order. -/
theorem matchFrame_exact (g : Graph) (f : Frame) :
    (∀ answer, g.matchFrame? f = answer ↔ g.Matches f answer) ∧
    (∀ id, g.matchFrame? f = some id → id ∈ g.identifiers) ∧
    (∀ h : Graph, h.nodes.toList.Perm g.nodes.toList →
      Option.Rel g.Akin (g.matchFrame? f) (h.matchFrame? f)) ∧
    ∀ h : Graph, SameAmongKin g h → h.matchFrame? f = g.matchFrame? f := by
  have hanswer := matches_matchFrame? g f
  refine ⟨fun answer => ⟨fun h => h ▸ hanswer, hanswer.unique⟩, fun id hid => ?_,
    fun h hperm => ?_, fun h hkin => ?_⟩
  · rw [hid] at hanswer
    exact hanswer.mem
  · have hsame (n : String × String) : n ∈ h.nodes.toList ↔ n ∈ g.nodes.toList := hperm.mem_iff
    have hfile (file a b : String)
        (ha : g.nodes.toList.find? (fun n => n.2 = file) = some (a, file))
        (hb : h.nodes.toList.find? (fun n => n.2 = file) = some (b, file)) : g.Akin a b :=
      Or.inl ⟨file, List.mem_of_find?_eq_some ha, (hsame _).1 (List.mem_of_find?_eq_some hb)⟩
    have hname (a b : String) (ha : g.FirstNamesake f a) (hb : h.FirstNamesake f b) :
        g.Akin a b := Or.inr (ha.simpleName_eq.trans hb.simpleName_eq.symm)
    obtain ⟨other, hother, hrel⟩ := hanswer.reordered hsame (Or.inr rfl) hfile hname
    rwa [(matches_matchFrame? h f).unique hother]
  · have hfile (file a b : String)
        (ha : g.nodes.toList.find? (fun n => n.2 = file) = some (a, file))
        (hb : h.nodes.toList.find? (fun n => n.2 = file) = some (b, file)) : b = a := by
      rw [← List.head?_filter, ← hkin.files, List.head?_filter, hb] at ha
      exact (Prod.ext_iff.1 (Option.some.inj ha)).1
    have hname (a b : String) (ha : g.FirstNamesake f a) (hb : h.FirstNamesake f b) : b = a := by
      unfold FirstNamesake at ha hb
      rw [← List.head?_filter, ← hkin.names, List.head?_filter, hb] at ha
      exact Option.some.inj ha
    obtain ⟨other, hother, hrel⟩ := hanswer.reordered hkin.sameNodes
      (R := fun a b => b = a) rfl hfile hname
    rw [(matches_matchFrame? h f).unique hother]
    generalize g.matchFrame? f = answer at hrel
    cases hrel with
    | none => rfl
    | some heq => rw [heq]

/-- Of nodes with nested, equal and empty source files the first one with the longest file is
taken, whatever else stands before it. -/
example : ((((empty.addNode "x" "").addNode "b" "b.py").addNode "ab" "a/b.py").addNode "ba"
    "a/b.py").matchFrame? ⟨"", "f", some 3, some "C:\\src\\a\\b.py"⟩ = some "ab" := by decide

end Graph

end CodeAtlas
