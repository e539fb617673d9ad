import CodeAtlas.Proofs.Graph.WellFormed
import CodeAtlas.Proofs.Text.Split
import CodeAtlas.Trace.Context

/-!
# What a context shows

A context has an entry for every frame, the frames without a method, and the neighbours of the
nodes that were found. The entries of both lists are made and numbered one after the other. This
file proves what every list holds, in which order and under which numbers, and that the neighbours
are missing nobody and repeat nobody.
-/

namespace CodeAtlas

namespace Graph

/-! ## Frames and their methods -/

/-- A frame names a method: by its name, or by what follows a dot in it. -/
def Names (name : String) (m : Method) : Prop :=
  m.name = name ∨ ∃ owner, m.name = owner ++ "." ++ name

theorem names_iff {name : String} {m : Method} :
    (decide (m.name = name) || Text.endsWith m.name ("." ++ name)) = true ↔ Names name m := by
  rw [Bool.or_eq_true, decide_eq_true_eq, Text.endsWith_iff]
  simp only [Names, String.append_assoc]

/-- The method of a frame's node that the frame names; of several it is the first one. -/
def Locates (g : Graph) (f : Frame) (id : String) (m : Method) : Prop :=
  g.matchFrame? f = some id ∧ ∃ before after, g.methodsOf id = before ++ m :: after ∧
    Names f.methodName m ∧ ∀ other ∈ before, ¬Names f.methodName other

/-- A frame has a node, and names a method of it. -/
def Located (g : Graph) (f : Frame) : Prop :=
  ∃ id, g.matchFrame? f = some id ∧ ∃ m ∈ g.methodsOf id, Names f.methodName m

theorem frameMethod?_eq_none_iff {g : Graph} {id name : String} :
    g.frameMethod? id name = none ↔ ∀ m ∈ g.methodsOf id, ¬Names name m := by
  unfold frameMethod?
  rw [List.find?_eq_none]
  exact forall₂_congr fun m _ => not_congr names_iff

theorem frameMethod?_eq_some_iff {g : Graph} {id name : String} {m : Method} :
    g.frameMethod? id name = some m ↔ ∃ before after, g.methodsOf id = before ++ m :: after ∧
      Names name m ∧ ∀ other ∈ before, ¬Names name other := by
  unfold frameMethod?
  rw [List.find?_eq_some_iff_append, names_iff]
  constructor
  · rintro ⟨hm, before, after, hmethods, hbefore⟩
    refine ⟨before, after, hmethods, hm, fun other hother => ?_⟩
    have hnot := hbefore other hother
    rwa [Bool.not_eq_true', ← Bool.not_eq_true, names_iff] at hnot
  · rintro ⟨before, after, hmethods, hm, hbefore⟩
    refine ⟨hm, before, after, hmethods, fun other hother => ?_⟩
    rw [Bool.not_eq_true', ← Bool.not_eq_true, names_iff]
    exact hbefore other hother

theorem located_iff {g : Graph} {f : Frame} :
    ((g.matchFrame? f).any fun id => (g.frameMethod? id f.methodName).isSome) = true ↔
      g.Located f := by
  have hmethod (id : String) : (g.frameMethod? id f.methodName).isSome = true ↔
      ∃ m ∈ g.methodsOf id, Names f.methodName m := by
    rw [Option.isSome_iff_ne_none, Ne, frameMethod?_eq_none_iff]
    push Not
    rfl
  rw [Option.any_eq_true]
  exact exists_congr fun id => and_congr_right' (hmethod id)

instance (g : Graph) (f : Frame) : Decidable (g.Located f) := decidable_of_iff _ located_iff

/-! ## Entries -/

/-- An entry tells what the graph knows about a method of a node, or about the node alone. -/
structure Tells (g : Graph) (id : String) (m : Option Method) (e : ContextEntry) : Prop where
  node : e.className = id
  method : e.methodName = m.map (·.name)
  kind : e.classType = (g.nodeInfo? id).map (·.kind.name)
  description : e.description = m.elim (g.description? id) (·.description)
  steps : e.businessLogic = m.elim [] (·.businessLogic)
  endpoint : e.endpoint = m.bind (·.endpoint?)
  found : e.found = true

/-- An entry that only repeats a frame, with the class or the node under which it is listed. -/
structure Repeats (f : Frame) (id : String) (kind : Option Kind) (e : ContextEntry) : Prop where
  node : e.className = id
  method : e.methodName = some f.methodName
  kind : e.classType = kind.map Kind.name
  description : e.description = none
  steps : e.businessLogic = []
  endpoint : e.endpoint = none
  found : e.found = false

/-- What the entry of a frame shows: a method of its node, or else the frame with its node, or
else the frame alone. -/
inductive Shows (g : Graph) (f : Frame) (e : ContextEntry) : Prop
  | method {id : String} {m : Method} (hm : g.Locates f id m) (htells : g.Tells id (some m) e)
  | node {id : String} (hid : g.matchFrame? f = some id)
      (hm : ∀ m ∈ g.methodsOf id, ¬Names f.methodName m)
      (hrepeats : Repeats f id (some (g.kind id)) e)
  | nothing (hid : g.matchFrame? f = none) (hrepeats : Repeats f f.className none e)

theorem tells_placed (g : Graph) (order : Nat) (id : String) (m : Option Method) :
    g.Tells id m (.placed order g id m) := by
  cases m <;> constructor <;> rfl

theorem repeats_unplaced (f : Frame) (order : Nat) (id : String) (kind : Option Kind) :
    Repeats f id kind (.unplaced order id f.methodName kind) := by
  constructor <;> rfl

theorem order_placed (g : Graph) (order : Nat) (id : String) (m : Option Method) :
    (ContextEntry.placed order g id m).order = order := by
  cases m <;> rfl

theorem shows_frameEntry (g : Graph) (order : Nat) (f : Frame) :
    g.Shows f (g.frameEntry order f) := by
  unfold frameEntry
  split
  · next hid => exact .nothing hid (repeats_unplaced f order f.className none)
  · next id hid =>
    split
    · next m hm =>
      exact .method ⟨hid, frameMethod?_eq_some_iff.1 hm⟩ (tells_placed g order id (some m))
    · next hm =>
      exact .node hid (frameMethod?_eq_none_iff.1 hm)
        (repeats_unplaced f order id (some (g.kind id)))

/-- The entry of a frame is a found one exactly if the frame has a node with a method for it. -/
theorem Shows.found_iff {g : Graph} {f : Frame} {e : ContextEntry} (h : g.Shows f e) :
    e.found = true ↔ g.Located f := by
  cases h with
  | @method id m hm htells =>
    obtain ⟨hid, before, after, hmethods, hname, -⟩ := hm
    refine iff_of_true htells.found ⟨id, hid, m, ?_, hname⟩
    rw [hmethods]
    exact List.mem_append_right _ (List.mem_cons_self ..)
  | @node id hid hnone hrepeats =>
    rw [hrepeats.found]
    refine iff_of_false nofun ?_
    rintro ⟨other, hother, m, hm, hname⟩
    obtain rfl := Option.some.inj (hid.symm.trans hother)
    exact hnone m hm hname
  | nothing hnone hrepeats =>
    rw [hrepeats.found]
    refine iff_of_false nofun ?_
    rintro ⟨id, hid, -⟩
    cases hnone.symm.trans hid

/-! ## The path -/

theorem forall₂_shows_frameEntries (g : Graph) (order : Nat) (frames : List Frame) :
    List.Forall₂ g.Shows frames (g.frameEntries order frames) := by
  induction frames generalizing order with
  | nil => exact .nil
  | cons f fs ih => exact .cons (shows_frameEntry g order f) (ih (order + 1))

theorem order_frameEntry (g : Graph) (order : Nat) (f : Frame) :
    (g.frameEntry order f).order = order := by
  unfold frameEntry
  split
  · rfl
  · split
    · exact order_placed ..
    · rfl

theorem orders_frameEntries (g : Graph) (order : Nat) (frames : List Frame) :
    (g.frameEntries order frames).map (·.order) = List.range' order frames.length := by
  induction frames generalizing order with
  | nil => rfl
  | cons f fs ih =>
    rw [frameEntries, List.map_cons, order_frameEntry, ih, List.length_cons, List.range'_succ]

/-- The frames whose entries are not found ones are those without a method. -/
theorem missing_eq_filter {g : Graph} {frames : List Frame} {path : List ContextEntry}
    (h : List.Forall₂ g.Shows frames path) :
    ((frames.zip path).filter fun (_, e) => !e.found).map (·.1) =
      frames.filter fun f => ¬g.Located f := by
  induction h with
  | nil => rfl
  | @cons f e fs es hshows _ ih =>
    rw [List.zip_cons_cons]
    by_cases hlocated : g.Located f
    · rw [List.filter_cons_of_neg (by simp [hshows.found_iff.2 hlocated]), ih,
        List.filter_cons_of_neg (by simpa using hlocated)]
    · have hfound : e.found = false :=
        Bool.eq_false_iff.2 fun hfound => hlocated (hshows.found_iff.1 hfound)
      rw [List.filter_cons_of_pos (by simp [hfound]), List.map_cons, ih,
        List.filter_cons_of_pos (by simpa using hlocated)]

/-! ## Neighbours -/

/-- A node is next to a node with a found entry and has none itself. -/
def Beside (g : Graph) (path : List ContextEntry) (id : String) : Prop :=
  (∃ e ∈ path, e.found = true ∧
    (id ∈ g.dependencies e.className ∨ id ∈ g.dependents e.className)) ∧
  ¬∃ e ∈ path, e.found = true ∧ e.className = id

/-- The entries of a node: one for each of its methods, or one for the node if it has none. -/
def ShowsAll (g : Graph) (id : String) (es : List ContextEntry) : Prop :=
  if g.methodsOf id = [] then ∃ e, es = [e] ∧ g.Tells id none e
  else List.Forall₂ (fun m => g.Tells id (some m)) (g.methodsOf id) es

theorem mem_found_iff {path : List ContextEntry} {id : String} :
    id ∈ firstOccurrences ((path.filter (·.found)).map (·.className)) ↔
      ∃ e ∈ path, e.found = true ∧ e.className = id := by
  rw [mem_firstOccurrences, List.mem_map]
  exact exists_congr fun e => by rw [List.mem_filter, and_assoc]

theorem mem_neighbours_iff {g : Graph} {id other : String} :
    other ∈ g.neighbours id ↔ other ∈ g.dependencies id ∨ other ∈ g.dependents id := by
  rw [neighbours, mem_firstOccurrences, List.mem_append]

/-- In a well-formed graph the neighbours of a node are nodes. -/
theorem WellFormed.mem_identifiers_of_neighbour {g : Graph} (hg : g.WellFormed) {id other : String}
    (h : other ∈ g.dependencies id ∨ other ∈ g.dependents id) : other ∈ g.identifiers := by
  refine (Dict.contains_iff_mem_keys _ other).1 ?_
  rcases h with h | h
  · exact (hg.edges.ends id other h).2
  · exact (hg.edges.ends other id ((hg.edges.mirrored other id).2 h)).1

theorem WellFormed.mem_surrounding_iff {g : Graph} (hg : g.WellFormed) {path : List ContextEntry}
    {id : String} :
    id ∈ g.surrounding (firstOccurrences ((path.filter (·.found)).map (·.className))) ↔
      g.Beside path id := by
  unfold surrounding
  rw [List.mem_filter, Bool.and_eq_true, List.contains_iff_mem, List.mem_flatMap,
    Bool.not_eq_true', ← Bool.not_eq_true, List.contains_iff_mem, mem_found_iff]
  constructor
  · rintro ⟨-, ⟨node, hnode, hid⟩, hnot⟩
    obtain ⟨e, he, hfound, rfl⟩ := mem_found_iff.1 hnode
    exact ⟨⟨e, he, hfound, mem_neighbours_iff.1 hid⟩, hnot⟩
  · rintro ⟨⟨e, he, hfound, hid⟩, hnot⟩
    exact ⟨hg.mem_identifiers_of_neighbour hid,
      ⟨e.className, mem_found_iff.2 ⟨e, he, hfound, rfl⟩, mem_neighbours_iff.2 hid⟩, hnot⟩

theorem orders_numberEntries (g : Graph) (order : Nat) (es : List (String × Option Method)) :
    (g.numberEntries order es).map (·.order) = List.range' order es.length := by
  induction es generalizing order with
  | nil => rfl
  | cons e rest ih =>
    rw [numberEntries, List.map_cons, order_placed, ih, List.length_cons, List.range'_succ]

theorem length_numberEntries (g : Graph) (order : Nat) (es : List (String × Option Method)) :
    (g.numberEntries order es).length = es.length := by
  have hlength := congrArg List.length (orders_numberEntries g order es)
  rwa [List.length_map, List.length_range'] at hlength

theorem numberEntries_append (g : Graph) (order : Nat) (es fs : List (String × Option Method)) :
    g.numberEntries order (es ++ fs) =
      g.numberEntries order es ++ g.numberEntries (order + es.length) fs := by
  induction es generalizing order with
  | nil => rfl
  | cons e rest ih =>
    have hnext : order + 1 + rest.length = order + (e :: rest).length := by
      rw [List.length_cons]
      omega
    rw [List.cons_append, numberEntries, numberEntries, ih, hnext, List.cons_append]

theorem showsAll_nodeEntries (g : Graph) (order : Nat) (id : String) :
    g.ShowsAll id (g.numberEntries order (g.nodeEntries id)) := by
  have hmethods (ms : List Method) (order : Nat) : List.Forall₂ (fun m => g.Tells id (some m)) ms
      (g.numberEntries order (ms.map fun m => (id, some m))) := by
    induction ms generalizing order with
    | nil => exact .nil
    | cons m rest ih => exact .cons (tells_placed g order id (some m)) (ih (order + 1))
  unfold ShowsAll nodeEntries
  cases hheld : g.methodsOf id with
  | nil =>
    rw [if_pos rfl]
    exact ⟨_, rfl, tells_placed g order id none⟩
  | cons m rest =>
    rw [if_neg (List.cons_ne_nil m rest)]
    exact hmethods (m :: rest) order

theorem exists_groups (g : Graph) (order : Nat) (ids : List String) :
    ∃ groups, g.numberEntries order (ids.flatMap g.nodeEntries) = groups.flatten ∧
      List.Forall₂ g.ShowsAll ids groups := by
  induction ids generalizing order with
  | nil => exact ⟨[], rfl, .nil⟩
  | cons id rest ih =>
    obtain ⟨groups, hentries, hshows⟩ := ih (order + (g.nodeEntries id).length)
    refine ⟨_, ?_, .cons (showsAll_nodeEntries g order id) hshows⟩
    rw [List.flatMap_cons, numberEntries_append, hentries, List.flatten_cons]

/-! ## The whole context -/

/-- A context is complete and agrees with itself and with its graph. -/
structure Complete (g : Graph) (frames : List Frame) (c : CodeContext) : Prop where
  /-- Every frame has an entry, numbered by its place. -/
  shown : List.Forall₂ g.Shows frames c.executionPath
  numbered : c.executionPath.map (·.order) = List.range' 1 frames.length
  /-- An entry is a found one exactly if its frame has a node with a method for it. -/
  found : List.Forall₂ (fun f e => e.found = true ↔ g.Located f) frames c.executionPath
  /-- The other frames are missing, in their order. -/
  missing : c.missing = frames.filter fun f => ¬g.Located f
  /-- The neighbours that are not found themselves are listed with all of their methods, each once
  and in insertion order. -/
  related : ∃ ids groups, ids.Sublist g.identifiers ∧ ids.Nodup ∧
    (∀ id, id ∈ ids ↔ g.Beside c.executionPath id) ∧
    c.related = groups.flatten ∧ List.Forall₂ g.ShowsAll ids groups
  relatedNumbered : c.related.map (·.order) = List.range' 1 c.related.length

theorem WellFormed.complete {g : Graph} (hg : g.WellFormed) (frames : List Frame) :
    g.Complete frames (g.contextOf frames) := by
  have hshown := forall₂_shows_frameEntries g 1 frames
  refine ⟨hshown, orders_frameEntries g 1 frames, hshown.imp fun _ _ h => h.found_iff,
    missing_eq_filter hshown, ?_, ?_⟩
  · obtain ⟨groups, hgroups, hshows⟩ := exists_groups g 1 (g.surrounding (firstOccurrences
      (((g.frameEntries 1 frames).filter (·.found)).map (·.className))))
    exact ⟨_, groups, List.filter_sublist, hg.nodes_nodup.filter _,
      fun _ => hg.mem_surrounding_iff, hgroups, hshows⟩
  · unfold contextOf
    rw [orders_numberEntries, length_numberEntries]

/-- However a graph has come about by its operations and whatever the frames, repeated ones and
unknown ones included, their context is complete: an entry for each frame, the frames without a
method, and all neighbours of what was found, under numbers without gaps. -/
theorem complete_of_changes (changes : List Mutation) (frames : List Frame) :
    (Mutation.applyAll changes .empty).Complete frames
      ((Mutation.applyAll changes .empty).contextOf frames) :=
  (WellFormed.of_empty.applyAll changes).complete frames

end Graph

end CodeAtlas
