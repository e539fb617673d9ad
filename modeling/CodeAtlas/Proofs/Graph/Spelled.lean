import CodeAtlas.Proofs.Graph.Closed
import CodeAtlas.Proofs.Json.Reread

/-!
# Spelled graphs

A graph can be written as it was read if every place in which it keeps an identifier or a position
remembers a spelling of it, and if what it says about its nodes was spelled in a document, too. A
graph that was read is like this, because each step of reading adds a place together with its
spelling. A graph of texts is like this without remembering anything.
-/

namespace CodeAtlas

/-! ## Laws of spellings -/

/-- Members of which each has a single spelling. -/
class LawfulCoded (α : Type) {τ : Type} [Coded α τ] : Prop where
  ofJson_eq_ok {v : Json τ} {a : α} : Coded.ofJson v = .ok a ↔ v = Coded.toJson a

/-- Identifiers whose spellings are found equal as they are. -/
class LawfulIdentifier (ι : Type) {τ : Type} [DecidableEq ι] [DecidableEq τ] [SelfEqual ι]
    [Wording τ] [Coded ι τ] : Prop where
  alike_iff {v w : Json τ} {a b : ι} (hv : Coded.ofJson v = .ok a) (hw : Coded.ofJson w = .ok b) :
    v.alike w = true ↔ a = b ∧ SelfEqual.selfEqual a = true
  toJson_of_text {t : τ} {a : ι} (h : Coded.ofJson (.string t) = .ok a) :
    Coded.toJson a = .string t

instance : LawfulCoded String where
  ofJson_eq_ok {v s} := by
    cases v with
    | string t => exact ⟨fun h => by cases h; rfl, fun h => by cases h; rfl⟩
    | _ => exact ⟨nofun, nofun⟩

instance : LawfulCoded Int where
  ofJson_eq_ok {v n} := by
    cases v with
    | int m => exact ⟨fun h => by cases h; rfl, fun h => by cases h; rfl⟩
    | _ => exact ⟨nofun, nofun⟩

instance : LawfulCoded Value where
  ofJson_eq_ok := ⟨fun h => Except.ok.inj h, fun h => congrArg Except.ok h⟩

instance : LawfulIdentifier String where
  alike_iff {v w a b} hv hw := by
    rw [LawfulCoded.ofJson_eq_ok.1 hv, LawfulCoded.ofJson_eq_ok.1 hw]
    simp [Coded.toJson, Json.alike, Json.likeness, SelfEqual.selfEqual]
  toJson_of_text h := (LawfulCoded.ofJson_eq_ok.1 h).symm

/-- What an identifier is spelled by compares like the identifier's own spelling. -/
theorem Key.likeness_of_ofJson {v : Value} {k : Key} (h : Key.ofJson v = .ok k) :
    v.likeness = k.toJson := by
  cases v with
  | decimal x =>
    cases h
    rw [Json.likeness]
    cases x.whole? <;> rfl
  | array => cases h
  | object => cases h
  | _ => cases h; rfl

instance : LawfulIdentifier Key where
  alike_iff {v w a b} hv hw := by
    have hinj : a.toJson = b.toJson ↔ a = b := by cases a <;> cases b <;> simp [Key.toJson]
    have hself : a.toJson ≠ .decimal .notANumber ↔ SelfEqual.selfEqual a = true := by
      cases a <;> simp [Key.toJson, SelfEqual.selfEqual]
    rw [Json.alike, Key.likeness_of_ofJson hv, Key.likeness_of_ofJson hw, Bool.and_eq_true,
      decide_eq_true_eq, decide_eq_true_eq, hinj, hself]
  toJson_of_text h := by
    cases h
    rfl

/-- The parts of what repeats no name repeat none. -/
theorem Json.Hereditary.plain {τ : Type} : Json.Hereditary (Json.Plain : Json τ → Prop) where
  string t := .string t
  items := Json.plain_array_iff.1
  fields h := (Json.plain_object_iff.1 h).2

/-! ## What places keep -/

/-- The spelling is one of what the place keeps. -/
def Place.SpelledBy {ι τ π : Type} [Coded ι τ] [Coded π τ] : Place ι τ π → Json τ → Prop
  | .node id, v | .edge _ id, v | .entryPoint id, v => Coded.ofJson v = .ok id
  | .linkPosition _ l, v => Coded.ofJson v = .ok l.position
  | .linkTarget _ l, v => Coded.ofJson v = .ok l.target

variable {ι τ ν η π : Type} [DecidableEq ι] [DecidableEq τ] [DecidableEq π] [SelfEqual ι]

namespace Graph

/-- The places in which a graph keeps something. -/
def Keeps (g : Graph ι τ ν η π) : Place ι τ π → Prop
  | .node id => g.contains id = true
  | .edge a b => b ∈ g.dependencies a
  | .entryPoint id => id ∈ g.entryPoints
  | .linkPosition owner l | .linkTarget owner l =>
    ∃ ls, (g.linksOf owner).get? l.methodName = some ls ∧ l ∈ ls

section Steps

variable {g h : Graph ι τ ν η π} {p : Place ι τ π}

omit [DecidableEq π] [SelfEqual ι] in
/-- Nodes, edges, marks and links are all that is kept in places. -/
theorem Keeps.congr (hp : h.Keeps p) (hnodes : h.nodes = g.nodes)
    (houtgoing : h.outgoing = g.outgoing) (hmarks : h.entryPoints = g.entryPoints)
    (hlinks : h.links = g.links) : g.Keeps p := by
  cases p <;>
    simpa only [Keeps, contains, dependencies, linksOf, hnodes, houtgoing, hmarks, hlinks] using hp

omit [DecidableEq π] [SelfEqual ι] in
theorem keeps_addNode {id : ι} {file : ν} (hp : (g.addNode id file).Keeps p) :
    g.Keeps p ∨ p = .node id := by
  unfold addNode at hp
  split at hp
  · exact .inl hp
  · cases p with
    | node j =>
      rcases (Dict.contains_insert _ _ _ _).1 hp with hnew | hold
      · exact .inr (congrArg Place.node hnew)
      · exact .inl hold
    | _ => exact .inl hp

omit [DecidableEq π] in
theorem keeps_addDependency {a b : ι} (hp : (g.addDependency a b).Keeps p) :
    g.Keeps p ∨ p = .edge a b := by
  cases p with
  | edge c d =>
    rcases (mem_dependencies_addDependency g a b c d).1 hp with hold | hnew
    · exact .inl hold
    · exact .inr (by rw [hnew.1, hnew.2.1])
  | _ =>
    obtain ⟨outgoing, incoming, hadded⟩ := g.exists_addDependency_eq a b
    rw [hadded] at hp
    exact .inl hp

omit [DecidableEq π] [SelfEqual ι] in
theorem keeps_markEntryPoint {id : ι} (hp : (g.markEntryPoint id).Keeps p) :
    g.Keeps p ∨ p = .entryPoint id := by
  unfold markEntryPoint at hp
  split at hp
  · cases p with
    | entryPoint j =>
      rcases mem_appendNew.1 hp with hold | hnew
      · exact .inl hold
      · exact .inr (congrArg Place.entryPoint hnew)
    | _ => exact .inl hp
  · exact .inl hp

omit [SelfEqual ι] in
theorem keeps_addMethodParameter {id : ι} {name : τ} {n : π} {target : ι}
    (hp : (g.addMethodParameter id name n target).Keeps p) :
    g.Keeps p ∨ p = .linkPosition id ⟨name, n, target⟩ ∨ p = .linkTarget id ⟨name, n, target⟩ := by
  have hlink {owner : ι} {l : ParameterLink ι τ π}
      (hl : ∃ ls, ((g.addMethodParameter id name n target).linksOf owner).get? l.methodName =
        some ls ∧ l ∈ ls) :
      (∃ ls, (g.linksOf owner).get? l.methodName = some ls ∧ l ∈ ls) ∨
        owner = id ∧ l = ⟨name, n, target⟩ := by
    obtain ⟨ls, hls, hl⟩ := hl
    rw [linksOf_addMethodParameter] at hls
    split at hls
    · next howner =>
      rw [Dict.get?_insert] at hls
      split at hls
      · next hname =>
        cases hls
        rcases mem_appendNew.1 hl with hold | hnew
        · cases hget : (g.linksOf id).get? name with
          | none =>
            rw [Dict.getD_of_get?_eq_none _ hget] at hold
            cases hold
          | some old =>
            rw [Dict.getD_of_get?_eq_some _ hget] at hold
            exact .inl ⟨old, by rw [howner.1, hname, hget], hold⟩
        · exact .inr ⟨howner.1, hnew⟩
      · exact .inl ⟨ls, by rw [howner.1, hls], hl⟩
    · exact .inl ⟨ls, hls, hl⟩
  cases p with
  | linkPosition owner l =>
    rcases hlink hp with hold | ⟨rfl, rfl⟩
    · exact .inl hold
    · exact .inr (.inl rfl)
  | linkTarget owner l =>
    rcases hlink hp with hold | ⟨rfl, rfl⟩
    · exact .inl hold
    · exact .inr (.inr rfl)
  | _ =>
    unfold addMethodParameter at hp
    split at hp <;> exact .inl hp

end Steps

end Graph

/-! ## What is told of nodes -/

/-- An identifier that texts can spell. -/
def Coded.Named [Coded ι τ] (id : ι) : Prop := ∃ t : τ, Coded.ofJson (.string t) = .ok id

/-- A graph whose files, descriptions and methods are told by plain values. What is found under the
name of a node there is found under a text. -/
structure Graph.Told [Coded ι τ] [Coded ν τ] [Coded η τ] (g : Graph ι τ ν η π) : Prop where
  files : ∀ file ∈ g.nodes.values, Coded.Stated Json.Plain file
  descriptions : ∀ i ∈ g.info.values, ∀ a, i.description = some a → Coded.Given Json.Plain a
  methodOwners : ∀ id ∈ g.methods.keys, Coded.Named id
  methods : ∀ ms ∈ g.methods.values, ∀ m ∈ ms, m.Told Json.Plain
  linkOwners : ∀ id ∈ g.links.keys, Coded.Named id

namespace SpelledGraph

variable [Wording τ] [Coded ι τ] [Coded ν τ] [Coded η τ] [Coded π τ]
  {d d' : SpelledGraph ι τ ν η π}

/-! ## Graphs that can be written -/

/-- Every place in which the graph keeps something has a spelling. -/
def Covered (d : SpelledGraph ι τ ν η π) : Prop :=
  ∀ p, d.graph.Keeps p → ∃ v, (p, v) ∈ d.spellings

/-- A graph that can be written: what its places keep is spelled by plain values, and plain values
tell of its nodes. -/
structure Sound (d : SpelledGraph ι τ ν η π) : Prop where
  places : ∀ p, d.graph.Keeps p → (d.spelling p).Plain ∧ p.SpelledBy (d.spelling p)
  told : d.graph.Told

omit [Wording τ] in
/-- Each step of reading adds a place together with its spelling. -/
theorem Tells.covered {P : Json τ → Prop} (h : d.Tells P d') (hd : d.Covered) : d'.Covered := by
  intro p hp
  have hkeep {new : List (Place ι τ π × Json τ)} (hold : d.graph.Keeps p) :
      ∃ v, (p, v) ∈ d.spellings ++ new := by
    obtain ⟨v, hv⟩ := hd p hold
    exact ⟨v, List.mem_append_left _ hv⟩
  cases h with
  | node =>
    rcases Graph.keeps_addNode hp with hold | rfl
    · exact hkeep hold
    · exact ⟨_, List.mem_append_right _ List.mem_cons_self⟩
  | classId id c =>
    refine hd p (hp.congr (Graph.nodes_bindClassId ..) ?_ ?_ (Graph.links_bindClassId ..))
    all_goals
      unfold Graph.bindClassId
      split <;> rfl
  | info =>
    refine hd p (hp.congr (Graph.nodes_setNodeInfo ..) ?_ ?_ (Graph.links_setNodeInfo ..))
    all_goals
      unfold Graph.setNodeInfo
      split <;> rfl
  | edge =>
    rcases Graph.keeps_addDependency hp with hold | rfl
    · exact hkeep hold
    · exact ⟨_, List.mem_append_right _ List.mem_cons_self⟩
  | entryPoint =>
    rcases Graph.keeps_markEntryPoint hp with hold | rfl
    · exact hkeep hold
    · exact ⟨_, List.mem_append_right _ List.mem_cons_self⟩
  | methods =>
    refine hd p (hp.congr (Graph.nodes_setMethods ..) ?_ ?_ (Graph.links_setMethods ..))
    all_goals
      unfold Graph.setMethods
      split <;> rfl
  | link =>
    rcases Graph.keeps_addMethodParameter hp with hold | rfl | rfl
    · exact hkeep hold
    · exact ⟨_, List.mem_append_right _ List.mem_cons_self⟩
    · exact ⟨_, List.mem_append_right _ (List.mem_cons_of_mem _ List.mem_cons_self)⟩

/-- Whatever document is accepted, each place of its graph has a spelling. -/
theorem covered_of_ofJson {v : Json τ} (h : ofJson v = .ok d) : d.Covered := by
  have hread := read_of_ofJson Json.Hereditary.top trivial h
  clear h
  induction hread with
  | refl =>
    intro p hp
    cases p with
    | node id => cases hp
    | edge a b => cases hp
    | entryPoint id => cases hp
    | linkPosition owner l =>
      obtain ⟨ls, hls, -⟩ := hp
      cases hls
    | linkTarget owner l =>
      obtain ⟨ls, hls, -⟩ := hp
      cases hls
  | tail _ hstep ih => exact hstep.covered ih

omit [Wording τ] in
/-- Each step of reading a plain document spells its place by a plain value. -/
theorem Tells.spelled (h : d.Tells Json.Plain d')
    (hd : ∀ e ∈ d.spellings, e.2.Plain ∧ e.1.SpelledBy e.2) :
    ∀ e ∈ d'.spellings, e.2.Plain ∧ e.1.SpelledBy e.2 := by
  have happend {new : List (Place ι τ π × Json τ)}
      (hnew : ∀ e ∈ new, e.2.Plain ∧ e.1.SpelledBy e.2) :
      ∀ e ∈ d.spellings ++ new, e.2.Plain ∧ e.1.SpelledBy e.2 := fun e he =>
    (List.mem_append.1 he).elim (hd e) (hnew e)
  cases h with
  | node hv hid => exact happend fun e he => List.mem_singleton.1 he ▸ ⟨hv, hid⟩
  | edge a hv hb => exact happend fun e he => List.mem_singleton.1 he ▸ ⟨hv, hb⟩
  | entryPoint hv hid => exact happend fun e he => List.mem_singleton.1 he ▸ ⟨hv, hid⟩
  | link hid name hv hn hw ht =>
    refine happend (List.forall_mem_cons.2 ⟨⟨hv, hn⟩, List.forall_mem_singleton.2 ⟨hw, ht⟩⟩)
  | classId | info | methods => exact hd

omit [Wording τ] in
/-- Each step of reading a plain document tells of its node by plain values. -/
theorem Tells.told (h : d.Tells Json.Plain d') (hd : d.graph.Told) : d'.graph.Told := by
  obtain ⟨hfiles, hdescriptions, howners, hmethods, hlinks⟩ := hd
  cases h with
  | node _ _ hfile =>
    unfold Graph.addNode
    split
    · exact ⟨hfiles, hdescriptions, howners, hmethods, hlinks⟩
    · refine ⟨fun f hf => ?_, hdescriptions, howners, hmethods, hlinks⟩
      exact (Dict.mem_values_insert hf).elim (fun heq => heq ▸ hfile) (hfiles f)
  | classId =>
    unfold Graph.bindClassId
    split <;> exact ⟨hfiles, hdescriptions, howners, hmethods, hlinks⟩
  | info _ _ hdescription =>
    unfold Graph.setNodeInfo
    split
    · refine ⟨hfiles, fun i hi => ?_, howners, hmethods, hlinks⟩
      exact (Dict.mem_values_insert hi).elim (fun heq => heq ▸ hdescription) (hdescriptions i)
    · exact ⟨hfiles, hdescriptions, howners, hmethods, hlinks⟩
  | edge =>
    unfold Graph.addDependency
    split <;> exact ⟨hfiles, hdescriptions, howners, hmethods, hlinks⟩
  | entryPoint =>
    unfold Graph.markEntryPoint
    split <;> exact ⟨hfiles, hdescriptions, howners, hmethods, hlinks⟩
  | methods hid hms =>
    unfold Graph.setMethods
    split
    · refine ⟨hfiles, hdescriptions, fun id h => ?_, fun ms h => ?_, hlinks⟩
      · rw [← Dict.contains_iff_mem_keys, Dict.contains_insert, Dict.contains_iff_mem_keys] at h
        exact h.elim (fun heq => heq ▸ ⟨_, hid⟩) (howners id)
      · exact (Dict.mem_values_insert h).elim (fun heq => heq ▸ hms) (hmethods ms)
    · exact ⟨hfiles, hdescriptions, howners, hmethods, hlinks⟩
  | link hid =>
    unfold Graph.addMethodParameter
    split
    · exact ⟨hfiles, hdescriptions, howners, hmethods, hlinks⟩
    · refine ⟨hfiles, hdescriptions, howners, hmethods, fun id h => ?_⟩
      rw [← Dict.contains_iff_mem_keys, Dict.contains_insert, Dict.contains_iff_mem_keys] at h
      exact h.elim (fun heq => heq ▸ ⟨_, hid⟩) (hlinks id)

/-- A graph that was read from a plain document can be written. -/
theorem Sound.of_ofJson {v : Json τ} (hv : v.Plain) (h : ofJson v = .ok d) : d.Sound := by
  have hread := read_of_ofJson Json.Hereditary.plain hv h
  have hcovered := covered_of_ofJson h
  clear h
  have hspelled : ∀ e ∈ d.spellings, e.2.Plain ∧ e.1.SpelledBy e.2 := by
    clear hcovered
    induction hread with
    | refl => exact fun _ he => absurd he List.not_mem_nil
    | tail _ hstep ih => exact hstep.spelled ih
  constructor
  · intro p hp
    obtain ⟨w, hw⟩ := hcovered p hp
    obtain ⟨u, hu⟩ := Dict.exists_lookup_of_mem hw
    have hfound : d.spelling p = u := by rw [spelling, hu, Option.getD_some]
    exact hfound ▸ hspelled (p, u) (Dict.mem_of_lookup hu)
  · clear hcovered hspelled
    induction hread with
    | refl =>
      constructor <;> exact fun _ h => absurd h List.not_mem_nil
    | tail _ hstep ih => exact hstep.told ih

end SpelledGraph

/-- A graph of texts can be written without remembering how it was spelled. -/
theorem Graph.sound (g : Graph) : SpelledGraph.Sound ⟨g, []⟩ where
  places p _ := by cases p <;> exact ⟨by constructor, rfl⟩
  told :=
    have htext (s : String) : Coded.Given Json.Plain s := ⟨.string s, .string s, rfl, rfl⟩
    have hstated (s : String) : Coded.Stated Json.Plain s := ⟨.string s, .string s, rfl⟩
    { files := fun s _ => hstated s
      descriptions := fun _ _ s _ => htext s
      methodOwners := fun id _ => ⟨id, rfl⟩
      methods := fun _ _ m _ => {
        name := hstated m.name
        description := fun s _ => htext s
        businessLogic := fun s _ => hstated s
        exceptions := fun s _ => hstated s
        httpMethod := fun s _ => htext s
        httpPath := fun s _ => htext s
        lineNumber := fun n _ => ⟨.int n, .int n, rfl, rfl⟩ }
      linkOwners := fun id _ => ⟨id, rfl⟩ }

end CodeAtlas
