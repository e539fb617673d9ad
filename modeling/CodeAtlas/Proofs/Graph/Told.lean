import CodeAtlas.Graph.Document
import CodeAtlas.Proofs.Graph.WellFormed
import Mathlib.Logic.Relation

/-!
# What documents tell

Whatever a document holds, reading it is a sequence of few kinds of steps: a node is added, tied to
a record or described, an edge is drawn, an entry point is marked, methods are set, a link is added.
Each step is one of the graph's own operations, and it remembers how what it adds was spelled. So
what every step keeps holds of every graph that is read.
-/

namespace CodeAtlas

/-- A property of values that their parts share, and that all texts have. -/
structure Json.Hereditary {τ : Type} (P : Json τ → Prop) : Prop where
  string (t : τ) : P (.string t)
  items {items : List (Json τ)} (h : P (.array items)) : ∀ v ∈ items, P v
  fields {fields : List (τ × Json τ)} (h : P (.object fields)) : ∀ f ∈ fields, P f.2

namespace Json.Hereditary

variable {τ : Type} {P : Json τ → Prop} {v w : Json τ}

theorem top : Hereditary fun _ : Json τ => True :=
  ⟨fun _ => trivial, fun _ _ _ => trivial, fun _ _ _ => trivial⟩

section Fields

variable [DecidableEq τ] [Wording τ]

theorem of_required (hP : Hereditary P) (hv : P v) {name : String} (h : v.required name = .ok w) :
    P w := by
  unfold required at h
  split at h
  · split at h
    · next hfound =>
      cases h
      exact hP.fields hv _ (Dict.mem_of_lookup hfound)
    · cases h
  · cases h

theorem of_field? (hP : Hereditary P) (hv : P v) {name : String} (h : v.field? name = some w) :
    P w := by
  unfold field? at h
  split at h
  · exact hP.fields hv _ (Dict.mem_of_lookup h)
  · cases h

theorem of_optional (hP : Hereditary P) (hv : P v) {name : String}
    (h : v.optional name = .ok (some w)) : P w := by
  unfold optional at h
  split at h
  · exact hP.fields hv _ (Dict.mem_of_lookup (Except.ok.inj h))
  · cases h

end Fields

theorem of_elements [Wording τ] (hP : Hereditary P) (hv : P v) {items : List (Json τ)}
    (h : v.elements = .ok items) : ∀ w ∈ items, P w := by
  unfold elements at h
  split at h
  · cases h
    exact hP.items hv
  · cases h
    intro w hw
    obtain ⟨f, -, rfl⟩ := List.mem_map.1 hw
    exact hP.string _
  · cases h
    intro w hw
    obtain ⟨t, -, rfl⟩ := List.mem_map.1 hw
    exact hP.string _
  · cases h

theorem of_asFields [Wording τ] (hP : Hereditary P) (hv : P v) {fields : List (τ × Json τ)}
    (h : v.asFields = .ok fields) : ∀ f ∈ fields, P f.2 := by
  unfold asFields at h
  split at h
  · cases h
    exact hP.fields hv
  · cases h

/-- The items of a field, or those that stand for a missing one. -/
theorem of_itemsOf [Wording τ] (hP : Hereditary P) {missing items : List (Json τ)}
    (hmissing : ∀ w ∈ missing, P w) {o : Option (Json τ)} (ho : ∀ w, o = some w → P w)
    (h : SpelledGraph.itemsOf missing o = .ok items) : ∀ w ∈ items, P w := by
  unfold SpelledGraph.itemsOf at h
  split at h
  · exact hP.of_elements (ho _ rfl) h
  · cases h
    exact hmissing

theorem of_fieldsOf [Wording τ] (hP : Hereditary P) {o : Option (Json τ)}
    (ho : ∀ w, o = some w → P w) {fields : List (τ × Json τ)}
    (h : SpelledGraph.fieldsOf o = .ok fields) : ∀ f ∈ fields, P f.2 := by
  unfold SpelledGraph.fieldsOf at h
  split at h
  · exact hP.of_asFields (ho _ rfl) h
  · cases h
    exact fun _ hf => absurd hf List.not_mem_nil

end Json.Hereditary

/-! ## What values stand for -/

namespace Coded

variable {α τ : Type} [Wording τ] [Coded α τ] {P : Json τ → Prop} {a : α}

/-- What a value with a property stands for. -/
def Stated (P : Json τ → Prop) (a : α) : Prop := ∃ v, P v ∧ Coded.ofJson v = .ok a

/-- What a value with a property stands for that is not null. -/
def Given (P : Json τ → Prop) (a : α) : Prop :=
  ∃ v, P v ∧ v.isNull = false ∧ Coded.ofJson v = .ok a

omit [Wording τ] in
theorem given_of_ofOptional {o : Option (Json τ)} (ho : ∀ v, o = some v → P v)
    (h : Coded.ofOptional o = .ok (some a)) : Given P a := by
  unfold ofOptional at h
  split at h
  · cases h
  · cases h
  · next v hnull =>
    refine ⟨v, ho v rfl, ?_, ?_⟩
    · cases v with
      | null => exact absurd rfl hnull
      | _ => rfl
    · cases hread : Coded.ofJson (α := α) v with
      | error e =>
        rw [hread] at h
        cases h
      | ok b =>
        rw [hread] at h
        cases h
        rfl

theorem stated_of_ofListed (hP : Json.Hereditary P) {o : Option (Json τ)}
    (ho : ∀ v, o = some v → P v) {as : List α} (h : Coded.ofListed o = .ok as) :
    ∀ a ∈ as, Stated P a := by
  unfold ofListed at h
  split at h
  · next v =>
    split at h
    · obtain ⟨vs, hvs, h⟩ := Outcome.bind_eq_ok.1 h
      intro a ha
      obtain ⟨w, hw, hread⟩ := Outcome.exists_of_mapM_eq_ok h a ha
      exact ⟨w, hP.of_elements (ho v rfl) hvs w hw, hread⟩
    · cases h
      exact nofun
  · cases h
    exact nofun

end Coded

/-- What is told of a method, by values with a property. -/
structure Method.Told {τ ν η : Type} [Coded ν τ] [Coded η τ] (P : Json τ → Prop)
    (m : Method ν η) : Prop where
  name : Coded.Stated P m.name
  description : ∀ a, m.description = some a → Coded.Given P a
  businessLogic : ∀ a ∈ m.businessLogic, Coded.Stated P a
  exceptions : ∀ a ∈ m.exceptions, Coded.Stated P a
  httpMethod : ∀ a, m.httpMethod = some a → Coded.Given P a
  httpPath : ∀ a, m.httpPath = some a → Coded.Given P a
  lineNumber : ∀ a, m.lineNumber = some a → Coded.Given P a

/-- A method that is read is told of by the fields of its record. -/
theorem Method.told_of_ofJson {τ ν η : Type} [DecidableEq τ] [Wording τ] [Coded ν τ] [Coded η τ]
    {P : Json τ → Prop} (hP : Json.Hereditary P) {v : Json τ} (hv : P v) {m : Method ν η}
    (h : Method.ofJson v = .ok m) : m.Told P := by
  have hfield {name : String} {o : Option (Json τ)} (ho : v.optional name = .ok o) :
      ∀ w, o = some w → P w := by
    rintro w rfl
    exact hP.of_optional hv ho
  unfold Method.ofJson at h
  obtain ⟨w, hw, h⟩ := Outcome.bind_eq_ok.1 h
  obtain ⟨name, hname, h⟩ := Outcome.bind_eq_ok.1 h
  obtain ⟨o₁, ho₁, h⟩ := Outcome.bind_eq_ok.1 h
  obtain ⟨description, hdescription, h⟩ := Outcome.bind_eq_ok.1 h
  obtain ⟨o₂, ho₂, h⟩ := Outcome.bind_eq_ok.1 h
  obtain ⟨businessLogic, hlogic, h⟩ := Outcome.bind_eq_ok.1 h
  obtain ⟨o₃, ho₃, h⟩ := Outcome.bind_eq_ok.1 h
  obtain ⟨exceptions, hexceptions, h⟩ := Outcome.bind_eq_ok.1 h
  obtain ⟨o₄, ho₄, h⟩ := Outcome.bind_eq_ok.1 h
  obtain ⟨httpMethod, hmethod, h⟩ := Outcome.bind_eq_ok.1 h
  obtain ⟨o₅, ho₅, h⟩ := Outcome.bind_eq_ok.1 h
  obtain ⟨httpPath, hpath, h⟩ := Outcome.bind_eq_ok.1 h
  obtain ⟨o₆, ho₆, h⟩ := Outcome.bind_eq_ok.1 h
  obtain ⟨lineNumber, hline, h⟩ := Outcome.bind_eq_ok.1 h
  cases h
  refine ⟨⟨w, hP.of_required hv hw, hname⟩, ?_, Coded.stated_of_ofListed hP (hfield ho₂) hlogic,
    Coded.stated_of_ofListed hP (hfield ho₃) hexceptions, ?_, ?_, ?_⟩
  · rintro a rfl
    exact Coded.given_of_ofOptional (hfield ho₁) hdescription
  · rintro a rfl
    exact Coded.given_of_ofOptional (hfield ho₄) hmethod
  · rintro a rfl
    exact Coded.given_of_ofOptional (hfield ho₅) hpath
  · rintro a rfl
    exact Coded.given_of_ofOptional (hfield ho₆) hline

namespace SpelledGraph

variable {ι τ ν η π : Type} [DecidableEq ι] [DecidableEq τ] [DecidableEq π] [SelfEqual ι]
  [Wording τ] [Coded ι τ] [Coded ν τ] [Coded η τ] [Coded π τ]

/-- One step of reading a document whose values have a property. -/
inductive Tells (P : Json τ → Prop) (d : SpelledGraph ι τ ν η π) : SpelledGraph ι τ ν η π → Prop
  | node {v : Json τ} {id : ι} {file : ν} (hv : P v) (hid : Coded.ofJson v = .ok id)
      (hfile : Coded.Stated P file) :
      Tells P d ⟨d.graph.addNode id file, d.spellings ++ [(.node id, v)]⟩
  | classId (id : ι) (c : τ) : Tells P d ⟨d.graph.bindClassId id c, d.spellings⟩
  | info (id : ι) (kind : Kind) {description : Option ν}
      (hdescription : ∀ a, description = some a → Coded.Given P a) :
      Tells P d ⟨d.graph.setNodeInfo id ⟨kind, description⟩, d.spellings⟩
  | edge (a : ι) {v : Json τ} {b : ι} (hv : P v) (hb : Coded.ofJson v = .ok b) :
      Tells P d ⟨d.graph.addDependency a b, d.spellings ++ [(.edge a b, v)]⟩
  | entryPoint {v : Json τ} {id : ι} (hv : P v) (hid : Coded.ofJson v = .ok id) :
      Tells P d ⟨d.graph.markEntryPoint id, d.spellings ++ [(.entryPoint id, v)]⟩
  | methods {name : τ} {id : ι} (hid : Coded.ofJson (.string name) = .ok id)
      {ms : List (Method ν η)} (hms : ∀ m ∈ ms, m.Told P) :
      Tells P d ⟨d.graph.setMethods id ms, d.spellings⟩
  | link {owner : τ} {id : ι} (hid : Coded.ofJson (.string owner) = .ok id) (name : τ)
      {v w : Json τ} {n : π} {t : ι} (hv : P v) (hn : Coded.ofJson v = .ok n) (hw : P w)
      (ht : Coded.ofJson w = .ok t) :
      Tells P d ⟨d.graph.addMethodParameter id name n t,
        d.spellings ++ [(.linkPosition id ⟨name, n, t⟩, v), (.linkTarget id ⟨name, n, t⟩, w)]⟩

/-- What can be read step by step. -/
def Read (P : Json τ → Prop) (d d' : SpelledGraph ι τ ν η π) : Prop :=
  Relation.ReflTransGen (Tells P) d d'

variable {P : Json τ → Prop} {d d' : SpelledGraph ι τ ν η π}

/-- A node is tied to the record that is named, if one is. -/
theorem read_readClassId (g : Graph ι τ ν η π) (id : ι) (c : Option (Json τ))
    (ms : List (Place ι τ π × Json τ)) : Read P ⟨g, ms⟩ ⟨readClassId g id c, ms⟩ := by
  unfold readClassId
  split
  · exact .refl
  · exact .refl
  · exact .single (.classId id _)

/-- A node is described by what is said about it, if anything is. -/
theorem read_of_readInfo {g g' : Graph ι τ ν η π} {id : ι} {kind description : Option (Json τ)}
    (hdescription : ∀ w, description = some w → P w)
    (h : readInfo g id kind description = .ok g') (ms : List (Place ι τ π × Json τ)) :
    Read P ⟨g, ms⟩ ⟨g', ms⟩ := by
  unfold readInfo at h
  split at h
  · cases h
    exact .refl
  · obtain ⟨kind, -, h⟩ := Outcome.bind_eq_ok.1 h
    obtain ⟨told, htold, h⟩ := Outcome.bind_eq_ok.1 h
    cases h
    refine .single (.info id kind ?_)
    rintro a rfl
    exact Coded.given_of_ofOptional hdescription htold

variable (hP : Json.Hereditary P) {v : Json τ}

include hP

/-- A node's record adds the node and labels it; what it flags is how it spells the node. -/
theorem read_of_readNode {r s : NodesRead ι τ ν η π} (hv : P v) (h : readNode r v = .ok s) :
    Read P r.read s.read ∧ ((∀ w ∈ r.flagged, P w) → ∀ w ∈ s.flagged, P w) := by
  unfold readNode at h
  obtain ⟨mention, hmention, h⟩ := Outcome.bind_eq_ok.1 h
  obtain ⟨id, hid, h⟩ := Outcome.bind_eq_ok.1 h
  obtain ⟨file, hfile, h⟩ := Outcome.bind_eq_ok.1 h
  obtain ⟨g, hinfo, h⟩ := Outcome.bind_eq_ok.1 h
  cases h
  have hspelled := hP.of_required hv hmention
  have hstated : Coded.Stated P file := by
    refine ⟨_, ?_, hfile⟩
    cases hfield : v.field? "sourceFile" with
    | none => exact hP.string _
    | some w => exact hP.of_field? hv hfield
  constructor
  · refine .head (.node hspelled hid hstated) ?_
    refine (read_readClassId _ id (v.field? "classId") _).trans ?_
    exact read_of_readInfo (fun w hw => hP.of_field? hv hw) hinfo _
  · intro hflagged
    dsimp only
    split
    · intro w hw
      rcases List.mem_append.1 hw with hw | hw
      · exact hflagged w hw
      · exact List.mem_singleton.1 hw ▸ hspelled
    · exact hflagged

theorem read_of_readEdge (hv : P v) (h : readEdge d v = .ok d') : Read P d d' := by
  unfold readEdge at h
  obtain ⟨source, -, h⟩ := Outcome.bind_eq_ok.1 h
  obtain ⟨target, htarget, h⟩ := Outcome.bind_eq_ok.1 h
  split at h
  · cases h
    exact .refl
  obtain ⟨a, -, h⟩ := Outcome.bind_eq_ok.1 h
  split at h
  · cases h
    exact .refl
  obtain ⟨b, hb, h⟩ := Outcome.bind_eq_ok.1 h
  cases h
  exact .single (.edge a (hP.of_required hv htarget) hb)

omit hP [Wording τ] in
theorem read_of_readEntryPoint (hv : P v) (h : readEntryPoint d v = .ok d') :
    Read P d d' := by
  unfold readEntryPoint at h
  obtain ⟨id, hid, h⟩ := Outcome.bind_eq_ok.1 h
  cases h
  exact .single (.entryPoint hv hid)

theorem read_of_readMethods {f : τ × Json τ} (hf : P f.2) (h : readMethods d f = .ok d') :
    Read P d d' := by
  unfold readMethods at h
  obtain ⟨items, hitems, h⟩ := Outcome.bind_eq_ok.1 h
  obtain ⟨ms, hms, h⟩ := Outcome.bind_eq_ok.1 h
  obtain ⟨id, hid, h⟩ := Outcome.bind_eq_ok.1 h
  cases h
  refine .single (.methods hid fun m hm => ?_)
  obtain ⟨w, hw, hread⟩ := Outcome.exists_of_mapM_eq_ok hms m hm
  exact Method.told_of_ofJson hP (hP.of_elements hf hitems w hw) hread

theorem read_of_readLink {owner : τ} {id : ι} (hid : Coded.ofJson (.string owner) = .ok id)
    {name : τ} (hv : P v) (h : readLink id name d v = .ok d') : Read P d d' := by
  unfold readLink at h
  obtain ⟨position, hposition, h⟩ := Outcome.bind_eq_ok.1 h
  obtain ⟨target, htarget, h⟩ := Outcome.bind_eq_ok.1 h
  split at h
  · cases h
    exact .refl
  obtain ⟨t, ht, h⟩ := Outcome.bind_eq_ok.1 h
  obtain ⟨n, hn, h⟩ := Outcome.bind_eq_ok.1 h
  cases h
  exact .single (.link hid name (hP.of_required hv hposition) hn (hP.of_required hv htarget) ht)

theorem read_of_readLinks {f : τ × Json τ} (hf : P f.2) (h : readLinks d f = .ok d') :
    Read P d d' := by
  unfold readLinks at h
  obtain ⟨byMethod, hbyMethod, h⟩ := Outcome.bind_eq_ok.1 h
  obtain ⟨id, hid, h⟩ := Outcome.bind_eq_ok.1 h
  refine Outcome.foldlM_keeps (P := Read P d) (fun d₁ m hm d₂ hd₁ hstep => ?_) .refl h
  obtain ⟨items, hitems, hstep⟩ := Outcome.bind_eq_ok.1 hstep
  have hvalues := hP.of_elements (hP.of_asFields hf hbyMethod m hm) hitems
  exact Outcome.foldlM_keeps (P := Read P d)
    (fun _ w hw _ hread hlink => hread.trans (read_of_readLink hP hid (hvalues w hw) hlink))
    hd₁ hstep

/-- Whatever document is accepted, it is read by few kinds of steps. -/
theorem read_of_ofJson (hv : P v) (h : ofJson v = .ok d) : Read P ⟨.empty, []⟩ d := by
  have hnone : ∀ w ∈ ([] : List (Json τ)), P w := fun _ hw => absurd hw List.not_mem_nil
  have hfield (name : String) : ∀ w, v.field? name = some w → P w :=
    fun w hw => hP.of_field? hv hw
  unfold ofJson at h
  obtain ⟨list, hlist, h⟩ := Outcome.bind_eq_ok.1 h
  obtain ⟨nodes, hnodes, h⟩ := Outcome.bind_eq_ok.1 h
  obtain ⟨r, hr, h⟩ := Outcome.bind_eq_ok.1 h
  obtain ⟨edges, hedges, h⟩ := Outcome.bind_eq_ok.1 h
  obtain ⟨d₁, hd₁, h⟩ := Outcome.bind_eq_ok.1 h
  obtain ⟨marks, hmarks, h⟩ := Outcome.bind_eq_ok.1 h
  obtain ⟨d₂, hd₂, h⟩ := Outcome.bind_eq_ok.1 h
  obtain ⟨methods, hmethods, h⟩ := Outcome.bind_eq_ok.1 h
  obtain ⟨d₃, hd₃, h⟩ := Outcome.bind_eq_ok.1 h
  obtain ⟨links, hlinks, h⟩ := Outcome.bind_eq_ok.1 h
  have hnode := hP.of_itemsOf hnone (by rintro w rfl; exact hP.of_optional hv hlist) hnodes
  let Kept (s : NodesRead ι τ ν η π) : Prop := Read P ⟨.empty, []⟩ s.read ∧ ∀ w ∈ s.flagged, P w
  have hstart : Kept ⟨⟨.empty, []⟩, []⟩ := ⟨.refl, hnone⟩
  obtain ⟨hread, hflagged⟩ : Kept r := Outcome.foldlM_keeps (P := Kept)
    (fun s w hw s' hkept hstep =>
      have hnext := read_of_readNode hP (hnode w hw) hstep
      ⟨Relation.ReflTransGen.trans hkept.1 hnext.1, hnext.2 hkept.2⟩) hstart hr
  have hedge := hP.of_itemsOf hnone (hfield "edges") hedges
  have hread := Outcome.foldlM_keeps (P := Read P ⟨.empty, []⟩)
    (fun _ w hw _ hread hstep => hread.trans (read_of_readEdge hP (hedge w hw) hstep)) hread hd₁
  have hmark := hP.of_itemsOf hflagged (hfield "entryPoints") hmarks
  have hread := Outcome.foldlM_keeps (P := Read P ⟨.empty, []⟩)
    (fun _ w hw _ hread hstep => hread.trans (read_of_readEntryPoint (hmark w hw) hstep)) hread hd₂
  have hmethod := hP.of_fieldsOf (hfield "methods") hmethods
  have hread := Outcome.foldlM_keeps (P := Read P ⟨.empty, []⟩)
    (fun _ f hf _ hread hstep => hread.trans (read_of_readMethods hP (hmethod f hf) hstep)) hread
    hd₃
  have hlink := hP.of_fieldsOf (hfield "methodParameters") hlinks
  exact Outcome.foldlM_keeps (P := Read P ⟨.empty, []⟩)
    (fun _ f hf _ hread hstep => hread.trans (read_of_readLinks hP (hlink f hf) hstep)) hread h

end SpelledGraph

end CodeAtlas
