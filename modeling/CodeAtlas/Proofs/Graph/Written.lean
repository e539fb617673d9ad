import CodeAtlas.Proofs.Graph.Spelled

/-!
# Written graphs

What is written of a graph repeats no name, so its text is read back as it was written. Each
written record is then read by the one operation that it stands for: a node by being added and
labelled, an edge, a mark, a list of methods and a link by the operation that makes them. What is
read is spelled as it was written.
-/

namespace CodeAtlas

/-! ## Optional fields -/

section Fields

variable {τ : Type} [Wording τ] [LawfulWording τ]

/-- Different texts have different forms. -/
@[simp] theorem Wording.ofString_inj {s t : String} :
    (Wording.ofString s : τ) = Wording.ofString t ↔ s = t := by
  refine ⟨fun h => ?_, congrArg _⟩
  have hback := congrArg Wording.toString? h
  rw [LawfulWording.toString?_ofString, LawfulWording.toString?_ofString] at hback
  exact Option.some.inj hback

theorem Wording.nodup_map_ofString {names : List String} (h : names.Nodup) :
    (names.map (Wording.ofString : String → τ)).Nodup :=
  h.map fun _ _ heq => Wording.ofString_inj.1 heq

namespace Method

/-- An optional field is found under its own name, other names after it. -/
theorem lookup_optionalField [DecidableEq τ] (k name : String) (v : Option (Json τ))
    (rest : List (τ × Json τ)) :
    Dict.lookup (Wording.ofString k) (optionalField name v ++ rest) =
      if name = k then v.or (Dict.lookup (Wording.ofString k) rest)
      else Dict.lookup (Wording.ofString k) rest := by
  cases v with
  | none => simp [optionalField]
  | some v => simp [optionalField, Dict.lookup]

theorem lookup_last_optionalField [DecidableEq τ] (k name : String) (v : Option (Json τ)) :
    Dict.lookup (Wording.ofString k) (optionalField name v) = if name = k then v else none := by
  have hlookup := lookup_optionalField k name v []
  rw [List.append_nil, Dict.lookup, Option.or_none] at hlookup
  exact hlookup

omit [LawfulWording τ] in
theorem names_optionalField (name : String) (v : Option (Json τ)) :
    ((optionalField name v).map (·.1)).Sublist [Wording.ofString name] := by
  cases v with
  | none => exact List.nil_sublist _
  | some v => exact List.Sublist.refl _

omit [LawfulWording τ] in
theorem plain_optionalField {name : String} {v : Option (Json τ)} (hv : ∀ w ∈ v, w.Plain) :
    ∀ f ∈ optionalField name v, f.2.Plain := by
  cases v with
  | none => exact fun f hf => absurd hf List.not_mem_nil
  | some v =>
    intro f hf
    rw [List.mem_singleton.1 hf]
    exact hv v rfl

end Method

end Fields

/-! ## Values that are written -/

namespace Coded

variable {α τ : Type} [Coded α τ] [LawfulCoded α] {P : Json τ → Prop} {a : α}

theorem ofJson_toJson (a : α) : Coded.ofJson (Coded.toJson a) = .ok a :=
  LawfulCoded.ofJson_eq_ok.2 rfl

theorem Stated.toJson (h : Stated P a) : P (toJson a) := by
  obtain ⟨v, hv, hread⟩ := h
  exact LawfulCoded.ofJson_eq_ok.1 hread ▸ hv

theorem Given.toJson (h : Given P a) : P (toJson a) := by
  obtain ⟨v, hv, -, hread⟩ := h
  exact LawfulCoded.ofJson_eq_ok.1 hread ▸ hv

/-- What may be missing is read back, if it is not written as null. -/
theorem ofOptional_map_toJson {o : Option α} (ho : ∀ a, o = some a → Given P a) :
    ofOptional (o.map Coded.toJson) = .ok o := by
  cases o with
  | none => rfl
  | some a =>
    obtain ⟨v, -, hnull, hread⟩ := ho a rfl
    rw [Option.map_some, ← LawfulCoded.ofJson_eq_ok.1 hread]
    cases v with
    | null => cases hnull
    | _ => exact congrArg (Except.map some) hread

variable [Wording τ]

/-- A list is read back, an empty one as well. -/
theorem ofListed_array (as : List α) :
    ofListed (some (.array (as.map Coded.toJson))) = .ok as := by
  have hmap : (as.map Coded.toJson).mapM (Coded.ofJson : Json τ → Outcome α) = .ok as := by
    induction as with
    | nil => rfl
    | cons a rest ih =>
      rw [List.map_cons, List.mapM_cons, ih, ofJson_toJson]
      rfl
  cases as with
  | nil => rfl
  | cons a rest => exact hmap

end Coded

namespace Json

/-- A list of plain values is plain. -/
theorem plain_array_map {α τ : Type} {f : α → Json τ} {as : List α}
    (h : ∀ a ∈ as, (f a).Plain) : (array (as.map f)).Plain := by
  refine .array fun v hv => ?_
  obtain ⟨a, ha, rfl⟩ := List.mem_map.1 hv
  exact h a ha

theorem plain_of_mem_map {α τ : Type} {f : α → Json τ} {o : Option α}
    (h : ∀ a, o = some a → (f a).Plain) : ∀ w ∈ o.map f, w.Plain := by
  intro w hw
  obtain ⟨a, ha, rfl⟩ := Option.map_eq_some_iff.1 hw
  exact h a ha

end Json

/-! ## Methods -/

namespace Method

variable {τ ν η : Type} [Wording τ] [LawfulWording τ] [Coded ν τ] [LawfulCoded ν] [Coded η τ]
  [LawfulCoded η] {m : Method ν η}

/-- A method that plain values tell of is written as a plain value. -/
theorem Told.plain_toJson (h : m.Told Json.Plain) : m.toJson.Plain := by
  have hnames : ["methodName", "businessLogic", "exceptions", "description", "httpMethod",
      "httpPath", "lineNumber"].Nodup := by decide
  refine .object ?_ fun f hf => ?_
  · refine List.Sublist.nodup ?_ (Wording.nodup_map_ofString hnames)
    simp only [List.map_append]
    exact ((((List.Sublist.refl _).append (names_optionalField ..)).append
      (names_optionalField ..)).append (names_optionalField ..)).append (names_optionalField ..)
  · simp only [List.mem_append, List.mem_cons, List.not_mem_nil, or_false] at hf
    rcases hf with ((((rfl | rfl | rfl) | hf) | hf) | hf) | hf
    · exact h.name.toJson
    · exact Json.plain_array_map fun a ha => (h.businessLogic a ha).toJson
    · exact Json.plain_array_map fun a ha => (h.exceptions a ha).toJson
    · exact plain_optionalField (Json.plain_of_mem_map fun a ha => (h.description a ha).toJson) f hf
    · exact plain_optionalField (Json.plain_of_mem_map fun a ha => (h.httpMethod a ha).toJson) f hf
    · exact plain_optionalField (Json.plain_of_mem_map fun a ha => (h.httpPath a ha).toJson) f hf
    · exact plain_optionalField (Json.plain_of_mem_map fun a ha => (h.lineNumber a ha).toJson) f hf

variable [DecidableEq τ] {P : Json τ → Prop}

/-- A written method is read back. -/
theorem Told.ofJson_toJson (h : m.Told P) : ofJson m.toJson = .ok m := by
  unfold ofJson toJson
  simp only [Json.required, Json.optional, List.append_assoc, List.cons_append, List.nil_append,
    Dict.lookup, lookup_optionalField, lookup_last_optionalField, Wording.ofString_inj,
    String.reduceEq, if_true, if_false, Option.or_none]
  simp only [Bind.bind, Except.bind, Coded.ofJson_toJson, Coded.ofListed_array,
    Coded.ofOptional_map_toJson h.description, Coded.ofOptional_map_toJson h.httpMethod,
    Coded.ofOptional_map_toJson h.httpPath, Coded.ofOptional_map_toJson h.lineNumber]
  rfl

/-- The written methods of a node are read back. -/
theorem mapM_ofJson {ms : List (Method ν η)} (h : ∀ m ∈ ms, m.Told P) :
    (ms.map toJson).mapM ofJson = .ok ms := by
  induction ms with
  | nil => rfl
  | cons m rest ih =>
    rw [List.map_cons, List.mapM_cons, (h m List.mem_cons_self).ofJson_toJson,
      ih fun m hm => h m (List.mem_cons_of_mem _ hm)]
    rfl

end Method

/-! ## Records of a graph -/

/-- Reading a kind's name gives the kind back, whatever case it is read in. -/
theorem Kind.ofText_name (k : Kind) : ofText k.name = k := by
  cases k <;> decide

theorem Kind.ofField_name {τ : Type} [Wording τ] [LawfulWording τ] (k : Kind) :
    ofField (some (.string (Wording.ofString k.name) : Json τ)) = .ok k := by
  rw [ofField, ofWording, LawfulWording.toString?_ofString]
  exact congrArg Except.ok k.ofText_name

variable {ι τ ν η π : Type} [DecidableEq ι] [DecidableEq τ] [DecidableEq π]

namespace Graph

/-- A node labelled with the record, kind and description that it has in another graph. -/
def labelAs (h g : Graph ι τ ν η π) (id : ι) : Graph ι τ ν η π :=
  let tied :=
    match g.classId? id with
    | some c => h.bindClassId id c
    | none => h
  match g.nodeInfo? id with
  | some i => tied.setNodeInfo id i
  | none => tied

/-- The nodes so far and one more, as another graph has it. -/
def addRead (g h : Graph ι τ ν η π) (e : ι × ν) : Graph ι τ ν η π :=
  (h.addNode e.1 e.2).labelAs g e.1

/-- Links by method that are added one after the other. -/
def addLinks (g : Graph ι τ ν η π) (e : ι × Dict τ (List (ParameterLink ι τ π))) :
    Graph ι τ ν η π :=
  e.2.toList.foldl
    (fun h m => m.2.foldl (fun h l => h.addMethodParameter e.1 m.1 l.position l.target) h) g

/-- The graph that results from adding to the empty graph all that is written of a graph. -/
def rebuilt [SelfEqual ι] (g : Graph ι τ ν η π) : Graph ι τ ν η π :=
  let nodes := g.nodes.toList.foldl g.addRead empty
  let joined := g.edgeList.foldl (fun h e => h.addDependency e.1 e.2) nodes
  let marked := g.entryPoints.foldl markEntryPoint joined
  let described := g.methods.toList.foldl (fun h e => h.setMethods e.1 e.2) marked
  g.links.toList.foldl addLinks described

omit [DecidableEq π] in
/-- The links of a well-formed graph are kept under the names of their methods. -/
theorem WellFormed.keeps_linkPosition [SelfEqual ι] {g : Graph ι τ ν η π} (hg : g.WellFormed)
    {id : ι} {byMethod : Dict τ (List (ParameterLink ι τ π))}
    (hnode : (id, byMethod) ∈ g.links.toList) {name : τ} {ls : List (ParameterLink ι τ π)}
    (hmethod : (name, ls) ∈ byMethod.toList) {l : ParameterLink ι τ π} (hl : l ∈ ls) :
    g.Keeps (.linkPosition id l) := by
  have hget := (Dict.mem_entries_iff hg.links.owners.nodup id byMethod).1 hnode
  have hlinks := hg.links.ofNode id byMethod hget
  have hgroup := (Dict.mem_entries_iff hlinks.nodup name ls).1 hmethod
  refine ⟨ls, ?_, hl⟩
  rw [linksOf, Dict.getD_of_get?_eq_some _ hget, hlinks.named name ls hgroup l hl, hgroup]

end Graph

namespace SpelledGraph

variable [Wording τ] [Coded ι τ] [Coded ν τ] [Coded η τ] [Coded π τ] {d : SpelledGraph ι τ ν η π}

omit [Coded η τ] in
/-- The record, the kind and the description of a node are optional fields of what is written. -/
theorem nodeJson_eq (d : SpelledGraph ι τ ν η π) (id : ι) (file : ν) : d.nodeJson id file = .object
    ([(Wording.ofString "id", d.spelling (.node id)),
        (Wording.ofString "sourceFile", Coded.toJson file)] ++
      Method.optionalField "classId" ((d.graph.classId? id).map .string) ++
      Method.optionalField "kind"
        ((d.graph.nodeInfo? id).map fun i => .string (Wording.ofString i.kind.name)) ++
      Method.optionalField "description" ((d.graph.description? id).map Coded.toJson) ++
      [(Wording.ofString "entryPoint", .bool (d.graph.isEntryPoint id))]) := by
  unfold nodeJson Graph.description?
  cases d.graph.nodeInfo? id <;> simp [Method.optionalField]

omit [Coded η τ] in
/-- A node's kind is written by its name, if it has been classified. -/
theorem kind_nodeJson [LawfulWording τ] (d : SpelledGraph ι τ ν η π) (id : ι) (file : ν) :
    (d.nodeJson id file).field? "kind" =
      (d.graph.nodeInfo? id).map fun i => .string (Wording.ofString i.kind.name) := by
  simp [nodeJson_eq, Json.field?, Method.lookup_optionalField, Dict.lookup]

omit [DecidableEq τ] [DecidableEq π] [Coded ι τ] [Coded η τ] [Coded π τ] in
/-- What is written about a node's kind and description is read back. -/
theorem readInfo_written [LawfulWording τ] [LawfulCoded ν] (h : Graph ι τ ν η π) (id : ι)
    {i? : Option (NodeInfo ν)}
    (hi : ∀ a, i?.bind (·.description) = some a → Coded.Given Json.Plain a) :
    readInfo h id (i?.map fun i => .string (Wording.ofString i.kind.name))
        ((i?.bind (·.description)).map Coded.toJson) =
      .ok (i?.elim h (h.setNodeInfo id)) := by
  cases i? with
  | none => rfl
  | some i =>
    have hdescription := Coded.ofOptional_map_toJson (show ∀ a, i.description = some a → _ from hi)
    simp only [readInfo, Option.map_some, Option.bind_some, Bind.bind, Except.bind,
      Kind.ofField_name, hdescription]
    rfl

omit [Wording τ] in
/-- The descriptions of a sound graph are given by plain values. -/
theorem Sound.description (hd : d.Sound) (id : ι) :
    ∀ a, d.graph.description? id = some a → Coded.Given Json.Plain a := by
  intro a ha
  obtain ⟨i, hi, ha⟩ := Option.bind_eq_some_iff.1 ha
  exact hd.told.descriptions i (List.mem_map_of_mem (Dict.mem_of_lookup hi)) a ha

/-- What is read is spelled as it was written. -/
def SpelledAs (d : SpelledGraph ι τ ν η π) (ms : List (Place ι τ π × Json τ)) : Prop :=
  ∀ e ∈ ms, e.2 = d.spelling e.1

omit [Wording τ] [Coded ν τ] [Coded η τ] in
/-- What is read next may be spelled as it was written, too. -/
theorem SpelledAs.append {ms : List (Place ι τ π × Json τ)} (hms : d.SpelledAs ms)
    (ps : List (Place ι τ π)) : d.SpelledAs (ms ++ ps.map fun p => (p, d.spelling p)) := by
  intro e he
  rcases List.mem_append.1 he with he | he
  · exact hms e he
  · obtain ⟨p, -, rfl⟩ := List.mem_map.1 he
    rfl

/-- A written node is read by adding it and labelling it as it was. -/
theorem Sound.readNode_nodeJson [LawfulWording τ] [LawfulCoded ν] (hd : d.Sound) {e : ι × ν}
    (he : e ∈ d.graph.nodes.toList) (r : NodesRead ι τ ν η π) :
    readNode r (d.nodeJson e.1 e.2) =
      .ok ⟨⟨d.graph.addRead r.read.graph e,
          r.read.spellings ++ [(.node e.1, d.spelling (.node e.1))]⟩,
        if d.graph.isEntryPoint e.1 then r.flagged ++ [d.spelling (.node e.1)] else r.flagged⟩ := by
  obtain ⟨id, file⟩ := e
  have hkeeps : d.graph.Keeps (.node id) :=
    (Dict.contains_iff_mem_keys _ _).2 (List.mem_map_of_mem he)
  have hread : Coded.ofJson (d.spelling (.node id)) = .ok id := (hd.places _ hkeeps).2
  have hid : (d.nodeJson id file).required "id" = .ok (d.spelling (.node id)) := by
    simp [nodeJson, Json.required, Dict.lookup]
  have hfile : (d.nodeJson id file).field? "sourceFile" = some (Coded.toJson file) := by
    simp [nodeJson, Json.field?, Dict.lookup]
  have hclass : (d.nodeJson id file).field? "classId" = (d.graph.classId? id).map .string := by
    simp [nodeJson_eq, Json.field?, Method.lookup_optionalField, Dict.lookup]
  have hkind := d.kind_nodeJson id file
  have hdescription : (d.nodeJson id file).field? "description" =
      (d.graph.description? id).map Coded.toJson := by
    simp [nodeJson_eq, Json.field?, Method.lookup_optionalField, Dict.lookup]
  have hflag : isFlagged (d.nodeJson id file) = d.graph.isEntryPoint id := by
    simp [nodeJson_eq, isFlagged, Json.field?, Method.lookup_optionalField, Dict.lookup,
      Json.isTruthy]
  have htied (h : Graph ι τ ν η π) :
      readClassId h id ((d.graph.classId? id).map .string) =
        match d.graph.classId? id with
        | some c => h.bindClassId id c
        | none => h := by
    cases d.graph.classId? id <;> rfl
  unfold readNode
  simp only [hid, hread, hfile, Option.getD_some, Coded.ofJson_toJson, Bind.bind, Except.bind,
    hclass, htied, hkind, hdescription, Graph.description?,
    readInfo_written _ _ (hd.description id), hflag]
  unfold Graph.addRead Graph.labelAs
  cases d.graph.nodeInfo? id <;> rfl

/-- A written edge is read by adding it. -/
theorem Sound.readEdge_edgeJson [SelfEqual ι] [LawfulWording τ] [LawfulIdentifier ι]
    (hd : d.Sound) (hg : d.graph.WellFormed) {e : ι × ι}
    (he : e ∈ d.graph.edgeList) {h : SpelledGraph ι τ ν η π} (hh : d.SpelledAs h.spellings) :
    ∃ h', readEdge h (d.edgeJson e) = .ok h' ∧ h'.graph = h.graph.addDependency e.1 e.2 ∧
      d.SpelledAs h'.spellings := by
  obtain ⟨a, b⟩ := e
  have hb : b ∈ d.graph.dependencies a := (Graph.mem_edgeList.1 he).2
  have hsource : Coded.ofJson (d.spelling (.node a)) = .ok a :=
    (hd.places (.node a) (hg.edges.ends a b hb).1).2
  have htarget : Coded.ofJson (d.spelling (.edge a b)) = .ok b := (hd.places (.edge a b) hb).2
  have hapart : (d.spelling (.node a)).alike (d.spelling (.edge a b)) = false := by
    rw [Bool.eq_false_iff, ne_eq, LawfulIdentifier.alike_iff hsource htarget]
    rintro ⟨heq, hself⟩
    rw [hg.edges.apart a b hb heq] at hself
    cases hself
  simp only [readEdge, edgeJson, Json.required, Dict.lookup, Bind.bind, Except.bind,
    Wording.ofString_inj, String.reduceEq, if_true, if_false, hapart, hsource, htarget,
    Bool.false_eq_true]
  cases ha : h.graph.contains a with
  | true => exact ⟨_, rfl, rfl, hh.append [.edge a b]⟩
  | false => exact ⟨h, rfl, (if_pos (by simp [ha])).symm, hh⟩

omit [Wording τ] in
/-- An entry point that is written is read by marking it. -/
theorem Sound.readEntryPoint_spelling (hd : d.Sound) {id : ι} (hid : id ∈ d.graph.entryPoints)
    (h : SpelledGraph ι τ ν η π) :
    readEntryPoint h (d.spelling (.entryPoint id)) =
      .ok ⟨h.graph.markEntryPoint id,
        h.spellings ++ [(.entryPoint id, d.spelling (.entryPoint id))]⟩ := by
  have hread : Coded.ofJson (d.spelling (.entryPoint id)) = .ok id :=
    (hd.places (.entryPoint id) hid).2
  simp only [readEntryPoint, hread]
  rfl

/-- The methods of a node are written under a text that spells it. -/
theorem ofJson_fieldName [SelfEqual ι] [LawfulIdentifier ι] {id : ι} (h : Coded.Named id) :
    Coded.ofJson (.string (fieldName (Coded.toJson id))) = .ok id := by
  obtain ⟨t, ht⟩ := h
  rw [LawfulIdentifier.toJson_of_text ht]
  exact ht

/-- The written methods of a node are read by setting them. -/
theorem Sound.readMethods_array [SelfEqual ι] [LawfulWording τ] [LawfulIdentifier ι]
    [LawfulCoded ν] [LawfulCoded η] (hd : d.Sound) {e : ι × List (Method ν η)}
    (he : e ∈ d.graph.methods.toList) (h : SpelledGraph ι τ ν η π) :
    readMethods h (fieldName (Coded.toJson e.1), .array (e.2.map Method.toJson)) =
      .ok ⟨h.graph.setMethods e.1 e.2, h.spellings⟩ := by
  have hms := hd.told.methods e.2 (List.mem_map_of_mem he)
  have hid := ofJson_fieldName (hd.told.methodOwners e.1 (List.mem_map_of_mem he))
  unfold readMethods
  simp only [Json.elements, Bind.bind, Except.bind, Method.mapM_ofJson hms, hid]
  rfl

/-- A written link is read by adding it. -/
theorem Sound.readLink_linkJson [LawfulWording τ] (hd : d.Sound) {id : ι} {l : ParameterLink ι τ π}
    (hl : d.graph.Keeps (.linkPosition id l)) {h : SpelledGraph ι τ ν η π}
    (hh : d.SpelledAs h.spellings) :
    ∃ h', readLink id l.methodName h (d.linkJson id l) = .ok h' ∧
      h'.graph = h.graph.addMethodParameter id l.methodName l.position l.target ∧
      d.SpelledAs h'.spellings := by
  have hposition : Coded.ofJson (d.spelling (.linkPosition id l)) = .ok l.position :=
    (hd.places (.linkPosition id l) hl).2
  have htarget : Coded.ofJson (d.spelling (.linkTarget id l)) = .ok l.target :=
    (hd.places (.linkTarget id l) hl).2
  simp only [readLink, linkJson, Json.required, Dict.lookup, Bind.bind, Except.bind,
    Wording.ofString_inj, String.reduceEq, if_true, if_false, hposition, htarget]
  cases hid : h.graph.contains id with
  | true => exact ⟨_, rfl, rfl, hh.append [.linkPosition id l, .linkTarget id l]⟩
  | false => exact ⟨h, rfl, (if_pos (by simp [hid])).symm, hh⟩

/-- The written links of a node are read by adding them one after the other. -/
theorem Sound.readLinks_linksJson [SelfEqual ι] [LawfulWording τ] [LawfulIdentifier ι]
    (hd : d.Sound) (hg : d.graph.WellFormed)
    {e : ι × Dict τ (List (ParameterLink ι τ π))} (he : e ∈ d.graph.links.toList)
    {h : SpelledGraph ι τ ν η π} (hh : d.SpelledAs h.spellings) :
    ∃ h', readLinks h (fieldName (Coded.toJson e.1), d.linksJson e.1 e.2) = .ok h' ∧
      h'.graph = h.graph.addLinks e ∧ d.SpelledAs h'.spellings := by
  obtain ⟨id, byMethod⟩ := e
  have hid := ofJson_fieldName (hd.told.linkOwners id (List.mem_map_of_mem he))
  have hget := (Dict.mem_entries_iff hg.links.owners.nodup id byMethod).1 he
  have hlinks := hg.links.ofNode id byMethod hget
  have hmethod (h : SpelledGraph ι τ ν η π) (hh : d.SpelledAs h.spellings)
      (m : τ × List (ParameterLink ι τ π)) (hm : m ∈ byMethod.toList) :
      ∃ h', (do (← (Json.array (m.2.map (d.linkJson id))).elements).foldlM (readLink id m.1) h) =
          .ok h' ∧
        h'.graph = m.2.foldl (fun h l => h.addMethodParameter id m.1 l.position l.target) h.graph ∧
        d.SpelledAs h'.spellings := by
    have hgroup := (Dict.mem_entries_iff hlinks.nodup m.1 m.2).1 hm
    refine Outcome.foldlM_simulates (v := SpelledGraph.graph)
      (Q := fun h => d.SpelledAs h.spellings) (fun h hh l hl => ?_) hh
    have hname : l.methodName = m.1 := hlinks.named m.1 m.2 hgroup l hl
    have hread := hd.readLink_linkJson (hg.keeps_linkPosition he hm hl) hh
    rwa [hname] at hread
  have hall := Outcome.foldlM_simulates (v := SpelledGraph.graph)
    (Q := fun h => d.SpelledAs h.spellings)
    (f := fun (h : SpelledGraph ι τ ν η π) (m : τ × Json τ) => do
      (← m.2.elements).foldlM (readLink id m.1) h)
    (w := fun m : τ × List (ParameterLink ι τ π) => (m.1, .array (m.2.map (d.linkJson id))))
    (s := fun h m => m.2.foldl (fun h l => h.addMethodParameter id m.1 l.position l.target) h)
    hmethod hh
  unfold readLinks
  simp only [linksJson, Json.asFields, Bind.bind, Except.bind, hid]
  exact hall

/-- A field of a written graph is found under its name. -/
theorem field?_toJson [LawfulWording τ] (d : SpelledGraph ι τ ν η π) :
    d.toJson.optional "nodes" =
        .ok (some (.array (d.graph.nodes.toList.map fun e => d.nodeJson e.1 e.2))) ∧
      d.toJson.field? "edges" = some (.array (d.graph.edgeList.map d.edgeJson)) ∧
      d.toJson.field? "entryPoints" =
        some (.array (d.graph.entryPoints.map fun id => d.spelling (.entryPoint id))) ∧
      d.toJson.field? "methods" = some (.object (d.graph.methods.toList.map fun e =>
        (fieldName (Coded.toJson e.1), .array (e.2.map Method.toJson)))) ∧
      d.toJson.field? "methodParameters" = some (.object (d.graph.links.toList.map fun e =>
        (fieldName (Coded.toJson e.1), d.linksJson e.1 e.2))) := by
  simp [toJson, Json.optional, Json.field?, Dict.lookup]

/-- A written graph is read record by record. -/
theorem Sound.ofJson_toJson [SelfEqual ι] [LawfulWording τ] [LawfulIdentifier ι] [LawfulCoded ν]
    [LawfulCoded η] (hd : d.Sound) (hg : d.graph.WellFormed) :
    ∃ ms, ofJson d.toJson = .ok ⟨d.graph.rebuilt, ms⟩ ∧ d.SpelledAs ms := by
  obtain ⟨hnodes, hedges, hmarks, hmethods, hlinks⟩ := d.field?_toJson
  obtain ⟨r, hr, hrgraph, hrspelled⟩ := Outcome.foldlM_simulates
    (f := readNode) (w := fun e : ι × ν => d.nodeJson e.1 e.2) (l := d.graph.nodes.toList)
    (v := fun r : NodesRead ι τ ν η π => r.read.graph) (s := d.graph.addRead)
    (Q := fun r => d.SpelledAs r.read.spellings)
    (fun r hr e he => ⟨_, hd.readNode_nodeJson he r, rfl, hr.append [.node e.1]⟩)
    (b := ⟨⟨.empty, []⟩, []⟩) (fun _ hx => absurd hx List.not_mem_nil)
  obtain ⟨d₁, hd₁, hgraph₁, hspelled₁⟩ := Outcome.foldlM_simulates
    (f := readEdge) (w := d.edgeJson) (l := d.graph.edgeList) (v := SpelledGraph.graph)
    (s := fun h e => h.addDependency e.1 e.2) (Q := fun h => d.SpelledAs h.spellings)
    (fun h hh e he => hd.readEdge_edgeJson hg he hh) hrspelled
  obtain ⟨d₂, hd₂, hgraph₂, hspelled₂⟩ := Outcome.foldlM_simulates
    (f := readEntryPoint) (w := fun id => d.spelling (.entryPoint id))
    (l := d.graph.entryPoints) (v := SpelledGraph.graph) (s := Graph.markEntryPoint)
    (Q := fun h => d.SpelledAs h.spellings)
    (fun h hh id hid => ⟨_, hd.readEntryPoint_spelling hid h, rfl, hh.append [.entryPoint id]⟩)
    hspelled₁
  obtain ⟨d₃, hd₃, hgraph₃, hspelled₃⟩ := Outcome.foldlM_simulates
    (f := readMethods) (l := d.graph.methods.toList)
    (w := fun e => (fieldName (Coded.toJson e.1), .array (e.2.map Method.toJson)))
    (v := SpelledGraph.graph) (s := fun h e => h.setMethods e.1 e.2)
    (Q := fun h => d.SpelledAs h.spellings)
    (fun h hh e he =>
      ⟨⟨h.graph.setMethods e.1 e.2, h.spellings⟩, hd.readMethods_array he h, rfl, hh⟩) hspelled₂
  obtain ⟨d₄, hd₄, hgraph₄, hspelled₄⟩ := Outcome.foldlM_simulates
    (f := readLinks) (l := d.graph.links.toList)
    (w := fun e => (fieldName (Coded.toJson e.1), d.linksJson e.1 e.2))
    (v := SpelledGraph.graph) (s := Graph.addLinks)
    (Q := fun h => d.SpelledAs h.spellings)
    (fun h hh e he => hd.readLinks_linksJson hg he hh) hspelled₃
  refine ⟨d₄.spellings, ?_, hspelled₄⟩
  have hrebuilt : d₄.graph = d.graph.rebuilt := by
    rw [hgraph₄, hgraph₃, hgraph₂, hgraph₁, hrgraph]
    rfl
  unfold ofJson
  refine Outcome.bind_eq_ok.2 ⟨_, hnodes, ?_⟩
  refine Outcome.bind_eq_ok.2 ⟨_, rfl, ?_⟩
  refine Outcome.bind_eq_ok.2 ⟨r, hr, ?_⟩
  rw [hedges, hmarks, hmethods, hlinks]
  refine Outcome.bind_eq_ok.2 ⟨_, rfl, ?_⟩
  refine Outcome.bind_eq_ok.2 ⟨d₁, hd₁, ?_⟩
  refine Outcome.bind_eq_ok.2 ⟨_, rfl, ?_⟩
  refine Outcome.bind_eq_ok.2 ⟨d₂, hd₂, ?_⟩
  refine Outcome.bind_eq_ok.2 ⟨_, rfl, ?_⟩
  refine Outcome.bind_eq_ok.2 ⟨d₃, hd₃, ?_⟩
  refine Outcome.bind_eq_ok.2 ⟨_, rfl, ?_⟩
  rw [← hrebuilt]
  exact hd₄

/-! ## What is written is plain -/

theorem Sound.plain_nodeJson [LawfulWording τ] [LawfulCoded ν] (hd : d.Sound) {e : ι × ν}
    (he : e ∈ d.graph.nodes.toList) :
    (d.nodeJson e.1 e.2).Plain := by
  have hkeeps : d.graph.Keeps (.node e.1) :=
    (Dict.contains_iff_mem_keys _ _).2 (List.mem_map_of_mem he)
  have hnames : ["id", "sourceFile", "classId", "kind", "description", "entryPoint"].Nodup := by
    decide
  rw [nodeJson_eq]
  refine .object ?_ fun f hf => ?_
  · refine List.Sublist.nodup ?_ (Wording.nodup_map_ofString hnames)
    simp only [List.map_append]
    exact ((((List.Sublist.refl _).append (Method.names_optionalField ..)).append
      (Method.names_optionalField ..)).append (Method.names_optionalField ..)).append
      (List.Sublist.refl _)
  · simp only [List.mem_append, List.mem_cons, List.not_mem_nil, or_false] at hf
    rcases hf with ((((rfl | rfl) | hf) | hf) | hf) | rfl
    · exact (hd.places _ hkeeps).1
    · exact (hd.told.files e.2 (List.mem_map_of_mem he)).toJson
    · exact Method.plain_optionalField (Json.plain_of_mem_map fun c _ => .string c) f hf
    · exact Method.plain_optionalField (Json.plain_of_mem_map fun i _ => .string _) f hf
    · exact Method.plain_optionalField
        (Json.plain_of_mem_map fun a ha => (hd.description e.1 a ha).toJson) f hf
    · exact .bool _

omit [DecidableEq τ] in
/-- A record of two fields. -/
theorem plain_object_pair [LawfulWording τ] {k l : String} (hkl : k ≠ l) {v w : Json τ}
    (hv : v.Plain) (hw : w.Plain) :
    (Json.object [(Wording.ofString k, v), (Wording.ofString l, w)]).Plain :=
  .object (by simpa using hkl)
    (List.forall_mem_cons.2 ⟨hv, List.forall_mem_singleton.2 hw⟩)

/-- Names of fields are different for different owners. -/
theorem nodup_map_fieldName [SelfEqual ι] [LawfulIdentifier ι] {ids : List ι} (hids : ids.Nodup)
    (hnamed : ∀ id ∈ ids, Coded.Named id) :
    (ids.map fun id => fieldName (Coded.toJson id)).Nodup := by
  refine hids.map_on fun a ha b hb heq => ?_
  have ha := ofJson_fieldName (hnamed a ha)
  rw [heq, ofJson_fieldName (hnamed b hb)] at ha
  exact (Except.ok.inj ha).symm

/-- What is written of a well-formed graph is plain. -/
theorem Sound.plain_toJson [SelfEqual ι] [LawfulWording τ] [LawfulIdentifier ι] [LawfulCoded ν]
    [LawfulCoded η] (hd : d.Sound) (hg : d.graph.WellFormed) : d.toJson.Plain := by
  have hnames : ["nodes", "edges", "entryPoints", "methods", "methodParameters"].Nodup := by
    decide
  refine .object (Wording.nodup_map_ofString hnames) fun f hf => ?_
  simp only [List.mem_cons, List.not_mem_nil, or_false] at hf
  rcases hf with rfl | rfl | rfl | rfl | rfl
  · exact Json.plain_array_map fun e he => hd.plain_nodeJson he
  · refine Json.plain_array_map fun e he => ?_
    have hb : e.2 ∈ d.graph.dependencies e.1 := (Graph.mem_edgeList.1 he).2
    exact plain_object_pair (by decide) (hd.places (.node e.1) (hg.edges.ends e.1 e.2 hb).1).1
      (hd.places (.edge e.1 e.2) hb).1
  · exact Json.plain_array_map fun id hid => (hd.places (.entryPoint id) hid).1
  · refine .object ?_ fun f hf => ?_
    · rw [List.map_map]
      have hnodup := nodup_map_fieldName hg.labels.methods.nodup hd.told.methodOwners
      rwa [Dict.keys, List.map_map] at hnodup
    · obtain ⟨e, he, rfl⟩ := List.mem_map.1 hf
      exact Json.plain_array_map fun m hm =>
        (hd.told.methods e.2 (List.mem_map_of_mem he) m hm).plain_toJson
  · refine .object ?_ fun f hf => ?_
    · rw [List.map_map]
      have hnodup := nodup_map_fieldName hg.links.owners.nodup hd.told.linkOwners
      rwa [Dict.keys, List.map_map] at hnodup
    · obtain ⟨⟨id, byMethod⟩, he, rfl⟩ := List.mem_map.1 hf
      have hget := (Dict.mem_entries_iff hg.links.owners.nodup id byMethod).1 he
      have hlinks := hg.links.ofNode id byMethod hget
      refine .object ?_ fun f hf => ?_
      · rw [List.map_map]
        exact hlinks.nodup
      · obtain ⟨⟨name, ls⟩, hm, rfl⟩ := List.mem_map.1 hf
        refine Json.plain_array_map fun l hl => ?_
        have hkeeps := hg.keeps_linkPosition he hm hl
        exact plain_object_pair (by decide) (hd.places (.linkPosition id l) hkeeps).1
          (hd.places (.linkTarget id l) hkeeps).1

end SpelledGraph

/-- What is written of a well-formed graph of texts is plain. -/
theorem Graph.WellFormed.plain_toJson {g : Graph} (hg : g.WellFormed) : g.toJson.Plain :=
  g.sound.plain_toJson hg

end CodeAtlas
