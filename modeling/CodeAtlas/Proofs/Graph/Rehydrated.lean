import CodeAtlas.Graph.Document
import CodeAtlas.Registry

/-!
# Saved graphs published again

What reading saved graphs back does to the registry, whoever wrote them and whatever limits the
interpreter puts on them. A text that holds no graph is passed over, with two exceptions: its
document has something else than a record in one of the places where the reader asks for the fields
of one, or it has too much within each other. These failures are not caught, and end a load of
several states too.

Identifiers, names and every other text of a document are kept by their units, so that no two of
them are confused. The text of a state itself consists of characters: a state whose text has half
of a surrogate pair in it, not as an escape but as it is, is left out here.
-/

namespace CodeAtlas

/-! ## Reading without being stopped -/

namespace Outcome

open Registry

variable {α β : Type}

/-- Whether an operation fails, if it does, in a way that is not passed on. -/
def Caught (x : Outcome α) : Prop := ∀ e, x = .error e → passesOn e = false

theorem Caught.ok (a : α) : Caught (.ok a : Outcome α) := by
  intro e h
  cases h

theorem Caught.wrongType : Caught (.error .wrongType : Outcome α) := by
  intro e h
  cases h
  rfl

/-- A sequence is not stopped if neither of its steps is. -/
theorem Caught.bind {x : Outcome α} {f : α → Outcome β} (hx : Caught x)
    (hf : ∀ a, x = .ok a → Caught (f a)) : Caught (x >>= f) := by
  cases x with
  | ok a => exact hf a rfl
  | error e =>
    intro e' h
    cases h
    exact hx e rfl

theorem Caught.map {x : Outcome α} (hx : Caught x) (f : α → β) : Caught (x.map f) := by
  cases x with
  | ok a => exact .ok _
  | error e =>
    intro e' h
    cases h
    exact hx e rfl

/-- A fold is not stopped if it is not at any of its items. -/
theorem Caught.foldlM {f : β → α → Outcome β} {xs : List α}
    (hf : ∀ a ∈ xs, ∀ b, Caught (f b a)) (b : β) : Caught (xs.foldlM f b) := by
  induction xs generalizing b with
  | nil => exact .ok b
  | cons x rest ih =>
    rw [List.foldlM_cons]
    refine (hf x List.mem_cons_self b).bind fun c _ => ?_
    exact ih (fun a ha => hf a (List.mem_cons_of_mem _ ha)) c

/-- Neither is going through a list. -/
theorem Caught.mapM {f : α → Outcome β} {xs : List α} (hf : ∀ a ∈ xs, Caught (f a)) :
    Caught (xs.mapM f) := by
  induction xs with
  | nil => exact .ok []
  | cons x rest ih =>
    rw [List.mapM_cons]
    refine (hf x List.mem_cons_self).bind fun b _ => ?_
    exact (ih fun a ha => hf a (List.mem_cons_of_mem _ ha)).bind fun bs _ => .ok _

end Outcome

open Outcome

namespace Json

/-- Whether a value is a record. -/
def IsRecord (v : Value) : Prop := ∃ fields, v = .object fields

/-- Only a record has required fields. -/
theorem isRecord_of_required {v w : Value} {name : String} (h : v.required name = .ok w) :
    v.IsRecord := by
  cases v with
  | object fields => exact ⟨fields, rfl⟩
  | _ => cases h

theorem caught_required (v : Value) (name : String) : Caught (v.required name) := by
  intro e h
  unfold required at h
  split at h
  · split at h <;> cases h
    rfl
  · cases h
    rfl

theorem caught_optional {v : Value} (h : v.IsRecord) (name : String) :
    Caught (v.optional name) := by
  obtain ⟨fields, rfl⟩ := h
  exact .ok _

theorem caught_asFields {v : Value} (h : v.IsRecord) : Caught v.asFields := by
  obtain ⟨fields, rfl⟩ := h
  exact .ok _

theorem caught_elements (v : Value) : Caught v.elements := by
  intro e h
  cases v <;> cases h <;> rfl

end Json

namespace Coded

/-- A value that cannot be an identifier is refused in a way that is caught. -/
theorem caught_ofJson (v : Value) : Caught (ofJson v : Outcome Key) := by
  intro e h
  cases v <;> cases h <;> rfl

theorem caught_ofOptional {α : Type} [Coded α UnitText] (h : ∀ v, Caught (ofJson v : Outcome α))
    (v : Option Value) : Caught (ofOptional v : Outcome (Option α)) := by
  unfold ofOptional
  split
  · exact .ok _
  · exact .ok _
  · exact (h _).map some

theorem caught_ofListed (v : Option Value) : Caught (ofListed v : Outcome (List Value)) := by
  unfold ofListed
  split
  · next v =>
    split
    · exact (Json.caught_elements v).bind fun vs _ => .mapM fun w _ => .ok w
    · exact .ok _
  · exact .ok _

end Coded

/-- A method's record is asked for fields only after it has shown to be a record. -/
theorem Method.caught_ofJson (v : Value) :
    Caught (Method.ofJson v : Outcome (Method Value Value)) := by
  have hvalue (v : Option Value) : Caught (Coded.ofOptional v : Outcome (Option Value)) :=
    Coded.caught_ofOptional (fun v => .ok v) v
  unfold Method.ofJson
  refine (Json.caught_required v _).bind fun w hw => ?_
  have hv := Json.isRecord_of_required hw
  refine Caught.bind (.ok w) fun name _ => ?_
  refine (Json.caught_optional hv _).bind fun description _ => ?_
  refine (hvalue description).bind fun _ _ => ?_
  refine (Json.caught_optional hv _).bind fun businessLogic _ => ?_
  refine (Coded.caught_ofListed businessLogic).bind fun _ _ => ?_
  refine (Json.caught_optional hv _).bind fun exceptions _ => ?_
  refine (Coded.caught_ofListed exceptions).bind fun _ _ => ?_
  refine (Json.caught_optional hv _).bind fun httpMethod _ => ?_
  refine (hvalue httpMethod).bind fun _ _ => ?_
  refine (Json.caught_optional hv _).bind fun httpPath _ => ?_
  refine (hvalue httpPath).bind fun _ _ => ?_
  refine (Json.caught_optional hv _).bind fun lineNumber _ => ?_
  exact (hvalue lineNumber).bind fun _ _ => .ok _

/-! ## Documents with records in their places -/

namespace SpelledGraph

/-- Whether a node's kind, if it says any, is a text. -/
def KindIsText (node : Value) : Prop :=
  ∀ kind, node.field? "kind" = some kind → kind.isTruthy = true → ∃ s, kind = .string s

/-- Whether a document is a record, with texts as the kinds of its nodes, and has records where
it goes by the nodes' names and by the names of their methods. -/
structure WellShaped (v : Value) : Prop where
  document : v.IsRecord
  kinds : ∀ list nodes, v.field? "nodes" = some list → list.elements = .ok nodes →
    ∀ node ∈ nodes, KindIsText node
  methods : ∀ ms, v.field? "methods" = some ms → ms.IsRecord
  links : ∀ ls, v.field? "methodParameters" = some ls → ls.IsRecord
  linksOf : ∀ ls, v.field? "methodParameters" = some (.object ls) → ∀ l ∈ ls, l.2.IsRecord

theorem caught_ofField {node : Value} (h : KindIsText node) :
    Caught (Kind.ofField (node.field? "kind")) := by
  unfold Kind.ofField
  split
  · exact .ok _
  · exact .ok _
  · next v hs hv =>
    split
    · next htruthy =>
      obtain ⟨s, rfl⟩ := h v hv htruthy
      exact absurd rfl (hs s)
    · exact .ok _

theorem caught_readInfo {node : Value} (h : KindIsText node) (g : ForeignGraph) (id : Key)
    (description : Option Value) : Caught (readInfo g id (node.field? "kind") description) := by
  unfold readInfo
  split
  · exact .ok _
  · refine (caught_ofField h).bind fun kind _ => ?_
    exact (Coded.caught_ofOptional (fun v => .ok v) _).bind fun _ _ => .ok _

theorem caught_readNode {node : Value} (h : KindIsText node)
    (r : NodesRead Key UnitText Value Value Likeness) : Caught (readNode r node) := by
  unfold readNode
  refine (Json.caught_required node _).bind fun mention _ => ?_
  refine (Coded.caught_ofJson mention).bind fun id _ => ?_
  refine Caught.bind (.ok _) fun file _ => ?_
  exact (caught_readInfo h _ id _).bind fun _ _ => .ok _

theorem caught_readEdge (d : ForeignDocument) (v : Value) : Caught (readEdge d v) := by
  unfold readEdge
  refine (Json.caught_required v _).bind fun source _ => ?_
  refine (Json.caught_required v _).bind fun target _ => ?_
  split
  · exact .ok d
  refine (Coded.caught_ofJson source).bind fun a _ => ?_
  split
  · exact .ok d
  exact (Coded.caught_ofJson target).bind fun b _ => .ok _

theorem caught_readEntryPoint (d : ForeignDocument) (v : Value) :
    Caught (readEntryPoint d v) := by
  unfold readEntryPoint
  exact (Coded.caught_ofJson v).bind fun id _ => .ok _

theorem caught_readMethods (d : ForeignDocument) (f : UnitText × Value) :
    Caught (readMethods d f) := by
  unfold readMethods
  refine (Json.caught_elements f.2).bind fun vs _ => ?_
  refine (Caught.mapM fun v _ => Method.caught_ofJson v).bind fun ms _ => ?_
  exact (Coded.caught_ofJson _).bind fun id _ => .ok _

theorem caught_readLink (id : Key) (methodName : UnitText) (d : ForeignDocument) (v : Value) :
    Caught (readLink id methodName d v) := by
  unfold readLink
  refine (Json.caught_required v _).bind fun position _ => ?_
  refine (Json.caught_required v _).bind fun target _ => ?_
  split
  · exact .ok d
  refine (Coded.caught_ofJson target).bind fun t _ => ?_
  exact Caught.bind (.ok _) fun n _ => .ok _

theorem caught_readLinks {f : UnitText × Value} (h : f.2.IsRecord) (d : ForeignDocument) :
    Caught (readLinks d f) := by
  unfold readLinks
  refine (Json.caught_asFields h).bind fun fields _ => ?_
  refine (Coded.caught_ofJson _).bind fun id _ => ?_
  refine .foldlM (fun m _ d => ?_) d
  refine (Json.caught_elements m.2).bind fun vs _ => ?_
  exact .foldlM (fun v _ d => caught_readLink id m.1 d v) d

theorem caught_itemsOf (missing : List Value) (v : Option Value) :
    Caught (itemsOf missing v) := by
  cases v with
  | none => exact .ok _
  | some v => exact Json.caught_elements v

theorem caught_fieldsOf {v : Option Value} (h : ∀ w, v = some w → w.IsRecord) :
    Caught (fieldsOf v) := by
  cases v with
  | none => exact .ok _
  | some v => exact Json.caught_asFields (h v rfl)

theorem WellShaped.kinds_of_items {v : Value} (h : WellShaped v) {list : Option Value}
    {nodes : List Value} (hlist : v.optional "nodes" = .ok list)
    (hnodes : itemsOf [] list = .ok nodes) : ∀ node ∈ nodes, KindIsText node := by
  obtain ⟨fields, rfl⟩ := h.document
  obtain rfl : (Json.object fields).field? "nodes" = list := Except.ok.inj hlist
  cases hl : (Json.object fields).field? "nodes" with
  | none =>
    rw [hl] at hnodes
    cases hnodes
    exact nofun
  | some l =>
    rw [hl] at hnodes
    exact h.kinds l nodes hl hnodes

theorem WellShaped.isRecord_of_fields {v : Value} (h : WellShaped v)
    {ls : List (UnitText × Value)} (hls : fieldsOf (v.field? "methodParameters") = .ok ls) :
    ∀ l ∈ ls, l.2.IsRecord := by
  cases hfield : v.field? "methodParameters" with
  | none =>
    rw [hfield] at hls
    cases hls
    exact nofun
  | some w =>
    obtain ⟨fields, rfl⟩ := h.links w hfield
    rw [hfield] at hls
    obtain rfl : fields = ls := Except.ok.inj hls
    exact h.linksOf fields hfield

/-- Reading a document with records in their places is not stopped, whether it holds a graph or
not. -/
theorem WellShaped.caught_ofJson {v : Value} (h : WellShaped v) :
    Caught (ofJson v : Outcome ForeignDocument) := by
  unfold ofJson
  refine (Json.caught_optional h.document _).bind fun list hlist => ?_
  refine (caught_itemsOf [] list).bind fun nodes hnodes => ?_
  have hkinds := h.kinds_of_items hlist hnodes
  refine (Caught.foldlM (fun node hnode r => caught_readNode (hkinds node hnode) r)
    _).bind fun r _ => ?_
  refine (caught_itemsOf [] _).bind fun edges _ => ?_
  refine (Caught.foldlM (fun e _ d => caught_readEdge d e) _).bind fun d _ => ?_
  refine (caught_itemsOf _ _).bind fun marks _ => ?_
  refine (Caught.foldlM (fun m _ d => caught_readEntryPoint d m) d).bind fun d _ => ?_
  refine (caught_fieldsOf h.methods).bind fun methods _ => ?_
  refine (Caught.foldlM (fun m _ d => caught_readMethods d m) d).bind fun d _ => ?_
  refine (caught_fieldsOf h.links).bind fun links hlinks => ?_
  exact .foldlM (fun l hl d => caught_readLinks (h.isRecord_of_fields hlinks l hl) d) d

/-- Reading a document that is no record is always stopped. -/
theorem ofJson_of_not_isRecord {v : Value} (h : ¬v.IsRecord) :
    (ofJson v : Outcome ForeignDocument) = .error (.notARecord v.sortName "get") := by
  cases v with
  | object fields => exact absurd ⟨fields, rfl⟩ h
  | _ => rfl

end SpelledGraph

/-! ## What a saved state holds -/

namespace ProjectState

variable {l : Json.Limits}

/-- Whether a state's text is there and describes a graph. -/
def Holds (l : Json.Limits) (s : ProjectState) (d : ForeignDocument) : Prop :=
  ∃ text, s.graphText = some text ∧ SpelledGraph.ofTextWithin l text = .ok d

/-- The graph that a state's text describes, if it describes one. -/
def savedGraph? (l : Json.Limits) (s : ProjectState) : Option ForeignDocument :=
  s.graphText.bind fun text => (SpelledGraph.ofTextWithin l text).toOption

/-- Whether reading a state's text is stopped by a failure. -/
def Stops (l : Json.Limits) (s : ProjectState) (e : Failure) : Prop :=
  Registry.passesOn e = true ∧ ∃ text, s.graphText = some text ∧
    (SpelledGraph.ofTextWithin l text : Outcome ForeignDocument) = .error e

/-- Whether reading a state's text is never stopped. -/
def Passes (l : Json.Limits) (s : ProjectState) : Prop := ∀ e, ¬s.Stops l e

theorem savedGraph?_eq_some {s : ProjectState} {d : ForeignDocument} :
    s.savedGraph? l = some d ↔ s.Holds l d := by
  unfold savedGraph? Holds
  rw [Option.bind_eq_some_iff]
  constructor
  · rintro ⟨text, htext, hread⟩
    refine ⟨text, htext, ?_⟩
    cases hd : (SpelledGraph.ofTextWithin l text : Outcome ForeignDocument) with
    | ok d' =>
      rw [hd] at hread
      exact congrArg _ (Option.some.inj hread)
    | error e =>
      rw [hd] at hread
      cases hread
  · rintro ⟨text, htext, hread⟩
    exact ⟨text, htext, by rw [hread]; rfl⟩

/-- A reading that is stopped has asked something else than a record for fields, or has met a limit
of nesting. -/
theorem Stops.cases {s : ProjectState} {e : Failure} (h : s.Stops l e) :
    (∃ found asked, e = .notARecord found asked) ∨ ∃ opened, e = .nestedTooDeeply opened := by
  have hpassed := h.1
  unfold Registry.passesOn at hpassed
  split at hpassed
  · exact .inl ⟨_, _, rfl⟩
  · exact .inr ⟨_, rfl⟩
  · cases hpassed

/-- What a document makes of its state: the reading of the document is stopped or it is not. -/
theorem passes_iff_caught {s : ProjectState} {text : String} {v : Value}
    (htext : s.graphText = some text) (hv : Json.readWithin UnitText l text = .ok v) :
    s.Passes l ↔ Caught (SpelledGraph.ofJson v : Outcome ForeignDocument) := by
  have hread : (SpelledGraph.ofTextWithin l text : Outcome ForeignDocument) =
      SpelledGraph.ofJson v := by
    unfold SpelledGraph.ofTextWithin
    rw [hv]
    rfl
  unfold Passes Stops Caught
  simp only [htext, Option.some.injEq, exists_eq_left', hread]
  refine forall_congr' fun e => ?_
  cases Registry.passesOn e <;> simp

/-- A text that cannot be read is passed over, unless it has too much within each other. -/
theorem passes_iff_malformed {s : ProjectState} {text : String} {e : Failure}
    (htext : s.graphText = some text) (hv : Json.readWithin UnitText l text = .error e) :
    s.Passes l ↔ e = .malformedDocument := by
  have hread : (SpelledGraph.ofTextWithin l text : Outcome ForeignDocument) = .error e := by
    unfold SpelledGraph.ofTextWithin
    rw [hv]
    rfl
  unfold Passes Stops
  simp only [htext, Option.some.injEq, exists_eq_left', hread]
  rcases Json.readWithin_eq_error hv with rfl | ⟨most, opened, -, rfl⟩
  · refine iff_of_true (fun e' h => ?_) rfl
    obtain rfl := Except.error.inj h.2
    cases h.1
  · exact iff_of_false (fun h => h _ ⟨rfl, rfl⟩) nofun

end ProjectState

/-! ## Reading into the registry -/

namespace Registry

variable {l : Json.Limits}

/-- Publishes the graph of a state that holds one. -/
def publishSaved (l : Json.Limits) (r : Registry ForeignDocument) (s : ProjectState) :
    Registry ForeignDocument :=
  match s.savedGraph? l with
  | some d => r.put s.id s.name d
  | none => r

/-- Nothing can be read from the empty text. -/
theorem ofTextWithin_empty :
    (SpelledGraph.ofTextWithin l "" : Outcome ForeignDocument) = .error .malformedDocument := rfl

/-- Reading a state that is not stopped publishes its graph, if it holds one. -/
theorem reloadWith_of_passes (r : Registry ForeignDocument) {s : ProjectState}
    (h : s.Passes l) :
    r.reloadWith (SpelledGraph.ofTextWithin l) s =
      .ok (r.publishSaved l s, (s.savedGraph? l).isSome) := by
  unfold reloadWith publishSaved ProjectState.savedGraph?
  cases htext : s.graphText with
  | none => rfl
  | some text =>
    simp only [Option.bind_some]
    split
    · next hempty =>
      obtain rfl : text = "" := by simpa using hempty
      rw [ofTextWithin_empty]
      rfl
    · split
      · next d hread => rw [hread]; rfl
      · next e hread =>
        rw [if_neg fun hpassed => h e ⟨hpassed, text, htext, hread⟩, hread]
        rfl

/-- Reading a state that is stopped gives that failure. -/
theorem reloadWith_of_stops (r : Registry ForeignDocument) {s : ProjectState} {e : Failure}
    (h : s.Stops l e) : r.reloadWith (SpelledGraph.ofTextWithin l) s = .error e := by
  obtain ⟨hpassed, text, htext, hread⟩ := h
  have hne : text.isEmpty = false := by
    cases hempty : text.isEmpty with
    | false => rfl
    | true =>
      obtain rfl : text = "" := by simpa using hempty
      rw [ofTextWithin_empty] at hread
      cases hread
      cases hpassed
  unfold reloadWith
  simp only [htext, hne, hread, hpassed, Bool.false_eq_true, if_false, if_true]

/-- A state is read to the end, or its reading is stopped. -/
theorem passes_or_stops (s : ProjectState) : s.Passes l ∨ ∃ e, s.Stops l e := by
  by_cases h : ∃ e, s.Stops l e
  · exact Or.inr h
  · exact Or.inl fun e hstops => h ⟨e, hstops⟩

/-- Reading that answers has read the state to the end. -/
theorem passes_of_reloadWith_eq_ok {r : Registry ForeignDocument} {s : ProjectState}
    {x : Registry ForeignDocument × Bool}
    (h : r.reloadWith (SpelledGraph.ofTextWithin l) s = .ok x) :
    s.Passes l ∧ x = (r.publishSaved l s, (s.savedGraph? l).isSome) := by
  rcases passes_or_stops s with hpass | ⟨e, hstop⟩
  · rw [reloadWith_of_passes r hpass] at h
    exact ⟨hpass, (Except.ok.inj h).symm⟩
  · rw [reloadWith_of_stops r hstop] at h
    cases h

/-- A state that holds a graph is read to the end. -/
theorem passes_of_holds {s : ProjectState} {d : ForeignDocument} (h : s.Holds l d) :
    s.Passes l := by
  rintro e ⟨-, text', htext', hstop⟩
  obtain ⟨text, htext, hread⟩ := h
  obtain rfl : text = text' := Option.some.inj (htext.symm.trans htext')
  rw [hread] at hstop
  cases hstop

/-- Reading answers true exactly for a text that describes a graph, which is then published. -/
theorem reloadWith_eq_true_iff (r r' : Registry ForeignDocument) (s : ProjectState) :
    r.reloadWith (SpelledGraph.ofTextWithin l) s = .ok (r', true) ↔
      ∃ d, s.Holds l d ∧ r' = r.put s.id s.name d := by
  constructor
  · intro h
    obtain ⟨hr, hsome⟩ := Prod.mk.inj (passes_of_reloadWith_eq_ok h).2
    obtain ⟨d, hd⟩ := Option.isSome_iff_exists.1 hsome.symm
    refine ⟨d, ProjectState.savedGraph?_eq_some.1 hd, ?_⟩
    rw [hr, publishSaved, hd]
  · rintro ⟨d, hd, rfl⟩
    have hsaved := ProjectState.savedGraph?_eq_some.2 hd
    rw [reloadWith_of_passes r (passes_of_holds hd), publishSaved, hsaved]
    rfl

/-- Reading answers false exactly for a text that describes none, if it is read to the end. -/
theorem reloadWith_eq_false_iff (r r' : Registry ForeignDocument) (s : ProjectState) :
    r.reloadWith (SpelledGraph.ofTextWithin l) s = .ok (r', false) ↔
      r' = r ∧ s.Passes l ∧ ∀ d, ¬s.Holds l d := by
  constructor
  · intro h
    obtain ⟨hpass, heq⟩ := passes_of_reloadWith_eq_ok h
    obtain ⟨hr, hsome⟩ := Prod.mk.inj heq
    have hsaved : s.savedGraph? l = none := by simpa using hsome.symm
    refine ⟨?_, hpass, fun d hd => ?_⟩
    · rw [hr, publishSaved, hsaved]
    · rw [ProjectState.savedGraph?_eq_some.2 hd] at hsaved
      cases hsaved
  · rintro ⟨rfl, hpass, hholds⟩
    have hsaved : s.savedGraph? l = none := by
      cases hs : s.savedGraph? l with
      | none => rfl
      | some d => exact absurd (ProjectState.savedGraph?_eq_some.1 hs) (hholds d)
    rw [reloadWith_of_passes r' hpass, publishSaved, hsaved]
    rfl

/-- Reading fails exactly where it is stopped. -/
theorem reloadWith_eq_error_iff (r : Registry ForeignDocument) (s : ProjectState) (e : Failure) :
    r.reloadWith (SpelledGraph.ofTextWithin l) s = .error e ↔ s.Stops l e := by
  constructor
  · intro h
    rcases passes_or_stops s with hpass | ⟨e', hstop⟩
    · rw [reloadWith_of_passes r hpass] at h
      cases h
    · rw [reloadWith_of_stops r hstop] at h
      obtain rfl := Except.error.inj h
      exact hstop
  · exact reloadWith_of_stops r

/-! ## Loading several states -/

/-- A load reaches beyond a state that is not stopped. -/
theorem loadEachWith_cons_of_passes (r : Registry ForeignDocument) {s : ProjectState}
    (h : s.Passes l) (rest : List ProjectState) :
    r.loadEachWith (SpelledGraph.ofTextWithin l) (s :: rest) =
      (((r.publishSaved l s).loadEachWith (SpelledGraph.ofTextWithin l) rest).1,
        ((r.publishSaved l s).loadEachWith (SpelledGraph.ofTextWithin l) rest).2.map
          (· + if (s.savedGraph? l).isSome then 1 else 0)) := by
  rw [loadEachWith, reloadWith_of_passes r h]

/-- A load whose first states are not stopped goes on from their publication, with their graphs
counted. -/
theorem loadEachWith_append (r : Registry ForeignDocument) {before : List ProjectState}
    (h : ∀ s ∈ before, s.Passes l) (after : List ProjectState) :
    r.loadEachWith (SpelledGraph.ofTextWithin l) (before ++ after) =
      (((before.foldl (publishSaved l) r).loadEachWith (SpelledGraph.ofTextWithin l) after).1,
        ((before.foldl (publishSaved l) r).loadEachWith (SpelledGraph.ofTextWithin l) after).2.map
          (· + before.countP fun s => (s.savedGraph? l).isSome)) := by
  induction before generalizing r with
  | nil =>
    cases hload : r.loadEachWith (SpelledGraph.ofTextWithin l) after with
    | mk r' n => cases n <;> simp [hload, Except.map]
  | cons s rest ih =>
    rw [List.cons_append, loadEachWith_cons_of_passes r (h s List.mem_cons_self),
      ih _ fun s' hs' => h s' (List.mem_cons_of_mem _ hs'), List.foldl_cons, List.countP_cons]
    cases (List.foldl (publishSaved l) (r.publishSaved l s) rest).loadEachWith
      (SpelledGraph.ofTextWithin l) after with
    | mk r' n => cases n <;> simp [Except.map, Nat.add_assoc]

/-- A load ends at the first state whose reading is stopped. -/
theorem loadEachWith_cons_of_stops (r : Registry ForeignDocument) {s : ProjectState} {e : Failure}
    (h : s.Stops l e) (rest : List ProjectState) :
    r.loadEachWith (SpelledGraph.ofTextWithin l) (s :: rest) = (r, .error e) := by
  rw [loadEachWith, reloadWith_of_stops r h]

/-- Reading saved graphs back is stopped exactly by a document of which fields are asked where
it has no record or that has too much within each other, and by nothing else that a text may be.
A document that is no record always stops it, one with records in their places never; a text that
writes no value is passed over, one that meets the limit of nesting is not. Short of that, reading
answers whether the text describes a graph, and touches no other project's entry; a load publishes
the graphs in the states' order and counts them. A state that stops it ends the load there: what
was read before stays published, what comes after is not read. -/
theorem rehydration_stopped_only_by_misshapen (l : Json.Limits) (r : Registry ForeignDocument) :
    (∀ (s : ProjectState) r', r.reloadWith (SpelledGraph.ofTextWithin l) s = .ok (r', true) ↔
      ∃ d, s.Holds l d ∧ r' = r.put s.id s.name d) ∧
    (∀ (s : ProjectState) r', r.reloadWith (SpelledGraph.ofTextWithin l) s = .ok (r', false) ↔
      r' = r ∧ s.Passes l ∧ ∀ d, ¬s.Holds l d) ∧
    (∀ (s : ProjectState) e, (r.reloadWith (SpelledGraph.ofTextWithin l) s = .error e ↔
      s.Stops l e) ∧ (s.Stops l e →
        (∃ found asked, e = .notARecord found asked) ∨ ∃ opened, e = .nestedTooDeeply opened)) ∧
    (∀ (s : ProjectState) d id, id ≠ s.id →
      (r.put s.id s.name d).entries.get? id = r.entries.get? id) ∧
    (∀ (s : ProjectState) text v, s.graphText = some text →
      Json.readWithin UnitText l text = .ok v →
      (SpelledGraph.WellShaped v → s.Passes l) ∧ (¬v.IsRecord → ¬s.Passes l)) ∧
    (∀ (s : ProjectState) text e, s.graphText = some text →
      Json.readWithin UnitText l text = .error e → (s.Passes l ↔ e = .malformedDocument)) ∧
    (∀ states : List ProjectState, (∀ s ∈ states, s.Passes l) →
      r.loadEachWith (SpelledGraph.ofTextWithin l) states =
        (states.foldl (publishSaved l) r,
          .ok (states.countP fun s => (s.savedGraph? l).isSome))) ∧
    (∀ (before : List ProjectState) s after e, (∀ s' ∈ before, s'.Passes l) → s.Stops l e →
      r.loadEachWith (SpelledGraph.ofTextWithin l) (before ++ s :: after) =
        (before.foldl (publishSaved l) r, .error e)) := by
  refine ⟨fun s r' => reloadWith_eq_true_iff r r' s, fun s r' => reloadWith_eq_false_iff r r' s,
    fun s e => ⟨reloadWith_eq_error_iff r s e, ProjectState.Stops.cases⟩,
    fun s d id hid => r.entries_put_of_ne hid s.name d, ?_,
    fun s text e htext hv => ProjectState.passes_iff_malformed htext hv, ?_, ?_⟩
  · intro s text v htext hv
    rw [ProjectState.passes_iff_caught htext hv]
    refine ⟨SpelledGraph.WellShaped.caught_ofJson, fun hrecord hcaught => ?_⟩
    have hpassed := hcaught _ (SpelledGraph.ofJson_of_not_isRecord hrecord)
    cases hpassed
  · intro states hpass
    have h := loadEachWith_append r hpass []
    rw [List.append_nil] at h
    rw [h]
    simp [loadEachWith, Except.map]
  · intro before s after e hpass hstop
    rw [loadEachWith_append r hpass, loadEachWith_cons_of_stops _ hstop]
    rfl

/-- A saved state with a text. -/
def savedAs (id text : String) : ProjectState :=
  { ProjectState.fresh id id "/r" none with graphText := some text }

/-- Of three states the second holds an empty list: the load fails there, and the third project is
not published although its text holds a graph. -/
theorem load_stopped_by_list :
    let states := [savedAs "a" "\x7b\x7d", savedAs "b" "[]", savedAs "c" "\x7b\x7d"]
    let read : String → Outcome ForeignDocument := SpelledGraph.ofTextWithin .unlimited
    (empty.loadEachWith read states).2 = .error (.notARecord "list" "get") ∧
      (empty.loadEachWith read states).1.names = ["a"] ∧
      empty.reloadWith read (savedAs "b" "[]") = .error (.notARecord "list" "get") := by
  refine ⟨?_, ?_, ?_⟩ <;> rfl

end Registry

end CodeAtlas
