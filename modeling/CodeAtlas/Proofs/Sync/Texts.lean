import CodeAtlas.Proofs.Graph.Reloaded
import CodeAtlas.Proofs.Sync.Course

/-!
# Texts that survive syncs

Enrichment describes classes and methods once; later syncs may have no enricher. Each of them
goes by the records that the run before has left: unchanged nodes get back all that is stored, and
the methods of updated ones get the texts that are stored under their names. This file proves
that nothing enriched is lost that way as long as its class and its method stay, unless a sync
fails and the store refuses its rollback.
-/

namespace CodeAtlas

open RecordStore

/-! ## Graphs that tell alike -/

/-- What enrichment says about a method. -/
def Method.text (m : Method) : MethodText := ⟨m.description, m.businessLogic⟩

theorem Method.SharedTexts.text_eq {ms : List Method} (h : SharedTexts ms) {m n : Method}
    (hm : m ∈ ms) (hn : n ∈ ms) (heq : m.name = n.name) : m.text = n.text := by
  obtain ⟨hdescription, hlogic⟩ := h m hm n hn heq
  unfold text
  rw [hdescription, hlogic]

namespace Graph

/-- Graphs in which a node has the same record, the same description and, where methods have the
same name, the same texts. -/
structure TellsAlike (id : String) (g h : Graph) : Prop where
  classId : h.classId? id = g.classId? id
  description : h.description? id = g.description? id
  texts : ∀ m ∈ g.methodsOf id, ∀ n ∈ h.methodsOf id, m.name = n.name → m.text = n.text

variable {id name : String} {g h now before draft : Graph} {gs : List Graph} {s : RecordStore}
  {p : String}

theorem TellsAlike.of_same (hclass : h.classId? id = g.classId? id)
    (hdescription : h.description? id = g.description? id)
    (hmethods : h.methodsOf id = g.methodsOf id) (hshared : Method.SharedTexts (g.methodsOf id)) :
    TellsAlike id g h :=
  ⟨hclass, hdescription, fun _ hm _ hn => hshared.text_eq hm (hmethods ▸ hn)⟩

/-- A graph that was read again tells what was written. -/
theorem AnswersAlike.tellsAlike (hsame : AnswersAlike g h) (hg : g.Coherent) (id : String) :
    TellsAlike id g h :=
  .of_same (hsame.classId? id) (description?_congr (hsame.nodeInfo? id)) (hsame.methodsOf id)
    (hg.shared id)

/-- Graphs that tell alike about each node which they all have, as far as they all have methods of
the same name. -/
def Unanimous (gs : List Graph) : Prop :=
  ∀ id, (∀ g ∈ gs, g.contains id = true) →
    ∃ owner description,
      (∀ g ∈ gs, g.classId? id = owner ∧ g.description? id = description) ∧
      ∀ name, (∀ g ∈ gs, name ∈ (g.methodsOf id).map (·.name)) →
        ∃ text, ∀ g ∈ gs, ∀ m ∈ g.methodsOf id, m.name = name → m.text = text

theorem Coherent.unanimous (hg : g.Coherent) : Unanimous [g] := by
  refine fun id _ => ⟨g.classId? id, g.description? id, fun x hx => ?_, fun name hname => ?_⟩
  · obtain rfl := List.mem_singleton.1 hx
    exact ⟨rfl, rfl⟩
  · obtain ⟨m, hm, rfl⟩ := List.mem_map.1 (hname g (List.mem_singleton_self g))
    refine ⟨m.text, fun x hx n hn heq => ?_⟩
    obtain rfl := List.mem_singleton.1 hx
    exact (hg.shared id).text_eq hn hm heq

/-- One more graph joins in if it tells like one of them about the nodes that both have. -/
theorem Unanimous.cons (hgs : Unanimous gs) (hg : g ∈ gs)
    (halike : ∀ id, g.contains id = true → h.contains id = true → TellsAlike id g h) :
    Unanimous (h :: gs) := by
  intro id hid
  have hnode := List.forall_mem_cons.1 hid
  have hsame := halike id (hnode.2 g hg) hnode.1
  obtain ⟨owner, description, hconstant, htexts⟩ := hgs id hnode.2
  obtain ⟨howner, hdescription⟩ := hconstant g hg
  refine ⟨owner, description, List.forall_mem_cons.2
    ⟨⟨hsame.classId.trans howner, hsame.description.trans hdescription⟩, hconstant⟩,
    fun name hname => ?_⟩
  have hnamed := (List.forall_mem_cons.1 hname).2
  obtain ⟨text, htext⟩ := htexts name hnamed
  refine ⟨text, List.forall_mem_cons.2 ⟨fun n hn heq => ?_, htext⟩⟩
  obtain ⟨m, hm, hmname⟩ := List.mem_map.1 (hnamed g hg)
  exact (hsame.texts m hm n hn (hmname.trans heq.symm)).symm.trans (htext g hg m hm hmname)

/-- A graph that is seen again says nothing new. -/
theorem Unanimous.cons_of_mem (hgs : Unanimous gs) (hg : g ∈ gs) : Unanimous (g :: gs) := by
  have hmem (P : Graph → Prop) : (∀ x ∈ g :: gs, P x) ↔ ∀ x ∈ gs, P x := by
    rw [List.forall_mem_cons]
    exact ⟨fun h => h.2, fun h => ⟨h g hg, h⟩⟩
  simpa only [Unanimous, hmem] using hgs

/-! ## One sync -/

/-- A node that was examined again has its stored texts by name, which are those of the former
graph. -/
theorem UpdatedFrom.tellsAlike {r : ClassRecord} (hnow : UpdatedFrom s r draft now)
    (hbefore : before.Agrees s p) (hs : s.Consistent) (hr : r ∈ s.findByProject p)
    (hplain : ∀ m ∈ draft.methodsOf r.identifier, m.Plain) :
    TellsAlike r.identifier before now := by
  have hupdated := hnow.updatedAt hbefore hs hr
  refine ⟨hupdated.classId, hupdated.description, fun m hm n hn heq => ?_⟩
  have hrows := (hbefore.nodeStored hs hr).methods
  rw [hnow.methods, carryTexts_of_plain _ hplain] at hn
  obtain ⟨n₀, -, rfl⟩ := List.mem_map.1 hn
  -- some row has the name, since the former graph has a method of that name
  have hkey : (Dict.ofList ((s.methodsFor r.id).map fun x => (x.name, x))).contains n₀.name =
      true := by
    rw [Dict.contains_ofList, List.map_map]
    rw [← hrows] at hm
    obtain ⟨row, hrow, rfl⟩ := List.mem_map.1 hm
    exact List.mem_map.2 ⟨row, hrow, heq⟩
  obtain ⟨row, hget⟩ := Dict.exists_get?_of_contains hkey
  obtain ⟨x, hx, hentry⟩ := List.mem_map.1 (Dict.mem_of_get?_ofList hget)
  obtain ⟨hname, rfl⟩ := Prod.mk.inj hentry
  have hmethod : x.method ∈ before.methodsOf r.identifier := by
    rw [← hrows]
    exact List.mem_map_of_mem hx
  have htext : (withStoredTexts (Dict.ofList ((s.methodsFor r.id).map fun x => (x.name, x)))
      n₀).text = x.method.text := by
    unfold withStoredTexts Method.text
    rw [hget]
    rfl
  rw [htext]
  exact (hbefore.shared _).text_eq hm hmethod (heq.trans hname.symm)

end Graph

namespace SyncEngine

variable {σ : Type} {w w' : Workspace σ} {e : SyncEngine σ} {state : ProjectState}
  {g before : Graph} {t : Staged} {a : StoreAccess} {p head : String} {r : SyncResult}

/-- A staged graph tells what the former one told about the nodes that both have. -/
theorem Staged.Fits.tellsAlike (ht : t.Fits a p head) (h : before.Agrees a.store p)
    (hs : a.store.Consistent) {id : String} (hid : before.contains id = true)
    (hnode : t.graph.contains id = true) : Graph.TellsAlike id before t.graph := by
  have hd := ht.draft
  have hlabelled := ht.labelled h hs
  rw [Graph.contains_congr hlabelled.nodes] at hnode
  obtain ⟨r, hr, rfl, -⟩ := h.stored id hid
  have hkey : r.identifier ∈ t.draft.records.keys := by
    rw [hd.records, mem_keys_recordsByIdentifier]
    exact ⟨r, hr, rfl⟩
  rcases (hd.plan.kept _).2 ⟨hnode, hkey⟩ with hupdated | hunchanged
  · exact (ht.labelledFrom.updated r (hd.finds (h.distinct hs) hr) hupdated).tellsAlike h hs hr
      (hd.bare.texts _)
  · have hrestored := hlabelled.unchanged _ hunchanged
    exact .of_same hrestored.classId hrestored.description hrestored.methods (h.shared _)

/-- A completed sync publishes a coherent graph and advances the project's state to it. Without an
enricher it tells what the former graph told about the nodes that both have. -/
theorem sync_tells (he : e.collaborators.Discreet) (hw : w.records.Sound)
    (h : before.Agrees w.records.store state.id) (hrun : (e.sync state).run w = (.ok r, w'))
    (hdone : r.status = .completed) (hg : w'.registry.get? state.id = some g) :
    g.Coherent ∧ (∃ head, r.state = state.advance e.clock (some head) g.toText) ∧
      (e.enricher = none → ∀ id, before.contains id = true → g.contains id = true →
        Graph.TellsAlike id before g) := by
  obtain ⟨head, w₁, t, w₂, g', counts, advanced, w₃, hhead, -, hstage, hcommit, rfl, rfl⟩ :=
    sync_completed hrun hdone
  obtain rfl : g' = g := Option.some.inj
    (((Registry.get?_put ..).trans (if_pos rfl)).symm.trans hg)
  obtain ⟨ht, -, -⟩ := stage_eq_ok he hstage
  rw [(head_eq he hhead).1] at ht
  have hs := hw.consistent
  obtain ⟨w₄, enriched, w₅, -, henrich, -, heq⟩ := commit_eq_ok he hcommit
  obtain ⟨rfl, hrest⟩ := Prod.mk.inj heq
  have hstaged : t.graph.Coherent := ⟨(ht.labelled h hs).wellFormed, ht.shared h hs⟩
  refine ⟨?_, ⟨head, (Prod.mk.inj hrest).2⟩, fun hnone id hid hnode => ?_⟩
  · rcases enrichStaged_eq_ok henrich with ⟨rfl, -⟩ | ⟨enricher, -, henrich⟩
    · exact hstaged
    · exact hstaged.enrich henrich
  · obtain ⟨rfl, -⟩ := enrichStaged_of_none hnone henrich
    exact ht.tellsAlike h hs hid hnode

end SyncEngine

/-! ## Any number of runs -/

namespace Ledger

/-- The chronicle of an enriched project: the ledgers to which runs lead, with the state that the
last run has left and the graphs published since the project was last enriched, newest first. It
begins with an analysis, or a completed sync, that leaves records which say what its graph says.
Then come syncs without an enricher that are completed, and any syncs that are not, as long as no
rollback is refused; such a sync finds a graph of the chronicle published or none, and may
publish the saved one. Meanwhile other projects may run, the store may refuse any write, and all
of the state may change but the project and its saved graph. -/
inductive Chronicle (p : String) : Ledger → ProjectState → List Graph → Prop where
  | analyzed {σ : Type} {l : Ledger} {c : Collaborators σ} {repository : Path}
      {state : ProjectState} {given : Option Examiner} {tools : Tooling}
      {w w' : Workspace σ} {a : FreshAnalysis} (hl : l.Reachable) (hp : state.id = p)
      (hw : w.records = l.records) (hc : c.Discreet)
      (hrun : (FreshAnalysis.runWith c repository state given tools).run w = (.ok a, w'))
      (hstored : a.graph.StoredAs w'.records.store p) :
      Chronicle p (l.afterAnalysis p w'.records (.ok a)) a.summary.state [a.graph]
  | enriched {σ : Type} {l : Ledger} {state : ProjectState} {gs : List Graph} {e : SyncEngine σ}
      {w w' : Workspace σ} {r : SyncResult} {g : Graph} (hl : Chronicle p l state gs)
      (hw : w.records = l.records) (he : e.collaborators.Discreet)
      (hrun : (e.sync state).run w = (.ok r, w')) (hdone : r.status = .completed)
      (hg : w'.registry.get? p = some g) (hstored : g.StoredAs w'.records.store p) :
      Chronicle p (l.afterSync p w'.records r (w'.registry.get? p)) r.state [g]
  | completed {σ : Type} {l : Ledger} {state : ProjectState} {gs : List Graph} {e : SyncEngine σ}
      {w w' : Workspace σ} {r : SyncResult} {g : Graph} (hl : Chronicle p l state gs)
      (hw : w.records = l.records) (he : e.collaborators.Discreet) (hnone : e.enricher = none)
      (hrun : (e.sync state).run w = (.ok r, w')) (hdone : r.status = .completed)
      (hg : w'.registry.get? p = some g) :
      Chronicle p (l.afterSync p w'.records r (w'.registry.get? p)) r.state (g :: gs)
  | uncompleted {σ : Type} {l : Ledger} {state : ProjectState} {gs : List Graph}
      {e : SyncEngine σ} {w w' : Workspace σ} {r : SyncResult} (hl : Chronicle p l state gs)
      (hw : w.records = l.records) (hfound : ∀ g, w.registry.get? p = some g → g ∈ gs)
      (he : e.collaborators.Discreet) (hrun : (e.sync state).run w = (.ok r, w'))
      (hleft : r.status ≠ .completed)
      (hgranted : r.status = .failed → e.RollbackGranted state (SyncEngine.held state w)) :
      Chronicle p (l.afterSync p w'.records r (w'.registry.get? p)) r.state
        ((w'.registry.get? p).toList ++ gs)
  | meanwhile {l l' : Ledger} {state : ProjectState} {gs : List Graph} {q : String}
      (hl : Chronicle p l state gs) (hq : q ≠ p)
      (hadvances : StoreAccess.Advances q l.records l'.records) : Chronicle p l' state gs
  | disturbed {l : Ledger} {state : ProjectState} {gs : List Graph} (asked : Dict WriteSort Nat)
      (refusal : StoreWrite → Nat → Option Failure) (hl : Chronicle p l state gs) :
      Chronicle p { l with records := { l.records with asked, refusal } } state gs
  | altered {l : Ledger} {state state' : ProjectState} {gs : List Graph}
      (hl : Chronicle p l state gs) (hid : state'.id = state.id)
      (hsaved : state'.graphText = state.graphText) : Chronicle p l state' gs

/-- What a chronicle comes to: all its graphs tell alike, and the one that is saved agrees with
the store. -/
structure Recounts (l : Ledger) (p : String) (state : ProjectState) (gs : List Graph) : Prop where
  project : state.id = p
  sound : l.records.Sound
  unanimous : Graph.Unanimous gs
  saved : ∃ g ∈ gs, state.graphText = some g.toText ∧ g.Agrees l.records.store p

variable {σ : Type} {l l' : Ledger} {p q : String} {state : ProjectState} {gs : List Graph}
  {w w' : Workspace σ} {e : SyncEngine σ} {r : SyncResult} {g : Graph}

theorem Recounts.of_analysis {c : Collaborators σ} {repository : Path} {given : Option Examiner}
    {tools : Tooling} {a : FreshAnalysis} (hsound : l.records.Sound) (hp : state.id = p)
    (hw : w.records = l.records) (hc : c.Discreet)
    (hrun : (FreshAnalysis.runWith c repository state given tools).run w = (.ok a, w'))
    (hstored : a.graph.StoredAs w'.records.store p) :
    (l.afterAnalysis p w'.records (.ok a)).Recounts p a.summary.state [a.graph] := by
  subst hp
  rw [← hw] at hsound
  have hadvances := FreshAnalysis.records_runWith hc repository state given tools hsound
  rw [hrun] at hadvances
  obtain ⟨hcoherent, commit, hstate⟩ := FreshAnalysis.runWith_coherent hc hrun
  rw [hstate]
  exact ⟨rfl, hadvances.sound, hcoherent.unanimous, a.graph, List.mem_singleton_self _, rfl,
    hstored.agrees hcoherent⟩

theorem Recounts.of_enriched (h : l.Recounts p state gs) (hw : w.records = l.records)
    (he : e.collaborators.Discreet) (hrun : (e.sync state).run w = (.ok r, w'))
    (hdone : r.status = .completed) (hg : w'.registry.get? p = some g)
    (hstored : g.StoredAs w'.records.store p) :
    (l.afterSync p w'.records r (w'.registry.get? p)).Recounts p r.state [g] := by
  obtain ⟨rfl, hsound, -, before, -, -, hbefore⟩ := h
  rw [← hw] at hsound hbefore
  have hadvances := SyncEngine.records_sync he state hsound
  rw [hrun] at hadvances
  obtain ⟨hcoherent, ⟨head, hstate⟩, -⟩ := SyncEngine.sync_tells he hsound hbefore hrun hdone hg
  unfold afterSync
  rw [if_pos hdone, hstate]
  exact ⟨rfl, hadvances.sound, hcoherent.unanimous, g, List.mem_singleton_self _, rfl,
    hstored.agrees hcoherent⟩

theorem Recounts.of_completed (h : l.Recounts p state gs) (hw : w.records = l.records)
    (he : e.collaborators.Discreet) (hnone : e.enricher = none)
    (hrun : (e.sync state).run w = (.ok r, w')) (hdone : r.status = .completed)
    (hg : w'.registry.get? p = some g) :
    (l.afterSync p w'.records r (w'.registry.get? p)).Recounts p r.state (g :: gs) := by
  obtain ⟨rfl, hsound, hunanimous, before, hmem, -, hbefore⟩ := h
  rw [← hw] at hsound hbefore
  have hadvances := SyncEngine.records_sync he state hsound
  rw [hrun] at hadvances
  obtain ⟨-, ⟨head, hstate⟩, halike⟩ := SyncEngine.sync_tells he hsound hbefore hrun hdone hg
  have hagrees : g.Agrees w'.records.store state.id := by
    rcases SyncEngine.sync_agrees he hsound (Or.inl hnone) hbefore hrun
      (fun hfailed => by rw [hdone] at hfailed; cases hfailed) with
      ⟨-, g', hg', hagrees⟩ | ⟨hleft, -⟩
    · obtain rfl : g = g' := Option.some.inj (hg.symm.trans hg')
      exact hagrees
    · exact absurd hdone hleft
  unfold afterSync
  rw [if_pos hdone, hstate]
  exact ⟨rfl, hadvances.sound, hunanimous.cons hmem (halike hnone), g, List.mem_cons_self .., rfl,
    hagrees⟩

theorem Recounts.of_uncompleted (h : l.Recounts p state gs) (hw : w.records = l.records)
    (hfound : ∀ g, w.registry.get? p = some g → g ∈ gs) (he : e.collaborators.Discreet)
    (hrun : (e.sync state).run w = (.ok r, w')) (hleft : r.status ≠ .completed)
    (hgranted : r.status = .failed → e.RollbackGranted state (SyncEngine.held state w)) :
    (l.afterSync p w'.records r (w'.registry.get? p)).Recounts p r.state
      ((w'.registry.get? p).toList ++ gs) := by
  obtain ⟨rfl, hsound, hunanimous, before, hmem, htext, hbefore⟩ := h
  rw [← hw] at hsound hbefore
  have hadvances := SyncEngine.records_sync he state hsound
  rw [hrun] at hadvances
  obtain ⟨hsame, hpublished⟩ := SyncEngine.sync_uncompleted he hsound hrun hleft hgranted
  have hstate : r.state.id = state.id ∧ r.state.graphText = state.graphText := by
    rcases SyncEngine.state_of_uncompleted hrun hleft with hstate | ⟨text, hstate⟩ <;>
      rw [hstate] <;> exact ⟨rfl, rfl⟩
  have hall : Graph.Unanimous ((w'.registry.get? state.id).toList ++ gs) := by
    cases hg : w'.registry.get? state.id with
    | none => exact hunanimous
    | some g =>
      have hcoherent : before.Coherent := ⟨hbefore.wellFormed, hbefore.shared⟩
      rcases hpublished g hg with hold | ⟨saved, hsaved, hread⟩
      · exact hunanimous.cons_of_mem (hfound g hold)
      · obtain rfl := Option.some.inj (htext.symm.trans hsaved)
        obtain ⟨g', hread', hreread, hwf⟩ := hbefore.wellFormed.ofText_toText
        obtain rfl : g = g' := Except.ok.inj (hread.symm.trans hread')
        exact hunanimous.cons hmem fun id _ _ =>
          (hreread.answersAlike hbefore.wellFormed hwf).tellsAlike hcoherent id
  unfold afterSync
  rw [if_neg hleft]
  exact ⟨hstate.1, hadvances.sound, hall, before, List.mem_append_right _ hmem,
    hstate.2.trans htext, hbefore.of_sameAnswers hsame⟩

theorem Chronicle.recounts (h : Chronicle p l state gs) : l.Recounts p state gs := by
  induction h with
  | analyzed hl hp hw hc hrun hstored => exact .of_analysis hl.sound hp hw hc hrun hstored
  | enriched _ hw he hrun hdone hg hstored ih => exact ih.of_enriched hw he hrun hdone hg hstored
  | completed _ hw he hnone hrun hdone hg ih =>
    exact ih.of_completed hw he hnone hrun hdone hg
  | uncompleted _ hw hfound he hrun hleft hgranted ih =>
    exact ih.of_uncompleted hw hfound he hrun hleft hgranted
  | meanwhile _ hq hadvances ih =>
    obtain ⟨hproject, -, hunanimous, g, hg, htext, hagrees⟩ := ih
    exact ⟨hproject, hadvances.sound, hunanimous, g, hg, htext,
      hagrees.of_frame hadvances.frame (Ne.symm hq)⟩
  | disturbed asked refusal _ ih =>
    obtain ⟨hproject, hsound, hunanimous, hsaved⟩ := ih
    exact ⟨hproject, ⟨hsound.consistent, hsound.inside, hsound.issued⟩, hunanimous, hsaved⟩
  | altered _ hid hkept ih =>
    obtain ⟨hproject, hsound, hunanimous, g, hg, htext, hagrees⟩ := ih
    exact ⟨hid.trans hproject, hsound, hunanimous, g, hg, hkept.trans htext, hagrees⟩

/-- Enriched texts survive syncs without an enricher. A class that is in all graphs published since
the project was enriched has one record all along, with one description, in these graphs and in
the store; and a method name that the class has in all of these graphs stands for the same
description and logic in them and in the store. -/
theorem Chronicle.texts_survive (h : Chronicle p l state gs) {id : String}
    (hid : ∀ g ∈ gs, g.contains id = true) :
    ∃ r ∈ l.records.store.findByProject p, r.identifier = id ∧
      (∀ g ∈ gs, g.classId? id = some r.id ∧ g.description? id = r.description) ∧
      ∀ name, (∀ g ∈ gs, name ∈ (g.methodsOf id).map (·.name)) →
        ∃ text : MethodText,
          (∀ g ∈ gs, ∀ m ∈ g.methodsOf id, m.name = name →
            m.description = text.description ∧ m.businessLogic = text.businessLogic) ∧
          name ∈ (l.records.store.methodsFor r.id).map (·.name) ∧
          ∀ row ∈ l.records.store.methodsFor r.id, row.name = name →
            row.description = text.description ∧ row.businessLogic = text.businessLogic := by
  obtain ⟨-, -, hunanimous, latest, hlatest, -, hagrees⟩ := h.recounts
  obtain ⟨r, hr, rfl, hstored⟩ := hagrees.stored id (hid latest hlatest)
  obtain ⟨owner, description, hconstant, htexts⟩ := hunanimous _ hid
  obtain ⟨hown, hsaid⟩ := hconstant latest hlatest
  have howner : owner = some r.id := hown.symm.trans hstored.tied
  have hdescription : description = r.description := hsaid.symm.trans hstored.description.symm
  subst howner hdescription
  refine ⟨r, hr, rfl, hconstant, fun name hname => ?_⟩
  obtain ⟨text, htext⟩ := htexts name hname
  have hrows := hstored.methods
  refine ⟨text, fun g hg m hm heq => ?_, ?_, fun row hrow heq => ?_⟩
  · rw [← htext g hg m hm heq]
    exact ⟨rfl, rfl⟩
  · have hnamed := hname latest hlatest
    rw [← hrows, List.map_map] at hnamed
    exact hnamed
  · have hmethod := List.mem_map_of_mem (f := MethodRecord.method) hrow
    rw [hrows] at hmethod
    rw [← htext latest hlatest row.method hmethod heq]
    exact ⟨rfl, rfl⟩

end Ledger

/-! ## A class that is examined again -/

namespace Sample

/-- An enricher that has something to say about every class and every method. -/
def narrator : Enricher Unit := fun units =>
  pure (Dict.ofList (units.map fun u =>
    (u.identifier, ⟨some "class", none, u.methodNames.map fun m => ⟨m, some "method", ["step"]⟩⟩)))

/-- An analysis at the first commit that is enriched. -/
def narrated : Collaborators Unit := ⟨some (commitAt "c1"), some narrator, none, "now"⟩

/-- A workspace at the second commit, of a process that has published nothing yet. -/
def restarted (refused : List (WriteSort × Nat)) (w : Workspace Unit) : Workspace Unit :=
  { moved refused w with registry := .empty }

/-- What a graph tells about the class that has changed. -/
structure Telling where
  node : Bool
  description : Option String
  methods : List (String × MethodText)
  deriving DecidableEq

/-- What is told about the class that has changed. -/
def told (g : Graph) : Telling :=
  ⟨g.contains "A", g.description? "A", (g.methodsOf "A").map fun m => (m.name, m.text)⟩

/-- The class with the texts of the enricher, and without those of its method. -/
def inFull : Telling := ⟨true, some "class", [("m", ⟨some "method", ["step"]⟩)]⟩

/-- The class without the texts of its method. -/
def inPart : Telling := ⟨true, some "class", [("m", ⟨none, []⟩)]⟩

/-- What becomes of an enriched analysis and of two syncs without an enricher, the first of which
some writes are refused. -/
structure Retelling where
  analyzed : Telling
  first : SyncStatus
  second : SyncStatus
  synced : Option Telling
  deriving DecidableEq

/-- An enriched analysis of two classes, a sync to the second commit during which the store
refuses some writes, and one more during which it refuses none. -/
def retelling (e : SyncEngine Unit) (refused : List (WriteSort × Nat)) : Option Retelling :=
  match (FreshAnalysis.runWith narrated root project none tools).run
    (workspace [grownFile, userFile]) with
  | (.ok a, w) =>
    match (e.sync a.summary.state).run (restarted refused w) with
    | (.ok r, w₁) =>
      match (follower.sync r.state).run (moved [] w₁) with
      | (.ok r₁, w₂) =>
        some ⟨told a.graph, r.status, r₁.status, (w₂.registry.get? project.id).map told⟩
      | (.error _, _) => none
    | (.error _, _) => none
  | (.error _, _) => none

/-- What is told in full has the class and its method with their texts. -/
theorem of_told_inFull {g : Graph} (h : told g = inFull) :
    g.contains "A" = true ∧ g.description? "A" = some "class" ∧
      ∃ m ∈ g.methodsOf "A", m.name = "m" ∧ m.text = ⟨some "method", ["step"]⟩ := by
  obtain ⟨hnode, hclass, hmethods⟩ := Telling.mk.inj h
  refine ⟨hnode, hclass, ?_⟩
  have hmem : ("m", MethodText.mk (some "method") ["step"]) ∈
      (g.methodsOf "A").map fun m => (m.name, m.text) := hmethods ▸ List.mem_singleton_self _
  obtain ⟨m, hm, heq⟩ := List.mem_map.1 hmem
  exact ⟨m, hm, Prod.mk.inj heq⟩

theorem narrated_discreet : narrated.Discreet where
  versionControl v hv := Option.some.inj hv ▸ commitAt_discreet "c1"
  enricher e he batch := Option.some.inj he ▸ Run.discreet_pure _
  persist save hsave := by cases hsave

/-- The runs behind such an outcome: the chronicle begins with the analysis, the first sync fails,
and the second one is completed. -/
theorem exists_retelling {e : SyncEngine Unit} {refused : List (WriteSort × Nat)}
    {first second : Telling}
    (h : retelling e refused = some ⟨first, .failed, .completed, some second⟩) :
    ∃ (l : Ledger) (state : ProjectState) (g₀ : Graph) (w : Workspace Unit) (r : SyncResult)
      (w₁ : Workspace Unit) (r₁ : SyncResult) (w₂ : Workspace Unit) (g : Graph),
      l.Chronicle project.id state [g₀] ∧ told g₀ = first ∧
        (restarted refused w).records = l.records ∧
        (e.sync state).run (restarted refused w) = (.ok r, w₁) ∧ r.status = .failed ∧
        (follower.sync r.state).run (moved [] w₁) = (.ok r₁, w₂) ∧ r₁.status = .completed ∧
        w₂.registry.get? project.id = some g ∧ told g = second := by
  unfold retelling at h
  split at h
  · next a w ha =>
    split at h
    · next r w₁ hr =>
      split at h
      · next r₁ w₂ hr₁ =>
        obtain ⟨hanalyzed, hfailed, hcompleted, hpublished⟩ :=
          Retelling.mk.inj (Option.some.inj h)
        obtain ⟨g, hg, hsynced⟩ := Option.map_eq_some_iff.1 hpublished
        have hsound : (workspace [grownFile, userFile]).records.Sound :=
          Ledger.Reachable.start.sound
        have hadvances := FreshAnalysis.records_runWith narrated_discreet root project none tools
          hsound
        rw [ha] at hadvances
        have hagrees := FreshAnalysis.runWith_agrees narrated_discreet hsound
          (Or.inr (funext₂ fun _ _ => rfl)) ha
        have hfirst := (Ledger.Chronicle.analyzed (p := project.id) .start rfl rfl
          narrated_discreet ha (hagrees.storedAs hadvances.sound.consistent)).disturbed .empty
            (restarted refused w).records.refusal
        exact ⟨_, _, a.graph, w, r, w₁, r₁, w₂, g, hfirst, hanalyzed, rfl, hr, hfailed, hr₁,
          hcompleted, hg, hsynced⟩
      · cases h
    · cases h
  · cases h

end Sample

namespace Ledger

open Sample

/-- A sync of an enriched project fails because its state cannot be kept. The next one examines
the class that has changed again, which keeps its record, its description and the text of its
method. -/
theorem Chronicle.texts_survive_of_sample :
    ∃ l state g g₀, Chronicle project.id l state [g, g₀] ∧
      (∀ x ∈ [g, g₀], x.contains "A" = true) ∧
      (∀ x ∈ [g, g₀], "m" ∈ (x.methodsOf "A").map (·.name)) ∧
      ∃ r ∈ l.records.store.findByProject project.id, r.identifier = "A" ∧
        r.description = some "class" ∧
        ∃ row ∈ l.records.store.methodsFor r.id, row.name = "m" ∧
          row.description = some "method" ∧ row.businessLogic = ["step"] := by
  have hretelling : retelling stalled [] = some ⟨inFull, .failed, .completed, some inFull⟩ := by
    decide +kernel
  obtain ⟨l, state, g₀, w, r, w₁, r₁, w₂, g, hfirst, hanalyzed, hrecords, hr, hfailed, hr₁,
    hcompleted, hg, hsynced⟩ := exists_retelling hretelling
  have hsound := hfirst.recounts.sound
  rw [← hrecords] at hsound
  have hfree : (restarted [] w).records.Unrefused := funext₂ fun _ _ => rfl
  have hgranted : stalled.RollbackGranted state (SyncEngine.held state (restarted [] w)) :=
    SyncEngine.rollbackGranted_of_unrefused stalled_plain.discreet hsound hfree
  have hsecond := hfirst.uncompleted hrecords (fun g hg => by cases hg) stalled_plain.discreet hr
    (by rw [hfailed]; decide) fun _ => hgranted
  have hnothing : w₁.registry = .empty := by
    obtain ⟨r', w', hr', hkept⟩ :=
      @SyncEngine.sync_failed Unit (restarted [] w) stalled state stalled_plain.discreet hsound
    obtain ⟨hresult, rfl⟩ := Prod.mk.inj (hr.symm.trans hr')
    obtain rfl := Except.ok.inj hresult
    exact ((hkept hfailed).1 hgranted).2
  rw [hnothing] at hsecond
  have hrecords₁ := records_afterSync l project.id w₁.records r (Registry.empty.get? project.id)
  have hthird := (hsecond.disturbed .empty (moved [] w₁).records.refusal).completed
    (e := follower) (w := moved [] w₁) (by rw [hrecords₁]; rfl) (plain_of_commitAt "c2").discreet
    rfl hr₁ hcompleted hg
  obtain ⟨hnode₀, hclass, m₀, hm₀, hname₀, htext₀⟩ := of_told_inFull hanalyzed
  obtain ⟨hnode, -, m, hm, hname, -⟩ := of_told_inFull hsynced
  have hnodes : ∀ x ∈ [g, g₀], x.contains "A" = true := by
    simp [hnode, hnode₀]
  have hnames : ∀ x ∈ [g, g₀], "m" ∈ (x.methodsOf "A").map (·.name) :=
    List.forall_mem_cons.2 ⟨List.mem_map.2 ⟨m, hm, hname⟩,
      List.forall_mem_singleton.2 (List.mem_map.2 ⟨m₀, hm₀, hname₀⟩)⟩
  have hold : g₀ ∈ [g, g₀] := List.mem_cons_of_mem _ (List.mem_singleton_self _)
  obtain ⟨x, hx, hid, hsame, htexts⟩ := Chronicle.texts_survive hthird hnodes
  obtain ⟨text, hgraphs, hnamed, hrows⟩ := htexts "m" hnames
  have htext : text = ⟨some "method", ["step"]⟩ := by
    obtain ⟨hdescription, hlogic⟩ := hgraphs g₀ hold m₀ hm₀ hname₀
    rw [← htext₀, Method.text, hdescription, hlogic]
  obtain ⟨row, hrow, hrowname⟩ := List.mem_map.1 hnamed
  obtain ⟨hdescription, hlogic⟩ := hrows row hrow hrowname
  rw [htext] at hdescription hlogic
  exact ⟨_, r₁.state, g, g₀, hthird, hnodes, hnames, x, hx, hid,
    ((hsame g₀ hold).2.symm.trans hclass), row, hrow, hrowname, hdescription, hlogic⟩

/-- A sync of an enriched project fails when it saves methods, and so does its rollback. The next
sync examines the class that has changed again, whose method is published without its text. -/
theorem Chronicle.texts_lost_of_refused_rollback :
    ∃ (l : Ledger) (state : ProjectState) (g₀ : Graph) (w : Workspace Unit) (r : SyncResult)
      (w₁ : Workspace Unit) (r₁ : SyncResult) (w₂ : Workspace Unit) (g : Graph),
      l.Chronicle project.id state [g₀] ∧
        (restarted [(.saveMethods, 1), (.saveMethods, 2)] w).records = l.records ∧
        (follower.sync state).run (restarted [(.saveMethods, 1), (.saveMethods, 2)] w) =
          (.ok r, w₁) ∧ r.status = .failed ∧
        (follower.sync r.state).run (moved [] w₁) = (.ok r₁, w₂) ∧ r₁.status = .completed ∧
        w₂.registry.get? project.id = some g ∧ g₀.contains "A" = true ∧ g.contains "A" = true ∧
        (g₀.methodsOf "A").map (fun m => (m.name, m.text)) =
          [("m", ⟨some "method", ["step"]⟩)] ∧
        (g.methodsOf "A").map (fun m => (m.name, m.text)) = [("m", ⟨none, []⟩)] := by
  have hretelling : retelling follower [(.saveMethods, 1), (.saveMethods, 2)] =
      some ⟨inFull, .failed, .completed, some inPart⟩ := by
    decide +kernel
  obtain ⟨l, state, g₀, w, r, w₁, r₁, w₂, g, hfirst, hanalyzed, hrecords, hr, hfailed, hr₁,
    hcompleted, hg, hsynced⟩ := exists_retelling hretelling
  obtain ⟨hnode₀, -, hmethods₀⟩ := Telling.mk.inj hanalyzed
  obtain ⟨hnode, -, hmethods⟩ := Telling.mk.inj hsynced
  exact ⟨l, state, g₀, w, r, w₁, r₁, w₂, g, hfirst, hrecords, hr, hfailed, hr₁, hcompleted, hg,
    hnode₀, hnode, hmethods₀, hmethods⟩

end Ledger

end CodeAtlas
