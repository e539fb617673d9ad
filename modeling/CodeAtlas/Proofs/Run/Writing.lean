import CodeAtlas.Proofs.Run.Steps
import CodeAtlas.Proofs.Run.WriteBack

/-!
# Runs that write for one project

A run deletes, saves and enriches records step by step and may fail at each step. This file
proves that whatever has been written until then belongs to the run's own project, and that
nothing is published meanwhile.
-/

namespace CodeAtlas

open RecordStore

variable {σ α β : Type} {w w' : Workspace σ} {p : String}

/-- What steps of one project come to in a workspace: a sound store in which the other
projects are as they were, and the same published graphs. -/
structure Workspace.Advances (p : String) (w w' : Workspace σ) : Prop where
  records : StoreAccess.Advances p w.records w'.records
  registry : w'.registry = w.registry

namespace Workspace.Advances

theorem refl (hw : w.records.Sound) : Advances p w w := ⟨.refl hw, rfl⟩

theorem trans {u : Workspace σ} (h : Advances p w w') (h' : Advances p w' u) : Advances p w u :=
  ⟨h.records.trans h'.records, h'.registry.trans h.registry⟩

theorem of_discreet {x : Run σ α} (hx : Run.Discreet x) (hw : w.records.Sound) :
    Advances p w (x.run w).2 := by
  obtain ⟨hrecords, hregistry⟩ := Prod.mk.inj (hx w)
  exact ⟨.of_store_eq hw (by rw [hrecords]) (Nat.le_of_eq (by rw [hrecords])) (by rw [hrecords]),
    hregistry⟩

/-- A sequence stays within the project if its steps do. -/
theorem bind {x : Run σ α} {f : α → Run σ β} (hx : Advances p w (x.run w).2)
    (hf : ∀ a w', x.run w = (.ok a, w') → Advances p w w' → Advances p w' ((f a).run w').2) :
    Advances p w ((x >>= f).run w).2 :=
  Fallible.snd_run_bind hx fun a t hrun h => h.trans (hf a t hrun h)

/-- A sequence that begins with looking around stays within the project if the rest does. -/
theorem bind_discreet {x : Run σ α} {f : α → Run σ β} (hx : Run.Discreet x)
    (hw : w.records.Sound)
    (hf : ∀ a w', x.run w = (.ok a, w') → w'.records = w.records →
      Advances p w' ((f a).run w').2) : Advances p w ((x >>= f).run w).2 :=
  .bind (.of_discreet hx hw) fun a w' hrun _ => hf a w' hrun (hx.eq hrun).1

end Workspace.Advances

/-- What a whole run of one project comes to, whether it publishes a graph or not: a sound store
in which the other projects are as they were, and a registry that has for them what it had. -/
structure Workspace.Within (p : String) (w w' : Workspace σ) : Prop where
  records : StoreAccess.Advances p w.records w'.records
  registry : ∀ q, q ≠ p → w'.registry.entries.get? q = w.registry.entries.get? q

namespace Workspace.Within

theorem of_advances (h : Advances p w w') : Within p w w' :=
  ⟨h.records, fun q _ => by rw [h.registry]⟩

theorem trans {u : Workspace σ} (h : Within p w w') (h' : Within p w' u) : Within p w u :=
  ⟨h.records.trans h'.records, fun q hq => (h'.registry q hq).trans (h.registry q hq)⟩

/-- Steps that leave records and published graphs alone are within any project. -/
theorem of_eq (hw : w.records.Sound) (hrecords : w'.records = w.records)
    (hregistry : w'.registry = w.registry) : Within p w w' := by
  refine .of_advances ⟨?_, hregistry⟩
  rw [hrecords]
  exact .refl hw

/-- Publishing a graph is within its project. -/
theorem publish (hw : w.records.Sound) (name : String) (g : Graph) :
    Within p w ((Run.publish p name g : Run σ Unit).run w).2 :=
  ⟨.refl hw, fun _ hq => w.registry.entries_put_of_ne hq name g⟩

/-- A sequence is within the project if its steps are. -/
theorem bind {x : Run σ α} {f : α → Run σ β} (hx : Within p w (x.run w).2)
    (hf : ∀ a w', x.run w = (.ok a, w') → Within p w w' → Within p w' ((f a).run w').2) :
    Within p w ((x >>= f).run w).2 :=
  Fallible.snd_run_bind hx fun a t hrun h => h.trans (hf a t hrun h)

end Workspace.Within

open Workspace (Advances)

namespace Run

theorem run_onStore (x : StoreM α) (w : Workspace σ) :
    (onStore x : Run σ α).run w = (.ok (x w.records).1, { w with records := (x w.records).2 }) :=
  rfl

theorem run_write (sw : StoreWrite) (w : Workspace σ) :
    (write sw : Run σ Unit).run w =
      ((StoreAccess.write sw w.records).1,
        { w with records := (StoreAccess.write sw w.records).2 }) := rfl

/-- An accepted write has been made. -/
theorem write_eq_ok {sw : StoreWrite} {u : Unit}
    (h : (write sw : Run σ Unit).run w = (.ok u, w')) :
    w.records.store.write sw = .ok w'.records.store := by
  rw [run_write] at h
  obtain ⟨hok, rfl⟩ := Prod.mk.inj h
  exact StoreAccess.write_eq_ok hok

theorem write_advances (hw : w.records.Sound) {sw : StoreWrite} (h : w.records.Confined p sw) :
    Advances p w ((write sw : Run σ Unit).run w).2 :=
  ⟨.write hw h, rfl⟩

end Run

/-- Enriching asks about the nodes for which there are requests, and then writes the answers to the
graph and to the records. -/
theorem Graph.enrich_eq_ok {g : Graph} {enricher : Enricher σ} {repository : Path}
    {language : String} {ids : List String} {r : Graph × EnrichmentCounts}
    (hrun : (g.enrich enricher repository language ids).run w = (.ok r, w')) :
    ∃ t w₁ outcome w₂, Run.files.run w = (.ok t, w₁) ∧
      (enricher.askAll defaultBatchSize defaultWorkers
        (ids.filterMap (UnitRequest.ofNode? g t repository language))).run w₁ = (.ok outcome, w₂) ∧
      r.1 = (g.writeBack outcome.succeeded.toList w₂.records).1.1 ∧
      w'.records = (g.writeBack outcome.succeeded.toList w₂.records).2 := by
  unfold Graph.enrich at hrun
  obtain ⟨t, w₁, hfiles, hrun⟩ := Fallible.bind_eq_ok.1 hrun
  obtain ⟨outcome, w₂, hasked, hrun⟩ := Fallible.bind_eq_ok.1 hrun
  obtain ⟨written, w₃, hback, hrun⟩ := Fallible.bind_eq_ok.1 hrun
  rw [Run.run_onStore] at hback
  obtain ⟨hwritten, rfl⟩ := Prod.mk.inj hback
  obtain rfl := Except.ok.inj hwritten
  cases hrun
  exact ⟨t, w₁, outcome, w₂, hfiles, hasked, rfl, rfl⟩

/-- An enricher that leaves the records alone has its answers written to the records of before. -/
theorem Graph.enrich_discreet_eq_ok {g : Graph} {enricher : Enricher σ}
    (henricher : ∀ batch, Run.Discreet (enricher batch)) {repository : Path} {language : String}
    {ids : List String} {r : Graph × EnrichmentCounts}
    (hrun : (g.enrich enricher repository language ids).run w = (.ok r, w')) :
    ∃ t w₁ outcome w₂, (enricher.askAll defaultBatchSize defaultWorkers
        (ids.filterMap (UnitRequest.ofNode? g t repository language))).run w₁ = (.ok outcome, w₂) ∧
      r.1 = (g.writeBack outcome.succeeded.toList w.records).1.1 ∧
      w'.records = (g.writeBack outcome.succeeded.toList w.records).2 := by
  obtain ⟨t, w₁, outcome, w₂, hfiles, hasked, hgraph, hrecords⟩ := enrich_eq_ok hrun
  have hkept : w₂.records = w.records :=
    ((Enricher.askAll_discreet henricher _ _ _).eq hasked).1.trans (Run.discreet_files.eq hfiles).1
  rw [hkept] at hgraph hrecords
  exact ⟨t, w₁, outcome, w₂, hasked, hgraph, hrecords⟩

/-- Enriching nodes stays within the project to whose records nodes are tied. -/
theorem Graph.enrich_advances {g : Graph} (hw : w.records.Sound)
    (hg : g.BoundTo fun c => ¬w.records.store.Foreign p c) {enricher : Enricher σ}
    (henricher : ∀ batch, Run.Discreet (enricher batch)) (repository : Path) (language : String)
    (ids : List String) :
    Advances p w ((g.enrich enricher repository language ids).run w).2 := by
  unfold Graph.enrich
  refine .bind_discreet Run.discreet_files hw fun t w₁ _ h₁ => ?_
  refine .bind_discreet (Enricher.askAll_discreet henricher _ _ _) (h₁ ▸ hw)
    fun outcome w₂ _ h₂ => ?_
  have hsound : w₂.records.Sound := by rwa [h₂, h₁]
  have hbound : g.BoundTo fun c => ¬w₂.records.store.Foreign p c := by rwa [h₂, h₁]
  exact .bind ⟨(g.writeBack_advances hsound hbound _).1, rfl⟩ fun r w₃ _ h₃ =>
    .refl h₃.records.sound

namespace FreshAnalysis

/-- Deleting classes that are nobody else's stays within the project. -/
theorem deleteClasses_advances (hw : w.records.Sound) {ids : List String}
    (hids : ∀ id ∈ ids, ¬w.records.store.Foreign p id) :
    Advances p w ((deleteClasses ids : Run σ Unit).run w).2 := by
  unfold deleteClasses
  split
  · exact .refl hw
  · exact Run.write_advances hw hids

/-- Deleted classes are gone; without any the store is as it was. -/
theorem deleteClasses_eq_ok {ids : List String} {u : Unit}
    (h : (deleteClasses ids : Run σ Unit).run w = (.ok u, w')) :
    w'.records.store = w.records.store.deleteClasses ids := by
  unfold deleteClasses at h
  split at h
  · next hempty =>
    cases h
    rw [List.isEmpty_iff.1 hempty, deleteClasses_nil]
  · exact (Except.ok.inj (Run.write_eq_ok h)).symm

/-- Deleting classes issues no id. -/
theorem issued_deleteClasses {ids : List String} {u : Unit}
    (h : (deleteClasses ids : Run σ Unit).run w = (.ok u, w')) :
    w'.records.issued = w.records.issued := by
  unfold deleteClasses at h
  split at h
  · cases h
    rfl
  · rw [Run.run_write] at h
    obtain ⟨-, rfl⟩ := Prod.mk.inj h
    exact StoreAccess.issued_write _ _

/-- Classes that are staged under fresh ids may be saved. -/
theorem confined_stagedRecords {a b : StoreAccess} (ha : a.Sound)
    (hab : StoreAccess.Advances p a b) (commit : Option String) (g : Graph)
    (files : List (String × String)) (hissued : a.issued + files.length ≤ b.issued) :
    b.Confined p (.saveClasses (stagedRecords p commit g a.issued files)) := by
  intro r hr
  obtain ⟨hproject, -, -, hid⟩ := mem_stagedRecords p commit g hr
  obtain ⟨k, hlo, hhi, hk⟩ := mem_idsFrom hid
  refine ⟨hproject, hab.not_foreign ha ?_, k, by omega, hk⟩
  rintro ⟨q, -, c, hget, -⟩
  rw [hk, ha.getClass?_of_lt hlo] at hget
  cases hget

/-- Writing staged records stays within the project, wherever it stops: the methods are of
classes that were saved before, and links lead between classes that are stored by then. -/
theorem writeStaged_advances (hw : w.records.Sound) {g : Graph} {classes : List ClassRecord}
    {methods : List MethodRecord} (hclasses : w.records.Confined p (.saveClasses classes))
    (hmethods : ∀ m ∈ methods, ∃ r ∈ classes, m.classId = r.id)
    (hbound : g.BoundTo fun c => c ∈ classes.map (·.id) ∨ w.records.store.Owns p c) :
    Advances p w ((writeStaged g classes methods : Run σ Unit).run w).2 := by
  have hproject : ∀ r ∈ classes, r.project = p := fun r hr => (hclasses r hr).1
  have hforeign : ∀ r ∈ classes, ¬w.records.store.Foreign p r.id := fun r hr => (hclasses r hr).2.1
  unfold writeStaged
  refine .bind (Run.write_advances hw hclasses) fun _ w₁ h₁ hadvances₁ => ?_
  have hsaved : w₁.records.store = w.records.store.saveClasses classes :=
    (Except.ok.inj (Run.write_eq_ok h₁)).symm
  have hstored (c : String) (hc : c ∈ classes.map (·.id)) : w₁.records.store.Owns p c := by
    obtain ⟨r, hr, -, hget⟩ := exists_getClass?_saveClasses (s := w.records.store) hc
    rw [hsaved]
    exact ⟨r, hget, hproject r hr⟩
  have hbound₁ : g.BoundTo (w₁.records.store.Owns p) := hbound.mono fun c hc => by
    rcases hc with hc | hc
    · exact hstored c hc
    · rw [hsaved]
      exact hc.saveClasses hproject hforeign
  have hrows : w₁.records.Confined p (.saveMethods methods) := fun m hm => by
    obtain ⟨r, hr, hid⟩ := hmethods m hm
    rw [hid]
    exact (hstored r.id (List.mem_map_of_mem hr)).not_foreign
  refine .bind (Run.write_advances hadvances₁.records.sound hrows) fun _ w₂ h₂ hadvances₂ => ?_
  have hclasses₂ : w₂.records.store.classes = w₁.records.store.classes := by
    rw [(saveMethods_eq_ok (Run.write_eq_ok h₂)).1, classes_putMethods]
  refine Run.write_advances hadvances₂.records.sound fun l hl => ?_
  obtain ⟨howner, htarget⟩ := hbound₁.mem_allLinks hl
  exact ⟨(owns_of_classes_eq hclasses₂).2 howner, (owns_of_classes_eq hclasses₂).2 htarget⟩

/-- Keeping a state changes neither records nor published graphs. -/
theorem persistState_discreet {c : Collaborators σ} (hc : c.Discreet) (state : ProjectState) :
    Run.Discreet (persistState c state) := by
  unfold persistState
  split
  · exact Run.discreet_pure _
  · next save hsave => exact hc.persist save hsave state

/-- Staging issues ids and leaves the rest of a workspace alone. -/
theorem onStore_staging_advances {x : StoreM α} (hw : w.records.Sound) {n : Nat}
    (hx : (x w.records).2 = { w.records with issued := w.records.issued + n }) :
    Advances p w ((Run.onStore x : Run σ α).run w).2 := by
  rw [Run.run_onStore, hx]
  exact ⟨.of_store_eq hw rfl (Nat.le_add_right _ _) rfl, rfl⟩

/-- Replacing a project's records stays within the project. -/
theorem replaceRecords_advances (hw : w.records.Sound) (commit : Option String) {g : Graph}
    (hg : g.classIds = .empty) :
    Advances p w
      ((replaceRecords (Snapshot.take w.records.store p) commit g : Run σ Graph).run w).2 := by
  have hids : ∀ id ∈ (w.records.store.findByProject p).map (·.id),
      ¬w.records.store.Foreign p id := fun id hid => not_foreign_of_mem_ids hw.consistent hid
  unfold replaceRecords
  refine .bind (deleteClasses_advances hw hids) fun _ w₁ _ hadvances₁ => ?_
  have hsound₁ := hadvances₁.records.sound
  refine .bind (onStore_staging_advances hsound₁ (congrArg Prod.snd (stageClasses_eq ..)))
    fun r w₂ h₂ hadvances₂ => ?_
  rw [Run.run_onStore, stageClasses_eq] at h₂
  obtain ⟨hr, rfl⟩ := Prod.mk.inj h₂
  obtain rfl := Except.ok.inj hr
  have hsound₂ := hadvances₂.records.sound
  refine .bind (onStore_staging_advances hsound₂ (congrArg Prod.snd (stageAllMethods_eq ..)))
    fun methods w₃ h₃ hadvances₃ => ?_
  rw [Run.run_onStore, stageAllMethods_eq] at h₃
  obtain ⟨hmethods, rfl⟩ := Prod.mk.inj h₃
  obtain rfl := Except.ok.inj hmethods
  have hadvances := hadvances₂.records.trans hadvances₃.records
  refine .bind (writeStaged_advances hadvances₃.records.sound
    (confined_stagedRecords hsound₁ hadvances commit g _ (Nat.le_add_right _ _))
    (fun m hm => classId_of_mem_allRowsFrom hm) ?_) fun _ w₄ _ h₄ => .refl h₄.records.sound
  exact (Graph.BoundTo.of_empty hg).bindAll fun r hr => Or.inl (List.mem_map_of_mem hr)

/-- What replacing a project's records has done when it succeeds: the former classes are
deleted, and staged records of all nodes are written. -/
theorem replaceRecords_eq_ok {snap : Snapshot} {commit : Option String} {g h : Graph}
    (hrun : (replaceRecords snap commit g : Run σ Graph).run w = (.ok h, w')) :
    ∃ w₁ rs methods,
      (deleteClasses (snap.classes.map (·.id)) : Run σ Unit).run w = (.ok (), w₁) ∧
      rs = stagedRecords snap.project commit g w₁.records.issued g.nodes.toList ∧
      h = g.bindAll rs ∧ methods = allRowsFrom h (w₁.records.issued + g.nodes.toList.length) rs ∧
      (writeStaged h rs methods : Run σ Unit).run
        { w₁ with records := { w₁.records with
            issued := w₁.records.issued + g.nodes.toList.length + methods.length } } =
        (.ok (), w') := by
  unfold replaceRecords at hrun
  obtain ⟨_, w₁, hdelete, hrun⟩ := Fallible.bind_eq_ok.1 hrun
  obtain ⟨r, w₂, hclasses, hrun⟩ := Fallible.bind_eq_ok.1 hrun
  rw [Run.run_onStore, stageClasses_eq] at hclasses
  obtain ⟨hr, rfl⟩ := Prod.mk.inj hclasses
  obtain rfl := Except.ok.inj hr
  obtain ⟨methods, w₃, hmethods, hrun⟩ := Fallible.bind_eq_ok.1 hrun
  rw [Run.run_onStore, stageAllMethods_eq] at hmethods
  obtain ⟨hm, rfl⟩ := Prod.mk.inj hmethods
  obtain rfl := Except.ok.inj hm
  obtain ⟨_, w₄, hwrite, hrun⟩ := Fallible.bind_eq_ok.1 hrun
  cases hrun
  exact ⟨w₁, _, _, hdelete, rfl, rfl, rfl, hwrite⟩

/-- The nodes of an analyzed graph are tied to nobody else's records. -/
theorem replaceRecords_tied (hw : w.records.Sound) {commit : Option String} {g h : Graph}
    (hg : g.classIds = .empty)
    (hrun : (replaceRecords (Snapshot.take w.records.store p) commit g : Run σ Graph).run w =
      (.ok h, w')) : h.BoundTo fun c => ¬w'.records.store.Foreign p c := by
  have hadvances := replaceRecords_advances (p := p) hw commit hg
  rw [hrun] at hadvances
  obtain ⟨w₁, rs, methods, hdelete, rfl, rfl, -, -⟩ := replaceRecords_eq_ok hrun
  have hissued := issued_deleteClasses hdelete
  refine (Graph.BoundTo.of_empty hg).bindAll fun r hr => ?_
  have hstaged : StoreAccess.Advances p w.records { w.records with
      issued := w.records.issued + g.nodes.toList.length } :=
    .of_store_eq hw rfl (Nat.le_add_right _ _) rfl
  have hconfined := confined_stagedRecords hw hstaged commit g g.nodes.toList (Nat.le_refl _)
  rw [hissued] at hr
  exact hadvances.records.not_foreign hw (hconfined r hr).2.1

/-- Nodes are left alone, or an enricher has been asked about them. -/
theorem enrichAll_eq_ok {c : Collaborators σ} {repository : Path} {e : Examiner} {g : Graph}
    {r : Graph × EnrichmentCounts} (hrun : (enrichAll c repository e g).run w = (.ok r, w')) :
    (r = (g, ⟨0, 0⟩) ∧ w' = w) ∨ ∃ enricher, c.enricher = some enricher ∧
      (g.enrich enricher repository e.language.name g.analysisOrder).run w = (.ok r, w') := by
  unfold enrichAll at hrun
  split at hrun
  · cases hrun
    exact Or.inl ⟨rfl, rfl⟩
  · next enricher henricher => exact Or.inr ⟨enricher, henricher, hrun⟩

/-- The steps of an analysis that writes: records are replaced, nodes are enriched, and the state
with the text of the graph is kept. -/
theorem store_eq_ok {c : Collaborators σ} (hc : c.Discreet) {repository : Path} {e : Examiner}
    {state : ProjectState} {commit : Option String} {snap : Snapshot} {g : Graph}
    {r : Graph × EnrichmentCounts × ProjectState}
    (hrun : (store c repository e state commit snap g).run w = (.ok r, w')) :
    ∃ h w₁ enriched w₂,
      (replaceRecords snap commit g : Run σ Graph).run w = (.ok h, w₁) ∧
      (enrichAll c repository e h).run w₁ = (.ok enriched, w₂) ∧ w'.records = w₂.records ∧
      r = (enriched.1, enriched.2, state.advance c.clock commit enriched.1.toText) := by
  unfold store at hrun
  obtain ⟨h, w₁, hreplace, hrun⟩ := Fallible.bind_eq_ok.1 hrun
  obtain ⟨enriched, w₂, henrich, hrun⟩ := Fallible.bind_eq_ok.1 hrun
  obtain ⟨_, w₃, hpersist, hrun⟩ := Fallible.bind_eq_ok.1 hrun
  have hkept := ((persistState_discreet hc _).eq hpersist).1
  cases hrun
  exact ⟨h, w₁, enriched, w₂, hreplace, henrich, hkept, rfl⟩

/-- Having all nodes enriched stays within the project to whose records they are tied. -/
theorem enrichAll_advances {c : Collaborators σ} (hc : c.Discreet) (hw : w.records.Sound)
    {g : Graph} (hg : g.BoundTo fun id => ¬w.records.store.Foreign p id) (repository : Path)
    (e : Examiner) : Advances p w ((enrichAll c repository e g).run w).2 := by
  unfold enrichAll
  split
  · exact .refl hw
  · next enricher henricher => exact g.enrich_advances hw hg (hc.enricher _ henricher) _ _ _

/-- All that a fresh analysis writes stays within its project, wherever it stops. -/
theorem store_advances {c : Collaborators σ} (hc : c.Discreet) (hw : w.records.Sound)
    {g : Graph} (hg : g.classIds = .empty) (repository : Path) (e : Examiner)
    (state : ProjectState) (commit : Option String) :
    Advances p w
      ((store c repository e state commit (Snapshot.take w.records.store p) g).run w).2 := by
  unfold store
  refine .bind (replaceRecords_advances hw commit hg) fun h w₁ h₁ hadvances₁ => ?_
  have htied := replaceRecords_tied hw hg h₁
  refine .bind (enrichAll_advances hc hadvances₁.records.sound htied repository e)
    fun r w₂ _ hadvances₂ => ?_
  refine .bind (.of_discreet (persistState_discreet hc _) hadvances₂.records.sound)
    fun _ w₃ _ hadvances₃ => .refl hadvances₃.records.sound

end FreshAnalysis

end CodeAtlas
