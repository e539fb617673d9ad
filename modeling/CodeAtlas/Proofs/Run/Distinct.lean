import CodeAtlas.Proofs.Run.History
import CodeAtlas.Proofs.Sync.Written

/-!
# Identifiers stay distinct

A project has one class for each identifier. This file proves that no run ever changes that:
whether it succeeds or fails between two of its writes, and whatever becomes of its rollback.
-/

namespace CodeAtlas

open RecordStore

namespace RecordStore

variable {s t : RecordStore} {p : String}

theorem Distinct.of_units (h : s.Distinct p) (hunits : t.units = s.units) : t.Distinct p := by
  unfold Distinct at h ⊢
  rwa [identifiersOf_eq, hunits, ← identifiersOf_eq]

theorem Distinct.of_classes_eq (h : s.Distinct p) (hclasses : t.classes = s.classes) :
    t.Distinct p := by
  refine h.of_units ?_
  unfold units
  rw [hclasses]

theorem Distinct.deleteClasses (h : s.Distinct p) (hs : s.Consistent) (ids : List String) :
    (s.deleteClasses ids).Distinct p := by
  unfold Distinct identifiersOf at h ⊢
  rw [findByProject_deleteClasses hs]
  exact h.sublist (List.filter_sublist.map _)

/-- Classes that are stored where the project has none are distinct if they are. -/
theorem Distinct.saveClasses_of_nothing (hnone : s.findByProject p = [])
    {rs : List ClassRecord} (hids : (rs.map (·.id)).Nodup)
    (hnew : ∀ r ∈ rs, s.getClass? r.id = none) (hrs : (rs.map (·.identifier)).Nodup) :
    (s.saveClasses rs).Distinct p := by
  unfold Distinct identifiersOf
  rw [findByProject_saveClasses_of_new hids hnew, hnone, List.nil_append]
  exact hrs.sublist (List.filter_sublist.map _)

/-- Only saving classes can take an identifier a second time. -/
theorem Distinct.write (h : s.Distinct p) (hs : s.Consistent) {w : StoreWrite}
    (hw : ∀ rs, w = .saveClasses rs → (s.saveClasses rs).Distinct p) (hok : s.write w = .ok t) :
    t.Distinct p := by
  cases w with
  | saveClasses rs =>
    cases hok
    exact hw rs rfl
  | saveMethods rs =>
    rw [(saveMethods_eq_ok hok).1]
    exact h.of_classes_eq (classes_putMethods ..)
  | saveLinks ls =>
    cases hok
    exact h.of_classes_eq (classes_saveLinks ..)
  | deleteClasses ids =>
    cases hok
    exact h.deleteClasses hs ids
  | deleteMethodsAndLinks ids =>
    cases hok
    exact h.of_classes_eq rfl

end RecordStore

namespace StoreAccess

variable {a : StoreAccess} {p : String}

theorem distinct_write (h : a.store.Distinct p) (ha : a.store.Consistent) {w : StoreWrite}
    (hw : ∀ rs, w = .saveClasses rs → (a.store.saveClasses rs).Distinct p) :
    (StoreAccess.write w a).2.store.Distinct p := by
  rcases write_cases w a with ⟨-, hstore⟩ | ⟨-, hok⟩
  · rwa [hstore]
  · exact h.write ha hw hok

/-- Of writes one after the other, the later ones count where the first was accepted. -/
theorem distinct_writeAll_cons (h : a.store.Distinct p) (ha : a.store.Consistent)
    {w : StoreWrite} {ws : List StoreWrite}
    (hw : ∀ rs, w = .saveClasses rs → (a.store.saveClasses rs).Distinct p)
    (hws : ∀ b, a.store.write w = .ok b.store → b.store.Distinct p →
      (writeAll ws b).2.store.Distinct p) : (writeAll (w :: ws) a).2.store.Distinct p := by
  have hfirst := distinct_write h ha hw
  rw [writeAll_cons]
  cases hok : (StoreAccess.write w a).1 with
  | error f => exact hfirst
  | ok u => exact hws _ (write_eq_ok hok) hfirst

end StoreAccess

/-! ## Rollbacks -/

namespace Snapshot

variable {a : RecordStore} {p : String}

/-- Where nothing of a project is stored, putting its classes back leaves them distinct, also if
it is cut short. -/
theorem saves_distinct (h : a.Distinct p) (ha : a.Consistent) {d : StoreAccess}
    (hd : Cleared p a d.store) :
    (StoreAccess.writeAll (take a p).saves d).2.store.Distinct p := by
  have hnothing : d.store.findByProject p = [] := by
    rw [List.eq_nil_iff_forall_not_mem]
    exact fun r hr => hd.nothing r.id ((owns_iff_exists_mem hd.consistent).2 ⟨r, hr, rfl⟩)
  have hnone : d.store.Distinct p := by
    unfold RecordStore.Distinct identifiersOf
    rw [hnothing]
    exact List.nodup_nil
  unfold saves
  refine StoreAccess.distinct_writeAll_cons hnone hd.consistent (fun rs hrs => ?_)
    fun e he hclasses => ?_
  · cases hrs
    exact .saveClasses_of_nothing hnothing (nodup_ids_findByProject ha p)
      (fun r hr => hd.getClass?_of_mem ha hr) h
  have hconsistent := hd.consistent.write he
  refine StoreAccess.distinct_writeAll_cons hclasses hconsistent (fun rs hrs => by cases hrs)
    fun f hf hmethods => ?_
  exact StoreAccess.distinct_writeAll_cons hmethods (hconsistent.write hf)
    (fun rs hrs => by cases hrs) fun _ _ hlinks => hlinks

/-- So does putting back a whole snapshot, whatever has been stored of the project since. -/
theorem restore_distinct (h : a.Distinct p) (ha : a.Consistent) {b : StoreAccess} (hb : b.Sound)
    (hframe : RecordStore.Frame p a b.store) (hdistinct : b.store.Distinct p) :
    ((take a p).restore b).2.store.Distinct p := by
  have hcleared := Cleared.of_deleteClasses hb.consistent hb.inside hframe
  unfold restore
  change (StoreAccess.writeAll (_ ++ (take a p).saves) b).2.store.Distinct p
  rw [show (take a p).project = p from rfl]
  cases hfind : b.store.findByProject p with
  | nil =>
    rw [hfind, List.map_nil, deleteClasses_nil] at hcleared
    exact saves_distinct h ha hcleared
  | cons r rs =>
    dsimp only
    rw [List.cons_append, List.nil_append, ← hfind]
    refine StoreAccess.distinct_writeAll_cons hdistinct hb.consistent
      (fun rs hrs => by cases hrs) fun d hd _ => ?_
    have hstore : d.store = b.store.deleteClasses ((b.store.findByProject p).map (·.id)) :=
      (Except.ok.inj hd).symm
    rw [← hstore] at hcleared
    exact saves_distinct h ha hcleared

end Snapshot

/-! ## Steps -/

section Steps

variable {σ α β : Type} {w w' : Workspace σ} {p : String}

/-- A step after which a project has one class for each identifier. -/
def Workspace.Distinct (p : String) (w : Workspace σ) : Prop := w.records.store.Distinct p

theorem Workspace.Distinct.bind {x : Run σ α} {f : α → Run σ β}
    (hx : ((x.run w).2).Distinct p)
    (hf : ∀ a w', x.run w = (.ok a, w') → w'.Distinct p → (((f a).run w').2).Distinct p) :
    (((x >>= f).run w).2).Distinct p :=
  Fallible.snd_run_bind hx hf

theorem Workspace.Distinct.of_discreet (h : w.Distinct p) {x : Run σ α} (hx : Run.Discreet x) :
    ((x.run w).2).Distinct p := by
  obtain ⟨hrecords, -⟩ := Prod.mk.inj (hx w)
  unfold Workspace.Distinct
  rwa [hrecords]

/-- A write of staged classes and what belongs to them. -/
theorem FreshAnalysis.writeStaged_distinct (h : w.Distinct p) (hw : w.records.store.Consistent)
    {g : Graph} {classes : List ClassRecord} {methods : List MethodRecord}
    (hclasses : (w.records.store.saveClasses classes).Distinct p) :
    (((writeStaged g classes methods : Run σ Unit).run w).2).Distinct p := by
  unfold writeStaged
  refine .bind (StoreAccess.distinct_write h hw fun rs hrs => ?_) fun _ w₁ h₁ hd₁ => ?_
  · cases hrs
    exact hclasses
  have hw₁ := hw.write (Run.write_eq_ok h₁)
  refine .bind (StoreAccess.distinct_write hd₁ hw₁ fun rs hrs => by cases hrs)
    fun _ w₂ h₂ hd₂ => ?_
  exact StoreAccess.distinct_write hd₂ (hw₁.write (Run.write_eq_ok h₂)) fun rs hrs => by cases hrs

/-- Enriching nodes takes no identifier. -/
theorem Graph.enrich_distinct {g : Graph} (h : w.Distinct p) (hw : w.records.store.Consistent)
    {enricher : Enricher σ} (henricher : ∀ batch, Run.Discreet (enricher batch))
    (repository : Path) (language : String) (ids : List String) :
    (((g.enrich enricher repository language ids).run w).2).Distinct p := by
  cases hrun : (g.enrich enricher repository language ids).run w with
  | mk o w' =>
    cases o with
    | ok r => exact h.of_units (enrich_writtenBack hw henricher hrun).patched.units
    | error f =>
      -- asking is all that can fail
      unfold enrich at hrun
      rcases Fallible.bind_eq_error.1 hrun with hfiles | ⟨t, w₁, hfiles, hrun⟩
      · cases hfiles
      rcases Fallible.bind_eq_error.1 hrun with hasked | ⟨outcome, w₂, hasked, hrun⟩
      · have hkept := ((Enricher.askAll_discreet henricher _ _ _).eq hasked).1
        unfold Workspace.Distinct
        rw [hkept, (Run.discreet_files.eq hfiles).1]
        exact h
      rcases Fallible.bind_eq_error.1 hrun with hback | ⟨r, w₃, hback, hrun⟩
      · cases hback
      · cases hrun

/-- A run that keeps identifiers distinct also does so if it is taken back, whatever becomes of
that. -/
theorem Run.orRestore_distinct {x : Run σ α} (h : w.Distinct p) (hw : w.records.Sound)
    (hx : Workspace.Advances p w (x.run w).2) (hdistinct : ((x.run w).2).Distinct p) :
    (((orRestore (Snapshot.take w.records.store p) x).run w).2).Distinct p := by
  cases hrun : (orRestore (Snapshot.take w.records.store p) x).run w with
  | mk o w' =>
    cases o with
    | ok a => rwa [orRestore_eq_ok hrun] at hdistinct
    | error f =>
      obtain ⟨w₁, hfailed, hrecords, -⟩ := orRestore_eq_error hrun
      rw [hfailed] at hx hdistinct
      unfold Workspace.Distinct
      rw [hrecords]
      exact Snapshot.restore_distinct h hw.consistent hx.records.sound hx.records.frame hdistinct

/-! ## Analyses -/

namespace FreshAnalysis

/-- Replaced records bear the identifiers of the nodes. -/
theorem replaceRecords_distinct (h : w.Distinct p) (hw : w.records.Sound)
    (commit : Option String) {g : Graph} (hg : g.nodes.keys.Nodup) :
    (((replaceRecords (Snapshot.take w.records.store p) commit g : Run σ Graph).run w).2).Distinct
      p := by
  have hids : ∀ id ∈ (w.records.store.findByProject p).map (·.id),
      ¬w.records.store.Foreign p id := fun id hid => not_foreign_of_mem_ids hw.consistent hid
  have hdeleted : (((deleteClasses ((w.records.store.findByProject p).map (·.id)) :
      Run σ Unit).run w).2).Distinct p := by
    unfold deleteClasses
    split
    · exact h
    · exact StoreAccess.distinct_write h hw.consistent fun rs hrs => by cases hrs
  unfold replaceRecords
  refine .bind hdeleted fun _ w₁ h₁ hd₁ => ?_
  have hadvances := deleteClasses_advances (σ := σ) hw hids
  rw [show (deleteClasses ((w.records.store.findByProject p).map (·.id)) : Run σ Unit).run w = _
    from h₁] at hadvances
  have hnothing : w₁.records.store.findByProject p = [] := by
    rw [deleteClasses_eq_ok h₁, findByProject_deleteClasses hw.consistent]
    refine List.filter_eq_nil_iff.2 fun r hr => ?_
    simpa using ⟨r, hr, rfl⟩
  refine .bind (x := Run.onStore _) ?_ fun r w₂ h₂ hd₂ => ?_
  · rw [Run.run_onStore, stageClasses_eq]
    exact hd₁
  rw [Run.run_onStore, stageClasses_eq] at h₂
  obtain ⟨hr, rfl⟩ := Prod.mk.inj h₂
  obtain rfl := Except.ok.inj hr
  refine .bind (x := Run.onStore _) ?_ fun methods w₃ h₃ hd₃ => ?_
  · rw [Run.run_onStore, stageAllMethods_eq]
    exact hd₂
  rw [Run.run_onStore, stageAllMethods_eq] at h₃
  obtain ⟨-, rfl⟩ := Prod.mk.inj h₃
  refine .bind (writeStaged_distinct hd₃ hadvances.records.sound.consistent ?_)
    fun _ w₄ _ hd₄ => hd₄
  refine .saveClasses_of_nothing hnothing ?_ (fun r hr => ?_) ?_
  · rw [ids_stagedRecords]
    exact nodup_idsFrom _ _
  · obtain ⟨k, hlo, -, hk⟩ := mem_idsFrom (mem_stagedRecords _ _ _ hr).2.2.2
    rw [hk]
    exact hadvances.records.sound.getClass?_of_lt hlo
  · have hfiles := congrArg (List.map Prod.fst)
      (files_stagedRecords p commit g w₁.records.issued g.nodes.toList)
    rw [List.map_map] at hfiles
    exact (hfiles.trans rfl : _ = g.nodes.keys) ▸ hg

theorem store_distinct {c : Collaborators σ} (hc : c.Discreet) (h : w.Distinct p)
    (hw : w.records.Sound) {g : Graph} (hg : g.Bare) (repository : Path) (e : Examiner)
    (state : ProjectState) (commit : Option String) :
    (((store c repository e state commit (Snapshot.take w.records.store p) g).run w).2).Distinct
      p := by
  unfold store
  refine .bind (replaceRecords_distinct h hw commit hg.wellFormed.nodes_nodup)
    fun k w₁ h₁ hd₁ => ?_
  have hadvances := replaceRecords_advances (p := p) hw commit hg.untied
  rw [h₁] at hadvances
  refine .bind ?_ fun r w₂ _ hd₂ => ?_
  · unfold enrichAll
    split
    · exact hd₁
    · next enricher henricher =>
      exact Graph.enrich_distinct hd₁ hadvances.records.sound.consistent (hc.enricher _ henricher)
        _ _ _
  · exact .bind (hd₂.of_discreet (persistState_discreet hc _)) fun _ w₃ _ hd₃ => hd₃

/-- Whatever becomes of an analysis, its project has one class for each identifier then if it
had before. -/
theorem runWith_distinct {c : Collaborators σ} (hc : c.Discreet) (repository : Path)
    (state : ProjectState) (given : Option Examiner) (tools : Tooling)
    (h : w.Distinct state.id) (hw : w.records.Sound) :
    (((runWith c repository state given tools).run w).2).Distinct state.id := by
  rcases runWith_cases c repository state given tools w hc with
    ⟨f', w₁, heq, hrecords, -⟩ |
    ⟨e, w₁, found, w₂, -, -, hrecords, -, hbare, hsnapshot, heq⟩
  · rw [heq]
    unfold Workspace.Distinct
    rwa [hrecords]
  · rw [heq]
    unfold Workspace.Distinct at h
    rw [← hrecords] at hsnapshot hw h
    rw [hsnapshot]
    refine .bind (Run.orRestore_distinct h hw
      (store_advances hc hw hbare.untied repository e state found.commit)
      (store_distinct hc h hw hbare repository e state found.commit)) fun _ w₃ _ hd₃ => hd₃

end FreshAnalysis

/-! ## Syncs -/

namespace SyncEngine

variable {e : SyncEngine σ} {state : ProjectState} {head : String} {t : Staged} {a : StoreAccess}

/-- Writing the records of a draft takes no identifier that is kept. -/
theorem writeRecords_distinct (ht : t.Fits a p head) (ha : a.Sound) (h : a.store.Distinct p)
    (hstore : w.records.store = a.store) :
    (((writeRecords t.draft t.graph t.updated t.added t.methods : Run σ Unit).run w).2).Distinct
      p := by
  have hw : w.Distinct p := by
    unfold Workspace.Distinct
    rwa [hstore]
  have hconsistent : w.records.store.Consistent := hstore ▸ ha.consistent
  unfold writeRecords
  refine .bind ?_ fun _ w₁ h₁ hd₁ => ?_
  · unfold FreshAnalysis.deleteClasses
    split
    · exact hw
    · exact StoreAccess.distinct_write hw hconsistent fun rs hrs => by cases hrs
  have hstore₁ := FreshAnalysis.deleteClasses_eq_ok h₁
  have hconsistent₁ : w₁.records.store.Consistent := by
    rw [hstore₁]
    exact hconsistent.deleteClasses _
  refine .bind ?_ fun _ w₂ h₂ hd₂ => ?_
  · unfold deleteMethodsAndLinks
    split
    · exact hd₁
    · exact StoreAccess.distinct_write hd₁ hconsistent₁ fun rs hrs => by cases hrs
  have hstore₂ : w₂.records.store = clearedStore t a.store := by
    rw [deleteMethodsAndLinks_eq_ok h₂, hstore₁, hstore]
    rfl
  refine FreshAnalysis.writeStaged_distinct hd₂ (hstore₂ ▸ consistent_clearedStore ha.consistent t)
    ?_
  rw [hstore₂]
  unfold RecordStore.Distinct
  rw [ht.identifiersOf_saved ha.consistent h ha.fresh]
  exact ht.nodup_saved h

theorem commit_distinct (he : e.collaborators.Discreet) (state : ProjectState)
    (haw : StoreAccess.Advances p a w.records) (ht : t.Fits a p head) (ha : a.Sound)
    (h : a.store.Distinct p) (hstore : w.records.store = a.store)
    (hissued : a.issued + t.draft.plan.added.length ≤ w.records.issued) :
    (((e.commit state head t).run w).2).Distinct p := by
  unfold commit
  refine .bind (writeRecords_distinct ht ha h hstore) fun _ w₁ h₁ hd₁ => ?_
  have hadvances := writeRecords_advances (σ := σ) haw ht ha hstore hissued
  rw [h₁] at hadvances
  refine .bind ?_ fun r w₂ _ hd₂ => ?_
  · unfold enrichStaged
    split
    · exact hd₁
    · next enricher henricher =>
      split
      · exact hd₁
      · exact Graph.enrich_distinct hd₁ hadvances.records.sound.consistent
          (he.enricher _ henricher) _ _ _
  · exact .bind (hd₂.of_discreet (FreshAnalysis.persistState_discreet he _)) fun _ w₃ _ hd₃ => hd₃

theorem advance_distinct (he : e.collaborators.Discreet) (hw : w.records.Sound)
    (h : w.Distinct state.id) (head : String) :
    (((e.advance state head).run w).2).Distinct state.id := by
  unfold advance
  refine .bind ?_ fun t w₁ hstage hd₁ => ?_
  · cases hstage : (e.stage state head).run w with
    | mk o w₁ =>
      unfold Workspace.Distinct
      cases o with
      | error f => rwa [(stage_eq_error he hstage).1]
      | ok t => rwa [(stage_eq_ok he hstage).2.1]
  obtain ⟨hfits, -, -⟩ := stage_eq_ok he hstage
  obtain ⟨hstore, hissued, haw⟩ := stage_advances he hw hstage
  have hsnapshot := hfits.snapshot
  rw [← hstore] at hsnapshot
  rw [hsnapshot]
  exact .bind (Run.orRestore_distinct hd₁ haw.sound
    (commit_advances he state haw hfits hw hstore hissued)
    (commit_distinct he state haw hfits hw h hstore hissued)) fun _ w₂ _ hd₂ => hd₂

/-- Whatever becomes of a sync, its project has one class for each identifier then if it had
before. -/
theorem sync_distinct (he : e.collaborators.Discreet) (state : ProjectState)
    (hw : w.records.Sound) (h : w.Distinct state.id) :
    (((e.sync state).run w).2).Distinct state.id := by
  have hattempt : (((e.attemptSync state).run (held state w)).2).Distinct state.id := by
    unfold attemptSync
    have hcontrol := he.versionControl e.versionControl rfl
    have hheld : (held state w).Distinct state.id := h
    refine .bind (hheld.of_discreet (hcontrol.head _)) fun head w₁ hhead hd₁ => ?_
    have hrecords := (head_eq he hhead).1
    split
    · refine .bind ?_ fun _ w₂ _ hd₂ => hd₂
      unfold Workspace.Distinct
      rwa [(ensurePublished_spec state w₁).1]
    · exact advance_distinct he (hrecords ▸ hw) hd₁ head
  rw [sync_eq]
  split
  · exact h
  · cases hrun : (e.attemptSync state).run (held state w) with
    | mk o w₁ =>
      rw [hrun] at hattempt
      cases o with
      | ok r => exact hattempt
      | error f =>
        change (e.afterFailure state f w₁).records.store.Distinct state.id
        rwa [(afterFailure_eq he state f w₁).1]

end SyncEngine

end Steps

/-! ## Histories -/

namespace Ledger

/-- One run keeps the identifiers of all projects distinct. -/
theorem Step.distinct {l l' : Ledger} (hstep : Step l l') (hl : l.records.Sound)
    (h : ∀ p, l.records.store.Distinct p) (p : String) : l'.records.store.Distinct p := by
  have hother {q : String} (hadv : StoreAccess.Advances q l.records l'.records) (hq : p ≠ q) :
      l'.records.store.Distinct p := by
    unfold RecordStore.Distinct identifiersOf
    rw [hadv.frame.classes p hq]
    exact h p
  cases hstep with
  | analysis hc repository state given tools hw hrun =>
    have hadv := FreshAnalysis.records_runWith hc repository state given tools (hw ▸ hl)
    have hown := FreshAnalysis.runWith_distinct hc repository state given tools
      (by unfold Workspace.Distinct; rw [hw]; exact h state.id) (hw ▸ hl)
    rw [hrun] at hadv hown
    rw [hw] at hadv
    rw [records_afterAnalysis] at hother ⊢
    by_cases hp : p = state.id
    · exact hp ▸ hown
    · exact hother hadv hp
  | sync he state hw hrun =>
    have hadv := SyncEngine.records_sync he state (hw ▸ hl)
    have hown := SyncEngine.sync_distinct he state (hw ▸ hl)
      (by unfold Workspace.Distinct; rw [hw]; exact h state.id)
    rw [hrun] at hadv hown
    rw [hw] at hadv
    rw [records_afterSync] at hother ⊢
    by_cases hp : p = state.id
    · exact hp ▸ hown
    · exact hother hadv hp

/-- Whatever has happened, no project has two classes of one identifier. -/
theorem Reachable.distinct {l : Ledger} (h : Reachable l) (p : String) :
    l.records.store.Distinct p := by
  induction h generalizing p with
  | start => exact List.nodup_nil
  | step hreach hstep ih => exact hstep.distinct hreach.sound ih p
  | disturb asked refusal _ ih => exact ih p

end Ledger

end CodeAtlas
