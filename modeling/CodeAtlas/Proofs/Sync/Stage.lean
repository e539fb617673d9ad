import CodeAtlas.Proofs.Run.Analysis
import CodeAtlas.Proofs.Sync.Plan

/-!
# Staging a sync

Before a sync writes anything it examines the repository, makes its plan, and ties the nodes of
the new graph to records. This file says what it has in hand then: records of its own project
only, and for every tie a record that the sync is not going to delete.
-/

namespace CodeAtlas

open RecordStore

namespace SyncEngine

variable {σ : Type} {w w' : Workspace σ} {s : RecordStore} {p : String}

/-! ## Drafts -/

/-- The classes of a project by identifier. -/
def recordsByIdentifier (s : RecordStore) (p : String) : Dict String ClassRecord :=
  Dict.ofList ((s.findByProject p).map fun r => (r.identifier, r))

/-- What is found under an identifier is a class of the project that bears it. -/
theorem get?_recordsByIdentifier {id : String} {r : ClassRecord}
    (h : (recordsByIdentifier s p).get? id = some r) :
    r ∈ s.findByProject p ∧ r.identifier = id := by
  obtain ⟨x, hx, heq⟩ := List.mem_map.1 (Dict.mem_of_get?_ofList h)
  cases heq
  exact ⟨hx, rfl⟩

/-- A draft of a sync of a project on a store. -/
structure Draft.Fits (d : Draft) (s : RecordStore) (p : String) : Prop where
  bare : d.graph.Bare
  records : d.records = recordsByIdentifier s p
  plan : d.plan.Fits d.records.keys d.graph

theorem draft_discreet (x : Examiner) (repository : Path) (project : String) (diff : Diff) :
    Run.Discreet (draft x repository project diff : Run σ Draft) := by
  unfold draft
  refine Run.Discreet.inSession ?_
  refine Run.discreet_files.bind fun kept => ?_
  refine (Run.discreet_examine _).bind fun survey => ?_
  refine (Run.discreet_findByProject project).bind fun stored => ?_
  refine Run.discreet_files.bind fun now => ?_
  exact (Run.discreet_examine _).bind fun r => Run.discreet_pure _

theorem draft_eq_ok {x : Examiner} {repository : Path} {project : String} {diff : Diff} {d : Draft}
    (h : (draft x repository project diff : Run σ Draft).run w = (.ok d, w')) :
    d.Fits w.records.store project := by
  unfold draft at h
  obtain ⟨w₀, w₁, hrecords₀, -, -, h⟩ := Run.inSession_eq_ok h
  obtain ⟨kept, w₂, hkept, h⟩ := Fallible.bind_eq_ok.1 h
  obtain ⟨survey, w₃, hsurvey, h⟩ := Fallible.bind_eq_ok.1 h
  obtain ⟨stored, w₄, hstored, h⟩ := Fallible.bind_eq_ok.1 h
  obtain ⟨now, w₅, -, h⟩ := Fallible.bind_eq_ok.1 h
  obtain ⟨r, w₆, hdescribed, h⟩ := Fallible.bind_eq_ok.1 h
  have hrecords₂ := (Run.discreet_files.eq hkept).1
  have hrecords₃ := ((Run.discreet_examine _).eq hsurvey).1
  have hfound : stored = w.records.store.findByProject project := by
    have heq := Except.ok.inj (Prod.mk.inj hstored).1
    rw [← heq, hrecords₃, hrecords₂, hrecords₀]
  have hsurveyed : survey.graph.Bare :=
    Run.ensures_examine (Survey.ensures_take x kept repository) _ _ _ hsurvey
  have hplan := SyncPartition.fits_ofGraph (recordsByIdentifier w.records.store project).keys
    hsurveyed.wellFormed.nodes_nodup diff.changed diff.full
  obtain ⟨hbare, hfits⟩ := dropVanished_spec now
    (Dict.ofList (survey.units.map fun u => (u.identifier, u.path))) hsurveyed hplan
  subst hfound
  obtain ⟨hbare', hnodes⟩ :=
    Run.ensures_examine (Graph.ensures_describe hbare x _ repository _ _) _ _ _ hdescribed
  cases h
  exact ⟨hbare', rfl, fits_demoteFailed _ (hfits.congr hnodes)⟩

/-! ## Ties -/

theorem classIds_restoreNode (g : Graph) (s : RecordStore) (r : ClassRecord)
    (names : Dict String String) :
    (g.restoreNode s r names).classIds = (g.bindClassId r.identifier r.id).classIds := by
  unfold Graph.restoreNode
  dsimp only
  generalize hcleared : (((g.bindClassId r.identifier r.id).setNodeInfo r.identifier
    ⟨r.kind, r.description⟩).setMethods r.identifier
      ((s.methodsFor r.id).map MethodRecord.method)).clearMethodParameters r.identifier = h
  have hids : h.classIds = (g.bindClassId r.identifier r.id).classIds := by simp [← hcleared]
  rw [← hids]
  clear hcleared hids
  induction s.linksFor r.id generalizing h with
  | nil => rfl
  | cons l rest ih =>
    rw [List.foldl_cons]
    split
    · exact (ih _).trans (Graph.classIds_addMethodParameter ..)
    · exact ih h

/-- A record that a sync keeps: that of an identifier which is updated or unchanged. -/
def Draft.Keeps (d : Draft) (c : String) : Prop :=
  ∃ id r, (id ∈ d.plan.updated ∨ id ∈ d.plan.unchanged) ∧ d.records.get? id = some r ∧ r.id = c

theorem restoreUnchanged_tied (s : RecordStore) {d : Draft} (hd : d.graph.classIds = .empty) :
    (restoreUnchanged s d).BoundTo d.Keeps := by
  have hstart : d.graph.BoundTo d.Keeps := .of_empty hd
  have hids : ∀ id ∈ d.plan.unchanged, ∀ r, d.records.get? id = some r → d.Keeps r.id :=
    fun id hid r hr => ⟨id, r, Or.inr hid, hr, rfl⟩
  unfold restoreUnchanged
  dsimp only
  generalize d.graph = g at hstart
  generalize d.plan.unchanged = ids at hids
  induction ids generalizing g with
  | nil => exact hstart
  | cons id rest ih =>
    rw [List.foldl_cons]
    refine ih _ ?_ fun j hj => hids j (List.mem_cons_of_mem _ hj)
    split
    · next r hr =>
      exact (hstart.bindClassId (hids id (List.mem_cons_self ..) r hr)).congr
        (classIds_restoreNode _ _ _ _)
    · exact hstart

/-- An updated node is tied to its record, which stays in its project. -/
theorem stageUpdated_spec (s : RecordStore) (head : String) (g : Graph) (old : ClassRecord) :
    (stageUpdated s head g old).1.classIds = (g.bindClassId old.identifier old.id).classIds ∧
      (stageUpdated s head g old).2.id = old.id ∧
      (stageUpdated s head g old).2.project = old.project := by
  unfold stageUpdated
  refine ⟨?_, rfl, rfl⟩
  dsimp only
  split <;> simp

theorem stageAllUpdated_spec (s : RecordStore) (head : String) {P : String → Prop} {g : Graph}
    (hg : g.BoundTo P) {olds : List ClassRecord} (holds : ∀ old ∈ olds, P old.id) :
    (stageAllUpdated s head g olds).1.BoundTo P ∧
      ∀ r ∈ (stageAllUpdated s head g olds).2, ∃ old ∈ olds, r.id = old.id ∧
        r.project = old.project := by
  induction olds generalizing g with
  | nil => exact ⟨hg, fun r hr => by cases hr⟩
  | cons old rest ih =>
    obtain ⟨hids, hid, hproject⟩ := stageUpdated_spec s head g old
    have hbound : (stageUpdated s head g old).1.BoundTo P :=
      (hg.bindClassId (holds old (List.mem_cons_self ..))).congr hids
    obtain ⟨hrest, hrecords⟩ := ih hbound fun x hx => holds x (List.mem_cons_of_mem _ hx)
    refine ⟨hrest, fun r hr => ?_⟩
    rcases List.mem_cons.1 hr with rfl | hr
    · exact ⟨old, List.mem_cons_self .., hid, hproject⟩
    · obtain ⟨x, hx, heq⟩ := hrecords r hr
      exact ⟨x, List.mem_cons_of_mem _ hx, heq⟩

/-- The graph of a draft after its unchanged and updated nodes have been tied, and the records
of the updated ones. -/
def retie (s : RecordStore) (head : String) (d : Draft) : Graph × List ClassRecord :=
  stageAllUpdated s head (restoreUnchanged s d) (d.plan.updated.filterMap d.records.get?)

/-- The added nodes of a draft with their files. -/
def addedFiles (d : Draft) (g : Graph) : List (String × String) :=
  d.plan.added.map fun id => (id, (g.sourceFile? id).getD "")

/-- The records of a draft's added nodes. -/
def addedRecords (s : RecordStore) (project head : String) (d : Draft) (n : Nat) :
    List ClassRecord :=
  stagedRecords project (some head) (retie s head d).1 n (addedFiles d (retie s head d).1)

/-- Staging the classes of a sync ties the updated and unchanged nodes to their records, and the
added ones to new records. -/
theorem stageClasses_eq (project head : String) (d : Draft) (a : StoreAccess) :
    stageClasses project head d a =
      (((retie a.store head d).1.bindAll (addedRecords a.store project head d a.issued),
          (retie a.store head d).2, addedRecords a.store project head d a.issued),
        { a with issued := a.issued + d.plan.added.length }) := by
  have hadded := CodeAtlas.stageClasses_eq project (some head) (retie a.store head d).1
    (addedFiles d (retie a.store head d).1) a
  rw [show (addedFiles d (retie a.store head d).1).length = d.plan.added.length from
    List.length_map ..] at hadded
  unfold stageClasses
  simp only [bind, StateT.bind, StoreAccess.current]
  change (fun r : (Graph × List ClassRecord) × StoreAccess =>
      ((r.1.1, (retie a.store head d).2, r.1.2), r.2))
    (FreshAnalysis.stageClasses project (some head) (retie a.store head d).1
      (addedFiles d (retie a.store head d).1) a) = _
  rw [hadded]
  rfl

/-! ## Staging as a whole -/

/-- What a sync of a project has in hand before it writes, on a store with issued ids. -/
structure Staged.Fits (t : Staged) (a : StoreAccess) (project head : String) : Prop where
  draft : t.draft.Fits a.store project
  updated : t.updated = (retie a.store head t.draft).2
  added : t.added = addedRecords a.store project head t.draft a.issued
  graph : t.graph = (retie a.store head t.draft).1.bindAll t.added
  methods : t.methods =
    allRowsFrom t.graph (a.issued + t.draft.plan.added.length) (t.updated ++ t.added)
  snapshot : t.snapshot = Snapshot.take a.store project

/-- Staging that succeeds has looked at the records as they are and has issued ids. -/
theorem stage_eq_ok {e : SyncEngine σ} (he : e.collaborators.Discreet) {state : ProjectState}
    {head : String} {t : Staged} (h : (e.stage state head).run w = (.ok t, w')) :
    t.Fits w.records state.id head ∧
      w'.records = { w.records with
        issued := w.records.issued + t.draft.plan.added.length + t.methods.length } ∧
      w'.registry = w.registry := by
  have hcontrol := he.versionControl e.versionControl rfl
  unfold stage at h
  dsimp only at h
  obtain ⟨diff, w₁, h₁, h⟩ := Fallible.bind_eq_ok.1 h
  obtain ⟨files, w₂, h₂, h⟩ := Fallible.bind_eq_ok.1 h
  obtain ⟨x, w₃, h₃, h⟩ := Fallible.bind_eq_ok.1 h
  obtain ⟨d, w₄, h₄, h⟩ := Fallible.bind_eq_ok.1 h
  obtain ⟨hrecords₁, hregistry₁⟩ := (hcontrol.diff _ _ _).eq h₁
  obtain ⟨hrecords₂, hregistry₂⟩ := Run.discreet_files.eq h₂
  obtain ⟨hrecords₃, hregistry₃⟩ := (Run.discreet_ofOutcome _).eq h₃
  obtain ⟨hrecords₄, hregistry₄⟩ := (draft_discreet _ _ _ _).eq h₄
  have hdraft := draft_eq_ok h₄
  have hkept : w₃.records = w.records := by rw [hrecords₃, hrecords₂, hrecords₁]
  rw [hkept] at hdraft hrecords₄
  obtain ⟨r, w₅, h₅, h⟩ := Fallible.bind_eq_ok.1 h
  rw [Run.run_onStore, hrecords₄, stageClasses_eq] at h₅
  obtain ⟨hr, rfl⟩ := Prod.mk.inj h₅
  obtain rfl := Except.ok.inj hr
  obtain ⟨methods, w₆, h₆, h⟩ := Fallible.bind_eq_ok.1 h
  rw [Run.run_onStore, stageAllMethods_eq] at h₆
  obtain ⟨hm, rfl⟩ := Prod.mk.inj h₆
  obtain rfl := Except.ok.inj hm
  obtain ⟨snapshot, w₇, h₇, h⟩ := Fallible.bind_eq_ok.1 h
  have hsnapshot := Run.takeSnapshot_eq_ok h₇
  obtain ⟨hrecords₇, hregistry₇⟩ := (Run.discreet_takeSnapshot _).eq h₇
  cases h
  refine ⟨⟨hdraft, rfl, rfl, rfl, rfl, hsnapshot⟩, hrecords₇, ?_⟩
  rw [hregistry₇]
  exact hregistry₄.trans (hregistry₃.trans (hregistry₂.trans hregistry₁))

/-- Staging that fails has changed neither records nor published graphs. -/
theorem stage_eq_error {e : SyncEngine σ} (he : e.collaborators.Discreet) {state : ProjectState}
    {head : String} {f : Failure} (h : (e.stage state head).run w = (.error f, w')) :
    w'.records = w.records ∧ w'.registry = w.registry := by
  have hcontrol := he.versionControl e.versionControl rfl
  unfold stage at h
  dsimp only at h
  rcases Fallible.bind_eq_error.1 h with h₁ | ⟨diff, w₁, h₁, h⟩
  · exact (hcontrol.diff _ _ _).eq h₁
  obtain ⟨hrecords₁, hregistry₁⟩ := (hcontrol.diff _ _ _).eq h₁
  rcases Fallible.bind_eq_error.1 h with h₂ | ⟨files, w₂, h₂, h⟩
  · cases h₂
  obtain ⟨hrecords₂, hregistry₂⟩ := Run.discreet_files.eq h₂
  rw [hrecords₁] at hrecords₂
  rw [hregistry₁] at hregistry₂
  rcases Fallible.bind_eq_error.1 h with h₃ | ⟨x, w₃, h₃, h⟩
  · obtain ⟨hrecords, hregistry⟩ := (Run.discreet_ofOutcome _).eq h₃
    exact ⟨hrecords.trans hrecords₂, hregistry.trans hregistry₂⟩
  obtain ⟨hrecords₃, hregistry₃⟩ := (Run.discreet_ofOutcome _).eq h₃
  rcases Fallible.bind_eq_error.1 h with h₄ | ⟨d, w₄, h₄, h⟩
  · obtain ⟨hrecords, hregistry⟩ := (draft_discreet _ _ _ _).eq h₄
    exact ⟨hrecords.trans (hrecords₃.trans hrecords₂),
      hregistry.trans (hregistry₃.trans hregistry₂)⟩
  -- what follows cannot fail
  rcases Fallible.bind_eq_error.1 h with h₅ | ⟨r, w₅, h₅, h⟩
  · cases h₅
  rcases Fallible.bind_eq_error.1 h with h₆ | ⟨methods, w₆, h₆, h⟩
  · cases h₆
  rcases Fallible.bind_eq_error.1 h with h₇ | ⟨snapshot, w₇, h₇, h⟩
  · cases h₇
  · cases h

end SyncEngine

end CodeAtlas
