import CodeAtlas.Proofs.Sync.Stage

/-!
# Committing a sync

A sync deletes the records of deleted units, writes those of updated and added ones, has them
enriched and keeps the project's state. This file proves that all this stays within the project,
wherever it stops: links lead to records that are kept or were saved before.
-/

namespace CodeAtlas

open RecordStore

namespace SyncEngine

variable {σ : Type} {w w' : Workspace σ} {p head : String} {t : Staged} {a : StoreAccess}

/-! ## Records that are kept and records that are deleted -/

theorem Draft.Fits.owns_of_keeps {d : Draft} (hd : d.Fits a.store p) (ha : a.Sound) {c : String}
    (hc : d.Keeps c) : a.store.Owns p c := by
  obtain ⟨id, r, -, hget, rfl⟩ := hc
  rw [hd.records] at hget
  exact Cleared.owns_of_mem ha.consistent (get?_recordsByIdentifier hget).1

theorem Draft.Fits.owns_of_mem_deletedIds {d : Draft} (hd : d.Fits a.store p) (ha : a.Sound)
    {c : String} (hc : c ∈ deletedIds d) : a.store.Owns p c := by
  obtain ⟨r, hr, rfl⟩ := List.mem_map.1 hc
  obtain ⟨id, -, hget⟩ := List.mem_filterMap.1 hr
  rw [hd.records] at hget
  exact Cleared.owns_of_mem ha.consistent (get?_recordsByIdentifier hget).1

/-- No record is both kept and deleted: its identifier is in the new graph or it is not. -/
theorem Draft.Fits.not_mem_deletedIds_of_keeps {d : Draft} {s : RecordStore} (hd : d.Fits s p)
    (hs : s.Consistent) {c : String} (hc : d.Keeps c) : c ∉ deletedIds d := by
  intro hdeleted
  obtain ⟨id, r, hkept, hget, rfl⟩ := hc
  obtain ⟨r', hr', hid⟩ := List.mem_map.1 hdeleted
  obtain ⟨id', hid', hget'⟩ := List.mem_filterMap.1 hr'
  rw [hd.records] at hget hget'
  obtain ⟨hmem, hidentifier⟩ := get?_recordsByIdentifier hget
  obtain ⟨hmem', hidentifier'⟩ := get?_recordsByIdentifier hget'
  have hclass := ((mem_findByProject hs).1 hmem).1
  have hclass' := ((mem_findByProject hs).1 hmem').1
  rw [hid, hclass] at hclass'
  cases hclass'
  have hcontained := ((hd.plan.kept id).1 hkept).1
  have hmissing := ((hd.plan.deleted id').1 hid').2
  rw [← hidentifier', hidentifier] at hmissing
  exact hmissing hcontained

/-- The nodes of a staged graph are tied to records that are kept and to new ones. -/
theorem Staged.Fits.tied (ht : t.Fits a p head) :
    t.graph.BoundTo fun c => t.draft.Keeps c ∨ c ∈ t.added.map (·.id) := by
  have hkeeps : ∀ old ∈ t.draft.plan.updated.filterMap t.draft.records.get?,
      t.draft.Keeps old.id := by
    intro old hold
    obtain ⟨id, hid, hget⟩ := List.mem_filterMap.1 hold
    exact ⟨id, old, Or.inl hid, hget, rfl⟩
  have hretied := (stageAllUpdated_spec a.store head
    (restoreUnchanged_tied a.store ht.draft.bare.untied) hkeeps).1
  rw [ht.graph]
  exact (hretied.mono fun c hc => Or.inl hc).bindAll fun r hr => Or.inr (List.mem_map_of_mem hr)

/-- The records of updated nodes are records of the project that are kept. -/
theorem Staged.Fits.updated_spec (ht : t.Fits a p head) (ha : a.Sound) {r : ClassRecord}
    (hr : r ∈ t.updated) : t.draft.Keeps r.id ∧ r.project = p := by
  rw [ht.updated] at hr
  obtain ⟨old, hold, hid, hproject⟩ := (stageAllUpdated_spec a.store head (P := fun _ => True)
    (fun _ _ _ => True.intro) fun _ _ => True.intro).2 r hr
  obtain ⟨id, hmem, hget⟩ := List.mem_filterMap.1 hold
  refine ⟨⟨id, old, Or.inl hmem, hget, hid.symm⟩, ?_⟩
  rw [ht.draft.records] at hget
  exact hproject.trans (Cleared.project_of_mem ha.consistent (get?_recordsByIdentifier hget).1)

/-- The ids of added nodes have been issued for them: nothing is stored under them. -/
theorem Staged.Fits.getClass?_of_mem_added (ht : t.Fits a p head) (ha : a.Fresh) {c : String}
    (hc : c ∈ t.added.map (·.id)) : a.store.getClass? c = none := by
  obtain ⟨r, hr, rfl⟩ := List.mem_map.1 hc
  rw [ht.added] at hr
  obtain ⟨k, hlo, -, hk⟩ := mem_idsFrom (mem_stagedRecords _ _ _ hr).2.2.2
  rw [hk]
  exact ha k hlo

theorem Staged.Fits.tied_not_foreign (ht : t.Fits a p head) (ha : a.Sound) :
    t.graph.BoundTo fun c => ¬a.store.Foreign p c := by
  refine ht.tied.mono fun c hc => ?_
  rcases hc with hc | hc
  · exact (ht.draft.owns_of_keeps ha hc).not_foreign
  · rintro ⟨q, -, r, hget, -⟩
    rw [ht.getClass?_of_mem_added ha.fresh hc] at hget
    cases hget

/-! ## Writing -/

theorem deleteMethodsAndLinks_advances (hw : w.records.Sound) {ids : List String}
    (hids : ∀ id ∈ ids, ¬w.records.store.Foreign p id) :
    Workspace.Advances p w ((deleteMethodsAndLinks ids : Run σ Unit).run w).2 := by
  unfold deleteMethodsAndLinks
  split
  · exact .refl hw
  · exact Run.write_advances hw hids

theorem deleteMethodsAndLinks_eq_ok {ids : List String} {u : Unit}
    (h : (deleteMethodsAndLinks ids : Run σ Unit).run w = (.ok u, w')) :
    w'.records.store = w.records.store.deleteMethodsAndLinks ids := by
  unfold deleteMethodsAndLinks at h
  split at h
  · next hempty =>
    cases h
    rw [List.isEmpty_iff.1 hempty, deleteMethodsAndLinks_nil]
  · exact (Except.ok.inj (Run.write_eq_ok h)).symm

/-- The records of staged nodes may be saved at any later time. -/
theorem Staged.Fits.confined (ht : t.Fits a p head) (ha : a.Sound) {b : StoreAccess}
    (hab : StoreAccess.Advances p a b) (hissued : a.issued + t.draft.plan.added.length ≤ b.issued) :
    b.Confined p (.saveClasses (t.updated ++ t.added)) := by
  intro r hr
  rcases List.mem_append.1 hr with hr | hr
  · obtain ⟨hkeeps, hproject⟩ := ht.updated_spec ha hr
    have hown := ht.draft.owns_of_keeps ha hkeeps
    have hforeign := hab.not_foreign ha hown.not_foreign
    obtain ⟨c, hget, -⟩ := hown
    exact ⟨hproject, hforeign, (ha.issued _ c hget).mono hab.issued⟩
  · rw [ht.added] at hr
    refine FreshAnalysis.confined_stagedRecords ha hab (some head) _ _ ?_ r hr
    rwa [addedFiles, List.length_map]

/-- Writing the records of a draft stays within the project, wherever it stops: what the links
of unchanged nodes lead to is kept or saved before them. -/
theorem writeRecords_advances (haw : StoreAccess.Advances p a w.records) (ht : t.Fits a p head)
    (ha : a.Sound) (hstore : w.records.store = a.store)
    (hissued : a.issued + t.draft.plan.added.length ≤ w.records.issued) :
    Workspace.Advances p w
      ((writeRecords t.draft t.graph t.updated t.added t.methods : Run σ Unit).run w).2 := by
  have hdeleted : ∀ id ∈ deletedIds t.draft, ¬w.records.store.Foreign p id := fun id hid => by
    rw [hstore]
    exact (ht.draft.owns_of_mem_deletedIds ha hid).not_foreign
  have hupdated : ∀ id ∈ t.updated.map (·.id), ¬a.store.Foreign p id := by
    intro id hid
    obtain ⟨r, hr, rfl⟩ := List.mem_map.1 hid
    exact (ht.draft.owns_of_keeps ha (ht.updated_spec ha hr).1).not_foreign
  unfold writeRecords
  refine .bind (FreshAnalysis.deleteClasses_advances haw.sound hdeleted) fun _ w₁ h₁ hadv₁ => ?_
  have haw₁ := haw.trans hadv₁.records
  refine .bind (deleteMethodsAndLinks_advances hadv₁.records.sound
    fun id hid => haw₁.not_foreign ha (hupdated id hid)) fun _ w₂ h₂ hadv₂ => ?_
  have haw₂ := haw₁.trans hadv₂.records
  have hle : w.records.issued ≤ w₂.records.issued :=
    Nat.le_trans hadv₁.records.issued hadv₂.records.issued
  refine FreshAnalysis.writeStaged_advances hadv₂.records.sound
    (ht.confined ha haw₂ (by omega)) (fun m hm => ?_) ?_
  · rw [ht.methods] at hm
    exact classId_of_mem_allRowsFrom hm
  · refine ht.tied.mono fun c hc => ?_
    rw [List.map_append, List.mem_append]
    rcases hc with hc | hc
    · refine Or.inr ?_
      rw [deleteMethodsAndLinks_eq_ok h₂, FreshAnalysis.deleteClasses_eq_ok h₁, hstore]
      exact owns_deleteClasses.2
        ⟨ht.draft.not_mem_deletedIds_of_keeps ha.consistent hc, ht.draft.owns_of_keeps ha hc⟩
    · exact Or.inl (Or.inr hc)

/-- Staged nodes are left alone, or an enricher has been asked about them. -/
theorem enrichStaged_eq_ok {e : SyncEngine σ} {repository : Path} {x : Examiner}
    {staged : List ClassRecord} {g : Graph} {r : Graph × EnrichmentCounts}
    (hrun : (e.enrichStaged repository x staged g).run w = (.ok r, w')) :
    (r = (g, ⟨0, 0⟩) ∧ w' = w) ∨ ∃ enricher, e.enricher = some enricher ∧
      (g.enrich enricher repository x.language.name (staged.map (·.identifier))).run w =
        (.ok r, w') := by
  unfold enrichStaged at hrun
  split at hrun
  · cases hrun
    exact Or.inl ⟨rfl, rfl⟩
  · next enricher henricher =>
    split at hrun
    · cases hrun
      exact Or.inl ⟨rfl, rfl⟩
    · exact Or.inr ⟨enricher, henricher, hrun⟩

theorem enrichStaged_of_none {e : SyncEngine σ} (hnone : e.enricher = none) {repository : Path}
    {x : Examiner} {staged : List ClassRecord} {g : Graph} {r : Graph × EnrichmentCounts}
    (hrun : (e.enrichStaged repository x staged g).run w = (.ok r, w')) :
    r = (g, ⟨0, 0⟩) ∧ w' = w :=
  (enrichStaged_eq_ok hrun).resolve_right fun ⟨_, henricher, _⟩ => by
    rw [hnone] at henricher
    cases henricher

/-- The steps of a commit: staged records are written, staged nodes are enriched, and the state
with the text of the graph is kept. -/
theorem commit_eq_ok {e : SyncEngine σ} (he : e.collaborators.Discreet) {state : ProjectState}
    {r : Graph × EnrichmentCounts × ProjectState}
    (hrun : (e.commit state head t).run w = (.ok r, w')) :
    ∃ w₁ enriched w₂,
      (writeRecords t.draft t.graph t.updated t.added t.methods : Run σ Unit).run w =
        (.ok (), w₁) ∧
      (e.enrichStaged (Path.ofText state.repoPath) t.examiner (t.updated ++ t.added) t.graph).run
        w₁ = (.ok enriched, w₂) ∧ w'.records = w₂.records ∧
      r = (enriched.1, enriched.2,
        state.advance e.clock (some head) enriched.1.toText) := by
  unfold commit at hrun
  obtain ⟨_, w₁, hwrite, hrun⟩ := Fallible.bind_eq_ok.1 hrun
  obtain ⟨enriched, w₂, henrich, hrun⟩ := Fallible.bind_eq_ok.1 hrun
  obtain ⟨_, w₃, hpersist, hrun⟩ := Fallible.bind_eq_ok.1 hrun
  have hkept := ((FreshAnalysis.persistState_discreet he _).eq hpersist).1
  cases hrun
  exact ⟨w₁, enriched, w₂, hwrite, henrich, hkept, rfl⟩

/-- Having staged nodes enriched stays within the project to whose records they are tied. -/
theorem enrichStaged_advances {e : SyncEngine σ} (he : e.collaborators.Discreet)
    (hw : w.records.Sound) {g : Graph} (hg : g.BoundTo fun c => ¬w.records.store.Foreign p c)
    (repository : Path) (x : Examiner) (staged : List ClassRecord) :
    Workspace.Advances p w ((e.enrichStaged repository x staged g).run w).2 := by
  unfold enrichStaged
  split
  · exact .refl hw
  · next enricher henricher =>
    split
    · exact .refl hw
    · exact g.enrich_advances hw hg (he.enricher _ henricher) _ _ _

/-- All that a sync writes stays within its project, wherever it stops. -/
theorem commit_advances {e : SyncEngine σ} (he : e.collaborators.Discreet)
    (state : ProjectState) (haw : StoreAccess.Advances p a w.records) (ht : t.Fits a p head)
    (ha : a.Sound)
    (hstore : w.records.store = a.store)
    (hissued : a.issued + t.draft.plan.added.length ≤ w.records.issued) :
    Workspace.Advances p w ((e.commit state head t).run w).2 := by
  unfold commit
  refine .bind (writeRecords_advances haw ht ha hstore hissued) fun _ w₁ _ hadv₁ => ?_
  have htied : t.graph.BoundTo fun c => ¬w₁.records.store.Foreign p c :=
    (ht.tied_not_foreign ha).mono fun c hc => (haw.trans hadv₁.records).not_foreign ha hc
  refine .bind (enrichStaged_advances he hadv₁.records.sound htied _ _ _) fun r w₂ _ hadv₂ => ?_
  refine .bind (.of_discreet (FreshAnalysis.persistState_discreet he _) hadv₂.records.sound)
    fun _ w₃ _ hadv₃ => .refl hadv₃.records.sound

end SyncEngine

end CodeAtlas
