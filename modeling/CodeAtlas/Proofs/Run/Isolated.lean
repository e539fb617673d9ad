import CodeAtlas.Proofs.Run.Atomic

/-!
# Projects do not disturb each other

All projects share one store and one registry. A run deletes classes with every link to them,
saves others, and may have to put everything back; each of these looks through the records of all
projects. This file proves that none of it reaches another project, however the run ends. What
carries this is that after any history links stay within projects and ids are not given twice.
-/

namespace CodeAtlas

open RecordStore

variable {σ : Type} {p q : String} {w w' : Workspace σ}

/-- The second workspace has for a project what the first one has: its class records in their
order, their methods, their links, and the published graph with its name. -/
structure Workspace.Untouched (q : String) (w w' : Workspace σ) : Prop where
  classes : w'.records.store.findByProject q = w.records.store.findByProject q
  stored : ∀ r ∈ w.records.store.findByProject q, w'.records.store.getClass? r.id = some r
  methods : ∀ r ∈ w.records.store.findByProject q,
    w'.records.store.methodsFor r.id = w.records.store.methodsFor r.id
  links : ∀ r ∈ w.records.store.findByProject q,
    w'.records.store.linksFor r.id = w.records.store.linksFor r.id
  published : w'.registry.entries.get? q = w.registry.entries.get? q

/-- What is within one project touches no other. -/
theorem Workspace.Within.untouched (h : Workspace.Within p w w') (hq : q ≠ p) :
    Workspace.Untouched q w w' where
  classes := h.records.frame.classes q hq
  stored r hr := by
    rw [← h.records.frame.classes q hq] at hr
    exact ((mem_findByProject h.records.sound.consistent).1 hr).1
  methods := h.records.frame.methods q hq
  links := h.records.frame.links q hq
  published := h.registry q hq

/-- Whatever runs of whatever projects have been there before, and whatever the store refuses, an
analysis or a sync of one project leaves the class records of every other project, their methods
and links, and its published graph exactly as they were. It does so whether it completes, has
nothing to do, or fails, and even where its rollback is refused. -/
theorem Ledger.Reachable.other_projects_untouched {l : Ledger} (hl : l.Reachable) :
    (∀ {σ : Type} {c : Collaborators σ}, c.Discreet →
      ∀ (repository : Path) (state : ProjectState) (given : Option Examiner)
        (tools : Tooling) (w : Workspace σ), w.records = l.records →
        ∀ q, q ≠ state.id → Workspace.Untouched q w
          ((FreshAnalysis.runWith c repository state given tools).run w).2) ∧
    ∀ {σ : Type} {e : SyncEngine σ}, e.collaborators.Discreet →
      ∀ (state : ProjectState) (w : Workspace σ), w.records = l.records →
        ∀ q, q ≠ state.id → Workspace.Untouched q w ((e.sync state).run w).2 := by
  have hsound := hl.sound
  constructor
  · intro σ c hc repository state given tools w hw q hq
    exact (FreshAnalysis.within_runWith hc repository state given tools (hw ▸ hsound)).untouched
      hq
  · intro σ e he state w hw q hq
    exact (SyncEngine.within_sync he state (hw ▸ hsound)).untouched hq

/-! ## Two projects on the same files -/

namespace Sample

/-- Another project without a state. -/
def neighbour : ProjectState := .fresh "q" "q" "/" (some "java")

/-- An analysis of the other project. -/
def neighbourAnalysis : Run Unit FreshAnalysis :=
  FreshAnalysis.runWith (collaborators none) (Path.ofText "/") neighbour none tools

/-- The workspace after both projects were analyzed. -/
def shared : Workspace Unit := (neighbourAnalysis.run analyzed).2

/-- The ledger after both projects were analyzed. -/
def sharedLedger : Ledger :=
  ledger.afterAnalysis neighbour.id shared.records (neighbourAnalysis.run analyzed).1

theorem records_sharedLedger : shared.records = sharedLedger.records :=
  (Ledger.records_afterAnalysis ..).symm

theorem reachable_sharedLedger : sharedLedger.Reachable := by
  have hdiscreet : (collaborators none).Discreet := collaborators_discreet fun _ h => by cases h
  have hrun : neighbourAnalysis.run analyzed = ((neighbourAnalysis.run analyzed).1, shared) := rfl
  exact .step (.step .start step_ledger)
    (.analysis hdiscreet _ neighbour none tools records_ledger hrun)

/-- From now on the store refuses to save classes for the second time. -/
def refusesSecond (write : StoreWrite) (n : Nat) : Option Failure :=
  if write.sort = .saveClasses ∧ n = 2 then some (.interrupted "disk full") else none

/-- The workspace of both projects with a store that will refuse a rollback. -/
def troubled : Workspace Unit :=
  { shared with records := { shared.records with asked := .empty, refusal := refusesSecond } }

end Sample

open Sample in
/-- Two projects have two classes each. An analysis of the first one fails on a full disk, its
rollback is refused, and its classes are gone; a sync of it completes otherwise. Both leave the
second project as it was. -/
theorem Ledger.Reachable.other_projects_untouched_of_shared :
    (shared.records.store.findByProject "q").length = 2 ∧
      (∃ w', (analysis (some diskFull)).run troubled = (.error (.interrupted "disk full"), w') ∧
        w'.records.store.findByProject "p" = [] ∧ Workspace.Untouched "q" troubled w') ∧
      ∃ r w', (resyncing.sync project).run shared = (.ok r, w') ∧ r.status = .completed ∧
        Workspace.Untouched "q" shared w' := by
  have hother : "q" ≠ project.id := by decide
  have htroubled : troubled.records =
      { sharedLedger.records with asked := .empty, refusal := refusesSecond } := by
    rw [← records_sharedLedger]
    rfl
  obtain ⟨hanalyses, -⟩ :=
    (reachable_sharedLedger.disturb .empty refusesSecond).other_projects_untouched
  obtain ⟨-, hsyncs⟩ := reachable_sharedLedger.other_projects_untouched
  refine ⟨by decide +kernel, ?_, ?_⟩
  · have huntouched :=
      hanalyses collaborators_diskFull_discreet (Path.ofText "/") project none tools
      troubled htroubled "q" hother
    have hfailure : (match (analysis (some diskFull)).run troubled with
        | (.ok _, _) => none
        | (.error f, w') => some (f, w'.records.store.findByProject "p")) =
          some (.interrupted "disk full", []) := by
      decide +kernel
    change Workspace.Untouched "q" troubled ((analysis (some diskFull)).run troubled).2
      at huntouched
    cases hrun : (analysis (some diskFull)).run troubled with
    | mk o w' =>
      rw [hrun] at hfailure huntouched
      cases o with
      | ok a => cases hfailure
      | error f =>
        obtain ⟨rfl, hgone⟩ := Prod.mk.inj (Option.some.inj hfailure)
        exact ⟨w', rfl, hgone, huntouched⟩
  · have huntouched := hsyncs resyncing_discreet project shared records_sharedLedger "q" hother
    have hstatus : ((resyncing.sync project).run shared).1.toOption.map (·.status) =
        some .completed := by
      decide +kernel
    obtain ⟨r, w', hrun, hdone⟩ := Fallible.exists_eq_ok hstatus
    rw [hrun] at huntouched
    exact ⟨r, w', hrun, hdone, huntouched⟩

end CodeAtlas
