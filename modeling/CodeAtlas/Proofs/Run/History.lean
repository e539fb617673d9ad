import CodeAtlas.Proofs.Sync.Outcome

/-!
# Histories of runs

A store starts empty and is changed by analyses and syncs of any number of projects, which
succeed or fail, while collaborators refuse whatever they like. This file defines the states
that such histories lead to, and proves that the records are sound in all of them.
-/

namespace CodeAtlas

/-- The records together with the graph that the last successful run of each project
published. -/
structure Ledger where
  records : StoreAccess
  published : String → Option Graph

namespace Ledger

/-- Nothing stored and nothing published. -/
def start : Ledger := ⟨.ofStore .empty, fun _ => none⟩

/-- The ledger after a run of a project that published a graph. -/
def publish (l : Ledger) (records : StoreAccess) (project : String) (g : Option Graph) : Ledger :=
  ⟨records, fun p => if p = project then g else l.published p⟩

@[simp]
theorem published_publish (l : Ledger) (records : StoreAccess) (project : String)
    (g : Option Graph) : (l.publish records project g).published project = g :=
  if_pos rfl

/-- The ledger after a run that published nothing. -/
def keep (l : Ledger) (records : StoreAccess) : Ledger := ⟨records, l.published⟩

/-- The ledger after a fresh analysis of a project. -/
def afterAnalysis (l : Ledger) (project : String) (records : StoreAccess) :
    Outcome FreshAnalysis → Ledger
  | .ok a => l.publish records project (some a.graph)
  | .error _ => l.keep records

/-- The ledger after a sync of a project. -/
def afterSync (l : Ledger) (project : String) (records : StoreAccess) (r : SyncResult)
    (g : Option Graph) : Ledger :=
  if r.status = .completed then l.publish records project g else l.keep records

/-- One run on a workspace that has the ledger's records: any project, any files, any graphs
published so far, and any collaborators that keep to themselves. -/
inductive Step : Ledger → Ledger → Prop where
  | analysis {σ : Type} {l : Ledger} {c : Collaborators σ} (hc : c.Discreet) (repository : Path)
      (state : ProjectState) (given : Option Examiner) (tools : Tooling)
      {w w' : Workspace σ} {o : Outcome FreshAnalysis} (hw : w.records = l.records)
      (hrun : (FreshAnalysis.runWith c repository state given tools).run w = (o, w')) :
      Step l (l.afterAnalysis state.id w'.records o)
  | sync {σ : Type} {l : Ledger} {e : SyncEngine σ} (he : e.collaborators.Discreet)
      (state : ProjectState) {w w' : Workspace σ} {r : SyncResult} (hw : w.records = l.records)
      (hrun : (e.sync state).run w = (.ok r, w')) :
      Step l (l.afterSync state.id w'.records r (w'.registry.get? state.id))

/-- The states to which runs lead on a store that refuses nothing for reasons of its own. -/
inductive Undisturbed : Ledger → Prop where
  | start : Undisturbed start
  | step {l l' : Ledger} : Undisturbed l → Step l l' → Undisturbed l'

/-- The states to which runs lead on a store that may refuse any write, by a schedule that may
change at any time. -/
inductive Reachable : Ledger → Prop where
  | start : Reachable start
  | step {l l' : Ledger} : Reachable l → Step l l' → Reachable l'
  | disturb {l : Ledger} (asked : Dict WriteSort Nat)
      (refusal : StoreWrite → Nat → Option Failure) :
      Reachable l → Reachable { l with records := { l.records with asked, refusal } }

theorem records_afterAnalysis (l : Ledger) (project : String) (records : StoreAccess)
    (o : Outcome FreshAnalysis) : (l.afterAnalysis project records o).records = records := by
  cases o <;> rfl

theorem records_afterSync (l : Ledger) (project : String) (records : StoreAccess)
    (r : SyncResult) (g : Option Graph) :
    (l.afterSync project records r g).records = records := by
  unfold afterSync
  split <;> rfl

/-- One run keeps the store sound, and the projects other than its own as they were. -/
theorem Step.advances {l l' : Ledger} (h : Step l l') (hl : l.records.Sound) :
    ∃ p, StoreAccess.Advances p l.records l'.records := by
  cases h with
  | analysis hc repository state given tools hw hrun =>
    have hadv := FreshAnalysis.records_runWith hc repository state given tools (hw ▸ hl)
    rw [hrun, hw] at hadv
    rw [records_afterAnalysis]
    exact ⟨state.id, hadv⟩
  | sync he state hw hrun =>
    have hadv := SyncEngine.records_sync he state (hw ▸ hl)
    rw [hrun, hw] at hadv
    rw [records_afterSync]
    exact ⟨state.id, hadv⟩

/-- Whatever has happened, the records are sound. -/
theorem Reachable.sound {l : Ledger} (h : Reachable l) : l.records.Sound := by
  induction h with
  | start => exact .of_empty
  | step _ hstep ih =>
    obtain ⟨p, hadv⟩ := hstep.advances ih
    exact hadv.sound
  | disturb asked refusal _ ih => exact ⟨ih.consistent, ih.inside, ih.issued⟩

theorem Undisturbed.sound {l : Ledger} (h : Undisturbed l) :
    l.records.Sound ∧ l.records.Unrefused := by
  induction h with
  | start => exact ⟨.of_empty, rfl⟩
  | step _ hstep ih =>
    obtain ⟨p, hadv⟩ := hstep.advances ih.1
    exact ⟨hadv.sound, hadv.refusal.trans ih.2⟩

end Ledger

end CodeAtlas
