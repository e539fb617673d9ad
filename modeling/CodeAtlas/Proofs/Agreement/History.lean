import CodeAtlas.Proofs.Agreement.Synced
import CodeAtlas.Proofs.Run.Atomic

/-!
# Agreement throughout histories

Whatever runs of whatever projects have been there, on a store that refuses nothing the graph
that the last successful run of a project published agrees with the project's records.
-/

namespace CodeAtlas

namespace Ledger

/-- The published graph of a project; nothing published counts as the empty graph. -/
def graphOf (l : Ledger) (p : String) : Graph := (l.published p).getD .empty

/-- Whether the published graphs of all projects agree with the records. -/
def Settled (l : Ledger) : Prop := ∀ p, (l.graphOf p).Agrees l.records.store p

theorem Settled.of_start : start.Settled := fun p => .of_empty p

/-- A run that published nothing and left the answers as they were leaves all in agreement. -/
theorem Settled.keep {l : Ledger} (h : l.Settled) {records : StoreAccess}
    (hsame : RecordStore.SameAnswers l.records.store records.store) : (l.keep records).Settled :=
  fun p => (h p).of_sameAnswers hsame

/-- A run that published a graph in agreement and left the other projects as they were leaves
all in agreement. -/
theorem Settled.publish {l : Ledger} (h : l.Settled) {records : StoreAccess} {p : String}
    {g : Graph} (hg : g.Agrees records.store p)
    (hframe : RecordStore.Frame p l.records.store records.store) :
    (l.publish records p (some g)).Settled := by
  intro q
  unfold graphOf Ledger.publish
  dsimp only
  split
  · next hq =>
    rw [hq]
    exact hg
  · next hq => exact (h q).of_frame hframe hq

/-- Every run keeps published graphs and records in agreement. -/
theorem Step.settled {l l' : Ledger} (hstep : Step l l') (hsound : l.records.Sound)
    (hfree : l.records.Unrefused) (h : l.Settled) : l'.Settled := by
  cases hstep with
  | @analysis σ _ c hc repository state given tools w w' o hw hrun =>
    rw [← hw] at hsound hfree
    have hadv := FreshAnalysis.records_runWith hc repository state given tools hsound
    rw [hrun, hw] at hadv
    cases o with
    | ok a =>
      exact h.publish (FreshAnalysis.runWith_agrees hc hsound (Or.inr hfree) hrun) hadv.frame
    | error f =>
      obtain ⟨hsame, -⟩ := FreshAnalysis.runWith_failed hc hsound
        (FreshAnalysis.rollbackGranted_of_unrefused hc hsound hfree) hrun
      rw [hw] at hsame
      exact h.keep hsame
  | @sync σ _ e he state w w' r hw hrun =>
    rw [← hw] at hsound hfree
    have hadv := SyncEngine.records_sync he state hsound
    rw [hrun, hw] at hadv
    have hbefore := h state.id
    rw [← hw] at hbefore
    unfold afterSync
    have hgranted : e.RollbackGranted state (SyncEngine.held state w) :=
      SyncEngine.rollbackGranted_of_unrefused he hsound hfree
    rcases SyncEngine.sync_agrees he hsound (Or.inr hfree) hbefore hrun fun _ => hgranted with
      ⟨hcompleted, g, hg, hagrees⟩ | ⟨hkept, hsame⟩
    · rw [if_pos hcompleted, hg]
      exact h.publish hagrees hadv.frame
    · rw [if_neg hkept]
      rw [hw] at hsame
      exact h.keep hsame

theorem Undisturbed.settled {l : Ledger} (hl : l.Undisturbed) : l.Settled := by
  induction hl with
  | start => exact .of_start
  | step hbefore hstep ih =>
    obtain ⟨hsound, hfree⟩ := hbefore.sound
    exact hstep.settled hsound hfree ih

/-- Graph and store agree after every run. After any analyses and syncs of any projects, some of
which may have failed, the graph that the last successful run of a project published has its
image in the store: every node is tied to a record of its own, the project has no other
records, and each record has the node's kind, description, methods and links. -/
theorem Undisturbed.graph_storedAs {l : Ledger} (hl : l.Undisturbed) {p : String} {g : Graph}
    (hg : l.published p = some g) : g.StoredAs l.records.store p := by
  have hagrees := hl.settled p
  unfold graphOf at hagrees
  rw [hg] at hagrees
  exact hagrees.storedAs hl.sound.1.consistent

open Sample in
/-- After the analysis of two classes the graph with the link between them is published, and
the store has its image. -/
theorem Undisturbed.graph_storedAs_of_sample :
    ∃ g, ledger.published project.id = some g ∧ g.identifiers = ["A", "B"] ∧
      g.translatedLinks "B" = [("m", 0, some (StoreAccess.idOfNumber 1))] ∧
      g.StoredAs ledger.records.store project.id := by
  have hl : ledger.Undisturbed := .step .start step_ledger
  have hseen : (ledger.published project.id).map
      (fun g => (g.identifiers, g.translatedLinks "B")) =
        some (["A", "B"], [("m", 0, some (StoreAccess.idOfNumber 1))]) := by
    decide +kernel
  obtain ⟨g, hg, heq⟩ := Option.map_eq_some_iff.1 hseen
  obtain ⟨hnodes, hlinks⟩ := Prod.mk.inj heq
  exact ⟨g, hg, hnodes, hlinks, hl.graph_storedAs hg⟩

end Ledger

end CodeAtlas
