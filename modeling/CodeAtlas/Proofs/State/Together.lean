import CodeAtlas.Proofs.State.Interrupted

/-!
# Records saved with a state

A state directory also has the records of its project, and these are saved before the state. This
file proves what is loaded from it when the saving of both stops after any number of steps: the
former records and state, then the new records with the former state, then with its fields and the
new graph, and only at the end with the new state.
-/

namespace CodeAtlas

/-! ## Saved records -/

theorem RecordStore.Indexed.ofText?_toText {r : RecordStore} (hr : r.Indexed) :
    ofText? (some (Text.unified r.toText)) = .ok r.compacted := by
  have hreturn : '\r' ∉ r.toText.toList := by
    rw [toText, String.toList_append, Json.pretty, String.toList_ofList]
    simpa using r.plain_toJson.return_not_mem 0
  have hread : Json.read r.toText = .ok r.toJson :=
    r.plain_toJson.read_pretty_append rfl (Json.delimited_newline 0 [])
  rw [Text.unified_of_not_mem hreturn]
  exact Outcome.bind_eq_ok.2 ⟨r.toJson, hread, hr.ofJson_toJson⟩

namespace StateDirectory

variable {d : StateDirectory} {t t' : FileTree} {texts : String → Option String}

/-- The records that a state directory keeps; without a file there are none. -/
def storedRecords (d : StateDirectory) (t : FileTree) : Outcome RecordStore :=
  if t.isFile d.recordsPath then do
    RecordStore.ofText? (some (← readText t d.recordsPath))
  else RecordStore.ofText? none

theorem Holds.storedRecords (h : d.Holds t texts) :
    d.storedRecords t = RecordStore.ofText? ((texts "records.json").map Text.unified) := by
  have hfile : t.isFile d.recordsPath = (texts "records.json").isSome := h.isFile_child (by decide)
  unfold StateDirectory.storedRecords
  rw [hfile]
  cases htext : texts "records.json" with
  | none => rfl
  | some s =>
    have hread : readText t d.recordsPath = .ok (Text.unified s) :=
      h.readText_child (by decide) htext
    rw [hread, Option.isSome_some, if_pos rfl, Option.map_some]
    simp only [bind, Except.bind]

/-- A state directory with a saved project: its state, as states are saved, and its records. -/
structure Saved (d : StateDirectory) (t : FileTree) (s : ProjectState)
    (r : RecordStore) : Prop where
  texts : ∃ texts stats, d.Holds t texts ∧ (∀ v ∈ stats, v.Plain) ∧
    texts "meta.json" = some (fieldsText s stats) ∧ texts "graph.json" = s.graphText
  graphical : s.Graphical
  records : d.storedRecords t = .ok r

theorem Saved.load {s : ProjectState} {r : RecordStore} (h : d.Saved t s r) :
    d.load t = .ok (some s) := by
  obtain ⟨texts, stats, hholds, hstats, hfields, hgraph⟩ := h.texts
  rw [hholds.load_eq_some hstats hfields, hgraph, h.graphical.unified]

/-- The steps of saving records and a state. -/
def allSteps (d : StateDirectory) (r : RecordStore) (s : ProjectState) (sizes : Option Json) :
    List SaveStep :=
  .write d.recordsPath r.toText :: d.saveSteps s sizes

theorem within_allSteps (r : RecordStore) (s : ProjectState) (sizes : Option Json) :
    ∀ step ∈ d.allSteps r s sizes, step.Within d := by
  intro step hstep
  rcases List.mem_cons.1 hstep with rfl | hstep
  · exact ⟨"records.json", by decide, rfl⟩
  · exact within_saveSteps s sizes step hstep

/-- The texts after some of these steps: the first one writes the records, the third one puts the
graph in place and the fifth one the fields. -/
theorem onTexts_take_allSteps {s : ProjectState} {g : String} (hs : s.graphText = some g)
    (r : RecordStore) (sizes : Option Json) (texts : String → Option String) (done : Nat) :
    let after := ((d.allSteps r s sizes).take done).foldl SaveStep.onTexts texts
    (after "records.json" = if done = 0 then texts "records.json" else some r.toText) ∧
      (after "graph.json" = if done ≤ 2 then texts "graph.json" else some g) ∧
      after "meta.json" = if done ≤ 4 then texts "meta.json" else some (fieldsText s sizes) := by
  cases done with
  | zero => exact ⟨rfl, rfl, rfl⟩
  | succ done =>
    have hwritten : (SaveStep.write d.recordsPath r.toText).onTexts texts =
        Function.update texts "records.json" (some r.toText) := by
      rw [SaveStep.onTexts, recordsPath, Path.name_child]
    obtain ⟨hgraph, hfields, hrecords⟩ := onTexts_take_saveSteps (d := d) hs sizes
      (Function.update texts "records.json" (some r.toText)) done
    unfold allSteps
    dsimp only
    rw [List.take_succ_cons, List.foldl_cons, hwritten, hrecords, hgraph, hfields]
    refine ⟨?_, ?_, ?_⟩
    · rw [Function.update_self, if_neg done.succ_ne_zero]
    · rw [Function.update_of_ne (by decide)]
      exact if_congr Nat.succ_le_succ_iff.symm rfl rfl
    · rw [Function.update_of_ne (by decide)]
      exact if_congr Nat.succ_le_succ_iff.symm rfl rfl

/-- A state directory with a saved project, after some of the steps of saving its next state. -/
theorem Saved.after {s₀ s₁ : ProjectState} {r₀ r₁ : RecordStore} (h : d.Saved t s₀ r₀) {g : Graph}
    (hg : g.WellFormed) (hs₁ : s₁.graphText = some g.toText) (hr₁ : r₁.Indexed)
    {sizes : Option Json} (hsizes : ∀ v ∈ sizes, v.Plain) {done : Nat}
    (hrun : SaveStep.run ((d.allSteps r₁ s₁ sizes).take done) t = .ok t') :
    d.storedRecords t' = .ok (if done = 0 then r₀ else r₁.compacted) ∧
      d.load t' = .ok (some (if done ≤ 2 then s₀
        else if done ≤ 4 then { s₀ with graphText := s₁.graphText } else s₁)) := by
  obtain ⟨texts, stats, hholds, hstats, hfields, hgraph⟩ := h.texts
  have hwithin : ∀ step ∈ (d.allSteps r₁ s₁ sizes).take done, step.Within d := fun step hstep =>
    within_allSteps r₁ s₁ sizes step (List.mem_of_mem_take hstep)
  obtain ⟨hholds', -, -⟩ := hholds.run hwithin hrun
  obtain ⟨hrecords', hgraph', hfields'⟩ := onTexts_take_allSteps (d := d) hs₁ r₁ sizes texts done
  have hunified₀ : s₀.graphText.map Text.unified = s₀.graphText := h.graphical.unified
  have hunified₁ : (some g.toText).map Text.unified = some g.toText :=
    congrArg some hg.unified_toText
  constructor
  · rw [hholds'.storedRecords, hrecords']
    split
    · rw [← hholds.storedRecords, h.records]
    · exact hr₁.ofText?_toText
  · by_cases hfieldsDone : done ≤ 4
    · rw [if_pos hfieldsDone, hfields] at hfields'
      rw [hholds'.load_eq_some hstats hfields', hgraph', hgraph]
      by_cases hgraphDone : done ≤ 2
      · rw [if_pos hgraphDone, if_pos hgraphDone, hunified₀]
      · rw [if_neg hgraphDone, if_neg hgraphDone, if_pos hfieldsDone, hunified₁, hs₁]
    · rw [if_neg hfieldsDone] at hfields'
      have hgraphDone : ¬done ≤ 2 := by omega
      rw [hholds'.load_eq_some hsizes hfields', hgraph', if_neg hgraphDone, if_neg hgraphDone,
        if_neg hfieldsDone, hunified₁, ← hs₁]

end StateDirectory

end CodeAtlas
