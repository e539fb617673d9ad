import CodeAtlas.Proofs.Graph.Written
import CodeAtlas.Proofs.Json.Reread
import CodeAtlas.Proofs.Record.Reloaded
import CodeAtlas.Proofs.State.Entries

/-!
# Saved states

The plain fields of a state are one text and its graph is another one. This file proves what is
loaded from a directory that has such texts, and that the steps of saving a state put them there:
the fields in any case, and the graph if the state has one.
-/

namespace CodeAtlas

/-- Whether a state's graph, if it has one, is the text of a graph. -/
def ProjectState.Graphical (s : ProjectState) : Prop :=
  ∀ text, s.graphText = some text → ∃ g : Graph, g.WellFormed ∧ text = g.toText

theorem Graph.WellFormed.unified_toText {g : Graph} (hg : g.WellFormed) :
    Text.unified g.toText = g.toText :=
  hg.plain_toJson.unified_pretty

theorem ProjectState.Graphical.unified {s : ProjectState} (h : s.Graphical) :
    s.graphText.map Text.unified = s.graphText := by
  cases hs : s.graphText with
  | none => rfl
  | some text =>
    obtain ⟨g, hg, rfl⟩ := h text hs
    exact congrArg some hg.unified_toText

namespace StateDirectory

variable {d : StateDirectory} {t t' : FileTree} {texts : String → Option String}

/-! ## Written fields -/

/-- The text of the plain fields of a state. -/
def fieldsText (s : ProjectState) (stats : Option Json) : String :=
  (metaJson s stats).pretty ++ "\n"

theorem plain_metaJson (s : ProjectState) {stats : Option Json} (hstats : ∀ v ∈ stats, v.Plain) :
    (metaJson s stats).Plain := by
  have hfixed : ∀ v ∈ [Json.string s.id, .string s.name, .string s.repoPath,
      Json.ofOption .string s.language, Json.ofOption .string s.anchor, .string s.status.name,
      Json.ofOption .string s.lastSyncedAt, Json.ofOption .string s.error, .string version],
      v.Plain := by
    simp [Json.plain_ofOption_string]
  unfold metaJson
  cases stats with
  | none => exact .object (by simp) fun f hf => hfixed f.2 (by simp at hf ⊢; grind)
  | some v =>
    refine .object (by simp) fun f hf => ?_
    rcases List.mem_append.1 hf with hf | hf
    · exact hfixed f.2 (by simp at hf ⊢; grind)
    · rw [List.mem_singleton.1 hf]
      exact hstats v rfl

/-- Written fields are read back. -/
theorem read_fieldsText (s : ProjectState) {stats : Option Json} (hstats : ∀ v ∈ stats, v.Plain) :
    Json.read (Text.unified (fieldsText s stats)) = .ok (metaJson s stats) := by
  have hplain := plain_metaJson s hstats
  have hreturn : '\r' ∉ (fieldsText s stats).toList := by
    rw [fieldsText, String.toList_append, Json.pretty, String.toList_ofList]
    simpa using hplain.return_not_mem 0
  rw [Text.unified_of_not_mem hreturn]
  exact hplain.read_pretty_append (by decide) (Json.delimited_newline 0 [])

/-- The fields of a state and a graph make the state with that graph. -/
theorem stateOf_metaJson (s : ProjectState) (stats : Option Json) (graphText : Option String) :
    stateOf (metaJson s stats) graphText = .ok { s with graphText := graphText } := by
  obtain ⟨id, name, repoPath, language, anchor, status, -, lastSyncedAt, error⟩ := s
  cases status <;> cases language <;> cases anchor <;> cases lastSyncedAt <;> cases error <;> rfl

/-! ## Loading -/

/-- What stands in a state directory is found there. -/
theorem Holds.target?_child (h : d.Holds t texts) {name : String} (hname : name ∈ names) :
    t.target? (d.path.child name) = d.entry? t name := by
  have hlocated : t.locate (d.path.child name) = .ok (d.place t ++ [name]) :=
    h.made.locate_child (ne_dots_of_mem_names hname) (h.entries name hname).not_link
  unfold FileTree.target?
  rw [hlocated]
  rfl

/-- The files of a state directory are its texts. -/
theorem Holds.isFile_child (h : d.Holds t texts) {name : String} (hname : name ∈ names) :
    t.isFile (d.path.child name) = (texts name).isSome := by
  have hentry := h.entries name hname
  unfold FileTree.isFile
  rw [h.target?_child hname]
  cases htext : texts name with
  | none =>
    rw [htext] at hentry
    rcases hentry with hnone | hdirectory
    · rw [hnone]
      rfl
    · rw [hdirectory]
      rfl
  | some s =>
    rw [htext] at hentry
    obtain ⟨tree, hfile⟩ := hentry
    rw [hfile]
    rfl

/-- A text that is kept is read but for its line breaks. -/
theorem Holds.readText_child (h : d.Holds t texts) {name s : String} (hname : name ∈ names)
    (hs : texts name = some s) : readText t (d.path.child name) = .ok (Text.unified s) := by
  have hentry := h.entries name hname
  have hlocated : t.locate (d.path.child name) = .ok (d.place t ++ [name]) :=
    h.made.locate_child (ne_dots_of_mem_names hname) hentry.not_link
  rw [hs] at hentry
  obtain ⟨tree, hfile⟩ := hentry
  have hnode : t.node? (d.place t ++ [name]) = some (.file s.toUTF8 tree) := hfile
  unfold readText FileTree.readBytes
  rw [hlocated]
  dsimp only
  rw [hnode]
  exact FileTree.decode_toUTF8 s

/-- What is loaded are the fields that are kept, with the graph that is kept. -/
theorem Holds.load_eq_some (h : d.Holds t texts) {s : ProjectState} {stats : Option Json}
    (hstats : ∀ v ∈ stats, v.Plain) (hfields : texts "meta.json" = some (fieldsText s stats)) :
    d.load t =
      .ok (some { s with graphText := (texts "graph.json").map Text.unified }) := by
  have hsaved : d.isSaved t = true := by
    rw [isSaved, metaPath, h.isFile_child (by decide), hfields]
    rfl
  have hread : d.readMeta t = .ok (metaJson s stats) := by
    unfold readMeta
    rw [hsaved, if_pos rfl]
    exact Outcome.bind_eq_ok.2
      ⟨_, h.readText_child (by decide) hfields, read_fieldsText s hstats⟩
  have hgraph : t.isFile d.graphPath = (texts "graph.json").isSome :=
    h.isFile_child (by decide)
  unfold load
  rw [hsaved, if_pos rfl]
  refine Outcome.bind_eq_ok.2 ⟨_, hread, ?_⟩
  dsimp only
  rw [hgraph]
  cases htext : texts "graph.json" with
  | none =>
    exact Outcome.bind_eq_ok.2
      ⟨none, rfl, Outcome.bind_eq_ok.2 ⟨_, stateOf_metaJson s stats none, rfl⟩⟩
  | some g =>
    have hread : readText t d.graphPath = .ok (Text.unified g) :=
      h.readText_child (by decide) htext
    rw [hread]
    exact Outcome.bind_eq_ok.2
      ⟨some (Text.unified g), rfl, Outcome.bind_eq_ok.2 ⟨_, stateOf_metaJson s stats _, rfl⟩⟩

/-! ## Saving -/

/-- Goes on with a step of saving unless an earlier one was refused. -/
def proceed (r : Outcome Unit × FileTree) (step : SaveStep) : Outcome Unit × FileTree :=
  match r.1 with
  | .error _ => r
  | .ok _ =>
    match step.apply r.2 with
    | .ok t => (.ok (), t)
    | .error e => (.error (.fileRefused e), r.2)

/-- Once its directory is there, saving is going through its steps. -/
theorem save_eq_foldl (h : t.makeDirectories d.path = .ok t') (s : ProjectState)
    (stats : Option Json) :
    d.save t s stats = (d.saveSteps s stats).foldl proceed (.ok (), t') := by
  unfold save
  rw [h]
  rfl

/-- After a refusal nothing is done any more. -/
theorem foldl_proceed_error (steps : List SaveStep) (f : Failure) (t : FileTree) :
    steps.foldl proceed (.error f, t) = (.error f, t) := by
  induction steps with
  | nil => rfl
  | cons step rest ih => exact ih

/-- Some of the steps of saving are done: all of them, or those before one that is refused. -/
theorem foldl_proceed (steps : List SaveStep) (t : FileTree) :
    ∃ done t', SaveStep.run (steps.take done) t = .ok t' ∧
      (steps.foldl proceed (.ok (), t) = (.ok (), t') ∧ done = steps.length ∨
        ∃ step e, steps[done]? = some step ∧ step.apply t' = .error e ∧
          steps.foldl proceed (.ok (), t) = (.error (.fileRefused e), t')) := by
  induction steps generalizing t with
  | nil => exact ⟨0, t, rfl, Or.inl ⟨rfl, rfl⟩⟩
  | cons step rest ih =>
    rw [List.foldl_cons, proceed]
    dsimp only
    cases hstep : step.apply t with
    | ok t₁ =>
      obtain ⟨done, t', hrun, hend⟩ := ih t₁
      refine ⟨done + 1, t', ?_, ?_⟩
      · rw [List.take_succ_cons, SaveStep.run, List.foldlM_cons, hstep]
        exact hrun
      · rcases hend with ⟨hfold, hlength⟩ | hrefused
        · exact Or.inl ⟨hfold, by rw [hlength, List.length_cons]⟩
        · exact Or.inr hrefused
    | error e =>
      exact ⟨0, t, rfl, Or.inr ⟨step, e, rfl, hstep, foldl_proceed_error rest _ t⟩⟩

/-- Where all steps can be done, all of them are. -/
theorem foldl_proceed_of_run {steps : List SaveStep} (h : SaveStep.run steps t = .ok t') :
    steps.foldl proceed (.ok (), t) = (.ok (), t') := by
  obtain ⟨done, t₁, htake, ⟨hfold, rfl⟩ | ⟨step, e, hstep, hrefused, -⟩⟩ := foldl_proceed steps t
  · rw [List.take_length, h] at htake
    cases htake
    exact hfold
  · obtain ⟨t₂, hnext⟩ := SaveStep.exists_run_take h (done + 1)
    rw [List.take_add_one, hstep, SaveStep.run_append, htake] at hnext
    change (step.apply t₁ >>= pure) = _ at hnext
    rw [hrefused] at hnext
    cases hnext

theorem saveSteps_of_none {s : ProjectState} (hs : s.graphText = none) (stats : Option Json) :
    d.saveSteps s stats = replaceFile (d.path.child "meta.json") (fieldsText s stats) := by
  unfold saveSteps
  rw [hs]
  rfl

theorem saveSteps_of_some {s : ProjectState} {g : String} (hs : s.graphText = some g)
    (stats : Option Json) : d.saveSteps s stats =
      replaceFile (d.path.child "graph.json") g ++
        replaceFile (d.path.child "meta.json") (fieldsText s stats) := by
  unfold saveSteps
  rw [hs]
  rfl

theorem within_saveSteps (s : ProjectState) (stats : Option Json) :
    ∀ step ∈ d.saveSteps s stats, step.Within d := by
  intro step hstep
  cases hs : s.graphText with
  | none =>
    rw [saveSteps_of_none hs] at hstep
    exact within_replaceFile (by decide) _ step hstep
  | some g =>
    rw [saveSteps_of_some hs] at hstep
    rcases List.mem_append.1 hstep with hgraph | hfields
    · exact within_replaceFile (by decide) g step hgraph
    · exact within_replaceFile (by decide) _ step hfields

/-- The texts after all steps of saving a state: its fields, and its graph if it has one. -/
theorem onTexts_saveSteps (s : ProjectState) (stats : Option Json)
    (texts : String → Option String) :
    let after := (d.saveSteps s stats).foldl SaveStep.onTexts texts
    after "meta.json" = some (fieldsText s stats) ∧
      after "graph.json" = s.graphText.or (texts "graph.json") ∧
      after "records.json" = texts "records.json" := by
  cases hs : s.graphText with
  | none => simp [saveSteps_of_none hs, onTexts_replaceFile]
  | some g => simp [saveSteps_of_some hs, onTexts_replaceFile]

/-- Where no directory stands in the way all steps of saving can be done. -/
theorem Holds.exists_saveSteps (h : d.Holds t texts) (hfree : d.Unobstructed t) (s : ProjectState)
    (stats : Option Json) : ∃ t', SaveStep.run (d.saveSteps s stats) t = .ok t' := by
  cases hs : s.graphText with
  | none =>
    rw [saveSteps_of_none hs]
    exact h.exists_replaceFile hfree (by decide) _
  | some g =>
    obtain ⟨t₁, hgraph⟩ := h.exists_replaceFile hfree (by decide : "graph.json" ∈ drafted) g
    obtain ⟨h₁, hfree₁, -⟩ := h.run (within_replaceFile (by decide) g) hgraph
    rw [saveSteps_of_some hs, SaveStep.run_append, hgraph]
    exact h₁.exists_replaceFile (hfree₁ hfree) (by decide) _

/-- A state is saved where no directory stands in the way. -/
theorem Holds.save {t₁ : FileTree} (h : d.Holds t₁ texts) (hfree : d.Unobstructed t₁)
    (hmade : t.makeDirectories d.path = .ok t₁) (s : ProjectState) (stats : Option Json) :
    ∃ t', d.save t s stats = (.ok (), t') ∧ d.Unobstructed t' ∧
      d.Holds t' ((d.saveSteps s stats).foldl SaveStep.onTexts texts) := by
  obtain ⟨t', hrun⟩ := h.exists_saveSteps hfree s stats
  obtain ⟨hholds, hfree', -⟩ := h.run (within_saveSteps s stats) hrun
  exact ⟨t', (save_eq_foldl hmade s stats).trans (foldl_proceed_of_run hrun), hfree' hfree, hholds⟩

end StateDirectory

end CodeAtlas
