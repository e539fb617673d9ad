import CodeAtlas.Proofs.State.Remembered

/-!
# Saving cut short

Each file of a saved state is replaced in one step, but the two are replaced one after the other.
This file proves what is loaded when the saving of a state is cut short after any number of its
steps: the former state, then the former fields with the new graph, and only at the end the new
state.
-/

namespace CodeAtlas.StateDirectory

variable {d : StateDirectory} {t t' : FileTree} {texts : String → Option String}

/-- The texts after some of the steps of saving a state with a graph: the second step puts the
graph in place, the fourth one the fields. No step touches the records. -/
theorem onTexts_take_saveSteps {s : ProjectState} {g : String} (hs : s.graphText = some g)
    (stats : Option Json) (texts : String → Option String) (done : Nat) :
    let after := ((d.saveSteps s stats).take done).foldl SaveStep.onTexts texts
    (after "graph.json" = if done ≤ 1 then texts "graph.json" else some g) ∧
      (after "meta.json" = if done ≤ 3 then texts "meta.json" else some (fieldsText s stats)) ∧
      after "records.json" = texts "records.json" := by
  rw [saveSteps_of_some hs]
  simp only [replaceFile, draftOf_child]
  match done with
  | 0 => simp
  | 1 => simp [SaveStep.onTexts]
  | 2 => simp [SaveStep.onTexts]
  | 3 => simp [SaveStep.onTexts]
  | done + 4 => simp [SaveStep.onTexts]

/-- What is loaded after some of the steps of saving a state. -/
def loadedAfter (done : Nat) (s₁ s₂ : ProjectState) : ProjectState :=
  if done ≤ 1 then s₁ else if done ≤ 3 then { s₁ with graphText := s₂.graphText } else s₂

/-- The texts of a directory that remembers a state with a graph. -/
theorem Remembers.exists_texts {kept : List ProjectState} (h : d.Remembers t kept)
    {s : ProjectState} {g : String} (hlast : kept.getLast? = some s) (hg : s.graphText = some g) :
    ∃ texts stats, d.Holds t texts ∧ (∀ v ∈ stats, v.Plain) ∧
      texts "meta.json" = some (fieldsText s stats) ∧ texts "graph.json" = s.graphText := by
  rcases h.texts with ⟨rfl, -⟩ | ⟨texts, r, stats, hholds, hr, hstats, hfields, hgraph⟩
  · cases hlast
  obtain rfl : r = s := Option.some.inj (hr.symm.trans hlast)
  obtain ⟨before, rfl⟩ := List.getLast?_eq_some_iff.1 hr
  refine ⟨texts, stats, hholds, hstats, hfields, ?_⟩
  rw [hgraph, lastGraph_concat, hg, Option.some_or]

/-- A directory that remembers a state with a graph, after some of the steps of saving another
one. -/
theorem Remembers.exists_run_take {kept : List ProjectState} (h : d.Remembers t kept)
    {s₁ s₂ : ProjectState} {g₁ g₂ : String} (hlast : kept.getLast? = some s₁)
    (hg₁ : s₁.graphText = some g₁) (hg₂ : s₂.graphText = some g₂) {stats : Option Json}
    (hsave : (StateCall.save s₂ stats).Writable) (done : Nat) :
    ∃ t', SaveStep.run ((d.saveSteps s₂ stats).take done) t = .ok t' ∧
      d.load t' = .ok (some (loadedAfter done s₁ s₂)) := by
  obtain ⟨hgraphical₂, hstats⟩ := hsave
  obtain ⟨texts, stats₁, hholds, hstats₁, hfields, hgraph⟩ := h.exists_texts hlast hg₁
  have hunified₁ := (h.graphical s₁ (List.mem_of_getLast? hlast)).unified
  have hunified₂ := hgraphical₂.unified
  obtain ⟨tₙ, hall⟩ := hholds.exists_saveSteps h.unobstructed s₂ stats
  obtain ⟨t', htake⟩ := SaveStep.exists_run_take hall done
  have hwithin : ∀ step ∈ (d.saveSteps s₂ stats).take done, step.Within d := fun step hstep =>
    within_saveSteps s₂ stats step (List.mem_of_mem_take hstep)
  obtain ⟨hholds', -, -⟩ := hholds.run hwithin htake
  obtain ⟨hgraph', hfields', -⟩ := onTexts_take_saveSteps (d := d) hg₂ stats texts done
  refine ⟨t', htake, ?_⟩
  unfold loadedAfter
  by_cases hgraphDone : done ≤ 1
  · rw [if_pos hgraphDone, hgraph] at hgraph'
    rw [if_pos (by omega), hfields] at hfields'
    rw [if_pos hgraphDone, hholds'.load_eq_some hstats₁ hfields', hgraph', hunified₁]
  rw [if_neg hgraphDone, ← hg₂] at hgraph'
  rw [if_neg hgraphDone]
  by_cases hfieldsDone : done ≤ 3
  · rw [if_pos hfieldsDone, hfields] at hfields'
    rw [if_pos hfieldsDone, hholds'.load_eq_some hstats₁ hfields', hgraph', hunified₂]
  · rw [if_neg hfieldsDone] at hfields'
    rw [if_neg hfieldsDone, hholds'.load_eq_some hstats hfields', hgraph', hunified₂]

/-- The saving of a state in place of another one, both with graphs, may be cut short after any
number of its steps. Before the second step the former state is loaded, from then on its fields
with the new graph, and after the fourth and last step the new state. So one of the two states is
loaded after every number of steps exactly if their graphs are the same or nothing but their
graphs is different. -/
theorem load_of_interrupted {t₀ : FileTree} (h : d.Vacant t₀) {calls : List StateCall}
    (hcalls : ∀ call ∈ calls, call.Writable)
    (hrun : calls.foldlM (StateCall.perform d) t₀ = .ok t) {s₁ s₂ : ProjectState}
    (hlast : (StateCall.kept calls).getLast? = some s₁) (hgraph₁ : s₁.graphText ≠ none)
    (hgraph₂ : s₂.graphText ≠ none) {stats : Option Json}
    (hsave : (StateCall.save s₂ stats).Writable) :
    (∃ t', SaveStep.run (d.saveSteps s₂ stats) t = .ok t' ∧ d.save t s₂ stats = (.ok (), t')) ∧
      (∀ done, ∃ t', SaveStep.run ((d.saveSteps s₂ stats).take done) t = .ok t' ∧
        d.load t' = .ok (some (if done ≤ 1 then s₁
          else if done ≤ 3 then { s₁ with graphText := s₂.graphText } else s₂))) ∧
      ((∀ done t', SaveStep.run ((d.saveSteps s₂ stats).take done) t = .ok t' →
          d.load t' = .ok (some s₁) ∨ d.load t' = .ok (some s₂)) ↔
        s₂.graphText = s₁.graphText ∨ { s₁ with graphText := s₂.graphText } = s₂) := by
  obtain ⟨g₁, hg₁⟩ := Option.ne_none_iff_exists'.1 hgraph₁
  obtain ⟨g₂, hg₂⟩ := Option.ne_none_iff_exists'.1 hgraph₂
  have hstart : d.Remembers t₀ [] := ⟨h.unobstructed, nofun, Or.inl ⟨rfl, h⟩⟩
  obtain ⟨_, hrun', hafter⟩ := hstart.run hcalls
  obtain rfl := Except.ok.inj (hrun'.symm.trans hrun)
  have hcut := hafter.exists_run_take hlast hg₁ hg₂ hsave
  refine ⟨?_, hcut, fun hone => ?_, fun hsame done t' htake => ?_⟩
  · obtain ⟨texts, -, hholds, -⟩ := hafter.exists_texts hlast hg₁
    obtain ⟨t', hall⟩ := hholds.exists_saveSteps hafter.unobstructed s₂ stats
    exact ⟨t', hall, (save_eq_foldl hholds.made.makeDirectories_eq s₂ stats).trans
      (foldl_proceed_of_run hall)⟩
  · -- between the second and the third step the two are mixed
    obtain ⟨t', htake, hload⟩ := hcut 2
    have hloaded := hone 2 t' htake
    rw [hload] at hloaded
    rcases hloaded with hformer | hnew
    · have hmixed : ({ s₁ with graphText := s₂.graphText } : ProjectState) = s₁ :=
        Option.some.inj (Except.ok.inj hformer)
      have hgraph := congrArg ProjectState.graphText hmixed
      exact Or.inl hgraph
    · exact Or.inr (Option.some.inj (Except.ok.inj hnew))
  · obtain ⟨t₁, htake', hload⟩ := hcut done
    obtain rfl := Except.ok.inj (htake'.symm.trans htake)
    rw [hload]
    unfold loadedAfter
    split
    · exact Or.inl rfl
    split
    · rcases hsame with hgraph | hmixed
      · exact Or.inl (by rw [hgraph])
      · exact Or.inr (by rw [hmixed])
    · exact Or.inr rfl

/-! ## A new graph under former fields -/

namespace Sample

/-- The graph of one file. -/
def grownGraph : Graph := Graph.empty.addNode "a" "a.go"

/-- The project after a run at the next commit, which found a file. -/
def grownShop : ProjectState := readyShop.advance "later" (some "c2") grownGraph.toText

theorem graphical_grownShop : grownShop.Graphical := fun _ htext =>
  ⟨grownGraph, Graph.WellFormed.of_empty.addNode "a" "a.go", (Option.some.inj htext).symm⟩

theorem writable_readyShop : ∀ call ∈ [.save readyShop none], StateCall.Writable call := by
  simp only [List.mem_singleton, forall_eq]
  exact ⟨graphical_readyShop, nofun⟩

/-- A state has been saved. -/
theorem exists_saved : ∃ t, [.save readyShop none].foldlM (StateCall.perform directory) .empty =
    .ok t ∧ directory.Remembers t [readyShop] := by
  have hstart : directory.Remembers .empty [] :=
    ⟨vacant_directory.unobstructed, nofun, Or.inl ⟨rfl, vacant_directory⟩⟩
  exact hstart.run writable_readyShop

end Sample

open Sample in
/-- The state of the next commit is saved in place of the former one, and all of it is loaded in
the end. -/
theorem load_of_interrupted_of_growing :
    directory.Vacant .empty ∧ (∀ call ∈ [.save readyShop none], StateCall.Writable call) ∧
      readyShop.graphText ≠ none ∧ grownShop.graphText ≠ none ∧
      (StateCall.save grownShop none).Writable ∧
      ∃ t, [.save readyShop none].foldlM (StateCall.perform directory) .empty = .ok t ∧
        ∃ t', SaveStep.run ((directory.saveSteps grownShop none).take 4) t = .ok t' ∧
          directory.load t' = .ok (some grownShop) := by
  have hgrown : (StateCall.save grownShop none).Writable := ⟨graphical_grownShop, nofun⟩
  obtain ⟨t, hrun, -⟩ := exists_saved
  have hready : readyShop.graphText ≠ none := Option.some_ne_none _
  have hgraph : grownShop.graphText ≠ none := Option.some_ne_none _
  obtain ⟨-, hcut, -⟩ :=
    load_of_interrupted vacant_directory writable_readyShop hrun rfl hready hgraph hgrown
  exact ⟨vacant_directory, writable_readyShop, hready, hgraph, hgrown, t, hrun, hcut 4⟩

open Sample in
/-- After two of the four steps the anchor of the former commit is loaded with the graph of the
next one, which is neither of the two states. -/
theorem load_mixed_state :
    ∃ t t', [.save readyShop none].foldlM (StateCall.perform directory) .empty = .ok t ∧
      SaveStep.run ((directory.saveSteps grownShop none).take 2) t = .ok t' ∧
      directory.load t' = .ok (some { readyShop with graphText := grownShop.graphText }) ∧
      directory.load t' ≠ .ok (some readyShop) ∧ directory.load t' ≠ .ok (some grownShop) := by
  obtain ⟨t, hrun, hafter⟩ := exists_saved
  have hgrown : (StateCall.save grownShop none).Writable := ⟨graphical_grownShop, nofun⟩
  obtain ⟨t', htake, hload⟩ := hafter.exists_run_take rfl rfl rfl hgrown 2
  have hmixed : directory.load t' =
      .ok (some { readyShop with graphText := grownShop.graphText }) := hload
  refine ⟨t, t', hrun, htake, hmixed, fun heq => ?_, fun heq => ?_⟩
  · have hstate := Option.some.inj (Except.ok.inj (hmixed.symm.trans heq))
    have hgraph := congrArg ProjectState.graphText hstate
    exact absurd hgraph (by decide +kernel)
  · have hstate := Option.some.inj (Except.ok.inj (hmixed.symm.trans heq))
    have hanchor := congrArg ProjectState.anchor hstate
    exact absurd hanchor (by decide)

end CodeAtlas.StateDirectory
