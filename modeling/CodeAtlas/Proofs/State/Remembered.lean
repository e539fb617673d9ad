import CodeAtlas.Proofs.State.Saved

/-!
# What is loaded after saving

Saving a state without a graph leaves the graph of an earlier one in place. This file proves what
is loaded after any history of saves and clearings: the fields of the last state that was saved
since the directory was last cleared, with the graph of the last such state that had one.
-/

namespace CodeAtlas

namespace StateDirectory

variable {d : StateDirectory} {t t' : FileTree} {texts : String → Option String}

/-! ## Directories without a saved state -/

/-- Whether a state directory has none of the files of a saved state. It need not be there. -/
structure Vacant (d : StateDirectory) (t : FileTree) : Prop where
  makeable : t.Makeable (d.place t)
  entries : ∀ name ∈ names, d.entry? t name = none

theorem Vacant.unobstructed (h : d.Vacant t) : d.Unobstructed t := fun name hname heq => by
  rw [h.entries name hname] at heq
  cases heq

/-- Where nothing is saved nothing is loaded. -/
theorem Vacant.load_eq_none (h : d.Vacant t) : d.load t = .ok none := by
  have hentry : d.entry? t "meta.json" = none := h.entries _ (by decide)
  have hstraight : t.Straight (t.origin d.path ++ d.path.parts ++ ["meta.json"]) :=
    h.makeable.straight.concat (by decide) fun target heq => by
      rw [show t.node? _ = none from hentry] at heq
      cases heq
  have hsaved : d.isSaved t = false := by
    unfold isSaved FileTree.isFile FileTree.target?
    cases hlocated : t.locate d.metaPath with
    | error kind => rfl
    | ok q =>
      have hq : q = d.place t ++ ["meta.json"] := by
        rw [List.append_assoc] at hstraight
        exact (hstraight.eq_of_locate hlocated).trans (List.append_assoc ..).symm
      have hnode : t.node? q = none := hq ▸ hentry
      dsimp only
      rw [hnode]
  unfold load
  rw [hsaved]
  rfl

/-- The directory is made when a state is saved. -/
theorem Vacant.exists_makeDirectories (h : d.Vacant t) :
    ∃ t', t.makeDirectories d.path = .ok t' ∧ d.Holds t' (fun _ => none) ∧ d.Unobstructed t' := by
  obtain ⟨t', hrun, hworking, hmade, hrest⟩ := h.makeable.makeDirectories
  have hplace : d.place t' = d.place t := by
    unfold place FileTree.origin
    rw [hworking]
  have hentry : ∀ name ∈ names, d.entry? t' name = none := fun name hname => by
    have hbelow : ¬d.place t ++ [name] <+: d.place t := fun hprefix => by
      have hlength := hprefix.length_le
      rw [List.length_append, List.length_singleton] at hlength
      omega
    unfold entry?
    rw [hplace, hrest _ hbelow]
    exact h.entries name hname
  have hmade' : t'.Made (d.place t') := by
    rw [hplace]
    exact hmade
  exact ⟨t', hrun, ⟨hmade', fun name hname => Or.inl (hentry name hname)⟩,
    fun name hname heq => by
      rw [hentry name hname] at heq
      cases heq⟩

theorem vacant_removeTree (h : t.Makeable (d.place t)) : d.Vacant (t.removeTree (d.place t)) := by
  refine ⟨⟨h.names, fun parts hparts => ?_⟩, fun name hname => ?_⟩
  · by_cases hroot : parts = []
    · rw [hroot]
      exact Or.inr rfl
    · rw [FileTree.node?_removeTree t hroot]
      split
      · exact Or.inl rfl
      · exact h.nodes parts hparts
  · have hbelow : (d.place t).isPrefixOf (d.place t ++ [name]) = true :=
      List.isPrefixOf_iff_prefix.2 (List.prefix_append ..)
    have hroot : d.place t ++ [name] ≠ [] := by simp
    exact (FileTree.node?_removeTree t hroot).trans (if_pos hbelow)

/-- Clearing leaves nothing, whether something has been saved or not. -/
theorem exists_clear (h : d.Vacant t ∨ ∃ texts, d.Holds t texts) :
    ∃ t', d.clear t = .ok t' ∧ d.Vacant t' := by
  have hmakeable : t.Makeable (d.place t) := by
    rcases h with hvacant | ⟨texts, hholds⟩
    · exact hvacant.makeable
    · exact hholds.made.makeable
  unfold clear
  cases hlocated : t.locate d.path with
  | error kind =>
    rcases h with hvacant | ⟨texts, hholds⟩
    · exact ⟨t, rfl, hvacant⟩
    · have hfound : t.locate d.path = .ok (d.place t) := hholds.made.locate_eq
      rw [hfound] at hlocated
      cases hlocated
  | ok parts =>
    obtain rfl : parts = d.place t := hmakeable.straight.eq_of_locate hlocated
    have htarget : t.target? d.path = t.node? (d.place t) := by
      unfold FileTree.target?
      rw [hlocated]
    unfold FileTree.isDirectory FileTree.pathExists
    rw [htarget]
    rcases hmakeable.nodes _ List.prefix_rfl with hnone | hdirectory
    · rw [hnone]
      rcases h with hvacant | ⟨texts, hholds⟩
      · exact ⟨t, rfl, hvacant⟩
      · rw [hholds.made.directories _ List.prefix_rfl] at hnone
        cases hnone
    · rw [hdirectory]
      exact ⟨_, rfl, vacant_removeTree hmakeable⟩

end StateDirectory

/-! ## Histories -/

/-- A call that changes what is saved. -/
inductive StateCall where
  /-- Saves a state, with the sizes of its graph if they are given. -/
  | save (s : ProjectState) (stats : Option Json)
  /-- Removes all that is saved. -/
  | clear

namespace StateCall

/-- The files after a call. -/
def perform (d : StateDirectory) (t : FileTree) : StateCall → Outcome FileTree
  | .save s stats =>
    match d.save t s stats with
    | (.ok _, t) => .ok t
    | (.error f, _) => .error f
  | .clear => d.clear t

/-- The states that have been saved since the last clearing, after one more call. -/
def onKept (kept : List ProjectState) : StateCall → List ProjectState
  | .save s _ => kept ++ [s]
  | .clear => []

/-- The states that have been saved since the last clearing. -/
def kept (calls : List StateCall) : List ProjectState := calls.foldl onKept []

/-- Whether what a call saves can be written: graphs as graphs are written, and sizes as JSON. -/
def Writable : StateCall → Prop
  | .save s stats => s.Graphical ∧ ∀ v ∈ stats, v.Plain
  | .clear => True

end StateCall

namespace StateDirectory

variable {d : StateDirectory} {t t' : FileTree} {kept : List ProjectState}

/-- The graph of the last state that had one. -/
def lastGraph (kept : List ProjectState) : Option String :=
  (kept.filterMap (·.graphText)).getLast?

theorem lastGraph_concat (kept : List ProjectState) (s : ProjectState) :
    lastGraph (kept ++ [s]) = s.graphText.or (lastGraph kept) := by
  unfold lastGraph
  rw [List.filterMap_append, List.getLast?_append]
  cases hs : s.graphText with
  | none => simp [hs]
  | some g => simp [hs]

/-- What a state directory has after some states have been saved since it was last cleared: the
fields of the last one and the last graph. -/
structure Remembers (d : StateDirectory) (t : FileTree) (kept : List ProjectState) : Prop where
  unobstructed : d.Unobstructed t
  graphical : ∀ s ∈ kept, s.Graphical
  texts : kept = [] ∧ d.Vacant t ∨ ∃ texts s stats, d.Holds t texts ∧ kept.getLast? = some s ∧
    (∀ v ∈ stats, v.Plain) ∧ texts "meta.json" = some (fieldsText s stats) ∧
    texts "graph.json" = lastGraph kept

/-- A call is done, and what it saves is what is remembered then. -/
theorem Remembers.perform (h : d.Remembers t kept) {call : StateCall} (hcall : call.Writable) :
    ∃ t', call.perform d t = .ok t' ∧ d.Remembers t' (call.onKept kept) := by
  cases call with
  | clear =>
    have hcleared : d.Vacant t ∨ ∃ texts, d.Holds t texts := by
      rcases h.texts with ⟨-, hvacant⟩ | ⟨texts, -, -, hholds, -⟩
      · exact Or.inl hvacant
      · exact Or.inr ⟨texts, hholds⟩
    obtain ⟨t', hrun, hvacant⟩ := exists_clear hcleared
    exact ⟨t', hrun, hvacant.unobstructed, nofun, Or.inl ⟨rfl, hvacant⟩⟩
  | save s stats =>
    obtain ⟨hgraphical, hstats⟩ := hcall
    have hready : ∃ t₁ texts, t.makeDirectories d.path = .ok t₁ ∧ d.Holds t₁ texts ∧
        d.Unobstructed t₁ ∧ texts "graph.json" = lastGraph kept := by
      rcases h.texts with ⟨rfl, hvacant⟩ | ⟨texts, -, -, hholds, -, -, -, hgraph⟩
      · obtain ⟨t₁, hmade, hholds, hfree⟩ := hvacant.exists_makeDirectories
        exact ⟨t₁, _, hmade, hholds, hfree, rfl⟩
      · exact ⟨t, texts, hholds.made.makeDirectories_eq, hholds, h.unobstructed, hgraph⟩
    obtain ⟨t₁, texts, hmade, hholds, hfree, hgraph⟩ := hready
    obtain ⟨t', hsave, hfree', hholds'⟩ := hholds.save hfree hmade s stats
    obtain ⟨hfields', hgraph', -⟩ := onTexts_saveSteps (d := d) s stats texts
    refine ⟨t', ?_, hfree', fun r hr => ?_, Or.inr
      ⟨_, s, stats, hholds', List.getLast?_concat, hstats, hfields', ?_⟩⟩
    · simp only [StateCall.perform, hsave]
    · rcases List.mem_append.1 hr with hr | hr
      · exact h.graphical r hr
      · rwa [List.mem_singleton.1 hr]
    · rw [hgraph', hgraph]
      exact (lastGraph_concat kept s).symm

/-- After any calls the directory has what the last ones saved. -/
theorem Remembers.run (h : d.Remembers t kept) {calls : List StateCall}
    (hcalls : ∀ call ∈ calls, call.Writable) :
    ∃ t', calls.foldlM (StateCall.perform d) t = .ok t' ∧
      d.Remembers t' (calls.foldl StateCall.onKept kept) := by
  induction calls generalizing t kept with
  | nil => exact ⟨t, rfl, h⟩
  | cons call rest ih =>
    obtain ⟨t₁, hrun, h₁⟩ := h.perform (hcalls call (List.mem_cons_self ..))
    obtain ⟨t', hrest, h'⟩ := ih h₁ fun c hc => hcalls c (List.mem_cons_of_mem _ hc)
    exact ⟨t', by rw [List.foldlM_cons, hrun]; exact hrest, h'⟩

/-- What is loaded are the fields of the last state, with the last graph. -/
theorem Remembers.load (h : d.Remembers t kept) : d.load t =
    .ok (kept.getLast?.map fun s => { s with graphText := lastGraph kept }) := by
  rcases h.texts with ⟨rfl, hvacant⟩ | ⟨texts, s, stats, hholds, hlast, hstats, hfields, hgraph⟩
  · exact hvacant.load_eq_none
  · have hunified : (lastGraph kept).map Text.unified = lastGraph kept := by
      cases hfound : lastGraph kept with
      | none => rfl
      | some g =>
        obtain ⟨r, hr, hg⟩ := List.mem_filterMap.1 (List.mem_of_getLast? hfound)
        have hr' := (h.graphical r hr).unified
        rwa [hg] at hr'
    rw [hholds.load_eq_some hstats hfields, hgraph, hunified, hlast]
    rfl

/-- That is the last state itself unless it had no graph and an earlier one had. -/
theorem map_getLast?_eq_iff : (kept.getLast?.map fun s => { s with graphText := lastGraph kept }) =
      kept.getLast? ↔
    ∀ s ∈ kept.getLast?, s.graphText = none → ∀ r ∈ kept, r.graphText = none := by
  induction kept using List.reverseRecOn with
  | nil => simp
  | append_singleton kept s _ =>
    rw [List.getLast?_concat, lastGraph_concat]
    cases hs : s.graphText with
    | some g =>
      refine iff_of_true ?_ (by simp [hs])
      rw [Option.map_some, Option.some_or, ← hs]
    | none =>
      have hnone : lastGraph kept = none ↔ ∀ r ∈ kept, r.graphText = none := by
        unfold lastGraph
        rw [List.getLast?_eq_none_iff, List.filterMap_eq_nil_iff]
      rw [Option.map_some, Option.none_or, Option.some_inj]
      have heq : ({ s with graphText := lastGraph kept } : ProjectState) = s ↔
          lastGraph kept = none := by
        constructor
        · intro heq
          rw [← hs, ← heq]
        · intro heq
          rw [heq, ← hs]
      rw [heq, hnone]
      simp [hs, or_imp, forall_and]

/-- Any states can be saved and cleared in any order, and what is loaded then are the fields of the
state that was saved last since the last clearing, with the graph of the last such state that had
one. So it is that state itself, in all of its fields, unless it had no graph and one before it
had; without a state that was saved there is none. -/
theorem load_after_calls (h : d.Vacant t) {calls : List StateCall}
    (hcalls : ∀ call ∈ calls, call.Writable) :
    ∃ t', calls.foldlM (StateCall.perform d) t = .ok t' ∧
      d.load t' = .ok ((StateCall.kept calls).getLast?.map fun s =>
        { s with graphText := ((StateCall.kept calls).filterMap (·.graphText)).getLast? }) ∧
      (d.load t' = .ok (StateCall.kept calls).getLast? ↔
        ∀ s ∈ (StateCall.kept calls).getLast?, s.graphText = none →
          ∀ r ∈ StateCall.kept calls, r.graphText = none) := by
  have hstart : d.Remembers t [] := ⟨h.unobstructed, nofun, Or.inl ⟨rfl, h⟩⟩
  obtain ⟨t', hrun, hafter⟩ := hstart.run hcalls
  refine ⟨t', hrun, hafter.load, ?_⟩
  rw [hafter.load]
  exact (Except.ok.injEq ..).to_iff.trans map_getLast?_eq_iff

/-! ## A state that has lost its graph -/

namespace Sample

/-- A state directory. -/
def directory : StateDirectory := ⟨⟨true, ["state"]⟩⟩

/-- A project that was never examined. -/
def newShop : ProjectState := .fresh "1" "shop" "/r" none

/-- The project after a run that found nothing. -/
def readyShop : ProjectState := newShop.advance "now" (some "c1") Graph.empty.toText

theorem graphical_newShop : newShop.Graphical := nofun

theorem graphical_readyShop : readyShop.Graphical := fun _ htext =>
  ⟨.empty, .of_empty, (Option.some.inj htext).symm⟩

theorem vacant_directory : directory.Vacant .empty := by
  refine ⟨⟨by decide, fun parts hparts => ?_⟩, by decide +kernel⟩
  cases parts with
  | nil => exact Or.inr rfl
  | cons name rest => exact Or.inl rfl

end Sample

open Sample in
/-- A state is saved with its graph, all is removed, and a state without a graph is saved and
loaded as it is. -/
theorem load_after_calls_of_clearing :
    directory.Vacant .empty ∧
      (∀ call ∈ [.save readyShop (some (.object [("nodes", .int 0)])), .clear, .save newShop none],
        StateCall.Writable call) ∧
      ∃ t', [.save readyShop (some (.object [("nodes", .int 0)])), .clear,
          .save newShop none].foldlM (StateCall.perform directory) .empty = .ok t' ∧
        directory.load t' = .ok (some newShop) := by
  have hcalls : ∀ call ∈ [.save readyShop (some (.object [("nodes", .int 0)])), .clear,
      .save newShop none], StateCall.Writable call := by
    simp only [List.mem_cons, List.not_mem_nil, or_false, forall_eq_or_imp, forall_eq]
    refine ⟨⟨graphical_readyShop, fun v hv => ?_⟩, trivial, graphical_newShop, nofun⟩
    cases hv
    exact .object (by simp) fun f hf => by
      rw [List.mem_singleton.1 hf]
      exact .int 0
  obtain ⟨t', hrun, hload, -⟩ := load_after_calls vacant_directory hcalls
  exact ⟨vacant_directory, hcalls, t', hrun, hload⟩

open Sample in
/-- Without the clearing the graph of the first state is loaded with the second one, which was
saved without a graph. -/
theorem load_stale_graph :
    ∃ t', [.save readyShop none, .save newShop none].foldlM (StateCall.perform directory) .empty =
        .ok t' ∧
      directory.load t' = .ok (some { newShop with graphText := readyShop.graphText }) ∧
      directory.load t' ≠ .ok (some newShop) := by
  have hcalls : ∀ call ∈ [.save readyShop none, .save newShop none], StateCall.Writable call := by
    simp only [List.mem_cons, List.not_mem_nil, or_false, forall_eq_or_imp, forall_eq]
    exact ⟨⟨graphical_readyShop, nofun⟩, graphical_newShop, nofun⟩
  have hstart : directory.Remembers .empty [] :=
    ⟨vacant_directory.unobstructed, nofun, Or.inl ⟨rfl, vacant_directory⟩⟩
  obtain ⟨t', hrun, hafter⟩ := hstart.run hcalls
  refine ⟨t', hrun, hafter.load, fun heq => ?_⟩
  rw [hafter.load] at heq
  cases heq

end StateDirectory

end CodeAtlas
