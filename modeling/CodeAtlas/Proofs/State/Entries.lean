import CodeAtlas.Proofs.Files.Straight
import CodeAtlas.State.Files
import Mathlib.Logic.Function.Basic

/-!
# What stands in a state directory

Saving writes drafts and moves them into place, all in one directory. This file says what a step
of saving does to the texts that are kept there, as an update of one or two of them, and proves
that the files follow.
-/

namespace CodeAtlas

@[simp] theorem Path.parent_child (p : Path) (name : String) : (p.child name).parent = p := by
  simp [Path.parent, Path.child]

@[simp] theorem Path.name_child (p : Path) (name : String) : (p.child name).name = name := by
  simp [Path.name, Path.child]

namespace StateDirectory

variable {d : StateDirectory} {t t' : FileTree} {name other : String}

/-- Where a state directory stands. -/
def place (d : StateDirectory) (t : FileTree) : List String := t.origin d.path ++ d.path.parts

/-- What stands in a state directory under a name. -/
def entry? (d : StateDirectory) (t : FileTree) (name : String) : Option FileNode :=
  t.node? (d.place t ++ [name])

/-- The names of the files that saving writes or moves. -/
def names : List String :=
  ["records.json", "graph.json.tmp", "graph.json", "meta.json.tmp", "meta.json"]

theorem ne_dots_of_mem_names (h : name ∈ names) : name ≠ ".." := by
  rintro rfl
  exact absurd h (by decide)

/-! ## Changes of one entry -/

theorem entry?_put (n : FileNode) : d.entry? (t.put (d.place t ++ [name]) n) other =
    if other = name then some n else d.entry? t other := by
  refine (FileTree.node?_put (by simp) n (d.place t ++ [other])).trans ?_
  simp only [List.append_cancel_left_eq, List.cons.injEq, and_true]
  rfl

/-- Whatever is put below directories, they stay. -/
theorem made_put (h : t.Made (d.place t)) (n : FileNode) :
    (t.put (d.place t ++ [name]) n).Made (d.place t) := by
  refine ⟨h.names, fun parts hparts => ?_⟩
  have hne : parts ≠ d.place t ++ [name] := by
    rintro rfl
    have hlength := hparts.length_le
    rw [List.length_append, List.length_singleton] at hlength
    omega
  rw [FileTree.node?_put (by simp), if_neg hne]
  exact h.directories parts hparts

theorem entry?_removeTree : d.entry? (t.removeTree (d.place t ++ [name])) other =
    if other = name then none else d.entry? t other := by
  have hroot : d.place t ++ [other] ≠ [] := by simp
  refine (FileTree.node?_removeTree t hroot).trans ?_
  have habove : (d.place t ++ [name]).isPrefixOf (d.place t ++ [other]) = true ↔ other = name := by
    rw [List.isPrefixOf_iff_prefix, List.prefix_append_right_inj]
    simp [eq_comm]
  simp only [habove]
  rfl

/-- Whatever is removed below directories, they stay. -/
theorem made_removeTree (h : t.Made (d.place t)) :
    (t.removeTree (d.place t ++ [name])).Made (d.place t) := by
  refine ⟨h.names, fun parts hparts => ?_⟩
  by_cases hroot : parts = []
  · rw [hroot]
    rfl
  · have hbelow : ¬(d.place t ++ [name]).isPrefixOf parts = true := by
      intro hprefix
      have hlength := ((List.isPrefixOf_iff_prefix.1 hprefix).trans hparts).length_le
      rw [List.length_append, List.length_singleton] at hlength
      omega
    rw [FileTree.node?_removeTree t hroot, if_neg hbelow]
    exact h.directories parts hparts

/-! ## Single steps -/

/-- A text is written where no directory stands. -/
theorem writeText_child (h : t.Made (d.place t)) (hname : name ≠ "..")
    (hlink : ∀ target, d.entry? t name ≠ some (.link target)) (s : String) :
    t.writeText (d.path.child name) s =
      if t.hasDirectory (d.place t ++ [name]) then
        .error ⟨.isADirectory, (d.path.child name).text, none⟩
      else .ok (t.put (d.place t ++ [name]) (.file s.toUTF8 none)) := by
  have hlocated : t.locate (d.path.child name) = .ok (d.place t ++ [name]) :=
    h.locate_child hname hlink
  unfold FileTree.writeText FileTree.writeFile FileTree.hasDirectory
  rw [hlocated]
  dsimp only
  split
  · rfl
  · rfl

/-- What stands under one name is moved under another one unless there is a directory. -/
theorem rename_child (h : t.Made (d.place t)) (target : String) :
    t.rename (d.path.child name) (d.path.child target) =
      match d.entry? t name with
      | some n =>
        if t.hasDirectory (d.place t ++ [target]) && !t.hasDirectory (d.place t ++ [name]) then
          .error ⟨.isADirectory, (d.path.child name).text, some (d.path.child target).text⟩
        else .ok (((t.removeTree (d.place t ++ [name])).removeTree (d.place t ++ [target])).put
          (d.place t ++ [target]) n)
      | none => .error ⟨.notFound, (d.path.child name).text, some (d.path.child target).text⟩ := by
  have hlocated : t.locate d.path = .ok (d.place t) := h.locate_eq
  unfold FileTree.rename
  simp only [Path.parent_child, Path.name_child, hlocated]
  rfl

/-! ## Texts -/

/-- Whether a node is the file of a text. Where there is no text, a directory may stand. -/
def Bears (n : Option FileNode) : Option String → Prop
  | some s => ∃ tree, n = some (.file s.toUTF8 tree)
  | none => n = none ∨ n = some .directory

/-- Whether a state directory is there and keeps these texts under the names of its files. -/
structure Holds (d : StateDirectory) (t : FileTree) (texts : String → Option String) : Prop where
  made : t.Made (d.place t)
  entries : ∀ name ∈ names, Bears (d.entry? t name) (texts name)

/-- Whether no directory stands where files are to be written. -/
def Unobstructed (d : StateDirectory) (t : FileTree) : Prop :=
  ∀ name ∈ names, d.entry? t name ≠ some .directory

theorem Bears.not_link {n : Option FileNode} {text : Option String} (h : Bears n text)
    (target : String) : n ≠ some (.link target) := by
  rintro rfl
  cases text with
  | some s =>
    obtain ⟨tree, heq⟩ := h
    cases heq
  | none => rcases h with heq | heq <;> cases heq

end StateDirectory

/-- The texts after a step of saving. -/
def SaveStep.onTexts (texts : String → Option String) : SaveStep → String → Option String
  | .write p s => Function.update texts p.name (some s)
  | .move p q => Function.update (Function.update texts p.name none) q.name (texts p.name)

/-- Whether a step of saving concerns the files of a state directory alone. -/
def SaveStep.Within (d : StateDirectory) : SaveStep → Prop
  | .write p _ => ∃ name ∈ StateDirectory.names, p = d.path.child name
  | .move p q => ∃ name ∈ StateDirectory.names, ∃ target ∈ StateDirectory.names,
      name ≠ target ∧ p = d.path.child name ∧ q = d.path.child target

/-- The files after some steps of saving. -/
def SaveStep.run (steps : List SaveStep) (t : FileTree) : Except FileError FileTree :=
  steps.foldlM (fun t s => s.apply t) t

theorem SaveStep.run_append (before after : List SaveStep) (t : FileTree) :
    run (before ++ after) t = (run before t).bind (run after) :=
  List.foldlM_append

/-- Where all steps can be done, so can the first ones. -/
theorem SaveStep.exists_run_take {steps : List SaveStep} {t t' : FileTree}
    (h : run steps t = .ok t') (done : Nat) : ∃ t₁, run (steps.take done) t = .ok t₁ := by
  rw [← List.take_append_drop done steps, run_append] at h
  cases hrun : run (steps.take done) t with
  | ok t₁ => exact ⟨t₁, rfl⟩
  | error e =>
    rw [hrun] at h
    cases h

namespace StateDirectory

variable {d : StateDirectory} {t t' : FileTree} {texts : String → Option String}

/-- A file that is written leaves the directory in place and puts no directory where none was. -/
theorem Holds.write (h : d.Holds t texts) {name text : String} (hname : name ∈ names)
    (hrun : t.writeText (d.path.child name) text = .ok t') :
    d.Holds t' ((SaveStep.write (d.path.child name) text).onTexts texts) ∧
      (d.Unobstructed t → d.Unobstructed t') ∧ d.place t' = d.place t := by
  rw [writeText_child h.made (ne_dots_of_mem_names hname) (h.entries name hname).not_link] at hrun
  split at hrun
  · cases hrun
  cases hrun
  refine ⟨⟨made_put h.made _, fun other hother => ?_⟩, fun hfree other hother => ?_, rfl⟩
  · rw [entry?_put, SaveStep.onTexts, Path.name_child, Function.update_apply]
    split
    · exact ⟨none, rfl⟩
    · exact h.entries other hother
  · rw [entry?_put]
    split
    · exact nofun
    · exact hfree other hother

/-- What has been moved stands where it was moved to, and not where it was. -/
theorem entry?_move (t : FileTree) (n : FileNode) (name target other : String) :
    d.entry? (((t.removeTree (d.place t ++ [name])).removeTree (d.place t ++ [target])).put
        (d.place t ++ [target]) n) other =
      if other = target then some n else if other = name then none else d.entry? t other := by
  refine (entry?_put n).trans ?_
  split
  · rfl
  · next hother =>
    refine entry?_removeTree.trans ?_
    rw [if_neg hother, entry?_removeTree]

theorem Holds.move (h : d.Holds t texts) {name target : String} (hname : name ∈ names)
    (hrun : t.rename (d.path.child name) (d.path.child target) = .ok t') :
    d.Holds t' ((SaveStep.move (d.path.child name) (d.path.child target)).onTexts texts) ∧
      (d.Unobstructed t → d.Unobstructed t') ∧ d.place t' = d.place t := by
  rw [rename_child h.made] at hrun
  split at hrun
  · next n hentry =>
    split at hrun
    · cases hrun
    cases hrun
    refine ⟨⟨made_put (made_removeTree (made_removeTree h.made)) n, fun other hother => ?_⟩,
      fun hfree other hother => ?_, rfl⟩
    · rw [entry?_move, SaveStep.onTexts, Path.name_child, Path.name_child, Function.update_apply,
        Function.update_apply]
      split
      · exact hentry ▸ h.entries name hname
      split
      · exact Or.inl rfl
      · exact h.entries other hother
    · rw [entry?_move]
      split
      · exact hentry ▸ hfree name hname
      split
      · exact nofun
      · exact hfree other hother
  · cases hrun

/-- A step that is done leaves the directory in place and its texts as the step makes them; it
puts no directory where none was. -/
theorem Holds.step {s : SaveStep} (h : d.Holds t texts) (hs : s.Within d)
    (hrun : s.apply t = .ok t') :
    d.Holds t' (s.onTexts texts) ∧ (d.Unobstructed t → d.Unobstructed t') ∧
      d.place t' = d.place t := by
  cases s with
  | write p text =>
    obtain ⟨name, hname, rfl⟩ := hs
    exact h.write hname hrun
  | move p q =>
    obtain ⟨name, hname, target, -, -, rfl, rfl⟩ := hs
    exact h.move hname hrun

/-! ## Runs of steps -/

/-- Steps that are done leave the directory in place and its texts as they make them. -/
theorem Holds.run {steps : List SaveStep} (h : d.Holds t texts) (hs : ∀ s ∈ steps, s.Within d)
    (hrun : SaveStep.run steps t = .ok t') :
    d.Holds t' (steps.foldl SaveStep.onTexts texts) ∧ (d.Unobstructed t → d.Unobstructed t') ∧
      d.place t' = d.place t := by
  induction steps generalizing t texts with
  | nil =>
    cases hrun
    exact ⟨h, id, rfl⟩
  | cons s rest ih =>
    cases hstep : s.apply t with
    | error e =>
      rw [SaveStep.run, List.foldlM_cons, hstep] at hrun
      cases hrun
    | ok t₁ =>
      rw [SaveStep.run, List.foldlM_cons, hstep] at hrun
      obtain ⟨hholds, hfree, hplace⟩ := h.step (hs s (List.mem_cons_self ..)) hstep
      obtain ⟨hholds', hfree', hplace'⟩ :=
        ih hholds (fun s hs' => hs s (List.mem_cons_of_mem _ hs')) hrun
      exact ⟨hholds', hfree' ∘ hfree, hplace'.trans hplace⟩

/-- A text can be written where no directory stands. -/
theorem Holds.exists_write (h : d.Holds t texts) (hfree : d.Unobstructed t) {name : String}
    (hname : name ∈ names) (s : String) :
    ∃ t', (SaveStep.write (d.path.child name) s).apply t = .ok t' := by
  have hdirectory : ¬t.hasDirectory (d.place t ++ [name]) = true :=
    fun htrue => hfree name hname (FileTree.hasDirectory_iff.1 htrue)
  have hlink := (h.entries name hname).not_link
  have hwrite := writeText_child h.made (ne_dots_of_mem_names hname) hlink s
  rw [if_neg hdirectory] at hwrite
  exact ⟨_, hwrite⟩

/-- A text can be moved to where no directory stands. -/
theorem Holds.exists_move (h : d.Holds t texts) (hfree : d.Unobstructed t) {name target : String}
    (hname : name ∈ names) (htarget : target ∈ names) (htext : texts name ≠ none) :
    ∃ t', (SaveStep.move (d.path.child name) (d.path.child target)).apply t = .ok t' := by
  have hdirectory : t.hasDirectory (d.place t ++ [target]) = false :=
    Bool.eq_false_iff.2 fun htrue => hfree target htarget (FileTree.hasDirectory_iff.1 htrue)
  have hentry := h.entries name hname
  obtain ⟨s, hs⟩ := Option.ne_none_iff_exists'.1 htext
  rw [hs] at hentry
  obtain ⟨tree, hentry⟩ := hentry
  have hmove : t.rename (d.path.child name) (d.path.child target) = _ := rename_child h.made target
  rw [hentry, hdirectory] at hmove
  exact ⟨_, hmove⟩

/-! ## Replacing a file -/

/-- The draft of a file in the directory. -/
theorem draftOf_child (d : StateDirectory) (name : String) :
    draftOf (d.path.child name) = d.path.child (name ++ ".tmp") := by
  unfold draftOf
  rw [Path.parent_child, Path.name_child]

/-- The names of files that have drafts. -/
def drafted : List String := ["graph.json", "meta.json"]

theorem within_replaceFile {name : String} (hname : name ∈ drafted) (text : String) :
    ∀ s ∈ replaceFile (d.path.child name) text, s.Within d := by
  have hnames : name ∈ names ∧ name ++ ".tmp" ∈ names ∧ name ++ ".tmp" ≠ name := by
    revert hname
    revert name
    decide
  obtain ⟨hfile, hdraft, hne⟩ := hnames
  intro s hs
  unfold replaceFile at hs
  rw [draftOf_child] at hs
  rcases List.mem_pair.1 hs with rfl | rfl
  · exact ⟨_, hdraft, rfl⟩
  · exact ⟨_, hdraft, _, hfile, hne, rfl, rfl⟩

/-- A file can be replaced where no directory stands. -/
theorem Holds.exists_replaceFile (h : d.Holds t texts) (hfree : d.Unobstructed t) {name : String}
    (hname : name ∈ drafted) (text : String) :
    ∃ t', SaveStep.run (replaceFile (d.path.child name) text) t = .ok t' := by
  have hnames : name ∈ names ∧ name ++ ".tmp" ∈ names := by
    revert hname
    revert name
    decide
  have hwithin := within_replaceFile (d := d) hname text
  unfold replaceFile at hwithin ⊢
  rw [draftOf_child] at hwithin ⊢
  obtain ⟨t₁, hwrite⟩ := h.exists_write hfree hnames.2 text
  obtain ⟨h₁, hfree₁, -⟩ := h.step (hwithin _ (List.mem_cons_self ..)) hwrite
  have htext : (SaveStep.write (d.path.child (name ++ ".tmp")) text).onTexts texts
      (name ++ ".tmp") ≠ none := by
    simp [SaveStep.onTexts]
  obtain ⟨t₂, hmove⟩ := h₁.exists_move (hfree₁ hfree) hnames.2 hnames.1 htext
  refine ⟨t₂, ?_⟩
  unfold SaveStep.run
  rw [List.foldlM_cons, hwrite]
  exact (bind_pure _).trans hmove

/-- The texts after a file has been replaced. -/
theorem onTexts_replaceFile (name text : String) :
    (replaceFile (d.path.child name) text).foldl SaveStep.onTexts texts =
      Function.update (Function.update texts (name ++ ".tmp") none) name (some text) := by
  unfold replaceFile
  rw [draftOf_child]
  simp [SaveStep.onTexts]

end StateDirectory

end CodeAtlas
