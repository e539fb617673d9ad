import CodeAtlas.FileTree
import Mathlib.Data.List.Infix

/-!
# Paths without detours

A path that leads over no link and has no pair of dots is walked as it is written. This file
proves so for resolving and for locating, and that making the directories along such a path
changes nothing but what was missing.
-/

namespace CodeAtlas.FileTree

variable {t : FileTree} {done rest parts place : List String}

/-! ## Walking -/

/-- Whether a path is walked as it is written: it has no pair of dots and leads over no link. -/
structure Straight (t : FileTree) (place : List String) : Prop where
  names : ".." ∉ place
  nodes : ∀ parts, parts <+: place → ∀ target, t.node? parts ≠ some (.link target)

/-- Whether directories stand all along a path. -/
structure Made (t : FileTree) (place : List String) : Prop where
  names : ".." ∉ place
  directories : ∀ parts, parts <+: place → t.node? parts = some .directory

/-- Whether nothing but directories stands along a path. Some of them may be missing. -/
structure Makeable (t : FileTree) (place : List String) : Prop where
  names : ".." ∉ place
  nodes : ∀ parts, parts <+: place → t.node? parts = none ∨ t.node? parts = some .directory

theorem Made.makeable (h : t.Made place) : t.Makeable place :=
  ⟨h.names, fun parts hparts => Or.inr (h.directories parts hparts)⟩

theorem Makeable.straight (h : t.Makeable place) : t.Straight place := by
  refine ⟨h.names, fun parts hparts target heq => ?_⟩
  rcases h.nodes parts hparts with hnone | hdirectory
  · rw [hnone] at heq
    cases heq
  · rw [hdirectory] at heq
    cases heq

/-- One more name keeps a path straight unless a link stands there. -/
theorem Straight.concat {name : String} (h : t.Straight place) (hname : name ≠ "..")
    (hlink : ∀ target, t.node? (place ++ [name]) ≠ some (.link target)) :
    t.Straight (place ++ [name]) := by
  refine ⟨by simpa using ⟨h.names, Ne.symm hname⟩, fun parts hparts => ?_⟩
  rcases List.prefix_concat_iff.1 hparts with rfl | hparts
  · exact hlink
  · exact h.nodes parts hparts

theorem Straight.linkTarget?_eq (h : t.Straight place) (hparts : parts <+: place) :
    t.linkTarget? parts = none := by
  unfold linkTarget?
  split
  · next target heq => exact absurd heq (h.nodes parts hparts target)
  · rfl

theorem Straight.name_ne {name : String} (h : t.Straight (done ++ name :: rest)) :
    name ≠ ".." :=
  fun heq => h.names (by simp [heq])

/-- A straight path is resolved to itself. -/
theorem Straight.resolveWith_eq (follow : List String → List String → List String)
    (h : t.Straight (done ++ rest)) : t.resolveWith follow done rest = done ++ rest := by
  induction rest generalizing done with
  | nil => exact (List.append_nil done).symm
  | cons name rest ih =>
    have hassoc : done ++ name :: rest = done ++ [name] ++ rest := by simp
    have hlink : t.linkTarget? (done ++ [name]) = none :=
      h.linkTarget?_eq (hassoc ▸ List.prefix_append ..)
    unfold resolveWith
    rw [if_neg h.name_ne, hlink, hassoc]
    exact ih (hassoc ▸ h)

variable {follow : Option (List String → List String → Except FileErrorKind (List String))}

/-- Locating walks along a straight path, if it gets ahead. -/
theorem Straight.locateWith_cons {name : String} (h : t.Straight (done ++ name :: rest)) :
    t.locateWith follow done (name :: rest) =
      match t.enter (done ++ [name]) rest.isEmpty with
      | .ok _ => t.locateWith follow (done ++ [name]) rest
      | .error kind => .error kind := by
  have hlink : t.linkTarget? (done ++ [name]) = none :=
    h.linkTarget?_eq (by simp)
  conv_lhs => unfold locateWith
  rw [if_neg h.name_ne, hlink]
  cases follow <;> rfl

/-- A straight path leads to where it is written to lead, or nowhere. -/
theorem Straight.eq_of_locateWith {q : List String} (h : t.Straight (done ++ rest))
    (hq : t.locateWith follow done rest = .ok q) : q = done ++ rest := by
  induction rest generalizing done with
  | nil => exact (Except.ok.inj hq).symm.trans (List.append_nil done).symm
  | cons name rest ih =>
    have hassoc : done ++ name :: rest = done ++ [name] ++ rest := by simp
    rw [h.locateWith_cons] at hq
    split at hq
    · exact hassoc ▸ ih (hassoc ▸ h) hq
    · cases hq

/-- A straight path with directories on the way leads to where it is written to lead. -/
theorem Straight.locateWith_eq (h : t.Straight (done ++ rest))
    (habove : ∀ parts, parts <+: done ++ rest → parts ≠ done ++ rest →
      t.node? parts = some .directory) :
    t.locateWith follow done rest = .ok (done ++ rest) := by
  induction rest generalizing done with
  | nil => exact congrArg Except.ok (List.append_nil done).symm
  | cons name rest ih =>
    have hassoc : done ++ name :: rest = done ++ [name] ++ rest := by simp
    have hhere : done ++ [name] <+: done ++ name :: rest := hassoc ▸ List.prefix_append ..
    have henter : t.enter (done ++ [name]) rest.isEmpty = .ok () := by
      have hlink := h.nodes _ hhere
      have hend (hnode : t.node? (done ++ [name]) ≠ some .directory) : rest = [] := by
        by_contra hne
        exact hnode (habove _ hhere (by simpa using hne))
      unfold enter
      split
      · rfl
      · next content tree hnode => rw [hend (by rw [hnode]; nofun)]; rfl
      · next target hnode => exact absurd hnode (hlink target)
      · next hnode => rw [hend (by rw [hnode]; nofun)]; rfl
    rw [h.locateWith_cons, henter, hassoc]
    exact ih (hassoc ▸ h) (hassoc ▸ habove)

/-- What a path leads to that starts where relative paths are read from. -/
theorem Straight.eq_of_locate {p : Path} {q : List String}
    (h : t.Straight (t.origin p ++ p.parts)) (hq : t.locate p = .ok q) :
    q = t.origin p ++ p.parts :=
  h.eq_of_locateWith hq

/-- Below directories a name is found where it is written. -/
theorem Made.locate_child {p : Path} {name : String} (h : t.Made (t.origin p ++ p.parts))
    (hname : name ≠ "..")
    (hlink : ∀ target, t.node? (t.origin p ++ p.parts ++ [name]) ≠ some (.link target)) :
    t.locate (p.child name) = .ok (t.origin p ++ p.parts ++ [name]) := by
  have hstraight := h.makeable.straight.concat hname hlink
  rw [List.append_assoc] at hstraight ⊢
  refine hstraight.locateWith_eq fun parts hparts hne => h.directories parts ?_
  rw [← List.append_assoc] at hparts hne
  exact (List.prefix_concat_iff.1 hparts).resolve_left hne

/-- Directories are found where they are written. -/
theorem Made.locate_eq {p : Path} (h : t.Made (t.origin p ++ p.parts)) :
    t.locate p = .ok (t.origin p ++ p.parts) :=
  h.makeable.straight.locateWith_eq fun parts hparts _ => h.directories parts hparts

/-! ## Making directories -/

/-- Where directories can be made they are, and nothing else changes. -/
theorem Makeable.makeBelow (h : t.Makeable (done ++ rest)) (hdone : t.Made done) :
    ∃ t', t.makeBelow done rest = .ok t' ∧ t'.workingDirectory = t.workingDirectory ∧
      t'.Made (done ++ rest) ∧ ∀ q, ¬q <+: done ++ rest → t'.node? q = t.node? q := by
  induction rest generalizing t done with
  | nil => exact ⟨t, rfl, rfl, by rwa [List.append_nil], fun _ _ => rfl⟩
  | cons name rest ih =>
    have hassoc : done ++ name :: rest = done ++ [name] ++ rest := by simp
    have hhere : done ++ [name] <+: done ++ name :: rest := hassoc ▸ List.prefix_append ..
    have hnames : ".." ∉ done ++ [name] := fun hmem => h.names (hhere.subset hmem)
    -- either way the directory is there when the rest is made
    have hgoes (t₁ : FileTree) (hnode : ∀ q, q ≠ done ++ [name] → t₁.node? q = t.node? q)
        (hmade : t₁.node? (done ++ [name]) = some .directory) :
        t₁.Makeable (done ++ [name] ++ rest) ∧ t₁.Made (done ++ [name]) := by
      have hknown (q : List String) : t₁.node? q = some .directory ∨ t₁.node? q = t.node? q := by
        by_cases hq : q = done ++ [name]
        · exact Or.inl (hq ▸ hmade)
        · exact Or.inr (hnode q hq)
      constructor
      · refine ⟨hassoc ▸ h.names, fun q hq => ?_⟩
        rcases hknown q with hdirectory | hsame
        · exact Or.inr hdirectory
        · exact hsame ▸ h.nodes q (hassoc ▸ hq)
      · refine ⟨hnames, fun q hq => ?_⟩
        rcases List.prefix_concat_iff.1 hq with rfl | hq
        · exact hmade
        · rcases hknown q with hdirectory | hsame
          · exact hdirectory
          · exact hsame ▸ hdone.directories q hq
    unfold FileTree.makeBelow
    rcases h.nodes _ hhere with hnone | hdirectory
    · have hput (q : List String) : (t.put (done ++ [name]) .directory).node? q =
          if q = done ++ [name] then some .directory else t.node? q :=
        node?_put (by simp) .directory q
      obtain ⟨hmakeable, hdone'⟩ := hgoes (t.put (done ++ [name]) .directory)
        (fun q hq => by rw [hput, if_neg hq]) (by rw [hput, if_pos rfl])
      obtain ⟨t', hrun, hworking, hmade, hrest⟩ := ih hmakeable hdone'
      refine ⟨t', by rw [hnone]; exact hrun, hworking, hassoc ▸ hmade, fun q hq => ?_⟩
      have hne : q ≠ done ++ [name] := fun heq => hq (heq ▸ hhere)
      rw [hrest q (hassoc ▸ hq), hput, if_neg hne]
    · obtain ⟨hmakeable, hdone'⟩ := hgoes t (fun _ _ => rfl) hdirectory
      obtain ⟨t', hrun, hworking, hmade, hrest⟩ := ih hmakeable hdone'
      exact ⟨t', by rw [hdirectory]; exact hrun, hworking, hassoc ▸ hmade,
        fun q hq => hrest q (hassoc ▸ hq)⟩

/-- Where directories can be made they are, and nothing else changes. -/
theorem Makeable.makeDirectories {p : Path} (h : t.Makeable (t.origin p ++ p.parts)) :
    ∃ t', t.makeDirectories p = .ok t' ∧ t'.workingDirectory = t.workingDirectory ∧
      t'.Made (t.origin p ++ p.parts) ∧
      ∀ q, ¬q <+: t.origin p ++ p.parts → t'.node? q = t.node? q := by
  have hroot : t.Made [] :=
    ⟨List.not_mem_nil, fun parts hparts => by rw [List.prefix_nil.1 hparts]; rfl⟩
  have hresolved : (t.resolve p).parts = t.origin p ++ p.parts := h.straight.resolveWith_eq _
  have hbelow : t.Makeable ([] ++ (t.origin p ++ p.parts)) := h
  obtain ⟨t', hrun, hrest⟩ := hbelow.makeBelow hroot
  refine ⟨t', ?_, hrest⟩
  unfold FileTree.makeDirectories
  rw [hresolved, hrun]

/-- Directories that are there need not be made. -/
theorem Made.makeBelow_eq (h : t.Made (done ++ rest)) : t.makeBelow done rest = .ok t := by
  induction rest generalizing done with
  | nil => rfl
  | cons name rest ih =>
    have hassoc : done ++ name :: rest = done ++ [name] ++ rest := by simp
    have hhere : t.node? (done ++ [name]) = some .directory :=
      h.directories _ (hassoc ▸ List.prefix_append ..)
    unfold FileTree.makeBelow
    rw [hhere]
    exact ih (hassoc ▸ h)

theorem Made.makeDirectories_eq {p : Path} (h : t.Made (t.origin p ++ p.parts)) :
    t.makeDirectories p = .ok t := by
  have hresolved : (t.resolve p).parts = t.origin p ++ p.parts :=
    h.makeable.straight.resolveWith_eq _
  have hbelow : t.Made ([] ++ (t.origin p ++ p.parts)) := h
  unfold FileTree.makeDirectories
  rw [hresolved, hbelow.makeBelow_eq]

end CodeAtlas.FileTree
