import CodeAtlas.Proofs.Graph.Answers

/-!
# Relabelling nodes one after the other

Syncs label the nodes of a graph one by one. This file proves that each node ends up with what
its own step gave it, and that links which are added one by one are grouped by method as they
were before.
-/

namespace CodeAtlas.Graph

variable {g h k : Graph} {id j : String}

/-! ## Steps that label one node -/

/-- Two graphs with the same nodes that say the same about one of them. -/
structure SameAt (id : String) (g h : Graph) : Prop where
  nodes : h.nodes = g.nodes
  classId : h.classId? id = g.classId? id
  info : h.nodeInfo? id = g.nodeInfo? id
  methods : h.methods.get? id = g.methods.get? id
  links : h.linksOf id = g.linksOf id

namespace SameAt

theorem refl (id : String) (g : Graph) : SameAt id g g := ⟨rfl, rfl, rfl, rfl, rfl⟩

theorem trans (hgh : SameAt id g h) (hhk : SameAt id h k) : SameAt id g k :=
  ⟨hhk.nodes.trans hgh.nodes, hhk.classId.trans hgh.classId, hhk.info.trans hgh.info,
    hhk.methods.trans hgh.methods, hhk.links.trans hgh.links⟩

theorem contains (h' : SameAt id g h) (j : String) : h.contains j = g.contains j :=
  contains_congr h'.nodes j

theorem methodsOf (h' : SameAt id g h) : h.methodsOf id = g.methodsOf id := by
  unfold Graph.methodsOf Dict.getD
  rw [h'.methods]

/-- Steps that label another node do not show. -/
theorem bindClassId (hj : j ≠ id) (c : String) : SameAt j g (g.bindClassId id c) where
  nodes := nodes_bindClassId ..
  classId := by rw [classId?_bindClassId, if_neg fun h => hj h.1]
  info := nodeInfo?_congr (info_bindClassId ..) j
  methods := by rw [methods_bindClassId]
  links := linksOf_congr (links_bindClassId ..) j

theorem setNodeInfo (hj : j ≠ id) (i : NodeInfo) : SameAt j g (g.setNodeInfo id i) where
  nodes := nodes_setNodeInfo ..
  classId := classId?_congr (classIds_setNodeInfo ..) j
  info := by rw [nodeInfo?_setNodeInfo, if_neg fun h => hj h.1]
  methods := by rw [methods_setNodeInfo]
  links := linksOf_congr (links_setNodeInfo ..) j

theorem setMethods (hj : j ≠ id) (ms : List Method) : SameAt j g (g.setMethods id ms) where
  nodes := nodes_setMethods ..
  classId := classId?_congr (classIds_setMethods ..) j
  info := nodeInfo?_congr (info_setMethods ..) j
  methods := by
    unfold Graph.setMethods
    split
    · rw [Dict.get?_insert, if_neg hj]
    · rfl
  links := linksOf_congr (links_setMethods ..) j

theorem clearMethodParameters (hj : j ≠ id) : SameAt j g (g.clearMethodParameters id) where
  nodes := rfl
  classId := rfl
  info := rfl
  methods := rfl
  links := by rw [linksOf_clearMethodParameters, if_neg hj]

theorem addMethodParameter (hj : j ≠ id) (name : String) (n : Int) (target : String) :
    SameAt j g (g.addMethodParameter id name n target) where
  nodes := nodes_addMethodParameter ..
  classId := classId?_congr (classIds_addMethodParameter ..) j
  info := nodeInfo?_congr (info_addMethodParameter ..) j
  methods := by rw [methods_addMethodParameter]
  links := by rw [linksOf_addMethodParameter, if_neg fun h => hj h.1]

end SameAt

/-- When differently named nodes are labelled one after the other, each looks in the end as after
its own step, and that step found it as it was at the beginning. -/
theorem foldl_at {α : Type} (name : α → String) {step : Graph → α → Graph}
    (hother : ∀ g x j, j ≠ name x → SameAt j g (step g x)) {xs : List α}
    (hnodup : (xs.map name).Nodup) (g : Graph) :
    (∀ x ∈ xs, ∃ h, SameAt (name x) g h ∧ SameAt (name x) (step h x) (xs.foldl step g)) ∧
      ∀ j, j ∉ xs.map name → SameAt j g (xs.foldl step g) := by
  induction xs generalizing g with
  | nil =>
    refine ⟨fun x hx => ?_, fun j _ => .refl j g⟩
    cases hx
  | cons a rest ih =>
    obtain ⟨ha, hrest⟩ := List.nodup_cons.1 hnodup
    obtain ⟨hown, hothers⟩ := ih hrest (step g a)
    refine ⟨fun x hx => ?_, fun j hj => ?_⟩
    · rcases List.mem_cons.1 hx with rfl | hx
      · exact ⟨g, .refl _ g, hothers _ ha⟩
      · have hne : name x ≠ name a := fun heq => ha (heq ▸ List.mem_map_of_mem hx)
        obtain ⟨h, hbefore, hafter⟩ := hown x hx
        exact ⟨h, (hother g a _ hne).trans hbefore, hafter⟩
    · simp only [List.map_cons, List.mem_cons, not_or] at hj
      exact (hother g a j hj.1).trans (hothers j hj.2)

/-! ## Links that are added one after the other -/

section Groups

variable {ι τ π : Type} [DecidableEq ι] [DecidableEq τ] [DecidableEq π]

/-- The links by method after some more were added. -/
def regroup (d : Dict τ (List (ParameterLink ι τ π))) (ls : List (ParameterLink ι τ π)) :
    Dict τ (List (ParameterLink ι τ π)) :=
  ls.foldl (fun d l => d.insert l.methodName (appendNew (d.getD l.methodName []) l)) d

/-- Links of one method extend its group, which is the last one. -/
theorem regroup_append {es : List (τ × List (ParameterLink ι τ π))} {name : τ}
    (hname : name ∉ es.map (·.1)) (old : List (ParameterLink ι τ π))
    {ls : List (ParameterLink ι τ π)}
    (hnamed : ∀ l ∈ ls, l.methodName = name) (hnodup : (old ++ ls).Nodup) :
    regroup ⟨es ++ [(name, old)]⟩ ls = ⟨es ++ [(name, old ++ ls)]⟩ := by
  induction ls generalizing old with
  | nil => simp [regroup]
  | cons l rest ih =>
    have hl : l.methodName = name := hnamed l (List.mem_cons_self ..)
    have hget : (⟨es ++ [(name, old)]⟩ : Dict τ (List (ParameterLink ι τ π))).get? name =
        some old := by
      clear hnodup ih
      induction es with
      | nil => simp [Dict.get?, Dict.lookup]
      | cons e es ih =>
        simp only [List.map_cons, List.mem_cons, not_or] at hname
        have hrest := ih hname.2
        simpa [Dict.get?, Dict.lookup, Ne.symm hname.1] using hrest
    have hnew : l ∉ old := fun hmem =>
      (List.nodup_append.1 hnodup).2.2 l hmem l (List.mem_cons_self ..) rfl
    have hstep : (⟨es ++ [(name, old)]⟩ : Dict τ (List (ParameterLink ι τ π))).insert l.methodName
        (appendNew (Dict.getD ⟨es ++ [(name, old)]⟩ l.methodName []) l) =
          ⟨es ++ [(name, old ++ [l])]⟩ := by
      rw [hl, Dict.getD_of_get?_eq_some _ hget, appendNew, if_neg hnew, Dict.insert]
      rw [Dict.put_append_cons hname]
    unfold regroup at ih ⊢
    rw [List.foldl_cons, hstep, ih _ (fun x hx => hnamed x (List.mem_cons_of_mem _ hx)) (by simpa)]
    simp

/-- Links that come group by group, each group under its own name, give these groups again;
groups without links are lost. -/
theorem regroup_flatMap (groups : List (τ × List (ParameterLink ι τ π)))
    (hnodup : (groups.map (·.1)).Nodup) (hlinks : ∀ e ∈ groups, e.2.Nodup)
    (hnamed : ∀ e ∈ groups, ∀ l ∈ e.2, l.methodName = e.1) :
    regroup .empty (groups.flatMap (·.2)) = ⟨groups.filter fun e => !e.2.isEmpty⟩ := by
  have hmain (done : List (τ × List (ParameterLink ι τ π)))
      (hdone : ((done ++ groups).map (·.1)).Nodup) :
      regroup ⟨done⟩ (groups.flatMap (·.2)) =
        ⟨done ++ groups.filter fun e => !e.2.isEmpty⟩ := by
    clear hnodup
    induction groups generalizing done with
    | nil => simp [regroup]
    | cons e rest ih =>
      obtain ⟨name, ls⟩ := e
      have hrest := ih (fun x hx => hlinks x (List.mem_cons_of_mem _ hx))
        fun x hx => hnamed x (List.mem_cons_of_mem _ hx)
      have hls := hlinks (name, ls) (List.mem_cons_self ..)
      have hown := hnamed (name, ls) (List.mem_cons_self ..)
      have hout : name ∉ done.map (·.1) := by
        intro hmem
        rw [List.map_append, List.nodup_append] at hdone
        exact hdone.2.2 name hmem name (by simp) rfl
      cases ls with
      | nil =>
        have hshort : ((done ++ rest).map (·.1)).Nodup :=
          hdone.sublist (((List.Sublist.refl done).append (List.sublist_cons_self _ rest)).map _)
        simpa using hrest done hshort
      | cons l more =>
        have hl : l.methodName = name := hown l (List.mem_cons_self ..)
        have hfirst : (⟨done⟩ : Dict τ (List (ParameterLink ι τ π))).insert l.methodName
            (appendNew (Dict.getD ⟨done⟩ l.methodName []) l) = ⟨done ++ [(name, [l])]⟩ := by
          have hkey : ¬(⟨done⟩ : Dict τ (List (ParameterLink ι τ π))).contains name = true :=
            fun hc => hout ((Dict.contains_iff_mem_keys _ _).1 hc)
          rw [hl, Dict.getD_of_get?_eq_none _ (Dict.get?_eq_none_of_not_contains hkey)]
          exact congrArg Dict.mk (Dict.entries_insert_of_new hout _)
        have hgroup := regroup_append hout [l]
          (fun x hx => hown x (List.mem_cons_of_mem _ hx)) hls
        have hlater := hrest (done ++ [(name, l :: more)]) (by simpa using hdone)
        unfold regroup at hgroup hlater ⊢
        rw [List.flatMap_cons, List.foldl_append, List.foldl_cons, hfirst, hgroup]
        simpa using hlater
  exact hmain [] hnodup

end Groups

/-- The links by method that lead to certain targets, without the methods that have none. -/
def keepLinks (keep : String → Bool) (d : Dict String (List ParameterLink)) :
    Dict String (List ParameterLink) :=
  ⟨(d.entries.map fun e => (e.1, e.2.filter fun l => keep l.target)).filter
    fun e => !e.2.isEmpty⟩

/-- Groups that are kept in part have the links that are kept, in their order. -/
theorem flatMap_keepLinks {β : Type} (keep : String → Bool)
    (d : Dict String (List ParameterLink)) (f : String × List ParameterLink → List β)
    (hf : ∀ name, f (name, []) = []) :
    (keepLinks keep d).toList.flatMap f =
      d.toList.flatMap fun e => f (e.1, e.2.filter fun l => keep l.target) := by
  unfold keepLinks Dict.toList
  dsimp only
  induction d.entries with
  | nil => rfl
  | cons e rest ih =>
    rw [List.map_cons, List.filter_cons, List.flatMap_cons]
    cases hempty : e.2.filter fun l => keep l.target with
    | nil => simpa [hf] using ih
    | cons l ls => simpa [hempty] using ih

end CodeAtlas.Graph
