import CodeAtlas.Proofs.Graph.Rebuilt

/-!
# Methods that keep their links

A method is listed with links once it has one. Only the removal of a node takes links off the list
of a method, and the method stays listed when it has lost all of them. So every listed method has
links in a graph from which no node was removed.
-/

namespace CodeAtlas.Graph

variable {ι τ ν η π : Type}

/-! ## Methods without links -/

theorem filledGroups_eq_self_iff (d : Dict τ (List (ParameterLink ι τ π))) :
    filledGroups d = d ↔ ∀ ls ∈ d.values, ls ≠ [] := by
  obtain ⟨es⟩ := d
  simp only [filledGroups, Dict.filter, Dict.values, Dict.mk.injEq, List.filter_eq_self,
    List.mem_map, Bool.not_eq_true', List.isEmpty_eq_false_iff]
  constructor
  · rintro h ls ⟨e, he, rfl⟩
    exact h e he
  · exact fun h e he => h e.2 ⟨e, he, rfl⟩

variable [DecidableEq ι]

/-- Every method that is listed with links has one. -/
def Filled (g : Graph ι τ ν η π) : Prop := ∀ id, ∀ ls ∈ (g.linksOf id).values, ls ≠ []

/-- The links of a node once what is empty is left out. -/
theorem WellFormed.getD_filledLinks [DecidableEq τ] [SelfEqual ι] {g : Graph ι τ ν η π}
    (hg : g.WellFormed) (id : ι) :
    g.filledLinks.getD id .empty = filledGroups (g.linksOf id) := by
  have hnodup : (g.links.mapValues fun _ d => filledGroups d).keys.Nodup := by
    rw [Dict.keys_mapValues]
    exact hg.links.owners.nodup
  unfold linksOf Dict.getD
  rw [filledLinks, Dict.get?_filter hnodup, Dict.get?_mapValues]
  cases g.links.get? id with
  | none => rfl
  | some d =>
    cases hgroups : filledGroups d with
    | mk es => cases es <;> simp [hgroups, Option.filter, Dict.isEmpty, Dict.empty]

/-- Every node that is listed with links has a method that is. -/
def Owned (g : Graph ι τ ν η π) : Prop := ∀ id d, g.links.get? id = some d → d.keys ≠ []

theorem Owned.congr {g h : Graph ι τ ν η π} (hg : g.Owned)
    (hlinks : h.links = g.links) : h.Owned := by
  unfold Owned
  rwa [hlinks]

/-- A method that is listed stays listed when its links are taken away. -/
theorem Owned.removeNode {g : Graph ι τ ν η π} (hg : g.Owned) (id : ι) :
    (g.removeNode id).Owned := by
  unfold Graph.removeNode
  split
  · intro owner d hd
    simp only [Dict.get?_mapValues, Dict.get?_erase] at hd
    split at hd
    · cases hd
    · obtain ⟨old, hold, rfl⟩ := Option.map_eq_some_iff.1 hd
      rw [dropLinksTo, Dict.keys_mapValues]
      exact hg owner old hold
  · exact hg

theorem Owned.addMethodParameter [DecidableEq τ] [DecidableEq π] {g : Graph ι τ ν η π}
    (hg : g.Owned) (id : ι) (name : τ) (position : π)
    (target : ι) : (g.addMethodParameter id name position target).Owned := by
  unfold Graph.addMethodParameter
  split
  · exact hg
  · intro owner d hd
    simp only [Dict.get?_insert] at hd
    split at hd
    · cases hd
      refine List.ne_nil_of_mem (a := name) ?_
      rw [← Dict.contains_iff_mem_keys, Dict.contains_insert]
      exact Or.inl rfl
    · exact hg owner d hd

theorem Owned.clearMethodParameters {g : Graph ι τ ν η π} (hg : g.Owned) (id : ι) :
    (g.clearMethodParameters id).Owned := by
  intro owner d hd
  rw [Graph.clearMethodParameters, Dict.get?_erase] at hd
  split at hd
  · cases hd
  · exact hg owner d hd

/-- Nothing is left out of a graph in which every listed method has links. -/
theorem Filled.filledLinks [DecidableEq τ] [SelfEqual ι] {g : Graph ι τ ν η π} (hf : g.Filled)
    (hg : g.WellFormed) (ho : g.Owned) :
    g.filledLinks = g.links := by
  have hget {e : ι × Dict τ (List (ParameterLink ι τ π))} (he : e ∈ g.links.entries) :
      g.links.get? e.1 = some e.2 :=
    (Dict.mem_entries_iff hg.links.owners.nodup e.1 e.2).1 he
  have hgroups : ∀ e ∈ g.links.entries, (e.1, filledGroups e.2) = e := by
    intro e he
    have hown : g.linksOf e.1 = e.2 := Dict.getD_of_get?_eq_some _ (hget he)
    rw [(filledGroups_eq_self_iff e.2).2 (hown ▸ hf e.1)]
  have hmap : g.links.entries.map (fun e => (e.1, filledGroups e.2)) = g.links.entries :=
    (List.map_congr_left hgroups).trans (List.map_id _)
  have hkeep : g.links.entries.filter (fun e => !e.2.isEmpty) = g.links.entries := by
    refine List.filter_eq_self.2 fun e he => ?_
    have hkeys := ho e.1 e.2 (hget he)
    cases hentries : e.2 with
    | mk es =>
      cases es with
      | nil => simp [hentries, Dict.keys] at hkeys
      | cons => rfl
  unfold Graph.filledLinks Dict.mapValues Dict.filter
  dsimp only
  rw [hmap, hkeep]

theorem Filled.congr {g h : Graph ι τ ν η π} (hg : g.Filled)
    (hlinks : h.links = g.links) : h.Filled := by
  intro id
  unfold Graph.linksOf
  rw [hlinks]
  exact hg id

/-- A link that is added stands in the list of its method. -/
theorem Filled.addMethodParameter [DecidableEq τ] [DecidableEq π] {g : Graph ι τ ν η π}
    (hg : g.Filled) (id : ι) (name : τ) (position : π) (target : ι) :
    (g.addMethodParameter id name position target).Filled := by
  unfold Graph.addMethodParameter
  split
  · exact hg
  · intro owner ls hls
    unfold Graph.linksOf at hls
    rw [Dict.getD_insert] at hls
    split at hls
    · rcases Dict.mem_values_insert hls with rfl | hold
      · exact List.ne_nil_of_mem (mem_appendNew.2 (Or.inr rfl))
      · exact hg id ls hold
    · exact hg owner ls hls

theorem Filled.clearMethodParameters {g : Graph ι τ ν η π} (hg : g.Filled) (id : ι) :
    (g.clearMethodParameters id).Filled := by
  intro owner ls hls
  unfold Graph.linksOf Graph.clearMethodParameters at hls
  rw [Dict.getD_erase] at hls
  split at hls
  · cases hls
  · exact hg owner ls hls

/-! ## Changes -/

section Changes

variable [DecidableEq τ] [DecidableEq ν] [DecidableEq π] [SelfEqual ι] [Keyable ν]

/-- The changes that touch links are the removal of a node, one more link and the forgetting of
a node's links. -/
theorem links_apply (g : Graph ι τ ν η π) (m : Mutation ι τ ν η π) :
    (∃ id, m = .removeNode id) ∨
      (∃ id name position target, m = .addMethodParameter id name position target) ∨
      (∃ id, m = .clearMethodParameters id) ∨ (m.apply g).links = g.links := by
  cases m with
  | removeNode id => exact Or.inl ⟨id, rfl⟩
  | addMethodParameter id name position target =>
    exact Or.inr (Or.inl ⟨id, name, position, target, rfl⟩)
  | clearMethodParameters id => exact Or.inr (Or.inr (Or.inl ⟨id, rfl⟩))
  | addNode id file => exact Or.inr (Or.inr (Or.inr (links_addNode g id file)))
  | addDependency a b => exact Or.inr (Or.inr (Or.inr (links_addDependency g a b)))
  | markEntryPoint id => exact Or.inr (Or.inr (Or.inr (links_markEntryPoint g id)))
  | bindClassId id c => exact Or.inr (Or.inr (Or.inr (links_bindClassId g id c)))
  | setNodeInfo id i => exact Or.inr (Or.inr (Or.inr (links_setNodeInfo g id i)))
  | addMethod id m => exact Or.inr (Or.inr (Or.inr (links_setMethods g id _)))
  | setMethods id ms => exact Or.inr (Or.inr (Or.inr (links_setMethods g id ms)))
  | applyEnrichment id kind description texts =>
    refine Or.inr (Or.inr (Or.inr ?_))
    unfold Mutation.apply
    dsimp only
    rw [applyEnrichment_eq_ite]
    split <;> simp

theorem Owned.apply {g : Graph ι τ ν η π} (hg : g.Owned) (m : Mutation ι τ ν η π) :
    (m.apply g).Owned := by
  rcases links_apply g m with ⟨id, rfl⟩ | ⟨id, name, position, target, rfl⟩ | ⟨id, rfl⟩ | hlinks
  · exact hg.removeNode id
  · exact hg.addMethodParameter id name position target
  · exact hg.clearMethodParameters id
  · exact hg.congr hlinks

/-- Whatever changes are made to the empty graph, no node is listed with no method. -/
theorem owned_of_changes (changes : List (Mutation ι τ ν η π)) :
    (Mutation.applyAll changes .empty).Owned := by
  have hmain {g : Graph ι τ ν η π} (hg : g.Owned) : (Mutation.applyAll changes g).Owned := by
    unfold Mutation.applyAll
    induction changes generalizing g with
    | nil => exact hg
    | cons m rest ih => exact ih (hg.apply m)
  exact hmain fun _ _ hd => by cases hd

theorem Filled.apply {g : Graph ι τ ν η π} (hg : g.Filled) {m : Mutation ι τ ν η π}
    (hm : m.removes = false) : (m.apply g).Filled := by
  rcases links_apply g m with ⟨id, rfl⟩ | ⟨id, name, position, target, rfl⟩ | ⟨id, rfl⟩ | hlinks
  · cases hm
  · exact hg.addMethodParameter id name position target
  · exact hg.clearMethodParameters id
  · exact hg.congr hlinks

end Changes

end CodeAtlas.Graph
