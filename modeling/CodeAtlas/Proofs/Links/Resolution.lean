import CodeAtlas.Source.Java
import Mathlib.Data.List.Basic

/-!
# What parameter types can mean

A written type means a unit only if that unit is known. Of the known units only a few matter for
a file: the names that it could mean by its parameter types. This file proves that the targets of
a file's methods are among these and that nothing else that is known changes them.
-/

namespace CodeAtlas

/-! ## Targets of methods -/

/-- Targets as they are recorded: no method twice and none without targets, which all have a
property. -/
structure MethodTargets.All (P : String → Prop) (r : MethodTargets) : Prop where
  names_nodup : r.keys.Nodup
  nonempty : ∀ name targets, r.get? name = some targets → targets ≠ []
  targets : ∀ name targets, r.get? name = some targets → ∀ t ∈ targets, P t

namespace MethodTargets.All

variable {P Q : String → Prop} {r : MethodTargets}

theorem of_empty (P : String → Prop) : MethodTargets.All P .empty where
  names_nodup := List.nodup_nil
  nonempty _ _ h := by cases h
  targets _ _ h := by cases h

theorem mono (h : r.All P) (hPQ : ∀ t, P t → Q t) : r.All Q where
  names_nodup := h.names_nodup
  nonempty := h.nonempty
  targets name targets hget t ht := hPQ t (h.targets name targets hget t ht)

theorem record (h : r.All P) (name : String) {targets : List String} (ht : ∀ t ∈ targets, P t) :
    (r.record name targets).All P := by
  unfold MethodTargets.record
  split
  · exact h
  · next hnonempty =>
    refine ⟨Dict.nodup_keys_insert h.names_nodup name targets, fun n ts hget => ?_,
      fun n ts hget => ?_⟩
    · rw [Dict.get?_insert] at hget
      split at hget
      · cases hget
        exact fun heq => hnonempty (List.isEmpty_iff.2 heq)
      · exact h.nonempty n ts hget
    · rw [Dict.get?_insert] at hget
      split at hget
      · cases hget
        exact ht
      · exact h.targets n ts hget

/-- What is true of all targets is true of those in each entry. -/
theorem of_mem (h : r.All P) {e : String × List String} (he : e ∈ r.toList) :
    e.2 ≠ [] ∧ ∀ t ∈ e.2, P t := by
  have hget := (Dict.mem_entries_iff h.names_nodup e.1 e.2).1 he
  exact ⟨h.nonempty e.1 e.2 hget, h.targets e.1 e.2 hget⟩

end MethodTargets.All

/-! ## Meanings of types -/

namespace JavaFile

variable (j : JavaFile) {known known' : List String}

/-- The units that a written type could mean: the one that it names in full, the imported one,
and the one of the file's package. -/
def meanings (written : String) : List String :=
  let name := plainType written
  (if name.toList.contains '.' then [name] else []) ++
    (j.importedTypes.get? name).toList ++ [j.qualified name]

/-- The units that the parameter types of a file's methods could mean. -/
def parameterMeanings : List String :=
  j.methods.flatMap fun m => m.parameterTypes.flatMap j.meanings

/-- A type means a known unit among those that it could mean. -/
theorem mem_of_resolveType? {written t : String} (h : j.resolveType? known written = some t) :
    known.contains t = true ∧ t ∈ j.meanings written := by
  unfold resolveType? at h
  unfold meanings
  dsimp only at h ⊢
  rw [List.mem_append, List.mem_append]
  split at h
  · cases h
  split at h
  · next hnamed =>
    obtain rfl := Option.some.inj h
    rw [Bool.and_eq_true] at hnamed
    rw [if_pos hnamed.1]
    exact ⟨hnamed.2, Or.inl (Or.inl (List.mem_singleton_self _))⟩
  split at h
  · next imported himported =>
    obtain rfl := Option.some.inj h
    obtain ⟨hget, hknown⟩ := Option.filter_eq_some_iff.1 himported
    exact ⟨hknown, Or.inl (Or.inr (Option.mem_toList.2 hget))⟩
  · split at h
    · next hknown =>
      obtain rfl := Option.some.inj h
      exact ⟨hknown, Or.inr (List.mem_singleton_self _)⟩
    · cases h

/-- Only the units that a type could mean matter for what it means. -/
theorem resolveType?_congr {written : String}
    (h : ∀ t ∈ j.meanings written, known'.contains t = known.contains t) :
    j.resolveType? known' written = j.resolveType? known written := by
  unfold meanings at h
  dsimp only at h
  unfold resolveType?
  dsimp only
  have hnamed : ((plainType written).toList.contains '.' &&
      known'.contains (plainType written)) =
        ((plainType written).toList.contains '.' && known.contains (plainType written)) := by
    by_cases hdot : (plainType written).toList.contains '.' = true
    · rw [h _ (by rw [if_pos hdot]; simp)]
    · rw [Bool.not_eq_true] at hdot
      rw [hdot, Bool.false_and, Bool.false_and]
  have himported : (j.importedTypes.get? (plainType written)).filter known'.contains =
      (j.importedTypes.get? (plainType written)).filter known.contains := by
    cases hget : j.importedTypes.get? (plainType written) with
    | none => rfl
    | some t => rw [Option.filter_some, Option.filter_some, h t (by simp [hget])]
  rw [hnamed, himported, h (j.qualified (plainType written)) (by simp)]

/-! ## Targets of a file -/

/-- The targets of a file's methods are known units that their parameter types could mean. -/
theorem parameterTargets_all (known : List String) :
    (j.parameterTargets known).All fun t =>
      known.contains t = true ∧ t ∈ j.parameterMeanings := by
  unfold parameterTargets
  refine List.foldlRecOn j.methods _ (.of_empty _) fun r hr m hm => ?_
  refine hr.record m.name fun t ht => ?_
  obtain ⟨written, hwritten, hmeans⟩ := List.mem_filterMap.1 ht
  obtain ⟨hknown, hmem⟩ := j.mem_of_resolveType? hmeans
  refine ⟨hknown, List.mem_flatMap.2 ⟨m, hm, ?_⟩⟩
  exact List.mem_flatMap.2 ⟨written, hwritten, hmem⟩

/-- Only the units that the parameter types could mean matter for the targets. -/
theorem parameterTargets_congr
    (h : ∀ t ∈ j.parameterMeanings, known'.contains t = known.contains t) :
    j.parameterTargets known' = j.parameterTargets known := by
  unfold parameterTargets
  refine List.foldl_ext _ _ _ fun r m hm => ?_
  have htypes : m.parameterTypes.filterMap (j.resolveType? known') =
      m.parameterTypes.filterMap (j.resolveType? known) := by
    refine List.filterMap_congr fun written hwritten => j.resolveType?_congr fun t ht => ?_
    refine h t (List.mem_flatMap.2 ⟨m, hm, ?_⟩)
    exact List.mem_flatMap.2 ⟨written, hwritten, ht⟩
  rw [htypes]

end JavaFile

end CodeAtlas
