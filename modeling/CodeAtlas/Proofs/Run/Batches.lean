import CodeAtlas.Enrichment.Batches
import Mathlib.Data.List.Nodup
import Mathlib.Data.List.Pairwise

/-!
# Batches in any order

Every unit is sent in one batch, and what becomes of it is said by the answers of this batch
alone. So an outcome tells the same about every unit in whatever order the batches finish, and
no unit is lost.
-/

namespace CodeAtlas

/-! ## Cutting into batches -/

theorem flatten_chunksWithin {α : Type} {size bound : Nat} (hsize : 0 < size) {xs : List α}
    (hbound : xs.length ≤ bound) : (chunksWithin size bound xs).flatten = xs := by
  induction bound generalizing xs with
  | zero =>
    obtain rfl := List.length_eq_zero_iff.1 (Nat.le_zero.1 hbound)
    rfl
  | succ n ih =>
    cases xs with
    | nil => rfl
    | cons x rest =>
      have hrest : ((x :: rest).drop size).length ≤ n := by
        simp only [List.length_drop, List.length_cons] at hbound ⊢
        omega
      rw [chunksWithin, List.flatten_cons, ih hrest, List.take_append_drop]
      simp

theorem length_of_mem_chunksWithin {α : Type} {size bound : Nat} {xs b : List α}
    (h : b ∈ chunksWithin size bound xs) : b.length ≤ size := by
  induction bound generalizing xs with
  | zero => cases h
  | succ n ih =>
    cases xs with
    | nil => cases h
    | cons x rest =>
      rcases List.mem_cons.1 h with rfl | h
      · exact List.length_take_le ..
      · exact ih h

/-- Batches of a size of at least one hold all units one after the other, if there is a worker. -/
theorem exists_planBatches {size workers : Int} (hsize : 1 ≤ size) (hworkers : 1 ≤ workers)
    (units : List UnitRequest) :
    ∃ batches, planBatches size workers units = .ok batches ∧ batches.flatten = units ∧
      ∀ b ∈ batches, (b.length : Int) ≤ size := by
  unfold planBatches
  cases units with
  | nil => exact ⟨[], rfl, rfl, by simp⟩
  | cons u rest =>
    have hne : ¬size = 0 := by omega
    have hneg : ¬size < 0 := by omega
    have hany : ¬workers ≤ 0 := by omega
    refine ⟨chunks size.toNat (u :: rest), ?_, ?_, fun b hb => ?_⟩
    · simp only [List.isEmpty_cons, Bool.false_eq_true, if_false, unitBatches, if_neg hne,
        if_neg hneg, if_neg hany]
      rfl
    · exact flatten_chunksWithin (by omega) (Nat.le_refl _)
    · have hlength := length_of_mem_chunksWithin hb
      omega

/-- What stands once in lists that follow each other stands in one of them. -/
theorem existsUnique_mem_of_flatten {α : Type} {xss : List (List α)} (hnodup : xss.flatten.Nodup)
    {x : α} (hx : x ∈ xss.flatten) : ∃! xs, xs ∈ xss ∧ x ∈ xs := by
  obtain ⟨xs, hxs, hmem⟩ := List.mem_flatten.1 hx
  refine ⟨xs, ⟨hxs, hmem⟩, ?_⟩
  rintro ys ⟨hys, hmem'⟩
  by_contra hne
  have : Std.Symm (@List.Disjoint α) := ⟨fun _ _ h _ hx hy => h hy hx⟩
  exact (List.nodup_flatten.1 hnodup).2.forall hys hxs hne hmem' hmem

/-! ## What batches say about their units -/

namespace EnrichmentOutcome

/-- What a batch says about a unit, if it was answered and its answers hold one. -/
def verdict (result : Outcome BatchAnswers) (id : String) : Option Answer :=
  result.toOption.bind fun answers => answers.get? id

/-- What finished batches say about their units, one after the other. -/
def verdicts (finished : List (List String × Outcome BatchAnswers)) :
    List (String × Option Answer) :=
  finished.flatMap fun b => b.1.map fun id => (id, verdict b.2 id)

/-- Adds what is said about one unit. -/
def addVerdict (o : EnrichmentOutcome) (v : String × Option Answer) : EnrichmentOutcome :=
  match v.2 with
  | some a => { o with succeeded := o.succeeded.insert v.1 a }
  | none => { o with failed := o.failed ++ [v.1] }

/-- A finished batch adds what it says about each of its units. -/
theorem addBatch_eq (o : EnrichmentOutcome) (ids : List String) (result : Outcome BatchAnswers) :
    o.addBatch ids result = (ids.map fun id => (id, verdict result id)).foldl addVerdict o := by
  cases result with
  | ok answers =>
    rw [List.foldl_map]
    rfl
  | error f =>
    induction ids generalizing o with
    | nil => simp [addBatch]
    | cons id rest ih =>
      rw [List.map_cons, List.foldl_cons, ← ih]
      simp [addBatch, addVerdict, verdict, Except.toOption]

theorem ofBatches_eq (finished : List (List String × Outcome BatchAnswers)) :
    ofBatches finished = (verdicts finished).foldl addVerdict empty := by
  unfold ofBatches verdicts
  generalize empty = o
  induction finished generalizing o with
  | nil => rfl
  | cons b rest ih => rw [List.foldl_cons, List.flatMap_cons, List.foldl_append, ← addBatch_eq, ih]

/-- The answers among what is said. -/
def answered (vs : List (String × Option Answer)) : List (String × Answer) :=
  vs.filterMap fun v => v.2.map fun a => (v.1, a)

/-- The units of which nothing is said. -/
def unanswered (vs : List (String × Option Answer)) : List String :=
  vs.filterMap fun v => if v.2 = none then some v.1 else none

theorem foldl_addVerdict (o : EnrichmentOutcome) (vs : List (String × Option Answer)) :
    vs.foldl addVerdict o =
      ⟨(answered vs).foldl (fun d e => d.insert e.1 e.2) o.succeeded,
        o.failed ++ unanswered vs⟩ := by
  induction vs generalizing o with
  | nil => simp [answered, unanswered]
  | cons v rest ih =>
    obtain ⟨id, verdict⟩ := v
    rw [List.foldl_cons, ih]
    cases verdict <;> simp [addVerdict, answered, unanswered]

/-- Every unit of which something can be said is answered or unanswered. -/
theorem perm_answered_unanswered (vs : List (String × Option Answer)) :
    ((answered vs).map (·.1) ++ unanswered vs).Perm (vs.map (·.1)) := by
  induction vs with
  | nil => exact .refl _
  | cons v rest ih =>
    obtain ⟨id, verdict⟩ := v
    cases verdict with
    | some a => simpa [answered, unanswered] using ih.cons id
    | none =>
      have hmoved : ((answered rest).map (·.1) ++ id :: unanswered rest).Perm
          (id :: ((answered rest).map (·.1) ++ unanswered rest)) := List.perm_middle
      simpa [answered, unanswered] using hmoved.trans (ih.cons id)

/-- The outcome of batches with different units holds what they say and nothing else. -/
theorem ofBatches_of_nodup {finished : List (List String × Outcome BatchAnswers)}
    (hnodup : ((verdicts finished).map (·.1)).Nodup) :
    (ofBatches finished).succeeded.entries = answered (verdicts finished) ∧
      (ofBatches finished).failed = unanswered (verdicts finished) := by
  have hkeys : ((answered (verdicts finished)).map (·.1)).Nodup :=
    (List.nodup_append.1 ((perm_answered_unanswered _).nodup_iff.2 hnodup)).1
  rw [ofBatches_eq, foldl_addVerdict]
  refine ⟨?_, by simp [empty]⟩
  exact Dict.entries_foldl_insert_of_new (d := .empty) hkeys (by simp)

/-! ## Orders -/

section InOrder

variable (respond : List UnitRequest → Outcome BatchAnswers) (order : List (List UnitRequest))

/-- The outcome of batches that are answered in a certain way and finish in a certain order. -/
def inOrder : EnrichmentOutcome :=
  ofBatches (order.map fun b => (b.map (·.identifier), respond b))

/-- What is said about the units of such batches. -/
def saidInOrder : List (String × Option Answer) :=
  order.flatMap fun b => b.map fun u => (u.identifier, verdict (respond b) u.identifier)

theorem verdicts_eq_saidInOrder :
    verdicts (order.map fun b => (b.map (·.identifier), respond b)) =
      saidInOrder respond order := by
  simp [verdicts, saidInOrder, List.flatMap_map, Function.comp_def]

theorem map_saidInOrder :
    (saidInOrder respond order).map (·.1) = order.flatten.map (·.identifier) := by
  simp [saidInOrder, List.map_flatten, List.flatMap, Function.comp_def]

theorem inOrder_of_nodup {order : List (List UnitRequest)}
    (hnodup : (order.flatten.map (·.identifier)).Nodup) :
    (inOrder respond order).succeeded.entries = answered (saidInOrder respond order) ∧
      (inOrder respond order).failed = unanswered (saidInOrder respond order) := by
  rw [← map_saidInOrder respond, ← verdicts_eq_saidInOrder] at hnodup
  rw [← verdicts_eq_saidInOrder]
  exact ofBatches_of_nodup hnodup

/-- Every unit succeeds or fails. -/
theorem keys_inOrder_perm {order : List (List UnitRequest)}
    (hnodup : (order.flatten.map (·.identifier)).Nodup) :
    ((inOrder respond order).succeeded.keys ++ (inOrder respond order).failed).Perm
      (order.flatten.map (·.identifier)) := by
  obtain ⟨hsucceeded, hfailed⟩ := inOrder_of_nodup respond hnodup
  rw [Dict.keys, hsucceeded, hfailed, ← map_saidInOrder respond]
  exact perm_answered_unanswered _

/-- The order in which batches finish shows in nothing but the order of the outcome. -/
theorem inOrder_perm {order batches : List (List UnitRequest)} (h : order.Perm batches)
    (hnodup : (batches.flatten.map (·.identifier)).Nodup) :
    (inOrder respond order).succeeded.entries.Perm (inOrder respond batches).succeeded.entries ∧
      (inOrder respond order).failed.Perm (inOrder respond batches).failed := by
  have hunits : (order.flatten.map (·.identifier)).Nodup :=
    (h.flatten.map _).nodup_iff.2 hnodup
  have hsaid : (saidInOrder respond order).Perm (saidInOrder respond batches) :=
    h.flatMap_right _
  obtain ⟨hsucceeded, hfailed⟩ := inOrder_of_nodup respond hnodup
  obtain ⟨hsucceeded', hfailed'⟩ := inOrder_of_nodup respond hunits
  rw [hsucceeded, hfailed, hsucceeded', hfailed']
  exact ⟨hsaid.filterMap _, hsaid.filterMap _⟩

end InOrder

end EnrichmentOutcome

end CodeAtlas
