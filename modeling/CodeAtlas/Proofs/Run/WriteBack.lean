import CodeAtlas.Proofs.Record.Confined
import CodeAtlas.Proofs.Run.Staged

/-!
# Enrichment writes for one project

The answers of an enricher are written through to the records to which nodes are tied. This
file proves that these writes stay within the project, whichever of them are refused, also
where a unit's records are put back after a refusal.
-/

namespace CodeAtlas.Graph

open RecordStore StoreAccess

variable {g : Graph} {a b : StoreAccess} {p id : String}

@[simp] theorem classIds_withAnswer (g : Graph) (id : String) (x : Answer) :
    (g.withAnswer id x).1.classIds = g.classIds := by
  unfold withAnswer applyEnrichment
  split
  · dsimp only
    split
    · split <;> rfl
    · rfl
  · rfl

@[simp] theorem classIds_revertNode (g now : Graph) (id : String) :
    (g.revertNode now id).classIds = now.classIds := by
  unfold revertNode
  rw [classIds_setMethods]
  split
  · rw [classIds_setNodeInfo]
  · rfl

/-- The rows that get a node's texts are rows of its class. -/
theorem mem_updatedMethods {rows : List MethodRecord} {r : MethodRecord}
    (h : r ∈ g.updatedMethods id rows) : ∃ old ∈ rows, r.id = old.id ∧ r.classId = old.classId := by
  obtain ⟨old, hold, hr⟩ := List.mem_filterMap.1 h
  obtain ⟨m, -, rfl⟩ := Option.map_eq_some_iff.1 hr
  exact ⟨old, hold, rfl, rfl⟩

/-- A stored class that is nobody else's may be saved again under its id, whatever else of it
changes. -/
theorem confined_saveClass (ha : a.Sound) {c : String} {old r : ClassRecord}
    (hget : a.store.getClass? c = some old) (hc : ¬a.store.Foreign p c) (hid : r.id = old.id)
    (hproject : r.project = old.project) (hab : Advances p a b) :
    b.Confined p (.saveClasses [r]) := by
  intro x hx
  obtain rfl := List.mem_singleton.1 hx
  have hkey : x.id = c := hid.trans (ha.consistent.classes_keyed c old hget)
  rw [hkey, hproject]
  exact ⟨Owns.of_not_foreign hc hget, hab.not_foreign ha hc, (ha.issued c old hget).mono hab.issued⟩

theorem writeThrough_eq_of_tied {c : String} (h : g.classId? id = some c) (a : StoreAccess) :
    g.writeThrough id a =
      match writeAll (g.classWrites id (a.store.getClass? c)) a with
      | (.error f, b) => (.error f, b)
      | (.ok _, b) => g.saveTexts id c b := by
  unfold writeThrough
  simp only [h, bind, StateT.bind, StoreAccess.current]
  cases writeAll (g.classWrites id (a.store.getClass? c)) a with
  | mk o b => cases o <;> rfl

theorem writeThrough_eq_of_untied (h : g.classId? id = none) (a : StoreAccess) :
    g.writeThrough id a = (.ok (), a) := by
  unfold writeThrough
  simp only [h]
  rfl

theorem saveTexts_eq (g : Graph) (id c : String) (a : StoreAccess) :
    g.saveTexts id c a =
      match g.updatedMethods id (a.store.methodsFor c) with
      | [] => (.ok (), a)
      | r :: rows => StoreAccess.write (.saveMethods (r :: rows)) a := by
  unfold saveTexts
  simp only [bind, StateT.bind, StoreAccess.current]
  cases g.updatedMethods id (a.store.methodsFor c) <;> rfl

/-- What a write through leads to holds, whichever writes are refused, if it holds before, if it
holds once the node's class has been saved, and if saving rows of that class keeps it. -/
theorem writeThrough_induction {motive : StoreAccess → Prop} (hstart : motive a)
    (hclass : ∀ c r, g.classId? id = some c → a.store.getClass? c = some r →
      motive (StoreAccess.write (.saveClasses [g.updatedClass id r]) a).2)
    (hrows : ∀ c b rows, g.classId? id = some c → motive b →
      (∀ m ∈ rows, ∃ old ∈ b.store.methodsFor c, m.classId = old.classId) →
      motive (StoreAccess.write (.saveMethods rows) b).2) :
    motive (g.writeThrough id a).2 := by
  cases hid : g.classId? id with
  | none =>
    rw [writeThrough_eq_of_untied hid]
    exact hstart
  | some c =>
    have htexts {b : StoreAccess} (hb : motive b) : motive (g.saveTexts id c b).2 := by
      rw [saveTexts_eq]
      split
      · exact hb
      · next r rows hupdated =>
        refine hrows c b (r :: rows) hid hb fun m hm => ?_
        obtain ⟨old, hold, -, hclassId⟩ := mem_updatedMethods (hupdated ▸ hm)
        exact ⟨old, hold, hclassId⟩
    rw [writeThrough_eq_of_tied hid]
    unfold classWrites
    cases hget : a.store.getClass? c with
    | none => exact htexts hstart
    | some r =>
      have hsaved := hclass c r hid hget
      dsimp only
      rw [writeAll_cons]
      cases (StoreAccess.write (.saveClasses [g.updatedClass id r]) a).1 with
      | error f => exact hsaved
      | ok u => exact htexts hsaved

/-- Writing a node's texts through stays within the project to whose records nodes are tied. -/
theorem writeThrough_advances (ha : a.Sound) (hg : g.BoundTo fun c => ¬a.store.Foreign p c) :
    Advances p a (g.writeThrough id a).2 := by
  refine writeThrough_induction (motive := fun b => Advances p a b) (.refl ha)
    (fun c r hid hget => ?_) fun c b rows hid hb hrows => ?_
  · exact .write ha (confined_saveClass ha hget (hg id c hid) rfl rfl (.refl ha))
  · refine hb.trans (.write hb.sound fun m hm => ?_)
    obtain ⟨old, hold, hclassId⟩ := hrows m hm
    rw [hclassId, classId_of_mem_methodsFor hb.sound.consistent hold]
    exact hb.not_foreign ha (hg id c hid)

/-- The graph has an answer about a known node, whatever becomes of the writes. -/
theorem applyAnswer_eq (g : Graph) (id : String) (x : Answer) (a : StoreAccess) :
    g.applyAnswer id x a =
      if (g.withAnswer id x).2 then
        (((g.withAnswer id x).1,
            ((g.withAnswer id x).1.writeThrough id a).1.map fun _ => true),
          ((g.withAnswer id x).1.writeThrough id a).2)
      else (((g.withAnswer id x).1, .ok false), a) := by
  unfold applyAnswer
  cases g.withAnswer id x with
  | mk now known =>
    cases known with
    | false => rfl
    | true =>
      simp only [if_true, bind, StateT.bind]
      cases now.writeThrough id a with
      | mk o b => cases o <;> rfl

/-- The records as they are when an answer has been taken back. -/
def recordsTakenBack (record : Option ClassRecord) (rows : List MethodRecord)
    (b : StoreAccess) : StoreAccess :=
  match record with
  | some r => (writeAll [.saveClasses [r], .saveMethods rows] b).2
  | none => b

/-- What becomes of one answer: the graph has it, unless a write is refused; then the node is as
it was, and records that were there are written again. -/
theorem writeBackOne_eq (g : Graph) (id : String) (x : Answer) (a : StoreAccess) :
    g.writeBackOne id x a =
      match g.applyAnswer id x a with
      | ((now, .ok _), b) => ((now, true), b)
      | ((now, .error _), b) =>
        ((g.revertNode now id, false),
          recordsTakenBack ((g.classId? id).bind a.store.getClass?)
            (((g.classId? id).map a.store.methodsFor).getD []) b) := by
  unfold writeBackOne recordsTakenBack
  simp only [bind, StateT.bind, StoreAccess.current]
  cases g.applyAnswer id x a with
  | mk o b =>
    obtain ⟨now, o⟩ := o
    cases o with
    | ok taken => rfl
    | error f => cases (g.classId? id).bind a.store.getClass? <;> rfl

theorem applyAnswer_advances (ha : a.Sound) (hg : g.BoundTo fun c => ¬a.store.Foreign p c)
    (id : String) (x : Answer) :
    Advances p a (g.applyAnswer id x a).2 ∧ (g.applyAnswer id x a).1.1.classIds = g.classIds := by
  rw [applyAnswer_eq]
  split
  · exact ⟨writeThrough_advances ha (hg.congr (classIds_withAnswer g id x)),
      classIds_withAnswer g id x⟩
  · exact ⟨.refl ha, classIds_withAnswer g id x⟩

/-- What putting records back leads to holds, whichever writes are refused, if it holds before, if
it holds once the class record has been saved, and if saving the rows keeps it. -/
theorem recordsTakenBack_induction {motive : StoreAccess → Prop} {record : Option ClassRecord}
    {rows : List MethodRecord} (hstart : motive b)
    (hclass : ∀ r, record = some r → motive (StoreAccess.write (.saveClasses [r]) b).2)
    (hrows : ∀ r d, record = some r → motive d →
      motive (StoreAccess.write (.saveMethods rows) d).2) :
    motive (recordsTakenBack record rows b) := by
  cases record with
  | none => exact hstart
  | some r =>
    have hsaved := hclass r rfl
    unfold recordsTakenBack
    dsimp only
    rw [writeAll_cons]
    cases (StoreAccess.write (.saveClasses [r]) b).1 with
    | error f => exact hsaved
    | ok u =>
      dsimp only
      rw [writeAll_cons]
      split
      · exact hrows r _ rfl hsaved
      · exact hrows r _ rfl hsaved

/-- Putting records back stays within the project if they are its own. -/
theorem recordsTakenBack_advances (ha : a.Sound)
    (hg : g.BoundTo fun c => ¬a.store.Foreign p c) (hab : Advances p a b) :
    Advances p a (recordsTakenBack ((g.classId? id).bind a.store.getClass?)
      (((g.classId? id).map a.store.methodsFor).getD []) b) := by
  refine recordsTakenBack_induction (motive := fun d => Advances p a d) hab (fun r hrecord => ?_)
    fun r d hrecord hd => ?_
  · obtain ⟨c, hc, hget⟩ := Option.bind_eq_some_iff.1 hrecord
    exact hab.trans (.write hab.sound (confined_saveClass ha hget (hg id c hc) rfl rfl hab))
  · obtain ⟨c, hc, hget⟩ := Option.bind_eq_some_iff.1 hrecord
    refine hd.trans (.write hd.sound fun m hm => ?_)
    have hrows : m ∈ a.store.methodsFor c := by simpa [hc] using hm
    rw [classId_of_mem_methodsFor ha.consistent hrows]
    exact hd.not_foreign ha (hg id c hc)

/-- Writing an answer back stays within the project, also where records are put back. -/
theorem writeBackOne_advances (ha : a.Sound) (hg : g.BoundTo fun c => ¬a.store.Foreign p c)
    (id : String) (x : Answer) :
    Advances p a (g.writeBackOne id x a).2 ∧ (g.writeBackOne id x a).1.1.classIds = g.classIds := by
  obtain ⟨hadvances, hids⟩ := applyAnswer_advances ha hg id x
  rw [writeBackOne_eq]
  cases hrun : g.applyAnswer id x a with
  | mk o b =>
    obtain ⟨now, o⟩ := o
    rw [hrun] at hadvances hids
    cases o with
    | ok taken => exact ⟨hadvances, hids⟩
    | error f =>
      exact ⟨recordsTakenBack_advances ha hg hadvances, (classIds_revertNode g now id).trans hids⟩

/-- So does writing back any number of answers. -/
theorem writeBack_advances (ha : a.Sound) (hg : g.BoundTo fun c => ¬a.store.Foreign p c)
    (answers : List (String × Answer)) :
    Advances p a (g.writeBack answers a).2 ∧ (g.writeBack answers a).1.1.classIds = g.classIds := by
  induction answers generalizing g a with
  | nil => exact ⟨.refl ha, rfl⟩
  | cons first rest ih =>
    obtain ⟨id, x⟩ := first
    obtain ⟨hone, hids⟩ := writeBackOne_advances ha hg id x
    have hg' : (g.writeBackOne id x a).1.1.BoundTo
        fun c => ¬(g.writeBackOne id x a).2.store.Foreign p c :=
      (hg.congr hids).mono fun c hc => hone.not_foreign ha hc
    obtain ⟨hrest, hids'⟩ := ih hone.sound hg'
    exact ⟨hone.trans hrest, hids'.trans hids⟩

end CodeAtlas.Graph
