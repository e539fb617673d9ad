import CodeAtlas.Proofs.Run.Asked

/-!
# Source files while nodes are enriched

An answer is about kind, description and texts. This file proves that every class is still stored
with its source file when answers have been written back or taken back, whichever writes are
refused.
-/

namespace CodeAtlas

namespace RecordStore

variable {s t : RecordStore}

/-- Whether the same classes are stored, with the same source files. -/
def KeepsFiles (s t : RecordStore) : Prop :=
  ∀ c, (t.getClass? c).map (·.sourceFile) = (s.getClass? c).map (·.sourceFile)

theorem KeepsFiles.refl (s : RecordStore) : KeepsFiles s s := fun _ => rfl

theorem KeepsFiles.trans {u : RecordStore} (h : KeepsFiles s t) (h' : KeepsFiles t u) :
    KeepsFiles s u := fun c => (h' c).trans (h c)

/-- A write that saves stored classes again with their source files, or rows of methods. -/
def Refiles (s : RecordStore) : StoreWrite → Prop
  | .saveClasses rs => ∀ r ∈ rs, (s.getClass? r.id).map (·.sourceFile) = some r.sourceFile
  | .saveMethods _ => True
  | _ => False

theorem Refiles.congr {w : StoreWrite} (h : s.Refiles w) (hkept : KeepsFiles s t) :
    t.Refiles w := by
  cases w with
  | saveClasses rs => exact fun r hr => (hkept r.id).trans (h r hr)
  | saveMethods rs => trivial
  | saveLinks ls => exact h
  | deleteClasses ids => exact h
  | deleteMethodsAndLinks ids => exact h

theorem keepsFiles_saveClasses {rs : List ClassRecord} (h : s.Refiles (.saveClasses rs)) :
    KeepsFiles s (s.saveClasses rs) := by
  induction rs generalizing s with
  | nil => exact .refl s
  | cons r rest ih =>
    have hfirst : KeepsFiles s (s.putClass r) := by
      intro c
      rw [getClass?_putClass]
      split
      · next hc => rw [hc, h r (List.mem_cons_self ..), Option.map_some]
      · rfl
    have hrest : s.Refiles (.saveClasses rest) := fun x hx => h x (List.mem_cons_of_mem _ hx)
    rw [saveClasses_cons]
    exact hfirst.trans (ih (hrest.congr hfirst))

end RecordStore

namespace StoreAccess

open RecordStore

variable {a : StoreAccess}

/-- A write that refiles, accepted or refused, keeps all source files. -/
theorem keepsFiles_write {w : StoreWrite} (h : a.store.Refiles w) :
    KeepsFiles a.store (StoreAccess.write w a).2.store := by
  rcases write_cases w a with ⟨-, hstore⟩ | ⟨-, hok⟩
  · rw [hstore]
    exact .refl _
  · cases w with
    | saveClasses rs =>
      rw [← Except.ok.inj hok]
      exact keepsFiles_saveClasses h
    | saveMethods rs =>
      obtain ⟨heq, -⟩ := saveMethods_eq_ok hok
      intro c
      unfold getClass?
      rw [heq, classes_putMethods]
    | saveLinks ls => exact h.elim
    | deleteClasses ids => exact h.elim
    | deleteMethodsAndLinks ids => exact h.elim

end StoreAccess

namespace Graph

open RecordStore StoreAccess

variable {g : Graph} {a b : StoreAccess} {id : String}

theorem writeThrough_keepsFiles (ha : a.store.Consistent) :
    KeepsFiles a.store (g.writeThrough id a).2.store := by
  refine writeThrough_induction (motive := fun b => KeepsFiles a.store b.store) (.refl _)
    (fun c r _ hget => keepsFiles_write fun x hx => ?_)
    fun _ _ _ _ hb _ => hb.trans (keepsFiles_write trivial)
  obtain rfl := List.mem_singleton.1 hx
  change (a.store.getClass? r.id).map _ = some r.sourceFile
  rw [ha.classes_keyed c r hget, hget, Option.map_some]

theorem applyAnswer_keepsFiles (ha : a.store.Consistent) (id : String) (x : Answer) :
    KeepsFiles a.store (g.applyAnswer id x a).2.store := by
  rw [applyAnswer_eq]
  split
  · exact writeThrough_keepsFiles ha
  · exact .refl _

/-- A class that is taken back was stored with the source file that it is given. -/
theorem recordsTakenBack_keepsFiles (ha : a.store.Consistent) (hab : KeepsFiles a.store b.store)
    (owner : Option String) (rows : List MethodRecord) :
    KeepsFiles a.store (recordsTakenBack (owner.bind a.store.getClass?) rows b).store := by
  refine recordsTakenBack_induction (motive := fun d => KeepsFiles a.store d.store) hab
    (fun r hrecord => hab.trans (keepsFiles_write fun x hx => ?_))
    fun _ _ _ hd => hd.trans (keepsFiles_write trivial)
  obtain ⟨c, -, hget⟩ := Option.bind_eq_some_iff.1 hrecord
  obtain rfl := List.mem_singleton.1 hx
  rw [hab x.id, ha.classes_keyed c x hget, hget, Option.map_some]

theorem writeBackOne_keepsFiles (ha : a.store.Consistent) (id : String) (x : Answer) :
    KeepsFiles a.store (g.writeBackOne id x a).2.store := by
  have hanswered := applyAnswer_keepsFiles (g := g) ha id x
  rw [writeBackOne_eq]
  cases hrun : g.applyAnswer id x a with
  | mk o b =>
    obtain ⟨now, o⟩ := o
    rw [hrun] at hanswered
    cases o with
    | ok taken => exact hanswered
    | error f => exact recordsTakenBack_keepsFiles ha hanswered _ _

theorem writeBack_keepsFiles (ha : a.store.Consistent) (answers : List (String × Answer)) :
    KeepsFiles a.store (g.writeBack answers a).2.store := by
  induction answers generalizing g a with
  | nil => exact .refl _
  | cons first rest ih =>
    obtain ⟨id, x⟩ := first
    have hone := writeBackOne_keepsFiles (g := g) ha id x
    exact hone.trans (ih (writeBackOne_writtenBack (g := g) ha id x).patched.consistent)

/-- Enriching nodes keeps all source files. -/
theorem enrich_keepsFiles {σ : Type} {w w' : Workspace σ} (hw : w.records.store.Consistent)
    {enricher : Enricher σ} (henricher : ∀ batch, Run.Discreet (enricher batch))
    {repository : Path} {language : String} {ids : List String} {r : Graph × EnrichmentCounts}
    (hrun : (g.enrich enricher repository language ids).run w = (.ok r, w')) :
    KeepsFiles w.records.store w'.records.store := by
  obtain ⟨_, _, outcome, _, -, -, hrecords⟩ := enrich_discreet_eq_ok henricher hrun
  rw [hrecords]
  exact writeBack_keepsFiles hw outcome.succeeded.toList

end Graph

end CodeAtlas
