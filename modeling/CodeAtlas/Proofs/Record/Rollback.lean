import CodeAtlas.Proofs.Record.Confined
import CodeAtlas.Record.Staging

/-!
# Putting records back

A snapshot holds what a project has in the store. Putting it back deletes all that the project
has by then, with every link to it, and writes the snapshot. This file proves that the store
then answers as it did when the snapshot was taken, if only this project was written for in
between.
-/

namespace CodeAtlas

/-- In the groups of differently named elements, the members that bear a name are the group of
that element. -/
theorem filter_flatMap_of_keyed {α β : Type} {name : α → String} {key : β → String}
    {group : α → List β} {xs : List α} (hnodup : (xs.map name).Nodup)
    (hkeyed : ∀ x ∈ xs, ∀ y ∈ group x, key y = name x) {x : α} (hx : x ∈ xs) :
    (xs.flatMap group).filter (fun y => key y = name x) = group x := by
  have hother (z : α) (hz : z ∈ xs) (hne : name z ≠ name x) :
      (group z).filter (fun y => key y = name x) = [] := by
    rw [List.filter_eq_nil_iff]
    intro y hy
    rw [hkeyed z hz y hy, decide_eq_true_eq]
    exact hne
  have hown (z : α) (hz : z ∈ xs) (heq : name z = name x) :
      (group z).filter (fun y => key y = name x) = group z := by
    rw [List.filter_eq_self]
    intro y hy
    rw [hkeyed z hz y hy, decide_eq_true_eq]
    exact heq
  induction xs with
  | nil => cases hx
  | cons z rest ih =>
    obtain ⟨hz, hrest⟩ := List.nodup_cons.1 hnodup
    rw [List.flatMap_cons, List.filter_append]
    rcases List.mem_cons.1 hx with rfl | hx
    · have hnone : (rest.flatMap group).filter (fun y => key y = name x) = [] := by
        rw [List.filter_flatMap]
        refine List.flatMap_eq_nil_iff.2 fun w hw => hother w (List.mem_cons_of_mem _ hw) ?_
        exact fun heq => hz (heq ▸ List.mem_map_of_mem hw)
      rw [hown x (List.mem_cons_self ..) rfl, hnone, List.append_nil]
    · have hne : name z ≠ name x := fun heq => hz (heq ▸ List.mem_map_of_mem hx)
      rw [hother z (List.mem_cons_self ..) hne, List.nil_append]
      exact ih hrest (fun w hw => hkeyed w (List.mem_cons_of_mem _ hw)) hx
        (fun w hw => hother w (List.mem_cons_of_mem _ hw))
        fun w hw => hown w (List.mem_cons_of_mem _ hw)

namespace RecordStore

variable {a b : RecordStore} {p : String}

/-- Two stores that answer everything that can be asked alike. -/
structure SameAnswers (a b : RecordStore) : Prop where
  findByProject : ∀ q, b.findByProject q = a.findByProject q
  getClass? : ∀ id, b.getClass? id = a.getClass? id
  methodsFor : ∀ id, b.methodsFor id = a.methodsFor id
  linksFor : ∀ id, b.linksFor id = a.linksFor id

theorem SameAnswers.refl (s : RecordStore) : SameAnswers s s :=
  ⟨fun _ => rfl, fun _ => rfl, fun _ => rfl, fun _ => rfl⟩

/-- A class that is not stored owns no link. -/
theorem LinksInside.linksFor_of_none (h : a.LinksInside) {id : String}
    (hget : a.getClass? id = none) : a.linksFor id = [] := by
  rw [List.eq_nil_iff_forall_not_mem]
  intro l hl
  obtain ⟨q, ⟨r, hr, -⟩, -⟩ := h id l hl
  rw [hget] at hr
  cases hr

/-- The answers about all projects are all answers: what is not stored for any project has
neither methods nor links. -/
theorem SameAnswers.of_projects (ha : a.Consistent) (hb : b.Consistent) (hai : a.LinksInside)
    (hbi : b.LinksInside) (hfind : ∀ q, b.findByProject q = a.findByProject q)
    (hmethods : ∀ q, ∀ r ∈ a.findByProject q, b.methodsFor r.id = a.methodsFor r.id)
    (hlinks : ∀ q, ∀ r ∈ a.findByProject q, b.linksFor r.id = a.linksFor r.id) :
    SameAnswers a b := by
  have hsome (id : String) (r : ClassRecord) (hget : a.getClass? id = some r) :
      r ∈ a.findByProject r.project ∧ r.id = id :=
    ⟨mem_findByProject_of_getClass? ha hget, ha.classes_keyed id r hget⟩
  have hnone (id : String) (hget : a.getClass? id = none) : b.getClass? id = none := by
    cases hb' : b.getClass? id with
    | none => rfl
    | some r =>
      have hmem : r ∈ a.findByProject r.project := by
        rw [← hfind]
        exact mem_findByProject_of_getClass? hb hb'
      have hid := hb.classes_keyed id r hb'
      rw [← hid, ((mem_findByProject ha).1 hmem).1] at hget
      cases hget
  refine ⟨hfind, fun id => ?_, fun id => ?_, fun id => ?_⟩
  · cases hget : a.getClass? id with
    | none => exact hnone id hget
    | some r =>
      obtain ⟨hmem, rfl⟩ := hsome id r hget
      rw [← hfind] at hmem
      exact ((mem_findByProject hb).1 hmem).1
  · cases hget : a.getClass? id with
    | none =>
      rw [methodsFor_eq_values, methodsFor_eq_values, ha.rows_stored id hget,
        hb.rows_stored id (hnone id hget)]
    | some r =>
      obtain ⟨hmem, rfl⟩ := hsome id r hget
      exact hmethods _ r hmem
  · cases hget : a.getClass? id with
    | none => rw [hai.linksFor_of_none hget, hbi.linksFor_of_none (hnone id hget)]
    | some r =>
      obtain ⟨hmem, rfl⟩ := hsome id r hget
      exact hlinks _ r hmem

/-! ## Rewriting a project -/

/-- The store with a project's records as they are in another store. -/
def rewriteProject (d a : RecordStore) (p : String) : RecordStore :=
  (((Snapshot.take a p).methods.foldl putMethod (d.saveClasses (a.findByProject p))).saveLinks
    (Snapshot.take a p).links)

/-- A store without anything of a project, which otherwise answers as another one. -/
structure Cleared (p : String) (a d : RecordStore) : Prop where
  consistent : d.Consistent
  inside : d.LinksInside
  frame : Frame p a d
  nothing : ∀ id, ¬d.Owns p id

namespace Cleared

variable {d : RecordStore}

/-- What belonged to the project is not stored. -/
theorem getClass?_of_owns (h : Cleared p a d) (ha : a.Consistent) {id : String}
    (hown : a.Owns p id) : d.getClass? id = none := by
  cases hget : d.getClass? id with
  | none => rfl
  | some r =>
    by_cases hp : r.project = p
    · exact absurd ⟨r, hget, hp⟩ (h.nothing id)
    · have hforeign : d.Foreign p id := ⟨r.project, hp, r, hget, rfl⟩
      exact absurd ((h.frame.foreign_iff ha h.consistent).1 hforeign) hown.not_foreign

theorem owns_of_mem (ha : a.Consistent) {r : ClassRecord} (hr : r ∈ a.findByProject p) :
    a.Owns p r.id :=
  (owns_iff_exists_mem ha).2 ⟨r, hr, rfl⟩

theorem getClass?_of_mem (h : Cleared p a d) (ha : a.Consistent) {r : ClassRecord}
    (hr : r ∈ a.findByProject p) : d.getClass? r.id = none :=
  h.getClass?_of_owns ha (owns_of_mem ha hr)

theorem project_of_mem (ha : a.Consistent) {r : ClassRecord} (hr : r ∈ a.findByProject p) :
    r.project = p :=
  ((mem_findByProject ha).1 hr).2

theorem not_foreign_of_mem (h : Cleared p a d) (ha : a.Consistent) {r : ClassRecord}
    (hr : r ∈ a.findByProject p) : ¬d.Foreign p r.id :=
  fun hf => (owns_of_mem ha hr).not_foreign ((h.frame.foreign_iff ha h.consistent).1 hf)

/-- Everything that the project owned is stored for it again. -/
theorem owns_saveClasses (ha : a.Consistent) {id : String}
    (hown : a.Owns p id) : (d.saveClasses (a.findByProject p)).Owns p id := by
  obtain ⟨r, hr, rfl⟩ := (owns_iff_exists_mem ha).1 hown
  exact ⟨r, getClass?_saveClasses_of_mem (nodup_ids_findByProject ha p) hr, project_of_mem ha hr⟩

theorem mem_take_methods (ha : a.Consistent) {m : MethodRecord}
    (hm : m ∈ (Snapshot.take a p).methods) : a.Owns p m.classId := by
  obtain ⟨r, hr, hm⟩ := List.mem_flatMap.1 hm
  rw [classId_of_mem_methodsFor ha hm]
  exact owns_of_mem ha hr

theorem mem_take_links (ha : a.Consistent) (hai : a.LinksInside) {l : LinkRecord}
    (hl : l ∈ (Snapshot.take a p).links) : a.Owns p l.classId ∧ a.Owns p l.targetId := by
  obtain ⟨r, hr, hmem⟩ := List.mem_flatMap.1 hl
  have hown := owns_of_mem ha hr
  obtain ⟨q, howner, htarget⟩ := hai r.id l hmem
  obtain rfl := howner.unique hown
  rw [ha.links_owned r.id l hmem]
  exact ⟨hown, htarget⟩

/-- The rewritten rows name stored classes, so none of them is refused. -/
theorem saveMethods_eq (ha : a.Consistent) :
    (d.saveClasses (a.findByProject p)).saveMethods (Snapshot.take a p).methods =
      .ok ((Snapshot.take a p).methods.foldl putMethod
        (d.saveClasses (a.findByProject p))) := by
  refine saveMethods_of_known fun m hm => ?_
  obtain ⟨r, hget, -⟩ := owns_saveClasses ha (mem_take_methods ha hm)
  exact Dict.contains_of_get?_eq_some hget

theorem consistent_rewriteProject (h : Cleared p a d) (ha : a.Consistent) :
    (d.rewriteProject a p).Consistent :=
  ((h.consistent.saveClasses _).saveMethods (saveMethods_eq ha)).saveLinks _

theorem classes_rewriteProject (d a : RecordStore) (p : String) :
    (d.rewriteProject a p).classes = (d.saveClasses (a.findByProject p)).classes := by
  unfold rewriteProject
  rw [classes_saveLinks, classes_putMethods]

theorem linksInside_rewriteProject (h : Cleared p a d) (ha : a.Consistent)
    (hai : a.LinksInside) : (d.rewriteProject a p).LinksInside := by
  have hclasses := h.inside.saveClasses (fun r hr => project_of_mem ha hr)
    fun r hr => h.not_foreign_of_mem ha hr
  refine (hclasses.saveMethods _).saveLinks (p := p) fun l hl => ?_
  obtain ⟨howner, htarget⟩ := mem_take_links ha hai hl
  have heq := classes_putMethods (d.saveClasses (a.findByProject p)) (Snapshot.take a p).methods
  exact ⟨(owns_of_classes_eq heq).2 (owns_saveClasses ha howner),
    (owns_of_classes_eq heq).2 (owns_saveClasses ha htarget)⟩

/-- Rewriting a project leaves the others alone. -/
theorem frame_rewriteProject (h : Cleared p a d) (ha : a.Consistent) (hai : a.LinksInside) :
    Frame p a (d.rewriteProject a p) := by
  have hclasses : Frame p d (d.saveClasses (a.findByProject p)) :=
    .saveClasses (fun r hr => project_of_mem ha hr) fun r hr => h.not_foreign_of_mem ha hr
  have hsaved := h.consistent.saveClasses (a.findByProject p)
  have hmethods := Frame.saveMethods hsaved fun m hm =>
    (owns_saveClasses ha (mem_take_methods ha hm)).not_foreign
  have hlinks := Frame.saveLinks (hsaved.saveMethods (saveMethods_eq ha)) fun l hl =>
    ((owns_of_classes_eq (classes_putMethods _ _)).2
      (owns_saveClasses ha (mem_take_links ha hai hl).1)).not_foreign
  exact ((h.frame.trans hclasses).trans hmethods).trans hlinks

/-- The project's classes are back in their order. -/
theorem findByProject_rewriteProject (h : Cleared p a d) (ha : a.Consistent) :
    (d.rewriteProject a p).findByProject p = a.findByProject p := by
  have hnothing : d.findByProject p = [] := by
    rw [List.eq_nil_iff_forall_not_mem]
    exact fun r hr => h.nothing r.id ((owns_iff_exists_mem h.consistent).2 ⟨r, hr, rfl⟩)
  have hall : (a.findByProject p).filter (fun r => r.project = p) = a.findByProject p := by
    rw [List.filter_eq_self]
    exact fun r hr => decide_eq_true (project_of_mem ha hr)
  have hsaved := findByProject_saveClasses_of_new (s := d) (nodup_ids_findByProject ha p)
    (fun r hr => h.getClass?_of_mem ha hr) p
  rw [hnothing, hall, List.nil_append] at hsaved
  rw [← hsaved]
  unfold RecordStore.findByProject
  rw [classes_rewriteProject]
  rfl

/-- So are the methods of each class. -/
theorem methodsFor_rewriteProject (h : Cleared p a d) (ha : a.Consistent) {r : ClassRecord}
    (hr : r ∈ a.findByProject p) :
    (d.rewriteProject a p).methodsFor r.id = a.methodsFor r.id := by
  have hrows : (d.rewriteProject a p).rowsOf r.id =
      (a.methodsFor r.id).foldl (fun rows m => rows.insert m.id m) .empty := by
    unfold rewriteProject rowsOf
    rw [methods_saveLinks]
    change rowsOf _ r.id = _
    rw [rowsOf_putMethods, rowsOf_saveClasses,
      h.consistent.rows_stored _ (h.getClass?_of_mem ha hr)]
    congr 1
    exact filter_flatMap_of_keyed (nodup_ids_findByProject ha p)
      (fun _ _ _ hm => classId_of_mem_methodsFor ha hm) hr
  rw [methodsFor_eq_values, hrows,
    Dict.values_foldl_insert_of_new _ _ (nodup_ids_methodsFor ha r.id)]
  · rfl
  · exact fun _ _ hmem => by cases hmem

/-- And the links that each class owns. -/
theorem linksFor_rewriteProject (h : Cleared p a d) (ha : a.Consistent) {r : ClassRecord}
    (hr : r ∈ a.findByProject p) :
    (d.rewriteProject a p).linksFor r.id = a.linksFor r.id := by
  have hempty : ((Snapshot.take a p).methods.foldl putMethod
      (d.saveClasses (a.findByProject p))).linksFor r.id = [] := by
    unfold linksFor
    rw [links_putMethods]
    change linksFor _ r.id = []
    rw [linksFor_saveClasses, h.inside.linksFor_of_none (h.getClass?_of_mem ha hr)]
  have hown : (Snapshot.take a p).links.filter (fun l => l.classId = r.id) = a.linksFor r.id :=
    filter_flatMap_of_keyed (nodup_ids_findByProject ha p)
      (fun _ _ _ hl => ha.links_owned _ _ hl) hr
  unfold rewriteProject
  rw [linksFor_saveLinks, hempty, hown, foldl_appendNew_of_nodup]
  · rfl
  · simpa using ha.links_nodup r.id

/-- A project that is rewritten from another store has there what it has here. -/
theorem sameAnswers_rewriteProject (h : Cleared p a d) (ha : a.Consistent)
    (hai : a.LinksInside) : SameAnswers a (d.rewriteProject a p) := by
  have hframe := h.frame_rewriteProject ha hai
  refine .of_projects ha (h.consistent_rewriteProject ha) hai
    (h.linksInside_rewriteProject ha hai) (fun q => ?_) (fun q r hr => ?_) fun q r hr => ?_
  · by_cases hq : q = p
    · rw [hq]
      exact h.findByProject_rewriteProject ha
    · exact hframe.classes q hq
  · by_cases hq : q = p
    · exact h.methodsFor_rewriteProject ha (hq ▸ hr)
    · exact hframe.methods q hq r hr
  · by_cases hq : q = p
    · exact h.linksFor_rewriteProject ha (hq ▸ hr)
    · exact hframe.links q hq r hr

end Cleared

/-- Deleting all classes of a project leaves nothing of it. -/
theorem Cleared.of_deleteClasses (hb : b.Consistent) (hbi : b.LinksInside)
    (hframe : Frame p a b) :
    Cleared p a (b.deleteClasses ((b.findByProject p).map (·.id))) where
  consistent := hb.deleteClasses _
  inside := hbi.deleteClasses _
  frame := by
    refine hframe.trans (.deleteClasses hb hbi fun id hid => ?_)
    obtain ⟨r, hr, rfl⟩ := List.mem_map.1 hid
    exact ((owns_iff_exists_mem hb).2 ⟨r, hr, rfl⟩).not_foreign
  nothing id hown := by
    obtain ⟨hout, hown⟩ := owns_deleteClasses.1 hown
    obtain ⟨r, hr, rfl⟩ := (owns_iff_exists_mem hb).1 hown
    exact hout (List.mem_map_of_mem hr)

end RecordStore

/-! ## Restoring a snapshot -/

open RecordStore

/-- Accepted writes have been made one after the other. -/
theorem StoreAccess.writeAll_cons_eq_ok {w : StoreWrite} {ws : List StoreWrite}
    {a : StoreAccess} (h : (writeAll (w :: ws) a).1 = .ok ()) :
    ∃ b, a.store.write w = .ok b.store ∧ (writeAll ws b).1 = .ok () ∧
      (writeAll (w :: ws) a).2 = (writeAll ws b).2 := by
  rw [writeAll_cons] at h ⊢
  cases hw : (write w a).1 with
  | error f =>
    rw [hw] at h
    cases h
  | ok u =>
    rw [hw] at h
    exact ⟨(write w a).2, write_eq_ok hw, h, rfl⟩

/-- The three saves of a restored snapshot. -/
def Snapshot.saves (snap : Snapshot) : List StoreWrite :=
  [.saveClasses snap.classes, .saveMethods snap.methods, .saveLinks snap.links]

theorem Snapshot.saves_eq_ok {a : RecordStore} {p : String} {d : StoreAccess}
    (hok : (StoreAccess.writeAll (Snapshot.take a p).saves d).1 = .ok ()) :
    (StoreAccess.writeAll (Snapshot.take a p).saves d).2.store = d.store.rewriteProject a p := by
  obtain ⟨e, he, hok, hstep⟩ := StoreAccess.writeAll_cons_eq_ok hok
  obtain ⟨f, hf, hok, hstep'⟩ := StoreAccess.writeAll_cons_eq_ok hok
  obtain ⟨g, hg, -, hstep''⟩ := StoreAccess.writeAll_cons_eq_ok hok
  have hclasses : e.store = d.store.saveClasses (a.findByProject p) := (Except.ok.inj he).symm
  have hmethods : f.store = (Snapshot.take a p).methods.foldl putMethod e.store :=
    (saveMethods_eq_ok hf).1
  have hlinks : g.store = f.store.saveLinks (Snapshot.take a p).links := (Except.ok.inj hg).symm
  rw [Snapshot.saves, hstep, hstep', hstep'']
  change g.store = _
  rw [hlinks, hmethods, hclasses]
  rfl

/-- Whatever a project's runs have written since, a snapshot that is put back without a refusal
makes the store answer everything as it did when the snapshot was taken. -/
theorem Snapshot.restore_sameAnswers {a : RecordStore} {p : String} {b : StoreAccess}
    (ha : a.Consistent) (hai : a.LinksInside) (hb : b.Sound) (hframe : Frame p a b.store)
    (hok : ((Snapshot.take a p).restore b).1 = .ok ()) :
    SameAnswers a ((Snapshot.take a p).restore b).2.store := by
  have hcleared := Cleared.of_deleteClasses hb.consistent hb.inside hframe
  unfold Snapshot.restore at hok ⊢
  change (StoreAccess.writeAll (_ ++ (Snapshot.take a p).saves) b).1 = .ok () at hok
  change SameAnswers a (StoreAccess.writeAll (_ ++ (Snapshot.take a p).saves) b).2.store
  rw [show (Snapshot.take a p).project = p from rfl] at hok ⊢
  cases hfind : b.store.findByProject p with
  | nil =>
    rw [hfind] at hok hcleared
    rw [List.map_nil, deleteClasses_nil] at hcleared
    rw [List.nil_append] at hok ⊢
    rw [saves_eq_ok hok]
    exact hcleared.sameAnswers_rewriteProject ha hai
  | cons r rs =>
    rw [hfind] at hok hcleared
    dsimp only at hok ⊢
    rw [List.cons_append, List.nil_append] at hok ⊢
    obtain ⟨d, hd, hok, hstep⟩ := StoreAccess.writeAll_cons_eq_ok hok
    have hstore : d.store = b.store.deleteClasses ((r :: rs).map (·.id)) :=
      (Except.ok.inj hd).symm
    rw [← hstore] at hcleared
    rw [hstep, saves_eq_ok hok]
    exact hcleared.sameAnswers_rewriteProject ha hai

/-- A store that refuses nothing takes a snapshot back: its rows name classes that are saved
before them. -/
theorem Snapshot.saves_of_unrefused {a : RecordStore} {p : String} {d : StoreAccess}
    (ha : a.Consistent) (hd : d.Unrefused) :
    (StoreAccess.writeAll (Snapshot.take a p).saves d).1 = .ok () := by
  obtain ⟨e, he, hfree, heq⟩ := hd.writeAll_cons_eq
    (w := .saveClasses (Snapshot.take a p).classes) rfl
    [.saveMethods (Snapshot.take a p).methods, .saveLinks (Snapshot.take a p).links]
  have hrows : e.store.write (.saveMethods (Snapshot.take a p).methods) =
      .ok ((Snapshot.take a p).methods.foldl putMethod e.store) := by
    rw [he]
    exact Cleared.saveMethods_eq ha
  obtain ⟨f, -, hfree, heq'⟩ := hfree.writeAll_cons_eq hrows
    [.saveLinks (Snapshot.take a p).links]
  obtain ⟨g, -, -, heq''⟩ := hfree.writeAll_cons_eq
    (w := .saveLinks (Snapshot.take a p).links) rfl []
  unfold Snapshot.saves
  rw [heq, heq', heq'']
  rfl

theorem Snapshot.restore_of_unrefused {a : RecordStore} {p : String} {b : StoreAccess}
    (ha : a.Consistent) (hb : b.Unrefused) : ((Snapshot.take a p).restore b).1 = .ok () := by
  unfold Snapshot.restore
  change (StoreAccess.writeAll (_ ++ (Snapshot.take a p).saves) b).1 = .ok ()
  rw [show (Snapshot.take a p).project = p from rfl]
  cases b.store.findByProject p with
  | nil => exact saves_of_unrefused ha hb
  | cons r rs =>
    dsimp only
    rw [List.cons_append, List.nil_append]
    obtain ⟨d, -, hfree, heq⟩ := hb.writeAll_cons_eq
      (w := .deleteClasses ((r :: rs).map (·.id))) rfl (Snapshot.take a p).saves
    rw [heq]
    exact saves_of_unrefused ha hfree

/-- Putting a snapshot back stays within its project, also where it is cut short: links are
written only when the classes are there again. -/
theorem Snapshot.saves_advances {a : RecordStore} {p : String} {d : StoreAccess}
    (ha : a.Consistent) (hai : a.LinksInside) (hd : d.Sound) (hframe : Frame p a d.store)
    (hissued : ∀ r ∈ a.findByProject p, d.Issued r.id) :
    StoreAccess.Advances p d (StoreAccess.writeAll (Snapshot.take a p).saves d).2 := by
  have hforeign (r : ClassRecord) (hr : r ∈ a.findByProject p) : ¬d.store.Foreign p r.id :=
    fun hf => (Cleared.owns_of_mem ha hr).not_foreign
      ((hframe.foreign_iff ha hd.consistent).1 hf)
  refine .writeAll_cons hd
    (fun r hr => ⟨Cleared.project_of_mem ha hr, hforeign r hr, hissued r hr⟩) fun e he hde => ?_
  have hstore : e.store = d.store.saveClasses (a.findByProject p) := (Except.ok.inj he).symm
  have hown (id : String) (h : a.Owns p id) : e.store.Owns p id := by
    rw [hstore]
    exact Cleared.owns_saveClasses ha h
  refine .writeAll_cons hde.sound
    (fun m hm => (hown _ (Cleared.mem_take_methods ha hm)).not_foreign) fun f hf hef => ?_
  have hclasses : f.store.classes = e.store.classes := by
    rw [(saveMethods_eq_ok hf).1, classes_putMethods]
  refine .writeAll_cons hef.sound (fun l hl => ?_) fun g _ hfg => .refl hfg.sound
  obtain ⟨howner, htarget⟩ := Cleared.mem_take_links ha hai hl
  exact ⟨(owns_of_classes_eq hclasses).2 (hown _ howner),
    (owns_of_classes_eq hclasses).2 (hown _ htarget)⟩

theorem Snapshot.restore_advances {a b : StoreAccess} {p : String} (ha : a.Sound)
    (hab : StoreAccess.Advances p a b) :
    StoreAccess.Advances p b ((Snapshot.take a.store p).restore b).2 := by
  have hissued (d : StoreAccess) (hle : a.issued ≤ d.issued) :
      ∀ r ∈ a.store.findByProject p, d.Issued r.id := fun r hr =>
    (ha.issued r.id r ((mem_findByProject ha.consistent).1 hr).1).mono hle
  unfold Snapshot.restore
  change StoreAccess.Advances p b (StoreAccess.writeAll (_ ++ (Snapshot.take a.store p).saves) b).2
  rw [show (Snapshot.take a.store p).project = p from rfl]
  cases hfind : b.store.findByProject p with
  | nil =>
    exact saves_advances ha.consistent ha.inside hab.sound hab.frame (hissued b hab.issued)
  | cons r rs =>
    dsimp only
    rw [List.cons_append, List.nil_append, ← hfind]
    refine .writeAll_cons hab.sound (fun id hid => ?_) fun d _ hbd => ?_
    · obtain ⟨x, hx, rfl⟩ := List.mem_map.1 hid
      exact ((owns_iff_exists_mem hab.sound.consistent).2 ⟨x, hx, rfl⟩).not_foreign
    · have had := hab.trans hbd
      exact saves_advances ha.consistent ha.inside hbd.sound had.frame (hissued d had.issued)

end CodeAtlas
