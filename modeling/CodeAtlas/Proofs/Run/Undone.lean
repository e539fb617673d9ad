import CodeAtlas.Proofs.Record.Keyed
import CodeAtlas.Proofs.Run.Confluent
import CodeAtlas.Proofs.Run.Untouched

/-!
# Answers that are taken back

Answers are written back one unit at a time, and the store may refuse a write in between. This
file proves what becomes of every unit in whatever store: a refused answer leaves the records of
its unit exactly as they were and its methods, too, and an answer never shows at another unit.
What is not taken back is the kind and the description of a unit about which nothing was known.
-/

namespace CodeAtlas.Graph

open RecordStore StoreAccess

variable {g h : Graph} {id : String} {x : Answer} {a b : StoreAccess}

/-! ## Writes of one class -/

/-- Records under their ids, of which at most those of one class have changed. -/
structure Within (own : Option String) (s t : RecordStore) : Prop where
  keyed : t.Keyed
  links : t.links = s.links
  others : ∀ c, own ≠ some c → SameClass c s t

theorem Within.refl {s : RecordStore} (hs : s.Keyed) (own : Option String) : Within own s s :=
  ⟨hs, rfl, fun c _ => .refl c s⟩

theorem Within.trans {own : Option String} {s t u : RecordStore} (hst : Within own s t)
    (htu : Within own t u) : Within own s u :=
  ⟨htu.keyed, htu.links.trans hst.links, fun c hc => (hst.others c hc).trans (htu.others c hc)⟩

theorem within_writeClass (ha : a.store.Keyed) (r : ClassRecord) :
    Within (some r.id) a.store (write (.saveClasses [r]) a).2.store := by
  obtain ⟨-, hstore⟩ | ⟨-, hstore⟩ := write_cases (.saveClasses [r]) a
  · rw [hstore]
    exact .refl ha _
  · have hput : (write (.saveClasses [r]) a).2.store = a.store.putClass r :=
      (Except.ok.inj hstore).symm
    refine ⟨ha.write hstore, by rw [hput]; rfl, fun c hc => ?_⟩
    rw [hput]
    exact .putClass (fun heq => hc (congrArg some heq.symm)) a.store

theorem within_writeMethods (ha : a.store.Keyed) {c : String} {ms : List MethodRecord}
    (hms : ∀ m ∈ ms, m.classId = c) :
    Within (some c) a.store (write (.saveMethods ms) a).2.store := by
  obtain ⟨-, hstore⟩ | ⟨-, hstore⟩ := write_cases (.saveMethods ms) a
  · rw [hstore]
    exact .refl ha _
  · obtain ⟨hput, -⟩ := saveMethods_eq_ok hstore
    refine ⟨ha.write hstore, by rw [hput, links_putMethods], fun d hd => ?_⟩
    rw [hput]
    exact .putMethods (fun m hm heq => hd (congrArg some ((hms m hm).symm.trans heq))) a.store

theorem store_saveTexts_of_error {c : String} {f : Failure}
    (h : (g.saveTexts id c a).1 = .error f) : (g.saveTexts id c a).2.store = a.store := by
  rw [saveTexts_eq] at h ⊢
  split at h
  · cases h
  · exact store_write_of_error h

/-- A node is written through to its own class only. -/
theorem within_writeThrough (ha : a.store.Keyed) (g : Graph) (id : String) :
    Within (g.classId? id) a.store (g.writeThrough id a).2.store := by
  refine writeThrough_induction (motive := fun b => Within (g.classId? id) a.store b.store)
    (.refl ha _) (fun c r hid hget => ?_) fun c b rows hid hb hrows => ?_
  · have hkey : (g.updatedClass id r).id = c := ha.classes c r hget
    rw [hid, ← hkey]
    exact within_writeClass ha (g.updatedClass id r)
  · rw [hid] at hb ⊢
    refine hb.trans (within_writeMethods hb.keyed fun m hm => ?_)
    obtain ⟨old, hold, hclassId⟩ := hrows m hm
    rw [hclassId, hb.keyed.classId_of_mem hold]

/-- When a write through is refused, at most the class record has been replaced. -/
theorem store_writeThrough_of_error {f : Failure} (h : (g.writeThrough id a).1 = .error f) :
    (g.writeThrough id a).2.store = a.store ∨
      ∃ r, (g.classId? id).bind a.store.getClass? = some r ∧
        (g.writeThrough id a).2.store = a.store.putClass (g.updatedClass id r) := by
  cases hid : g.classId? id with
  | none =>
    rw [writeThrough_eq_of_untied hid] at h
    cases h
  | some c =>
    rw [writeThrough_eq_of_tied hid] at h ⊢
    unfold classWrites at h ⊢
    cases hget : a.store.getClass? c with
    | none =>
      rw [hget] at h
      exact Or.inl (store_saveTexts_of_error h)
    | some r =>
      rw [hget] at h
      dsimp only at h ⊢
      rw [writeAll_cons] at h ⊢
      cases hwrite : (write (.saveClasses [g.updatedClass id r]) a).1 with
      | error f =>
        rw [hwrite] at h
        exact Or.inl (store_write_of_error hwrite)
      | ok u =>
        rw [hwrite] at h
        refine Or.inr ⟨r, by rw [Option.bind_some, hget], ?_⟩
        have hreplaced := Except.ok.inj (write_eq_ok hwrite)
        exact (store_saveTexts_of_error h).trans hreplaced.symm

/-! ## Records that are put back -/

/-- Writing the record and the rows of a class again, if both are accepted, undoes that the record
was replaced. -/
theorem store_recordsTakenBack {s : RecordStore} (hs : s.Keyed) {c : String} {r : ClassRecord}
    (hget : s.getClass? c = some r)
    (hb : b.store = s ∨ ∃ y : ClassRecord, y.id = r.id ∧ b.store = s.putClass y)
    (hgranted : (writeAll [.saveClasses [r], .saveMethods (s.methodsFor c)] b).1 = .ok ()) :
    (recordsTakenBack (some r) (s.methodsFor c) b).store = s := by
  have hself : s.putClass r = s := putClass_self (by rwa [hs.classes c r hget])
  have hput : b.store.putClass r = s := by
    obtain hb | ⟨y, hy, hb⟩ := hb
    · rw [hb, hself]
    · rw [hb, putClass_putClass hy, hself]
  obtain ⟨d, hclass, hgranted, hclassed⟩ := writeAll_cons_eq_ok hgranted
  obtain ⟨e, hrows, -, hrowed⟩ := writeAll_cons_eq_ok hgranted
  have hd : d.store = s := (Except.ok.inj hclass).symm.trans hput
  obtain ⟨he, -⟩ := saveMethods_eq_ok hrows
  rw [hd, hs.foldl_putMethod_self] at he
  unfold recordsTakenBack
  dsimp only
  rw [hclassed, hrowed]
  exact he

/-- Whether the store accepts the writes by which the records of a unit are put back, if its
answer is refused. -/
def RestoreGranted (g : Graph) (id : String) (x : Answer) (a : StoreAccess) : Prop :=
  match g.applyAnswer id x a with
  | ((_, .ok _), _) => True
  | ((_, .error _), b) =>
    match (g.classId? id).bind a.store.getClass? with
    | none => True
    | some r => (writeAll [.saveClasses [r],
        .saveMethods (((g.classId? id).map a.store.methodsFor).getD [])] b).1 = .ok ()

/-- What one answer comes to in the graph and in the records: nothing if there is no such node;
else the node has the answer, or it has been taken back and the records are as they were. -/
inductive OneSettled (g : Graph) (id : String) (x : Answer) (s : RecordStore) :
    Graph → Bool → RecordStore → Prop
  | unknown (hid : ¬g.contains id = true) : OneSettled g id x s g true s
  | taken {t : RecordStore} (hid : g.contains id = true) (ht : Within (g.classId? id) s t) :
    OneSettled g id x s (g.withAnswer id x).1 true t
  | undone (hid : g.contains id = true) :
    OneSettled g id x s (g.revertNode (g.withAnswer id x).1 id) false s

/-- A refused answer leaves the records as they were, if they can be put back. -/
theorem store_recordsTakenBack_of_error (ha : a.store.Keyed) {now : Graph} {f : Failure}
    (happly : g.applyAnswer id x a = ((now, .error f), b)) (hgranted : g.RestoreGranted id x a) :
    (recordsTakenBack ((g.classId? id).bind a.store.getClass?)
      (((g.classId? id).map a.store.methodsFor).getD []) b).store = a.store := by
  have hreplaced : b.store = a.store ∨ ∃ r, (g.classId? id).bind a.store.getClass? = some r ∧
      b.store = a.store.putClass ((g.withAnswer id x).1.updatedClass id r) := by
    have happlied := applyAnswer_eq g id x a
    rw [happly] at happlied
    split at happlied
    · obtain ⟨hout, hb⟩ := Prod.mk.inj happlied
      obtain ⟨-, hout⟩ := Prod.mk.inj hout
      rw [hb, ← classId?_congr (classIds_withAnswer g id x) id]
      refine store_writeThrough_of_error (f := f) ?_
      cases hrun : ((g.withAnswer id x).1.writeThrough id a).1 with
      | ok u =>
        rw [hrun] at hout
        cases hout
      | error f' =>
        rw [hrun] at hout
        cases hout
        rfl
    · cases happlied
  unfold RestoreGranted at hgranted
  rw [happly] at hgranted
  dsimp only at hgranted
  cases hrecord : (g.classId? id).bind a.store.getClass? with
  | none =>
    rw [hrecord] at hreplaced
    obtain hsame | ⟨r, hr, -⟩ := hreplaced
    · exact hsame
    · cases hr
  | some r =>
    obtain ⟨c, hc, hget⟩ := Option.bind_eq_some_iff.1 hrecord
    have hrows : ((g.classId? id).map a.store.methodsFor).getD [] = a.store.methodsFor c := by
      rw [hc]
      rfl
    rw [hrecord, hrows] at hgranted
    rw [hrows]
    refine store_recordsTakenBack ha hget (hreplaced.imp_right ?_) hgranted
    rintro ⟨y, hy, hput⟩
    obtain rfl := Option.some.inj (hrecord.symm.trans hy)
    exact ⟨(g.withAnswer id x).1.updatedClass id r, rfl, hput⟩

/-- One answer is settled in this way if the records can be put back. -/
theorem writeBackOne_settled (ha : a.store.Keyed) (hgranted : g.RestoreGranted id x a) :
    OneSettled g id x a.store (g.writeBackOne id x a).1.1 (g.writeBackOne id x a).1.2
      (g.writeBackOne id x a).2.store := by
  rw [writeBackOne_eq]
  have happlied := applyAnswer_eq g id x a
  rw [withAnswer_known] at happlied
  by_cases hid : g.contains id = true
  · rw [if_pos hid] at happlied
    have hwithin := within_writeThrough ha (g.withAnswer id x).1 id
    rw [classId?_congr (classIds_withAnswer g id x) id] at hwithin
    generalize (g.withAnswer id x).1.writeThrough id a = r at happlied hwithin
    obtain ⟨o, b⟩ := r
    cases o with
    | ok u =>
      rw [show g.applyAnswer id x a = (((g.withAnswer id x).1, .ok true), b) from happlied]
      exact .taken hid hwithin
    | error f =>
      have happly : g.applyAnswer id x a = (((g.withAnswer id x).1, .error f), b) := happlied
      have hstore := store_recordsTakenBack_of_error ha happly hgranted
      rw [happly]
      dsimp only
      rw [hstore]
      exact .undone hid
  · rw [if_neg hid, withAnswer_of_unknown hid] at happlied
    rw [happlied]
    exact .unknown hid

/-! ## What one answer changes -/

theorem SameStructure.withAnswer (g : Graph) (id : String) (x : Answer) :
    SameStructure g (g.withAnswer id x).1 := by
  obtain ⟨info, methods, heq, -⟩ := g.withAnswer_eq id x
  rw [heq]
  exact ⟨rfl, rfl, rfl, rfl, rfl⟩

theorem SameStructure.revertNode (g now : Graph) (id : String) :
    SameStructure now (g.revertNode now id) := by
  unfold Graph.revertNode
  dsimp only
  split
  · exact (SameStructure.setNodeInfo ..).trans (.setMethods ..)
  · exact .setMethods ..

theorem links_revertNode (g now : Graph) (id : String) :
    (g.revertNode now id).links = now.links := by
  unfold revertNode
  rw [links_setMethods]
  split
  · exact links_setNodeInfo ..
  · rfl

theorem nodeInfo?_withAnswer (hid : g.contains id = true) (x : Answer) :
    (g.withAnswer id x).1.nodeInfo? id =
      some ⟨x.correctedKind?.getD (g.kind id), x.description⟩ := by
  unfold withAnswer
  rw [applyEnrichment_eq]
  split
  · rw [nodeInfo?_congr (info_setMethods ..), nodeInfo?_setNodeInfo, if_pos ⟨rfl, hid⟩]
  · rw [nodeInfo?_setNodeInfo, if_pos ⟨rfl, hid⟩]

/-- An answer that is taken back leaves what was known, or its own kind and description if
nothing was known. -/
theorem nodeInfo?_undone (hid : g.contains id = true) (x : Answer) :
    (g.revertNode (g.withAnswer id x).1 id).nodeInfo? id =
      some ((g.nodeInfo? id).getD ⟨x.correctedKind?.getD .other, x.description⟩) := by
  unfold revertNode
  rw [nodeInfo?_congr (info_setMethods ..)]
  cases hinfo : g.nodeInfo? id with
  | some i =>
    dsimp only
    rw [nodeInfo?_setNodeInfo, if_pos ⟨rfl, (contains_congr (nodes_withAnswer ..) id).trans hid⟩]
    rfl
  | none =>
    dsimp only
    have hkind : g.kind id = .other := by
      unfold kind
      rw [hinfo]
    rw [nodeInfo?_withAnswer hid, hkind]
    rfl

theorem methodsOf_undone (hid : g.contains id = true) (x : Answer) :
    (g.revertNode (g.withAnswer id x).1 id).methodsOf id = g.methodsOf id := by
  unfold revertNode
  have hnode (now : Graph) (hnow : now.contains id = true) :
      (now.setMethods id (g.methodsOf id)).methodsOf id = g.methodsOf id := by
    rw [methodsOf_setMethods, if_pos ⟨rfl, hnow⟩]
  have hkept := (contains_congr (nodes_withAnswer g id x) id).trans hid
  refine hnode _ ?_
  split
  · rwa [contains_congr (nodes_setNodeInfo ..)]
  · exact hkept

/-- An answer shows at its own node and in the class to which this is tied. -/
structure ShowsAt (id : String) (g : Graph) (s : RecordStore) (h : Graph) (t : RecordStore) :
    Prop where
  structure_kept : SameStructure g h
  links : h.links = g.links
  nodes : ∀ j, (j = id → ¬g.contains id = true) → SameAt j g h
  storedLinks : t.links = s.links
  classes : ∀ c, (g.contains id = true → g.classId? id ≠ some c) → SameClass c s t

theorem OneSettled.showsAt {s t : RecordStore} {taken : Bool}
    (hone : OneSettled g id x s h taken t) : ShowsAt id g s h t := by
  cases hone with
  | unknown hid => exact ⟨.refl g, rfl, fun j _ => .refl j g, rfl, fun c _ => .refl c s⟩
  | taken hid ht =>
    refine ⟨.withAnswer g id x, links_withAnswer g id x, fun j hj => ?_, ht.links, fun c hc =>
      ht.others c (hc hid)⟩
    exact sameAt_withAnswer x fun heq => hj heq hid
  | undone hid =>
    refine ⟨(SameStructure.withAnswer g id x).trans (.revertNode g _ id),
      (links_revertNode ..).trans (links_withAnswer g id x), fun j hj => ?_, rfl,
      fun c _ => .refl c s⟩
    have hne : j ≠ id := fun heq => hj heq hid
    exact (sameAt_withAnswer x hne).trans (sameAt_revertNode _ hne)

/-! ## What all answers change -/

/-- Whether the store accepts every write by which records are put back. -/
def RestoresGranted (g : Graph) (a : StoreAccess) : List (String × Answer) → Prop
  | [] => True
  | (id, x) :: rest => g.RestoreGranted id x a ∧
    RestoresGranted (g.writeBackOne id x a).1.1 (g.writeBackOne id x a).2 rest

/-- What answers come to, given the units whose answers were refused. -/
structure Settled (g : Graph) (s : RecordStore) (answers : List (String × Answer)) (h : Graph)
    (failed : List String) (t : RecordStore) : Prop where
  structure_kept : SameStructure g h
  links : h.links = g.links
  storedLinks : t.links = s.links
  failed_sublist : failed.Sublist (answers.map (·.1))
  failed_nodes : ∀ id ∈ failed, g.contains id = true
  /-- A refused answer leaves methods and records as they were, and what was known, if anything
  was known. -/
  undone : ∀ e ∈ answers, e.1 ∈ failed →
    h.nodeInfo? e.1 =
        some ((g.nodeInfo? e.1).getD ⟨e.2.correctedKind?.getD .other, e.2.description⟩) ∧
      h.methodsOf e.1 = g.methodsOf e.1 ∧ ∀ c, g.classId? e.1 = some c → SameClass c s t
  /-- The nodes of all other answers have them. -/
  taken : ∀ e ∈ answers, e.1 ∉ failed → g.contains e.1 = true →
    h.nodeInfo? e.1 = some ⟨e.2.correctedKind?.getD (g.kind e.1), e.2.description⟩ ∧
      h.methodsOf e.1 = enrichMethods (g.methodsOf e.1) e.2.methodTexts
  others : ∀ j, (j ∈ answers.map (·.1) → ¬g.contains j = true) → SameAt j g h
  classes : ∀ c, (∀ e ∈ answers, g.contains e.1 = true → g.classId? e.1 ≠ some c) →
    SameClass c s t

/-- A refused first answer left its node and its class as they were before all answers. -/
theorem Settled.undone_first {s s' t : RecordStore} {g' : Graph} {failed : List String}
    {answers : List (String × Answer)} (hone : OneSettled g id x s g' false s')
    (hrest : Settled g' s' answers h failed t) (hnew : id ∉ answers.map (·.1))
    (hdistinct : ∀ i j c, g.classId? i = some c → g.classId? j = some c → i = j) :
    h.nodeInfo? id = some ((g.nodeInfo? id).getD ⟨x.correctedKind?.getD .other, x.description⟩) ∧
      h.methodsOf id = g.methodsOf id ∧ ∀ c, g.classId? id = some c → SameClass c s t := by
  have hkept := hone.showsAt.structure_kept
  have hself : SameAt id g' h := hrest.others id fun hmem => absurd hmem hnew
  cases hone with
  | undone hid =>
    refine ⟨hself.info.trans (nodeInfo?_undone hid x),
      hself.methodsOf.trans (methodsOf_undone hid x), fun c hc => ?_⟩
    refine hrest.classes c fun e he _ hown => hnew ?_
    rw [← hdistinct _ _ c ((classId?_congr hkept.classIds e.1).symm.trans hown) hc]
    exact List.mem_map_of_mem he

/-- The node of an accepted first answer has it after all answers. -/
theorem Settled.taken_first {s s' t : RecordStore} {g' : Graph} {failed : List String}
    {answers : List (String × Answer)} (hone : OneSettled g id x s g' true s')
    (hrest : Settled g' s' answers h failed t) (hnew : id ∉ answers.map (·.1))
    (hid : g.contains id = true) :
    h.nodeInfo? id = some ⟨x.correctedKind?.getD (g.kind id), x.description⟩ ∧
      h.methodsOf id = enrichMethods (g.methodsOf id) x.methodTexts := by
  have hself : SameAt id g' h := hrest.others id fun hmem => absurd hmem hnew
  cases hone with
  | unknown hout => exact absurd hid hout
  | taken hknown ht =>
    refine ⟨hself.info.trans (nodeInfo?_withAnswer hid x), hself.methodsOf.trans ?_⟩
    rw [methodsOf_withAnswer, if_pos ⟨rfl, hid⟩]

theorem Settled.cons {s s' t : RecordStore} {g' : Graph} {accepted : Bool} {failed : List String}
    {answers : List (String × Answer)} (hone : OneSettled g id x s g' accepted s')
    (hrest : Settled g' s' answers h failed t) (hnew : id ∉ answers.map (·.1))
    (hdistinct : ∀ i j c, g.classId? i = some c → g.classId? j = some c → i = j) :
    Settled g s ((id, x) :: answers) h (if accepted then failed else id :: failed) t := by
  have hshows := hone.showsAt
  have hcontains (j : String) : g'.contains j = g.contains j :=
    contains_congr hshows.structure_kept.nodes j
  have hids (j : String) : g'.classId? j = g.classId? j :=
    classId?_congr hshows.structure_kept.classIds j
  have hout : id ∉ failed := fun hmem => hnew (hrest.failed_sublist.subset hmem)
  have hlater {e : String × Answer} (he : e ∈ answers) : e.1 ≠ id :=
    fun heq => hnew (heq ▸ List.mem_map_of_mem he)
  have hbefore {e : String × Answer} (he : e ∈ answers) : SameAt e.1 g g' :=
    hshows.nodes e.1 fun heq => absurd heq (hlater he)
  have hfailed {j : String} (hj : j ≠ id) :
      j ∈ (if accepted then failed else id :: failed) ↔ j ∈ failed := by
    cases accepted <;> simp [hj]
  refine ⟨hshows.structure_kept.trans hrest.structure_kept, hrest.links.trans hshows.links,
    hrest.storedLinks.trans hshows.storedLinks, ?_, fun j hj => ?_, fun e he hmem => ?_,
    fun e he hmem hnode => ?_, fun j hj => ?_, fun c hc => ?_⟩
  · cases accepted with
    | true => exact hrest.failed_sublist.cons id
    | false => exact hrest.failed_sublist.cons_cons id
  · by_cases heq : j = id
    · subst heq
      cases hone with
      | unknown hid => exact absurd hj hout
      | taken hid ht => exact absurd hj hout
      | undone hid => exact hid
    · exact (hcontains j).symm.trans (hrest.failed_nodes j ((hfailed heq).1 hj))
  · rcases List.mem_cons.1 he with rfl | he
    · cases accepted with
      | true => exact absurd hmem hout
      | false => exact hrest.undone_first hone hnew hdistinct
    · obtain ⟨hinfo, hmethods, hclasses⟩ := hrest.undone e he ((hfailed (hlater he)).1 hmem)
      rw [(hbefore he).info] at hinfo
      refine ⟨hinfo, hmethods.trans (hbefore he).methodsOf, fun c hc => ?_⟩
      refine (hshows.classes c fun _ hown => hlater he ?_).trans (hclasses c ((hids e.1).trans hc))
      exact hdistinct _ _ c hc hown
  · rcases List.mem_cons.1 he with rfl | he
    · cases accepted with
      | true => exact hrest.taken_first hone hnew hnode
      | false => exact absurd List.mem_cons_self hmem
    · have hnode' := (hcontains e.1).trans hnode
      obtain ⟨hinfo, hmethods⟩ :=
        hrest.taken e he (fun hin => hmem ((hfailed (hlater he)).2 hin)) hnode'
      rw [kind_congr (hbefore he).info] at hinfo
      rw [(hbefore he).methodsOf] at hmethods
      exact ⟨hinfo, hmethods⟩
  · refine (hshows.nodes j ?_).trans ?_
    · rintro rfl
      exact hj List.mem_cons_self
    refine hrest.others j fun hmem => ?_
    rw [hcontains]
    exact hj (List.mem_cons_of_mem _ hmem)
  · refine (hshows.classes c (hc (id, x) List.mem_cons_self)).trans ?_
    refine hrest.classes c fun e he hnode hown => ?_
    exact hc e (List.mem_cons_of_mem _ he) ((hcontains e.1).symm.trans hnode)
      ((hids e.1).symm.trans hown)

/-- Every answer is settled, in the order in which they are written back. -/
theorem writeBack_settled (ha : a.store.Keyed)
    (hdistinct : ∀ i j c, g.classId? i = some c → g.classId? j = some c → i = j)
    {answers : List (String × Answer)} (hnodup : (answers.map (·.1)).Nodup)
    (hgranted : g.RestoresGranted a answers) :
    Settled g a.store answers (g.writeBack answers a).1.1 (g.writeBack answers a).1.2
      (g.writeBack answers a).2.store := by
  induction answers generalizing g a with
  | nil =>
    exact ⟨.refl g, rfl, rfl, List.Sublist.refl [], nofun, nofun, nofun, fun j _ => .refl j g,
      fun c _ => .refl c a.store⟩
  | cons e rest ih =>
    obtain ⟨id, x⟩ := e
    obtain ⟨hnew, hrest⟩ := List.nodup_cons.1 hnodup
    obtain ⟨hone, hlater⟩ := hgranted
    have hsettled := writeBackOne_settled ha hone
    have hids := hsettled.showsAt.structure_kept.classIds
    have hkeyed : (g.writeBackOne id x a).2.store.Keyed := by
      generalize (g.writeBackOne id x a).1.1 = g', (g.writeBackOne id x a).1.2 = accepted,
        (g.writeBackOne id x a).2.store = s' at hsettled
      cases hsettled with
      | unknown hid => exact ha
      | taken hid ht => exact ht.keyed
      | undone hid => exact ha
    refine Settled.cons hsettled (ih hkeyed (fun i j c hi hj => ?_) hrest hlater) hnew hdistinct
    rw [classId?_congr hids] at hi hj
    exact hdistinct i j c hi hj

/-- Answers are settled one by one in every store that can come about, whichever writes it refuses,
if nodes are tied to different classes and records can be put back. A refused answer leaves the
records and methods of its unit as they were and, if anything was known about the unit, also its
kind and description; the nodes of all other answers have them; nothing shows elsewhere. -/
theorem answers_settled (g : Graph) (a : StoreAccess) (answers : List (String × Answer))
    (ha : a.store.Made)
    (hdistinct : ∀ i j c, g.classId? i = some c → g.classId? j = some c → i = j)
    (hnodup : (answers.map (·.1)).Nodup) (hgranted : g.RestoresGranted a answers) :
    Settled g a.store answers (g.writeBack answers a).1.1 (g.writeBack answers a).1.2
      (g.writeBack answers a).2.store :=
  writeBack_settled ha.keyed hdistinct hnodup hgranted

/-- A node with one method, tied to a class. -/
def tiedNode : Graph :=
  ((Graph.empty.addNode "A" "a.java").bindClassId "A" "c").addMethod "A"
    (.extracted "m" [] none none none)

/-- A description of the node and of its method. -/
def describing : Answer := ⟨some "new", none, [⟨"m", some "text", []⟩]⟩

/-- The class and its row in a store that refuses the first rows it is given. -/
def refusesFirstRows : StoreAccess :=
  ⟨⟨⟨[("c", ⟨"c", "p", "A", "a.java", .other, none, none⟩)]⟩,
      ⟨[("c", ⟨[("r", ⟨"r", "c", "m", none, [], [], none, none, none⟩)]⟩)]⟩, .empty⟩, 0, .empty,
    fun w n => if w.sort = .saveMethods ∧ n = 1 then some (.interrupted "") else none⟩

/-- The class record has been replaced when the rows are refused, and is put back. -/
theorem answers_settled_of_refusedRows :
    (tiedNode.writeBack [("A", describing)] refusesFirstRows).1.2 = ["A"] ∧
      Settled tiedNode refusesFirstRows.store [("A", describing)]
        (tiedNode.writeBack [("A", describing)] refusesFirstRows).1.1
        (tiedNode.writeBack [("A", describing)] refusesFirstRows).1.2
        (tiedNode.writeBack [("A", describing)] refusesFirstRows).2.store := by
  refine ⟨by decide +kernel, answers_settled _ _ _ ?_ (fun i j c hi hj => ?_) (by decide) ?_⟩
  · have hclass : (RecordStore.empty.write (.saveClasses
        [⟨"c", "p", "A", "a.java", .other, none, none⟩])) = .ok _ := rfl
    have hempty : RecordStore.Made .empty := .read (show RecordStore.ofText? none = .ok _ from rfl)
    exact .written (w := .saveMethods [⟨"r", "c", "m", none, [], [], none, none, none⟩])
      (.written hempty hclass) rfl
  · have honly {j : String} (hj : tiedNode.classId? j = some c) : "A" = j := by
      have hlookup : (if "A" = j then some "c" else none) = some c := hj
      split at hlookup
      · assumption
      · cases hlookup
    exact (honly hi).symm.trans (honly hj)
  · refine ⟨?_, trivial⟩
    unfold RestoreGranted
    rfl

/-- The row of a method, without a class. -/
def rowWithoutClass : StoreAccess :=
  .ofStore ⟨.empty, ⟨[("c", ⟨[("r", ⟨"r", "c", "m", none, [], [], none, none, none⟩)]⟩)]⟩, .empty⟩

/-- The file from which that store is read. -/
def rowFile : String :=
  "\x7b\"methods\": [\x7b\"id\": \"r\", \"class_id\": \"c\", \"name\": \"m\"\x7d]\x7d"

/-- The node is reported as failed, and it has the kind and the description of the answer, though
nothing was known about it. -/
theorem described_by_refused_answer :
    RecordStore.ofText? (some rowFile) = .ok rowWithoutClass.store ∧
      tiedNode.nodeInfo? "A" = none ∧
      (tiedNode.writeBack [("A", describing)] rowWithoutClass).1.2 = ["A"] ∧
      (tiedNode.writeBack [("A", describing)] rowWithoutClass).1.1.nodeInfo? "A" =
        some ⟨.other, some "new"⟩ := by
  refine ⟨?_, by decide +kernel, by decide +kernel, by decide +kernel⟩
  rfl

end CodeAtlas.Graph
