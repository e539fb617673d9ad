import CodeAtlas.Graph.Document
import CodeAtlas.Proofs.Graph.Written

/-!
# Written graphs read by their units

What the program writes of a graph is accepted as a document of any origin. Its text says the same
whether the texts in it are kept by their characters or by their units, and whoever reads it finds
an identifier, a record or a list wherever the reading depends on one.
-/

namespace CodeAtlas

/-! ## Texts by their units -/

namespace Json

mutual
/-- A value with its texts by their units. -/
def byUnits : Json → Value
  | .null => .null
  | .bool b => .bool b
  | .int n => .int n
  | .decimal x => .decimal x
  | .string s => .string s
  | .array items => .array (itemsByUnits items)
  | .object fields => .object (fieldsByUnits fields)

def itemsByUnits : List Json → List Value
  | [] => []
  | v :: rest => byUnits v :: itemsByUnits rest

def fieldsByUnits : List (String × Json) → List (UnitText × Value)
  | [] => []
  | (k, v) :: rest => (UnitText.ofString k, byUnits v) :: fieldsByUnits rest
end

theorem itemsByUnits_eq (items : List Json) : itemsByUnits items = items.map byUnits := by
  induction items with
  | nil => rfl
  | cons v rest ih => rw [itemsByUnits, ih, List.map_cons]

theorem fieldsByUnits_eq (fields : List (String × Json)) :
    fieldsByUnits fields = fields.map fun f => (UnitText.ofString f.1, f.2.byUnits) := by
  induction fields with
  | nil => rfl
  | cons f rest ih => rw [fieldsByUnits, ih, List.map_cons]

/-- The units of a character are written as the character is. -/
theorem flatMap_writtenUnit (c : Char) :
    (UnitText.unitsOf c).flatMap writtenUnit = writtenChar c := by
  have hescape {n : Nat} (hhigh : 0x7f ≤ n) (hlow : n < 0x10000) :
      writtenUnit (UInt16.ofNat n) = unitEscape n := by
    have hunit := UnitText.toNat_ofNat hlow
    unfold writtenUnit
    rw [if_neg fun hlt => ?_, hunit]
    rw [UInt16.lt_iff_toNat_lt, hunit] at hlt
    exact absurd hlt (by simpa using hhigh)
  have hwritten (hhigh : 0x7f ≤ c.toNat) : writtenChar c =
      if c.toNat < 0x10000 then unitEscape c.toNat
      else unitEscape (0xd800 + (c.toNat - 0x10000) / 0x400) ++
        unitEscape (0xdc00 + (c.toNat - 0x10000) % 0x400) := by
    have hne {d : Char} (hd : d.toNat < 0x7f) : c ≠ d := by
      rintro rfl
      omega
    unfold writtenChar
    rw [if_neg (hne (by decide)), if_neg (hne (by decide)), if_neg (hne (by decide)),
      if_neg (hne (by decide)), if_neg (hne (by decide)), if_neg (by omega), if_neg (by omega),
      if_neg (by simp; omega)]
  have hlast := UnitText.toNat_lt c
  unfold UnitText.unitsOf
  by_cases hsmall : c.toNat < 0x7f
  · rw [if_pos (by omega), List.flatMap_singleton]
    have hunit := UnitText.toNat_ofNat (show c.toNat < 0x10000 by omega)
    unfold writtenUnit
    rw [if_pos, hunit, Char.ofNat_toNat]
    rw [UInt16.lt_iff_toNat_lt, hunit]
    exact hsmall
  · rw [hwritten (by omega)]
    split
    · next hlow => rw [List.flatMap_singleton, hescape (by omega) hlow]
    · rw [List.flatMap_cons, List.flatMap_singleton, hescape (by omega) (by omega),
        hescape (by omega) (by omega)]

theorem escaped_ofString (s : String) :
    Wording.escaped (UnitText.ofString s) = Wording.escaped s := by
  change (s.toList.flatMap UnitText.unitsOf).flatMap writtenUnit = s.toList.flatMap writtenChar
  rw [List.flatMap_assoc]
  exact congrArg (s.toList.flatMap ·) (funext flatMap_writtenUnit)

theorem writtenText_ofString (s : String) : writtenText (UnitText.ofString s) = writtenText s := by
  rw [writtenText, writtenText, escaped_ofString]

mutual
/-- The text of a value is a matter of its characters. -/
theorem prettyChars_byUnits (level : Nat) (v : Json) :
    prettyChars level v.byUnits = prettyChars level v := by
  cases v with
  | bool b => cases b <;> rfl
  | string s => exact writtenText_ofString s
  | array items =>
    cases items with
    | nil => rfl
    | cons v rest =>
      have h := prettyItems_byUnits level (v :: rest)
      rw [itemsByUnits] at h
      rw [byUnits, itemsByUnits, prettyChars, prettyChars, h]
  | object fields =>
    cases fields with
    | nil => rfl
    | cons f rest =>
      have h := prettyFields_byUnits level (f :: rest)
      obtain ⟨k, v⟩ := f
      rw [fieldsByUnits] at h
      rw [byUnits, fieldsByUnits, prettyChars, prettyChars, h]
  | _ => rfl

theorem prettyItems_byUnits (level : Nat) (items : List Json) :
    prettyItems level (itemsByUnits items) = prettyItems level items := by
  cases items with
  | nil => rfl
  | cons v rest =>
    have hv := prettyChars_byUnits (level + 1) v
    have hrest := prettyItems_byUnits level rest
    cases rest with
    | nil => exact hv
    | cons w rest =>
      simp only [itemsByUnits] at hrest ⊢
      rw [prettyItems.eq_def, prettyItems.eq_def _ (v :: w :: rest)]
      simp only [hv, hrest]

theorem prettyFields_byUnits (level : Nat) (fields : List (String × Json)) :
    prettyFields level (fieldsByUnits fields) = prettyFields level fields := by
  cases fields with
  | nil => rfl
  | cons f rest =>
    obtain ⟨k, v⟩ := f
    have hk := writtenText_ofString k
    have hv := prettyChars_byUnits (level + 1) v
    have hrest := prettyFields_byUnits level rest
    cases rest with
    | nil => simp only [fieldsByUnits, prettyFields, hk, hv]
    | cons g rest =>
      obtain ⟨l, w⟩ := g
      simp only [fieldsByUnits] at hrest ⊢
      rw [prettyFields.eq_def, prettyFields.eq_def _ ((k, v) :: (l, w) :: rest)]
      simp only [hk, hv, hrest]
end

/-- Different texts have different units. -/
theorem Plain.byUnits {v : Json} (h : v.Plain) : v.byUnits.Plain := by
  induction h with
  | array _ ih =>
    rw [Json.byUnits, itemsByUnits_eq]
    exact plain_array_map ih
  | object hnames _ ih =>
    rw [Json.byUnits, fieldsByUnits_eq]
    refine .object ?_ fun f hf => ?_
    · rw [List.map_map]
      have hunits := hnames.map fun s t (heq : UnitText.ofString s = UnitText.ofString t) =>
        Wording.ofString_inj.1 heq
      rwa [List.map_map] at hunits
    · obtain ⟨g, hg, rfl⟩ := List.mem_map.1 hf
      exact ih g hg
  | _ => constructor

/-- A field is found under the units of its name. -/
theorem field?_byUnits (v : Json) (name : String) :
    v.byUnits.field? name = (v.field? name).map byUnits := by
  cases v with
  | object fields =>
    change Dict.lookup (Wording.ofString name) (fieldsByUnits fields) =
      (Dict.lookup name fields).map byUnits
    induction fields with
    | nil => rfl
    | cons f rest ih =>
      obtain ⟨k, v⟩ := f
      have hkey : UnitText.ofString k = Wording.ofString name ↔ k = name := Wording.ofString_inj
      by_cases hk : k = name
      · simp only [fieldsByUnits, Dict.lookup, if_pos (hkey.2 hk), if_pos hk, Option.map_some]
      · simp only [fieldsByUnits, Dict.lookup, if_neg (mt hkey.1 hk), if_neg hk, ih]
  | _ => rfl

/-- A field that is there is found where it must be there. -/
theorem required_of_field? {τ : Type} [DecidableEq τ] [Wording τ] {v w : Json τ} {name : String}
    (h : v.field? name = some w) : v.required name = .ok w := by
  cases v with
  | object fields =>
    have hlookup : Dict.lookup (Wording.ofString name) fields = some w := h
    rw [required, hlookup]
  | _ => cases h

end Json

/-! ## Reading that succeeds -/

namespace Outcome

variable {α β : Type}

/-- A sequence succeeds if its first step gives what the others succeed with. -/
theorem exists_bind {x : Outcome α} {f : α → Outcome β} {a : α} (hx : x = .ok a)
    (hf : ∃ b, f a = .ok b) : ∃ b, (x >>= f) = .ok b := by
  obtain ⟨b, hb⟩ := hf
  exact ⟨b, bind_eq_ok.2 ⟨a, hx, hb⟩⟩

/-- A fold over written items succeeds if every step does, whatever was reached before. -/
theorem exists_foldlM {γ : Type} {f : β → γ → Outcome β} {w : α → γ}
    (hf : ∀ a b, ∃ c, f b (w a) = .ok c) (xs : List α) (b : β) :
    ∃ c, (xs.map w).foldlM f b = .ok c := by
  induction xs generalizing b with
  | nil => exact ⟨b, rfl⟩
  | cons x rest ih =>
    obtain ⟨c, hc⟩ := hf x b
    exact exists_bind hc (ih c)

theorem exists_mapM {f : α → Outcome β} {xs : List α} (hf : ∀ a ∈ xs, ∃ b, f a = .ok b) :
    ∃ bs, xs.mapM f = .ok bs := by
  induction xs with
  | nil => exact ⟨[], rfl⟩
  | cons x rest ih =>
    obtain ⟨b, hb⟩ := hf x List.mem_cons_self
    obtain ⟨bs, hbs⟩ := ih fun a ha => hf a (List.mem_cons_of_mem _ ha)
    exact ⟨b :: bs, by rw [List.mapM_cons, hb, hbs]; rfl⟩

end Outcome

namespace Coded

/-- Any value may stand where one may be missing. -/
theorem exists_ofOptional (v : Option Value) :
    ∃ o, (ofOptional v : Outcome (Option Value)) = .ok o := by
  unfold ofOptional
  split
  · exact ⟨_, rfl⟩
  · exact ⟨_, rfl⟩
  · exact ⟨_, rfl⟩

/-- A list that was written is a list of values. -/
theorem exists_ofListed {v : Option Value} (h : ∀ w ∈ v, ∃ items, w = .array items) :
    ∃ vs, (ofListed v : Outcome (List Value)) = .ok vs := by
  unfold ofListed
  split
  · next w =>
    obtain ⟨items, rfl⟩ := h w rfl
    split
    · exact Outcome.exists_mapM fun v _ => ⟨v, rfl⟩
    · exact ⟨_, rfl⟩
  · exact ⟨_, rfl⟩

end Coded

/-- A written method is accepted. -/
theorem Method.exists_ofJson_byUnits (m : Method) :
    ∃ n : Method Value Value, Method.ofJson m.toJson.byUnits = .ok n := by
  have hname : m.toJson.byUnits.required "methodName" = .ok (.string (UnitText.ofString m.name)) :=
    Json.required_of_field? (by
      rw [Json.field?_byUnits]
      simp [toJson, Json.field?, Dict.lookup]
      rfl)
  have hlogic : ∀ w ∈ m.toJson.byUnits.field? "businessLogic", ∃ items, w = .array items := by
    rw [Json.field?_byUnits]
    simp [toJson, Json.field?, Dict.lookup, Json.byUnits]
  have hexceptions : ∀ w ∈ m.toJson.byUnits.field? "exceptions", ∃ items, w = .array items := by
    rw [Json.field?_byUnits]
    simp [toJson, Json.field?, Dict.lookup, Json.byUnits]
  obtain ⟨description, hdescription⟩ :=
    Coded.exists_ofOptional (m.toJson.byUnits.field? "description")
  obtain ⟨logic, hlogic⟩ := Coded.exists_ofListed hlogic
  obtain ⟨exceptions, hexceptions⟩ := Coded.exists_ofListed hexceptions
  obtain ⟨verb, hverb⟩ := Coded.exists_ofOptional (m.toJson.byUnits.field? "httpMethod")
  obtain ⟨path, hpath⟩ := Coded.exists_ofOptional (m.toJson.byUnits.field? "httpPath")
  obtain ⟨line, hline⟩ := Coded.exists_ofOptional (m.toJson.byUnits.field? "lineNumber")
  have hoptional (name : String) :
      m.toJson.byUnits.optional name = .ok (m.toJson.byUnits.field? name) := rfl
  refine ⟨⟨.string (UnitText.ofString m.name), description, logic, exceptions, verb, path, line⟩,
    ?_⟩
  unfold ofJson
  simp only [hname, hoptional, hdescription, hlogic, hexceptions, hverb, hpath, hline, Bind.bind,
    Except.bind]
  rfl

namespace SpelledGraph

/-- A written list lists what was written. -/
theorem elements_byUnits {α : Type} (f : α → Json) (as : List α) :
    (Json.array (as.map f)).byUnits.elements = .ok (as.map fun a => (f a).byUnits) := by
  rw [Json.byUnits, Json.itemsByUnits_eq, List.map_map]
  rfl

/-- So does a written record under the units of its names. -/
theorem asFields_byUnits {α : Type} (k : α → String) (f : α → Json) (as : List α) :
    (Json.object (as.map fun a => (k a, f a))).byUnits.asFields =
      .ok (as.map fun a => (UnitText.ofString (k a), (f a).byUnits)) := by
  rw [Json.byUnits, Json.fieldsByUnits_eq, List.map_map]
  rfl

theorem exists_readInfo {kind : Option Value} (hkind : ∀ k ∈ kind, ∃ t, k = .string t)
    (h : ForeignGraph) (id : Key) (description : Option Value) :
    ∃ h', readInfo h id kind description = .ok h' := by
  obtain ⟨k, hk⟩ : ∃ k, Kind.ofField kind = .ok k := by
    cases kind with
    | none => exact ⟨_, rfl⟩
    | some k =>
      obtain ⟨t, rfl⟩ := hkind k rfl
      exact ⟨_, rfl⟩
  obtain ⟨o, ho⟩ := Coded.exists_ofOptional description
  unfold readInfo
  split
  · exact ⟨h, rfl⟩
  · exact ⟨_, Outcome.bind_eq_ok.2 ⟨k, hk, Outcome.bind_eq_ok.2 ⟨o, ho, rfl⟩⟩⟩

/-- A written node is accepted. -/
theorem exists_readNode_byUnits (g : Graph) (id file : String)
    (r : NodesRead Key UnitText Value Value Likeness) :
    ∃ r', readNode r (nodeJson ⟨g, []⟩ id file).byUnits = .ok r' := by
  have hid : (nodeJson ⟨g, []⟩ id file).byUnits.required "id" =
      .ok (.string (UnitText.ofString id)) := by
    refine Json.required_of_field? ?_
    rw [Json.field?_byUnits]
    simp [nodeJson, Json.field?, Dict.lookup]
    rfl
  have hkind : ∀ k ∈ (nodeJson ⟨g, []⟩ id file).byUnits.field? "kind", ∃ t, k = .string t := by
    rw [Json.field?_byUnits, kind_nodeJson, Option.map_map]
    intro k hk
    obtain ⟨i, -, rfl⟩ := Option.map_eq_some_iff.1 hk
    exact ⟨_, rfl⟩
  refine Outcome.exists_bind hid (Outcome.exists_bind rfl (Outcome.exists_bind rfl ?_))
  obtain ⟨h, hh⟩ := exists_readInfo hkind _ _ _
  exact Outcome.exists_bind hh ⟨_, rfl⟩

/-- A written edge is accepted. -/
theorem exists_readEdge_byUnits (g : Graph) (e : String × String) (d : ForeignDocument) :
    ∃ d', readEdge d (edgeJson ⟨g, []⟩ e).byUnits = .ok d' := by
  have hread (s : String) : Coded.ofJson (.string (UnitText.ofString s)) =
      (.ok (.text (UnitText.ofString s)) : Outcome Key) := rfl
  refine Outcome.exists_bind rfl (Outcome.exists_bind rfl ?_)
  split
  · exact ⟨_, rfl⟩
  · refine Outcome.exists_bind (hread e.1) ?_
    split
    · exact ⟨_, rfl⟩
    · exact Outcome.exists_bind (hread e.2) ⟨_, rfl⟩

/-- The written methods of a node are accepted. -/
theorem exists_readMethods_byUnits (id : String) (ms : List Method) (d : ForeignDocument) :
    ∃ d', readMethods d (UnitText.ofString id, (Json.array (ms.map Method.toJson)).byUnits) =
      .ok d' := by
  have hmethods (v : Value) (hv : v ∈ ms.map fun m => m.toJson.byUnits) :
      ∃ n : Method Value Value, Method.ofJson v = .ok n := by
    obtain ⟨m, -, rfl⟩ := List.mem_map.1 hv
    exact m.exists_ofJson_byUnits
  obtain ⟨ns, hns⟩ := Outcome.exists_mapM hmethods
  exact Outcome.exists_bind (elements_byUnits _ ms) (Outcome.exists_bind hns ⟨_, rfl⟩)

/-- A written link is accepted. -/
theorem exists_readLink_byUnits (g : Graph) (owner : String) (l : ParameterLink) (id : Key)
    (name : UnitText) (d : ForeignDocument) :
    ∃ d', readLink id name d (linkJson ⟨g, []⟩ owner l).byUnits = .ok d' := by
  have hread : Coded.ofJson (.string (UnitText.ofString l.target)) =
      (.ok (.text (UnitText.ofString l.target)) : Outcome Key) := rfl
  refine Outcome.exists_bind rfl (Outcome.exists_bind rfl ?_)
  split
  · exact ⟨_, rfl⟩
  · exact Outcome.exists_bind hread (Outcome.exists_bind rfl ⟨_, rfl⟩)

/-- The written links of a node are accepted. -/
theorem exists_readLinks_byUnits (g : Graph) (id : String)
    (byMethod : Dict String (List ParameterLink)) (d : ForeignDocument) :
    ∃ d', readLinks d (UnitText.ofString id, (linksJson ⟨g, []⟩ id byMethod).byUnits) =
      .ok d' := by
  refine Outcome.exists_bind (asFields_byUnits _ _ byMethod.toList) (Outcome.exists_bind rfl ?_)
  refine Outcome.exists_foldlM (fun m d => ?_) _ d
  refine Outcome.exists_bind (elements_byUnits _ m.2) ?_
  exact Outcome.exists_foldlM (fun l d => exists_readLink_byUnits g id l _ _ d) _ d

/-- What is written of a graph is accepted. -/
theorem exists_ofJson_byUnits (g : Graph) :
    ∃ d : ForeignDocument, ofJson g.toJson.byUnits = .ok d := by
  let w : SpelledGraph := ⟨g, []⟩
  obtain ⟨-, hedges, hmarks, hmethods, hlinks⟩ := field?_toJson w
  have hfield {name : String} {v : Json} (h : w.toJson.field? name = some v) :
      g.toJson.byUnits.field? name = some v.byUnits := by
    rw [Json.field?_byUnits]
    exact congrArg _ h
  obtain ⟨r, hr⟩ := Outcome.exists_foldlM
    (fun e r => exists_readNode_byUnits g e.1 e.2 r) g.nodes.toList ⟨⟨.empty, []⟩, []⟩
  obtain ⟨d₁, hd₁⟩ := Outcome.exists_foldlM
    (fun e d => exists_readEdge_byUnits g e d) g.edgeList r.read
  have hmark (id : String) (d : ForeignDocument) :
      ∃ d', readEntryPoint d (w.spelling (.entryPoint id)).byUnits = .ok d' := ⟨_, rfl⟩
  obtain ⟨d₂, hd₂⟩ := Outcome.exists_foldlM hmark g.entryPoints d₁
  obtain ⟨d₃, hd₃⟩ := Outcome.exists_foldlM
    (fun e d => exists_readMethods_byUnits e.1 e.2 d) g.methods.toList d₂
  obtain ⟨d₄, hd₄⟩ := Outcome.exists_foldlM
    (fun e d => exists_readLinks_byUnits g e.1 e.2 d) g.links.toList d₃
  unfold ofJson
  refine Outcome.exists_bind rfl (Outcome.exists_bind (elements_byUnits _ g.nodes.toList) ?_)
  rw [hfield hedges, hfield hmarks, hfield hmethods, hfield hlinks]
  refine Outcome.exists_bind hr (Outcome.exists_bind (elements_byUnits _ g.edgeList) ?_)
  refine Outcome.exists_bind hd₁ (Outcome.exists_bind (elements_byUnits _ g.entryPoints) ?_)
  refine Outcome.exists_bind hd₂ (Outcome.exists_bind (asFields_byUnits _ _ g.methods.toList) ?_)
  refine Outcome.exists_bind hd₃ (Outcome.exists_bind (asFields_byUnits _ _ g.links.toList) ?_)
  exact ⟨d₄, hd₄⟩

end SpelledGraph

end CodeAtlas
