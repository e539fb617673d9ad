/-!
# Dictionaries in insertion order

A dictionary is the list of its entries in the order in which their keys were first put in.
Putting a key again replaces its value where it stands; a removed key that returns goes to
the end. Lookup and key order are the two views; the lemmas say what each operation does to them.
-/

namespace CodeAtlas

/-- A finite map that remembers the order in which its keys arrived. -/
structure Dict (α β : Type) where
  entries : List (α × β)
  deriving Repr, DecidableEq, Inhabited

namespace Dict

variable {α β γ : Type} [DecidableEq α]

/-- The dictionary without entries. -/
def empty : Dict α β := ⟨[]⟩

instance : EmptyCollection (Dict α β) := ⟨empty⟩

/-- The value of the first entry with the key. -/
def lookup (k : α) : List (α × β) → Option β
  | [] => none
  | (a, b) :: rest => if a = k then some b else lookup k rest

/-- The value stored under a key. -/
def get? (d : Dict α β) (k : α) : Option β := lookup k d.entries

/-- Whether the key has a value. -/
def contains (d : Dict α β) (k : α) : Bool := (d.get? k).isSome

/-- The value stored under a key, or a default. -/
def getD (d : Dict α β) (k : α) (dflt : β) : β := (d.get? k).getD dflt

/-- Entries with the key's value replaced in place, or the new entry at the end. -/
def put (k : α) (b : β) : List (α × β) → List (α × β)
  | [] => [(k, b)]
  | (a, v) :: rest => if a = k then (a, b) :: rest else (a, v) :: put k b rest

/-- Stores a value: in place for a known key, at the end for a new one. -/
def insert (d : Dict α β) (k : α) (b : β) : Dict α β := ⟨put k b d.entries⟩

/-- Removes a key. -/
def erase (d : Dict α β) (k : α) : Dict α β := ⟨d.entries.filter fun e => e.1 ≠ k⟩

/-- Keeps the entries that satisfy a test. -/
def filter (d : Dict α β) (p : α → β → Bool) : Dict α β := ⟨d.entries.filter fun e => p e.1 e.2⟩

/-- Changes every value. -/
def mapValues (d : Dict α β) (f : α → β → γ) : Dict α γ :=
  ⟨d.entries.map fun e => (e.1, f e.1 e.2)⟩

/-- The keys in order. -/
def keys (d : Dict α β) : List α := d.entries.map (·.1)

/-- The values in the order of their keys. -/
def values (d : Dict α β) : List β := d.entries.map (·.2)

/-- The entries in order. -/
def toList (d : Dict α β) : List (α × β) := d.entries

/-- The number of keys. -/
def size (d : Dict α β) : Nat := d.entries.length

/-- Whether there is no entry. -/
def isEmpty (d : Dict α β) : Bool := d.entries.isEmpty

/-- The dictionary that results from storing the pairs one after the other. -/
def ofList (pairs : List (α × β)) : Dict α β := pairs.foldl (fun d e => d.insert e.1 e.2) empty

theorem lookup_put (k j : α) (b : β) (es : List (α × β)) :
    lookup j (put k b es) = if j = k then some b else lookup j es := by
  induction es with
  | nil => by_cases h : k = j <;> simp [put, lookup, h, eq_comm]
  | cons e rest ih =>
    obtain ⟨a, v⟩ := e
    by_cases hak : a = k
    · subst hak
      by_cases haj : a = j
      · simp [put, lookup, haj]
      · simp [put, lookup, haj, Ne.symm haj]
    · by_cases haj : a = j
      · subst haj
        simp [put, lookup, hak]
      · simp [put, lookup, hak, haj, ih]

/-- Of two values stored under one key the later one stays. -/
theorem insert_insert (d : Dict α β) (k : α) (b c : β) :
    (d.insert k b).insert k c = d.insert k c := by
  have hput (es : List (α × β)) : put k c (put k b es) = put k c es := by
    induction es with
    | nil => simp [put]
    | cons e rest ih =>
      obtain ⟨a, v⟩ := e
      by_cases hak : a = k <;> simp [put, hak, ih]
  exact congrArg Dict.mk (hput d.entries)

/-- A stored value is found under its key and leaves the other keys alone. -/
theorem get?_insert (d : Dict α β) (k j : α) (b : β) :
    (d.insert k b).get? j = if j = k then some b else d.get? j :=
  lookup_put k j b d.entries

/-- What is found under a key stands with the key. -/
theorem mem_of_lookup {k : α} {b : β} {es : List (α × β)} (h : lookup k es = some b) :
    (k, b) ∈ es := by
  induction es with
  | nil => cases h
  | cons e rest ih =>
    unfold lookup at h
    split at h
    · next heq =>
      cases h
      exact heq ▸ List.mem_cons_self
    · exact List.mem_cons_of_mem _ (ih h)

/-- Something is found under a key that is there. -/
theorem exists_lookup_of_mem {k : α} {b : β} {es : List (α × β)} (h : (k, b) ∈ es) :
    ∃ c, lookup k es = some c := by
  induction es with
  | nil => cases h
  | cons e rest ih =>
    unfold lookup
    split
    · exact ⟨_, rfl⟩
    · next hne => exact ih ((List.mem_cons.1 h).resolve_left fun heq => hne (by rw [← heq]))

theorem lookup_filter_ne (k j : α) (es : List (α × β)) :
    lookup j (es.filter fun e => e.1 ≠ k) = if j = k then none else lookup j es := by
  induction es with
  | nil => simp [lookup]
  | cons e rest ih =>
    obtain ⟨a, v⟩ := e
    by_cases hak : a = k
    · subst hak
      by_cases haj : a = j
      · subst haj
        simpa [lookup] using ih
      · simpa [lookup, haj, Ne.symm haj] using ih
    · by_cases haj : a = j
      · subst haj
        simp [lookup, hak]
      · simp only [ne_eq, hak, not_false_eq_true, decide_true, List.filter_cons_of_pos, lookup, haj,
          if_false]
        exact ih

/-- A removed key has no value; the other keys keep theirs. -/
theorem get?_erase (d : Dict α β) (k j : α) :
    (d.erase k).get? j = if j = k then none else d.get? j :=
  lookup_filter_ne k j d.entries

/-- A key has a value exactly if it is among the keys. -/
theorem contains_iff_mem_keys (d : Dict α β) (k : α) : d.contains k = true ↔ k ∈ d.keys := by
  obtain ⟨es⟩ := d
  simp only [contains, get?, keys]
  induction es with
  | nil => simp [lookup]
  | cons e rest ih =>
    obtain ⟨a, v⟩ := e
    by_cases h : a = k
    · simp [lookup, h]
    · simp [lookup, h, ih, Ne.symm h]

/-- Storing a value keeps the keys' order; a new key goes to the end. -/
theorem keys_insert (d : Dict α β) (k : α) (b : β) :
    (d.insert k b).keys = if k ∈ d.keys then d.keys else d.keys ++ [k] := by
  obtain ⟨es⟩ := d
  simp only [insert, keys]
  induction es with
  | nil => simp [put]
  | cons e rest ih =>
    obtain ⟨a, v⟩ := e
    by_cases h : a = k
    · simp [put, h]
    · by_cases hm : k ∈ rest.map (·.1)
      · simp only [List.map_cons, List.mem_cons, put, h, if_false, hm, or_true, if_true] at ih ⊢
        rw [ih]
      · simp only [List.map_cons, List.mem_cons, put, h, if_false, hm, or_false, Ne.symm h] at ih ⊢
        rw [ih]
        rfl

/-- Removing a key keeps the others in their order. -/
theorem keys_erase (d : Dict α β) (k : α) : (d.erase k).keys = d.keys.filter (· ≠ k) := by
  obtain ⟨es⟩ := d
  simp only [erase, keys, List.filter_map]
  rfl

/-- Distinct keys stay distinct when a value is stored. -/
theorem nodup_keys_insert {d : Dict α β} (h : d.keys.Nodup) (k : α) (b : β) :
    (d.insert k b).keys.Nodup := by
  rw [keys_insert]
  by_cases hk : k ∈ d.keys
  · simpa [hk] using h
  · simp only [hk, if_false]
    rw [List.nodup_append]
    exact ⟨h, by simp, fun a ha b hb hab => hk (by simp at hb; subst hb; subst hab; exact ha)⟩

/-- Distinct keys stay distinct when one is removed. -/
theorem nodup_keys_erase {d : Dict α β} (h : d.keys.Nodup) (k : α) : (d.erase k).keys.Nodup := by
  rw [keys_erase]
  exact h.filter _

@[simp] theorem get?_empty (k : α) : (empty : Dict α β).get? k = none := rfl

@[simp] theorem getD_empty (k : α) (dflt : β) : (empty : Dict α β).getD k dflt = dflt := rfl

omit [DecidableEq α] in
@[simp] theorem keys_empty : (empty : Dict α β).keys = [] := rfl

omit [DecidableEq α] in
@[simp] theorem values_empty : (empty : Dict α β).values = [] := rfl

theorem contains_empty (k : α) : (empty : Dict α β).contains k = false := rfl

/-- A key with a value is contained. -/
theorem contains_of_get?_eq_some {d : Dict α β} {k : α} {b : β} (h : d.get? k = some b) :
    d.contains k = true := by
  simp [contains, h]

/-- A contained key has a value. -/
theorem exists_get?_of_contains {d : Dict α β} {k : α} (h : d.contains k = true) :
    ∃ b, d.get? k = some b :=
  Option.isSome_iff_exists.1 h

/-- A key that is not contained has no value. -/
theorem get?_eq_none_of_not_contains {d : Dict α β} {k : α} (h : ¬d.contains k = true) :
    d.get? k = none := by
  simpa [contains] using h

theorem getD_of_get?_eq_some {d : Dict α β} {k : α} {b : β} (dflt : β) (h : d.get? k = some b) :
    d.getD k dflt = b := by
  simp [getD, h]

theorem getD_of_get?_eq_none {d : Dict α β} {k : α} (dflt : β) (h : d.get? k = none) :
    d.getD k dflt = dflt := by
  simp [getD, h]

theorem getD_insert (d : Dict α β) (k j : α) (b dflt : β) :
    (d.insert k b).getD j dflt = if j = k then b else d.getD j dflt := by
  unfold getD
  rw [get?_insert]
  split <;> rfl

theorem getD_erase (d : Dict α β) (k j : α) (dflt : β) :
    (d.erase k).getD j dflt = if j = k then dflt else d.getD j dflt := by
  unfold getD
  rw [get?_erase]
  split <;> rfl

theorem contains_insert (d : Dict α β) (k j : α) (b : β) :
    (d.insert k b).contains j = true ↔ j = k ∨ d.contains j = true := by
  unfold contains
  rw [get?_insert]
  by_cases h : j = k <;> simp [h]

theorem contains_erase (d : Dict α β) (k j : α) :
    (d.erase k).contains j = true ↔ j ≠ k ∧ d.contains j = true := by
  unfold contains
  rw [get?_erase]
  by_cases h : j = k <;> simp [h]

/-- Changed values are found under their own keys. -/
theorem get?_mapValues (d : Dict α β) (f : α → β → γ) (k : α) :
    (d.mapValues f).get? k = (d.get? k).map (f k) := by
  obtain ⟨es⟩ := d
  simp only [mapValues, get?]
  induction es with
  | nil => rfl
  | cons e rest ih =>
    obtain ⟨a, v⟩ := e
    by_cases h : a = k
    · subst h
      simp [lookup]
    · simpa [lookup, h] using ih

omit [DecidableEq α] in
@[simp] theorem keys_mapValues (d : Dict α β) (f : α → β → γ) :
    (d.mapValues f).keys = d.keys := by
  simp [mapValues, keys]

theorem contains_mapValues (d : Dict α β) (f : α → β → γ) (k : α) :
    (d.mapValues f).contains k = d.contains k := by
  simp [contains, get?_mapValues]

/-- A test of keys keeps or removes each key with its value. -/
theorem get?_filterKeys (d : Dict α β) (p : α → Bool) (k : α) :
    (d.filter fun a _ => p a).get? k = if p k then d.get? k else none := by
  obtain ⟨es⟩ := d
  simp only [filter, get?]
  induction es with
  | nil => simp [lookup]
  | cons e rest ih =>
    obtain ⟨a, v⟩ := e
    by_cases hak : a = k
    · subst hak
      by_cases hp : p a = true
      · simp [hp, lookup]
      · simpa [hp, lookup] using ih
    · by_cases hp : p a = true
      · simpa [hp, lookup, hak] using ih
      · simpa [hp, lookup, hak] using ih

omit [DecidableEq α] in
theorem keys_filterKeys (d : Dict α β) (p : α → Bool) :
    (d.filter fun a _ => p a).keys = d.keys.filter p := by
  simp only [filter, keys, List.filter_map]
  rfl

omit [DecidableEq α] in
theorem nodup_keys_filterKeys {d : Dict α β} (h : d.keys.Nodup) (p : α → Bool) :
    (d.filter fun a _ => p a).keys.Nodup := by
  rw [keys_filterKeys]
  exact h.filter _

/-- With distinct keys, a test of entries keeps or removes what is found under each key. -/
theorem get?_filter {d : Dict α β} (h : d.keys.Nodup) (p : α → β → Bool) (k : α) :
    (d.filter p).get? k = (d.get? k).filter (p k) := by
  obtain ⟨es⟩ := d
  simp only [keys, get?, filter] at h ⊢
  induction es with
  | nil => rfl
  | cons e rest ih =>
    obtain ⟨a, v⟩ := e
    obtain ⟨hnew, hrest⟩ := List.nodup_cons.1 h
    have hlater := ih hrest
    by_cases hak : a = k
    · subst hak
      have hnone : lookup a rest = none := by
        refine get?_eq_none_of_not_contains (d := ⟨rest⟩) fun hc => hnew ?_
        exact (contains_iff_mem_keys ⟨rest⟩ a).1 hc
      by_cases hp : p a v = true
      · simp [lookup, hp, Option.filter]
      · simp [lookup, hp, hlater, hnone, Option.filter]
    · by_cases hp : p a v = true
      · simp [lookup, hp, hak, hlater]
      · simp [lookup, hp, hak, hlater]

/-- With distinct keys, the entries are the keys with what is found under them. -/
theorem mem_entries_iff {d : Dict α β} (h : d.keys.Nodup) (k : α) (b : β) :
    (k, b) ∈ d.entries ↔ d.get? k = some b := by
  obtain ⟨es⟩ := d
  simp only [keys, get?] at h ⊢
  induction es with
  | nil => simp [lookup]
  | cons e rest ih =>
    obtain ⟨a, v⟩ := e
    obtain ⟨hnew, hrest⟩ := List.nodup_cons.1 h
    by_cases hak : a = k
    · subst hak
      have hnot : (a, b) ∉ rest := fun hm => hnew (List.mem_map.2 ⟨(a, b), hm, rfl⟩)
      simp [lookup, hnot, eq_comm]
    · simp [lookup, hak, Ne.symm hak, ih hrest]

/-- Entries that a dictionary holds are its lookups of their keys. -/
theorem map_eq_filterMap_of_get? (d : Dict α β) (f : α × β → γ) (es : List (α × β))
    (hes : ∀ e ∈ es, d.get? e.1 = some e.2) :
    es.map f = (es.map (·.1)).filterMap fun k => (d.get? k).map fun b => f (k, b) := by
  induction es with
  | nil => rfl
  | cons e rest ih =>
    have hhead := hes e (List.mem_cons_self ..)
    have htail := ih fun x hx => hes x (List.mem_cons_of_mem _ hx)
    simp [hhead, htail]

/-- With distinct keys, the entries are the keys with what is found under them, in their order. -/
theorem map_keys_getD {d : Dict α β} (h : d.keys.Nodup) (dflt : β) :
    d.keys.map (fun k => (k, (d.get? k).getD dflt)) = d.entries := by
  unfold keys
  rw [List.map_map]
  refine (List.map_congr_left fun e he => ?_).trans (List.map_id _)
  change (e.1, (d.get? e.1).getD dflt) = e
  rw [(mem_entries_iff h e.1 e.2).1 he]
  rfl

/-- With distinct keys, the values are what is found under the keys, in the keys' order. -/
theorem values_eq_filterMap {d : Dict α β} (h : d.keys.Nodup) :
    d.values = d.keys.filterMap d.get? := by
  have hmap := map_eq_filterMap_of_get? d (·.2) d.entries
    fun e he => (mem_entries_iff h e.1 e.2).1 he
  simpa [values, keys] using hmap

theorem mem_values_iff {d : Dict α β} (h : d.keys.Nodup) (b : β) :
    b ∈ d.values ↔ ∃ k, d.get? k = some b := by
  constructor
  · intro hb
    obtain ⟨⟨k, v⟩, he, rfl⟩ := List.mem_map.1 hb
    exact ⟨k, (mem_entries_iff h k v).1 he⟩
  · rintro ⟨k, hk⟩
    exact List.mem_map.2 ⟨(k, b), (mem_entries_iff h k b).2 hk, rfl⟩

/-- A new key goes to the end with its value. -/
theorem entries_insert_of_new {d : Dict α β} {k : α} (h : k ∉ d.keys) (b : β) :
    (d.insert k b).entries = d.entries ++ [(k, b)] := by
  obtain ⟨es⟩ := d
  simp only [keys, insert] at h ⊢
  induction es with
  | nil => rfl
  | cons e rest ih =>
    obtain ⟨a, v⟩ := e
    simp only [List.map_cons, List.mem_cons, not_or] at h
    rw [put, if_neg (Ne.symm h.1), ih h.2]
    rfl

/-- What is stored after an insertion is the inserted value or was stored before. -/
theorem mem_values_insert {d : Dict α β} {k : α} {b v : β} (h : v ∈ (d.insert k b).values) :
    v = b ∨ v ∈ d.values := by
  obtain ⟨es⟩ := d
  simp only [insert, values] at h ⊢
  induction es with
  | nil => simpa [put] using h
  | cons e rest ih =>
    obtain ⟨a, u⟩ := e
    by_cases hak : a = k
    · rw [put, if_pos hak, List.map_cons, List.mem_cons] at h
      exact h.imp_right fun hv => List.mem_cons_of_mem _ hv
    · rw [put, if_neg hak, List.map_cons, List.mem_cons] at h
      rcases h with rfl | h
      · exact Or.inr (List.mem_cons_self ..)
      · exact (ih h).imp_right fun hv => List.mem_cons_of_mem _ hv

/-- Storing what a test rejects in place of what it rejects does not show among the values
that it accepts. -/
theorem filter_values_insert {d : Dict α β} {k : α} {b : β} {p : β → Bool} (hb : p b = false)
    (hold : ∀ v, d.get? k = some v → p v = false) :
    (d.insert k b).values.filter p = d.values.filter p := by
  obtain ⟨es⟩ := d
  simp only [get?, insert, values] at hold ⊢
  induction es with
  | nil => simp [put, hb]
  | cons e rest ih =>
    obtain ⟨a, v⟩ := e
    by_cases hak : a = k
    · have hv : p v = false := hold v (by simp [lookup, hak])
      simp [put, hak, hb, hv]
    · have hrest := ih fun x hx => hold x (by simpa [lookup, hak] using hx)
      rw [put, if_neg hak, List.map_cons, List.map_cons, List.filter_cons, List.filter_cons, hrest]

/-- Values stored under distinct new keys follow the others in their order. -/
theorem values_foldl_insert_of_new (key : β → α) (bs : List β) (hnodup : (bs.map key).Nodup)
    {d : Dict α β} (hnew : ∀ b ∈ bs, key b ∉ d.keys) :
    (bs.foldl (fun d b => d.insert (key b) b) d).values = d.values ++ bs := by
  induction bs generalizing d with
  | nil => simp
  | cons b rest ih =>
    obtain ⟨hb, hrest⟩ := List.nodup_cons.1 hnodup
    have hentries := entries_insert_of_new (hnew b (List.mem_cons_self ..)) b
    have hvalues : (d.insert (key b) b).values = d.values ++ [b] := by
      simp [values, hentries]
    rw [List.foldl_cons, ih hrest, hvalues, List.append_assoc]
    · rfl
    · intro c hc hmem
      rw [← contains_iff_mem_keys, contains_insert, contains_iff_mem_keys] at hmem
      rcases hmem with heq | hmem
      · exact hb (heq ▸ List.mem_map_of_mem hc)
      · exact hnew c (List.mem_cons_of_mem _ hc) hmem

/-- Entries stored under distinct new keys follow the others in their order. -/
theorem entries_foldl_insert_of_new {es : List (α × β)} (hnodup : (es.map (·.1)).Nodup)
    {d : Dict α β} (hnew : ∀ e ∈ es, e.1 ∉ d.keys) :
    (es.foldl (fun d e => d.insert e.1 e.2) d).entries = d.entries ++ es := by
  induction es generalizing d with
  | nil => simp
  | cons e rest ih =>
    obtain ⟨he, hrest⟩ := List.nodup_cons.1 hnodup
    have hentries := entries_insert_of_new (hnew e (List.mem_cons_self ..)) e.2
    rw [List.foldl_cons, ih hrest, hentries, List.append_assoc]
    · rfl
    · intro x hx hmem
      rw [keys, hentries, List.map_append, List.mem_append] at hmem
      rcases hmem with hmem | hmem
      · exact hnew x (List.mem_cons_of_mem _ hx) hmem
      · exact he (List.mem_singleton.1 hmem ▸ List.mem_map_of_mem hx)

/-- Storing the entries of a dictionary one after the other makes the dictionary again. -/
theorem ofList_entries {d : Dict α β} (h : d.keys.Nodup) : ofList d.entries = d := by
  have hentries := entries_foldl_insert_of_new (d := empty) h fun _ _ hmem => by cases hmem
  exact congrArg Dict.mk hentries

/-- Storing the values of a dictionary one after the other, each under its own key, makes the
dictionary again. -/
theorem foldl_insert_values {key : β → α} {d : Dict α β} (h : d.keys.Nodup)
    (hkeyed : ∀ e ∈ d.entries, key e.2 = e.1) :
    d.values.foldl (fun d b => d.insert (key b) b) empty = d := by
  have hsteps (es : List (α × β)) (hes : ∀ e ∈ es, key e.2 = e.1) (start : Dict α β) :
      (es.map (·.2)).foldl (fun d b => d.insert (key b) b) start =
        es.foldl (fun d e => d.insert e.1 e.2) start := by
    induction es generalizing start with
    | nil => rfl
    | cons e rest ih =>
      rw [List.map_cons, List.foldl_cons, List.foldl_cons, hes e (List.mem_cons_self ..),
        ih fun x hx => hes x (List.mem_cons_of_mem _ hx)]
  exact (hsteps d.entries hkeyed empty).trans (ofList_entries h)

/-- A known key's value is replaced where it stands. -/
theorem put_append_cons {k : α} {es : List (α × β)} (h : k ∉ es.map (·.1)) (b v : β)
    (rest : List (α × β)) : put k b (es ++ (k, v) :: rest) = es ++ (k, b) :: rest := by
  induction es with
  | nil => simp [put]
  | cons e es ih =>
    obtain ⟨a, u⟩ := e
    simp only [List.map_cons, List.mem_cons, not_or] at h
    rw [List.cons_append, put, if_neg (Ne.symm h.1), ih h.2, List.cons_append]

section Groups

variable (key : γ → α) (add : β → γ → β) (start : β)

/-- Adds an element to what is stored under its key. -/
def gather (d : Dict α β) (c : γ) : Dict α β := d.insert (key c) (add (d.getD (key c) start) c)

/-- Elements of one key are added to what is stored last. -/
theorem foldl_gather_of_last {es : List (α × β)} {k : α} (hk : k ∉ es.map (·.1)) {cs : List γ}
    (hkeyed : ∀ c ∈ cs, key c = k) (b : β) :
    cs.foldl (gather key add start) ⟨es ++ [(k, b)]⟩ = ⟨es ++ [(k, cs.foldl add b)]⟩ := by
  induction cs generalizing b with
  | nil => rfl
  | cons c rest ih =>
    have hlast : lookup k (es ++ [(k, b)]) = some b := by
      clear ih
      induction es with
      | nil => simp [lookup]
      | cons e es ih =>
        simp only [List.map_cons, List.mem_cons, not_or] at hk
        rw [List.cons_append, lookup, if_neg (Ne.symm hk.1), ih hk.2]
    have hstep : gather key add start ⟨es ++ [(k, b)]⟩ c = ⟨es ++ [(k, add b c)]⟩ := by
      have hget : (⟨es ++ [(k, b)]⟩ : Dict α β).getD k start = b :=
        getD_of_get?_eq_some _ hlast
      rw [gather, hkeyed c (List.mem_cons_self ..), hget, insert, put_append_cons hk]
    rw [List.foldl_cons, hstep, ih fun x hx => hkeyed x (List.mem_cons_of_mem _ hx)]
    rfl

/-- Elements that come in groups, each group under a new key of its own, are stored group by
group. A group without elements is not stored. -/
theorem entries_foldl_gather {δ : Type} (members : δ → List γ) {groups : List (α × δ)}
    (hnodup : (groups.map (·.1)).Nodup) (hkeyed : ∀ g ∈ groups, ∀ c ∈ members g.2, key c = g.1)
    {d : Dict α β} (hnew : ∀ g ∈ groups, g.1 ∉ d.keys) :
    ((groups.flatMap fun g => members g.2).foldl (gather key add start) d).entries =
      d.entries ++ (groups.filter fun g => !(members g.2).isEmpty).map fun g =>
        (g.1, (members g.2).foldl add start) := by
  induction groups generalizing d with
  | nil => simp
  | cons g rest ih =>
    obtain ⟨hk, hrest⟩ := List.nodup_cons.1 hnodup
    have hlater (e : Dict α β) :=
      ih hrest (fun x hx => hkeyed x (List.mem_cons_of_mem _ hx)) (d := e)
    have hnewLater : ∀ x ∈ rest, x.1 ∉ d.keys := fun x hx => hnew x (List.mem_cons_of_mem _ hx)
    have hkeys := hkeyed g (List.mem_cons_self ..)
    rw [List.flatMap_cons, List.foldl_append]
    cases hmembers : members g.2 with
    | nil =>
      rw [List.filter_cons_of_neg (by simp [hmembers])]
      exact hlater d hnewLater
    | cons c cs =>
      rw [hmembers] at hkeys
      have hout : g.1 ∉ d.keys := hnew g (List.mem_cons_self ..)
      have hfirst : gather key add start d c = ⟨d.entries ++ [(g.1, add start c)]⟩ := by
        have hget : d.get? g.1 = none :=
          get?_eq_none_of_not_contains fun hc => hout ((contains_iff_mem_keys d g.1).1 hc)
        rw [gather, hkeys c (List.mem_cons_self ..), getD_of_get?_eq_none _ hget]
        exact congrArg Dict.mk (entries_insert_of_new hout _)
      have hgroup : (c :: cs).foldl (gather key add start) d =
          ⟨d.entries ++ [(g.1, (c :: cs).foldl add start)]⟩ := by
        rw [List.foldl_cons, hfirst, foldl_gather_of_last key add start hout fun x hx =>
          hkeys x (List.mem_cons_of_mem _ hx)]
        rfl
      rw [hgroup, hlater]
      · simp [hmembers]
      · intro x hx hmem
        rw [keys, List.map_append, List.mem_append] at hmem
        rcases hmem with hmem | hmem
        · exact hnewLater x hx hmem
        · exact hk (List.mem_singleton.1 hmem ▸ List.mem_map_of_mem hx)

/-- Gathering the members of a dictionary's groups one after the other makes the dictionary again,
but for the groups without members. -/
theorem foldl_gather_members (members : β → List γ) {d : Dict α β} (hnodup : d.keys.Nodup)
    (hkeyed : ∀ e ∈ d.entries, ∀ c ∈ members e.2, key c = e.1)
    (hmade : ∀ e ∈ d.entries, (members e.2).foldl add start = e.2) :
    (d.values.flatMap members).foldl (gather key add start) empty =
      d.filter fun _ b => !(members b).isEmpty := by
  have hgathered := entries_foldl_gather key add start members (d := empty) hnodup hkeyed
    fun _ _ hmem => by cases hmem
  have hkept : ((d.entries.filter fun e => !(members e.2).isEmpty).map fun e =>
      (e.1, (members e.2).foldl add start)) =
        d.entries.filter fun e => !(members e.2).isEmpty := by
    refine (List.map_congr_left fun e he => ?_).trans (List.map_id _)
    rw [hmade e (List.mem_filter.1 he).1]
    rfl
  rw [hkept] at hgathered
  rw [values, List.flatMap_map]
  exact congrArg Dict.mk hgathered

end Groups

section Members

variable (members : β → List γ)

/-- Leaving out groups without members does not show among the members of a group. -/
theorem members_getD_filter {d : Dict α β} (hnodup : d.keys.Nodup) {dflt : β}
    (hdflt : members dflt = []) (k : α) :
    members ((d.filter fun _ b => !(members b).isEmpty).getD k dflt) =
      members (d.getD k dflt) := by
  unfold getD
  rw [get?_filter hnodup]
  cases d.get? k with
  | none => rfl
  | some b =>
    cases hb : members b with
    | nil => simp [Option.filter, hb, hdflt]
    | cons c cs => simp [Option.filter, hb]

omit [DecidableEq α] in
/-- It does not show among all members either. -/
theorem flatMap_values_filter (d : Dict α β) :
    (d.filter fun _ b => !(members b).isEmpty).values.flatMap members =
      d.values.flatMap members := by
  obtain ⟨es⟩ := d
  simp only [filter, values]
  induction es with
  | nil => rfl
  | cons e rest ih =>
    cases he : members e.2 with
    | nil => simpa [he] using ih
    | cons c cs => simpa [he] using ih

end Members

/-- Storing new versions of some values under their own keys replaces them where they stand. -/
theorem values_foldl_insert_in_place (key : β → α) (f : β → Option β)
    (hf : ∀ v u, f v = some u → key u = key v) {d : Dict α β} (hnodup : d.keys.Nodup)
    (hkeyed : ∀ e ∈ d.entries, key e.2 = e.1) :
    ((d.values.filterMap f).foldl (fun d b => d.insert (key b) b) d).values =
      d.values.map fun v => (f v).getD v := by
  -- the entries before the current one have been replaced already
  have hmain (done rest : List (α × β)) (hkeys : ((done ++ rest).map (·.1)).Nodup)
      (hrest : ∀ e ∈ rest, key e.2 = e.1) :
      (((rest.map (·.2)).filterMap f).foldl (fun d b => d.insert (key b) b)
        (⟨done ++ rest⟩ : Dict α β)).entries =
          done ++ rest.map fun e => (e.1, (f e.2).getD e.2) := by
    induction rest generalizing done with
    | nil => simp
    | cons e rest ih =>
      obtain ⟨k, v⟩ := e
      have hk : key v = k := hrest (k, v) (List.mem_cons_self ..)
      have hout : k ∉ done.map (·.1) := by
        intro hmem
        rw [List.map_append, List.nodup_append] at hkeys
        exact hkeys.2.2 k hmem k (by simp) rfl
      have hstep (u : β) := ih (done ++ [(k, u)]) (by simpa using hkeys)
        fun x hx => hrest x (List.mem_cons_of_mem _ hx)
      cases hv : f v with
      | none => simpa [hv] using hstep v
      | some u =>
        have hinsert : (⟨done ++ (k, v) :: rest⟩ : Dict α β).insert (key u) u =
            ⟨(done ++ [(k, u)]) ++ rest⟩ := by
          rw [hf v u hv, hk, insert, put_append_cons hout]
          simp
        simpa [hv, hinsert] using hstep u
  have hentries := hmain [] d.entries hnodup hkeyed
  rw [List.nil_append, List.nil_append] at hentries
  unfold values
  rw [show ({ entries := d.entries } : Dict α β) = d from rfl] at hentries
  rw [hentries]
  simp

/-- Dictionaries with the same keys in the same order and the same values are equal. -/
theorem ext_of_keys {d e : Dict α β} (hd : d.keys.Nodup) (hkeys : d.keys = e.keys)
    (hget : ∀ k, d.get? k = e.get? k) : d = e := by
  have hentries (c : Dict α β) (hc : c.keys.Nodup) :
      c.entries = c.keys.filterMap fun k => (c.get? k).map fun b => (k, b) := by
    have hmap := map_eq_filterMap_of_get? c id c.entries
      fun x hx => (mem_entries_iff hc x.1 x.2).1 hx
    simpa [keys] using hmap
  have heq : d.entries = e.entries := by
    rw [hentries d hd, hentries e (hkeys ▸ hd), hkeys]
    simp only [hget]
  cases d
  cases e
  exact congrArg Dict.mk heq

/-- Only the keys matter for what is not found. -/
theorem get?_eq_none_of_keys {d : Dict α β} {e : Dict α γ} (hkeys : d.keys = e.keys) {k : α}
    (h : e.get? k = none) : d.get? k = none := by
  refine get?_eq_none_of_not_contains fun hc => ?_
  rw [contains_iff_mem_keys, hkeys, ← contains_iff_mem_keys] at hc
  obtain ⟨b, hb⟩ := exists_get?_of_contains hc
  rw [h] at hb
  cases hb

/-- The keys after storing pairs are theirs and those before. -/
theorem contains_foldl_insert (pairs : List (α × β)) (d : Dict α β) (k : α) :
    (pairs.foldl (fun d e => d.insert e.1 e.2) d).contains k = true ↔
      k ∈ pairs.map (·.1) ∨ d.contains k = true := by
  induction pairs generalizing d with
  | nil => simp
  | cons e rest ih =>
    rw [List.foldl_cons, ih, contains_insert, List.map_cons, List.mem_cons, or_assoc,
      or_left_comm]

theorem contains_ofList (pairs : List (α × β)) (k : α) :
    (ofList pairs).contains k = true ↔ k ∈ pairs.map (·.1) := by
  unfold ofList
  rw [contains_foldl_insert, contains_empty]
  simp

/-- What is found after storing pairs is one of them or was there before. -/
theorem mem_of_get?_foldl_insert {pairs : List (α × β)} {d : Dict α β} {k : α} {b : β}
    (h : (pairs.foldl (fun d e => d.insert e.1 e.2) d).get? k = some b) :
    (k, b) ∈ pairs ∨ d.get? k = some b := by
  induction pairs generalizing d with
  | nil => exact Or.inr h
  | cons e rest ih =>
    rcases ih h with hmem | hget
    · exact Or.inl (List.mem_cons_of_mem _ hmem)
    · rw [get?_insert] at hget
      split at hget
      · next hk =>
        cases hget
        rw [hk]
        exact Or.inl (List.mem_cons_self ..)
      · exact Or.inr hget

theorem mem_of_get?_ofList {pairs : List (α × β)} {k : α} {b : β}
    (h : (ofList pairs).get? k = some b) : (k, b) ∈ pairs := by
  rcases mem_of_get?_foldl_insert h with hmem | hget
  · exact hmem
  · cases hget

/-- Of pairs with different keys each is found. -/
theorem get?_ofList_of_mem {pairs : List (α × β)} (hnodup : (pairs.map (·.1)).Nodup) {k : α}
    {b : β} (h : (k, b) ∈ pairs) : (ofList pairs).get? k = some b := by
  have hkey : (ofList pairs).contains k = true :=
    (contains_ofList pairs k).2 (List.mem_map.2 ⟨(k, b), h, rfl⟩)
  obtain ⟨c, hc⟩ := exists_get?_of_contains hkey
  have hmem := mem_of_get?_ofList hc
  have heq : (k, c) = (k, b) := by
    clear hkey hc
    induction pairs with
    | nil => cases h
    | cons e rest ih =>
      obtain ⟨he, hrest⟩ := List.nodup_cons.1 hnodup
      have hout (v : β) (hv : (k, v) ∈ rest) : e.1 ≠ k :=
        fun heq => he (List.mem_map.2 ⟨(k, v), hv, heq.symm⟩)
      rcases List.mem_cons.1 h with heq | hb <;> rcases List.mem_cons.1 hmem with heq' | hc
      · rw [heq, heq']
      · exact absurd (congrArg (·.1) heq).symm (hout c hc)
      · exact absurd (congrArg (·.1) heq').symm (hout b hb)
      · exact ih hrest hb hc
  rw [hc, (Prod.mk.inj heq).2]

end Dict

/-- The list with the element at its end, unless it is there already. -/
def appendNew {α : Type} [DecidableEq α] (xs : List α) (x : α) : List α :=
  if x ∈ xs then xs else xs ++ [x]

/-- The elements without repetitions, each where it first stands. -/
def firstOccurrences {α : Type} [DecidableEq α] (xs : List α) : List α :=
  xs.foldl appendNew []

theorem mem_appendNew {α : Type} [DecidableEq α] {xs : List α} {x y : α} :
    y ∈ appendNew xs x ↔ y ∈ xs ∨ y = x := by
  unfold appendNew
  split
  · next h => exact ⟨Or.inl, fun hy => hy.elim id fun e => e ▸ h⟩
  · simp

theorem nodup_appendNew {α : Type} [DecidableEq α] {xs : List α} (h : xs.Nodup) (x : α) :
    (appendNew xs x).Nodup := by
  unfold appendNew
  split
  · exact h
  · next hx =>
    rw [List.nodup_append]
    exact ⟨h, by simp, fun a ha b hb hab => hx (by simp at hb; subst hb; subst hab; exact ha)⟩

/-- Adding new elements one after the other is the same as adding them all. -/
theorem foldl_appendNew_of_nodup {α : Type} [DecidableEq α] {xs ys : List α}
    (h : (xs ++ ys).Nodup) : ys.foldl appendNew xs = xs ++ ys := by
  induction ys generalizing xs with
  | nil => simp
  | cons y rest ih =>
    have hy : y ∉ xs := fun hmem =>
      (List.nodup_append.1 h).2.2 y hmem y (List.mem_cons_self ..) rfl
    have hsplit : xs ++ y :: rest = (xs ++ [y]) ++ rest := by simp
    rw [List.foldl_cons, appendNew, if_neg hy, ih (hsplit ▸ h), hsplit]

theorem mem_foldl_appendNew {α : Type} [DecidableEq α] {xs ys : List α} {z : α} :
    z ∈ ys.foldl appendNew xs ↔ z ∈ xs ∨ z ∈ ys := by
  induction ys generalizing xs with
  | nil => simp
  | cons y rest ih => simp [ih, mem_appendNew, or_assoc]

theorem mem_firstOccurrences {α : Type} [DecidableEq α] {xs : List α} {x : α} :
    x ∈ firstOccurrences xs ↔ x ∈ xs := by
  simp [firstOccurrences, mem_foldl_appendNew]

theorem nodup_foldl_appendNew {α : Type} [DecidableEq α] {xs : List α} (h : xs.Nodup)
    (ys : List α) : (ys.foldl appendNew xs).Nodup := by
  induction ys generalizing xs with
  | nil => exact h
  | cons y rest ih => exact ih (nodup_appendNew h y)

end CodeAtlas
