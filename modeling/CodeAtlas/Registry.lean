import CodeAtlas.Graph.Document
import CodeAtlas.State.Basic
import CodeAtlas.Text.Case

/-!
# The registry of published graphs

Each project has at most one published graph, which replaces the one before it. Names are
looked up ignoring case; of several projects with one name the first published counts. A
saved graph is read back from its text; a text that describes none leaves the registry alone.
How texts are read is a parameter: a state may have been saved by the program itself or not.
-/

namespace CodeAtlas

/-- A published graph with its project's name. -/
structure Publication (γ : Type := Graph) where
  name : String
  graph : γ
  deriving Inhabited

/-- The published graph of each project. -/
structure Registry (γ : Type := Graph) where
  entries : Dict String (Publication γ)
  deriving Inhabited

namespace Registry

variable {γ : Type}

/-- The registry without projects. -/
def empty : Registry γ := ⟨.empty⟩

/-- The number of projects. -/
def size (r : Registry γ) : Nat := r.entries.size

/-- Publishes a graph in place of the project's former one. -/
def put (r : Registry γ) (id name : String) (g : γ) : Registry γ :=
  ⟨r.entries.insert id ⟨name, g⟩⟩

/-- The graph of a project. -/
def get? (r : Registry γ) (id : String) : Option γ := (r.entries.get? id).map (·.graph)

/-- A published graph is the project's, and the others keep theirs. -/
theorem get?_put (r : Registry γ) (id name : String) (g : γ) (j : String) :
    (r.put id name g).get? j = if j = id then some g else r.get? j := by
  unfold get? put
  rw [Dict.get?_insert]
  split <;> rfl

/-- The graph of the first project with a name, ignoring case. -/
def getByName? (r : Registry γ) (name : String) : Option γ :=
  (r.entries.values.find? fun p => Text.sameIgnoringCase p.name name).map (·.graph)

/-- Removes a project; the answer tells whether there was one. -/
def remove (r : Registry γ) (id : String) : Registry γ × Bool :=
  (⟨r.entries.erase id⟩, r.entries.contains id)

/-- The names of all projects. -/
def names (r : Registry γ) : List String := r.entries.values.map (·.name)

/-- Whether a failure to read a graph is passed on, and not taken for a text without one: fields
asked of what is not a record, and too much within each other. -/
def passesOn : Failure → Bool
  | .notARecord .. | .nestedTooDeeply _ => true
  | _ => false

/-- Publishes the graph that is read from a project's saved state. The answer tells whether there
was one that can be read. -/
def reloadWith (read : String → Outcome γ) (r : Registry γ) (state : ProjectState) :
    Outcome (Registry γ × Bool) :=
  match state.graphText with
  | none => .ok (r, false)
  | some text =>
    if text.isEmpty then .ok (r, false)
    else match read text with
      | .ok g => .ok (r.put state.id state.name g, true)
      | .error e => if passesOn e then .error e else .ok (r, false)

/-- Publishes the graph that a project's saved state holds. -/
def reload (r : Registry) (state : ProjectState) : Outcome (Registry × Bool) :=
  r.reloadWith Graph.ofText state

/-- A project has the graph that it had or the one that its saved text holds. -/
theorem get?_reload {r r' : Registry} {state : ProjectState} {loaded : Bool}
    (h : r.reload state = .ok (r', loaded)) {g : Graph} (hg : r'.get? state.id = some g) :
    r.get? state.id = some g ∨
      ∃ text, state.graphText = some text ∧ Graph.ofText text = .ok g := by
  unfold reload reloadWith at h
  split at h
  · cases h
    exact Or.inl hg
  · next text htext =>
    split at h
    · cases h
      exact Or.inl hg
    · split at h
      · next g' hread =>
        cases h
        rw [get?_put, if_pos rfl] at hg
        obtain rfl := Option.some.inj hg
        exact Or.inr ⟨text, htext, hread⟩
      · split at h
        · cases h
        · cases h
          exact Or.inl hg

/-- Publishing a graph leaves the other projects' publications alone. -/
theorem entries_put_of_ne (r : Registry γ) {id q : String} (hq : q ≠ id) (name : String) (g : γ) :
    (r.put id name g).entries.get? q = r.entries.get? q := by
  unfold put
  rw [Dict.get?_insert, if_neg hq]

/-- So does reading a saved graph, whether it can be read or not. -/
theorem entries_reload_of_ne {r r' : Registry} {state : ProjectState} {loaded : Bool}
    (h : r.reload state = .ok (r', loaded)) {q : String} (hq : q ≠ state.id) :
    r'.entries.get? q = r.entries.get? q := by
  unfold reload reloadWith at h
  split at h
  · cases h
    rfl
  · split at h
    · cases h
      rfl
    · split at h
      · cases h
        exact r.entries_put_of_ne hq _ _
      · split at h
        · cases h
        · cases h
          rfl

/-- Publishes the saved graphs one after the other: the registry that is reached and the number
of graphs in it that were read. A state whose reading fails ends the load there; what was
published before it stays. -/
def loadEachWith (read : String → Outcome γ) (r : Registry γ) :
    List ProjectState → Registry γ × Outcome Nat
  | [] => (r, .ok 0)
  | s :: rest =>
    match r.reloadWith read s with
    | .error e => (r, .error e)
    | .ok (r, loaded) =>
      let (r, n) := loadEachWith read r rest
      (r, n.map (· + if loaded then 1 else 0))

end Registry

end CodeAtlas
