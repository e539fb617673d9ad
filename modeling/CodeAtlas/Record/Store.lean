import CodeAtlas.Graph.Basic
import CodeAtlas.Text.Order

/-!
# Records

What is stored about units of code: a class record per unit, the records of its methods and
the links from method parameters to other units. Records refer to each other by id.
-/

namespace CodeAtlas

/-- A stored unit of code. -/
structure ClassRecord where
  id : String
  project : String
  identifier : String
  sourceFile : String
  kind : Kind
  description : Option String
  commit : Option String
  deriving Repr, DecidableEq, Inhabited

/-- A stored method of a class. -/
structure MethodRecord where
  id : String
  classId : String
  name : String
  description : Option String
  businessLogic : List String
  exceptions : List String
  httpMethod : Option String
  httpPath : Option String
  lineNumber : Option Int
  deriving Repr, DecidableEq, Inhabited

/-- A stored link from a parameter of a class's method to another class. -/
structure LinkRecord where
  classId : String
  methodName : String
  position : Int
  targetId : String
  deriving Repr, DecidableEq, Inhabited

/-- The method that a record stores. -/
def MethodRecord.method (r : MethodRecord) : Method :=
  ⟨r.name, r.description, r.businessLogic, r.exceptions, r.httpMethod, r.httpPath, r.lineNumber⟩

/-- The record of a method under an id. -/
def MethodRecord.ofMethod (id classId : String) (m : Method) : MethodRecord :=
  ⟨id, classId, m.name, m.description, m.businessLogic, m.exceptions, m.httpMethod, m.httpPath,
    m.lineNumber⟩

/-- Storing a method loses nothing. -/
theorem MethodRecord.method_ofMethod (id classId : String) (m : Method) :
    (MethodRecord.ofMethod id classId m).method = m := rfl

/-!
## The record store

Classes, their methods and their links, each in the order in which they came. Method rows
need a stored class. Deleting classes also deletes their methods, their links and all links
that point at them. A write happens in full or, if it is refused, not at all.
-/

/-- The stored records. -/
structure RecordStore where
  classes : Dict String ClassRecord
  /-- The methods of each class by their ids. -/
  methods : Dict String (Dict String MethodRecord)
  /-- The links that each class owns. -/
  links : Dict String (List LinkRecord)
  deriving Inhabited

/-- A change to the store. -/
inductive StoreWrite where
  | saveClasses (records : List ClassRecord)
  | saveMethods (records : List MethodRecord)
  | saveLinks (records : List LinkRecord)
  | deleteClasses (ids : List String)
  | deleteMethodsAndLinks (ids : List String)
  deriving Repr, DecidableEq

namespace RecordStore

/-- The store without records. -/
def empty : RecordStore := ⟨.empty, .empty, .empty⟩

/-- The class records of a project. -/
def findByProject (s : RecordStore) (project : String) : List ClassRecord :=
  s.classes.values.filter fun r => r.project = project

/-- One class record. -/
def getClass? (s : RecordStore) (id : String) : Option ClassRecord := s.classes.get? id

/-- The method records of a class. -/
def methodsFor (s : RecordStore) (id : String) : List MethodRecord :=
  (s.methods.getD id .empty).values

/-- The links that a class owns. -/
def linksFor (s : RecordStore) (id : String) : List LinkRecord := s.links.getD id []

/-- Inserts or replaces one class record. -/
def putClass (s : RecordStore) (r : ClassRecord) : RecordStore :=
  { s with classes := s.classes.insert r.id r }

/-- Inserts or replaces one method record under its class. -/
def putMethod (s : RecordStore) (r : MethodRecord) : RecordStore :=
  { s with
    methods := s.methods.insert r.classId ((s.methods.getD r.classId .empty).insert r.id r) }

/-- Adds one link, unless its class owns it already. -/
def putLink (s : RecordStore) (r : LinkRecord) : RecordStore :=
  { s with links := s.links.insert r.classId (appendNew (s.linksFor r.classId) r) }

/-- Inserts or replaces class records. -/
def saveClasses (s : RecordStore) (rs : List ClassRecord) : RecordStore := rs.foldl putClass s

/-- The classes of method records that are not stored. -/
def unknownClasses (s : RecordStore) (rs : List MethodRecord) : List String :=
  (rs.map (·.classId)).filter fun id => !s.classes.contains id

/-- Inserts or replaces method records, all of whose classes must be stored. -/
def saveMethods (s : RecordStore) (rs : List MethodRecord) : Outcome RecordStore :=
  match s.unknownClasses rs with
  | [] => .ok (rs.foldl putMethod s)
  | unknown => .error (.unknownClasses (Text.sortedSet unknown))

/-- Adds links that are not there yet. -/
def saveLinks (s : RecordStore) (rs : List LinkRecord) : RecordStore := rs.foldl putLink s

/-- Removes the methods and the owned links of classes. -/
def deleteMethodsAndLinks (s : RecordStore) (ids : List String) : RecordStore :=
  { s with
    methods := s.methods.filter fun id _ => !ids.contains id
    links := s.links.filter fun id _ => !ids.contains id }

/-- Removes classes, their methods, their links and the links that point at them. -/
def deleteClasses (s : RecordStore) (ids : List String) : RecordStore :=
  let s := s.deleteMethodsAndLinks ids
  { s with
    classes := s.classes.filter fun id _ => !ids.contains id
    links := s.links.mapValues fun _ ls => ls.filter fun l => !ids.contains l.targetId }

/-- Makes one change, in full or not at all. -/
def write (s : RecordStore) : StoreWrite → Outcome RecordStore
  | .saveClasses rs => .ok (s.saveClasses rs)
  | .saveMethods rs => s.saveMethods rs
  | .saveLinks rs => .ok (s.saveLinks rs)
  | .deleteClasses ids => .ok (s.deleteClasses ids)
  | .deleteMethodsAndLinks ids => .ok (s.deleteMethodsAndLinks ids)

/-- Method rows are refused exactly when some class is unknown. -/
theorem saveMethods_isOk_iff (s : RecordStore) (rs : List MethodRecord) :
    (∃ t, s.saveMethods rs = .ok t) ↔ ∀ r ∈ rs, s.classes.contains r.classId = true := by
  have hnil : s.unknownClasses rs = [] ↔ ∀ r ∈ rs, s.classes.contains r.classId = true := by
    simp [unknownClasses, List.filter_eq_nil_iff]
  rw [← hnil]
  unfold saveMethods
  cases s.unknownClasses rs with
  | nil => simp
  | cons a as => simp

end RecordStore

end CodeAtlas
