import CodeAtlas.Record.Store
import CodeAtlas.Json.Printer
import CodeAtlas.Json.Reader
import CodeAtlas.Graph.Document

/-!
# Record documents

The JSON form of the record store: three lists of flat records. Reading demands the fields
that have no default and refuses fields that are not known; it does not check that methods
and links refer to stored classes.
-/

namespace CodeAtlas

/-- The written class record. -/
def ClassRecord.toJson (r : ClassRecord) : Json :=
  .object [("id", .string r.id), ("project", .string r.project),
    ("identifier", .string r.identifier), ("source_file", .string r.sourceFile),
    ("kind", .string r.kind.name), ("description", Json.ofOption .string r.description),
    ("commit_hash", Json.ofOption .string r.commit)]

/-- The written method record. -/
def MethodRecord.toJson (r : MethodRecord) : Json :=
  .object [("id", .string r.id), ("class_id", .string r.classId), ("name", .string r.name),
    ("description", Json.ofOption .string r.description),
    ("business_logic", Json.ofStrings r.businessLogic), ("exceptions", Json.ofStrings r.exceptions),
    ("http_method", Json.ofOption .string r.httpMethod),
    ("http_path", Json.ofOption .string r.httpPath),
    ("line_number", Json.ofOption .int r.lineNumber)]

/-- The written link record. -/
def LinkRecord.toJson (r : LinkRecord) : Json :=
  .object [("class_id", .string r.classId), ("method_name", .string r.methodName),
    ("position", .int r.position), ("target_class_id", .string r.targetId)]

namespace RecordStore

/-- The fields of a record of which the required ones are there and no other than known ones. -/
def checkFields (needed known : List String) (fields : List (String × Json)) : Outcome Unit :=
  if needed.all (fun n => (Dict.lookup n fields).isSome) && fields.all fun f => known.contains f.1
  then .ok ()
  else .error .wrongType

/-- A text field that has passed the check. -/
def textField (fields : List (String × Json)) (name : String) : Outcome String :=
  match Dict.lookup name fields with
  | some v => v.asString
  | none => .error .wrongType

/-- Reads a class record; a missing kind is `other`. -/
def readClass (v : Json) : Outcome ClassRecord := do
  let fields := (← v.asPairs).entries
  let kind ← Kind.ofField (Dict.lookup "kind" fields)
  checkFields ["id", "project", "identifier", "source_file"]
    ["id", "project", "identifier", "source_file", "kind", "description", "commit_hash"] fields
  return ⟨← textField fields "id", ← textField fields "project", ← textField fields "identifier",
    ← textField fields "source_file", kind, ← Json.asString? (Dict.lookup "description" fields),
    ← Json.asString? (Dict.lookup "commit_hash" fields)⟩

/-- The fields of a record that must be written as an object. -/
def objectFields : Json → Outcome (List (String × Json))
  | .object fields => .ok fields
  | _ => .error .wrongType

/-- Reads a method record. -/
def readMethod (v : Json) : Outcome MethodRecord := do
  let fields ← objectFields v
  checkFields ["id", "class_id", "name"]
    ["id", "class_id", "name", "description", "business_logic", "exceptions", "http_method",
      "http_path", "line_number"] fields
  return ⟨← textField fields "id", ← textField fields "class_id", ← textField fields "name",
    ← Json.asString? (Dict.lookup "description" fields),
    ← Json.asStrings (Dict.lookup "business_logic" fields),
    ← Json.asStrings (Dict.lookup "exceptions" fields),
    ← Json.asString? (Dict.lookup "http_method" fields),
    ← Json.asString? (Dict.lookup "http_path" fields),
    ← Json.asInt? (Dict.lookup "line_number" fields)⟩

/-- Reads a link record. -/
def readLink (v : Json) : Outcome LinkRecord := do
  let _ ← v.required "class_id"
  let fields ← objectFields v
  checkFields ["class_id", "method_name", "position", "target_class_id"]
    ["class_id", "method_name", "position", "target_class_id"] fields
  return ⟨← textField fields "class_id", ← textField fields "method_name",
    ← (← v.required "position").asInt, ← textField fields "target_class_id"⟩

/-- Adds a link as it was written, repetitions included. -/
def appendLink (s : RecordStore) (r : LinkRecord) : RecordStore :=
  { s with links := s.links.insert r.classId (s.linksFor r.classId ++ [r]) }

/-- The items of a list that may be missing. -/
def listField (v : Json) (name : String) : Outcome (List Json) := do
  match ← v.optional name with
  | some list => list.elements
  | none => return []

/-- The written store. -/
def toJson (s : RecordStore) : Json :=
  .object [("classes", .array (s.classes.values.map ClassRecord.toJson)),
    ("methods", .array (s.methods.values.flatMap fun ms => ms.values.map MethodRecord.toJson)),
    ("links", .array (s.links.values.flatMap fun ls => ls.map LinkRecord.toJson))]

/-- The text of the store's file. -/
def toText (s : RecordStore) : String := s.toJson.pretty ++ "\n"

/-- The store that a document describes. -/
def ofJson (v : Json) : Outcome RecordStore := do
  let s ← (← listField v "classes").foldlM (fun s c => do return putClass s (← readClass c)) empty
  let s ← (← listField v "methods").foldlM (fun s m => do return putMethod s (← readMethod m)) s
  (← listField v "links").foldlM (fun s l => do return appendLink s (← readLink l)) s

/-- The store that a file's text describes; without a file the store is empty. -/
def ofText? : Option String → Outcome RecordStore
  | some s => do ofJson (← Json.read s)
  | none => .ok empty

end RecordStore

end CodeAtlas
