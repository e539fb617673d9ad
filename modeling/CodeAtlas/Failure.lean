import CodeAtlas.Text.Decoding
import CodeAtlas.Text.Quoted

/-!
# Failures

Why the file system refuses an operation, with the paths concerned, and every other way in which
an operation can fail.
-/

namespace CodeAtlas

/-- Why the file system refuses an operation. -/
inductive FileErrorKind where
  | notFound
  | exists
  | notADirectory
  | isADirectory
  deriving Repr, DecidableEq, Inhabited

/-- A refused operation with the path or paths that it names. -/
structure FileError where
  kind : FileErrorKind
  path : String
  target : Option String
  deriving Repr, DecidableEq, Inhabited

namespace FileErrorKind

/-- The number of an error and its wording. -/
def text : FileErrorKind → String
  | .notFound => "[Errno 2] No such file or directory"
  | .exists => "[Errno 17] File exists"
  | .notADirectory => "[Errno 20] Not a directory"
  | .isADirectory => "[Errno 21] Is a directory"

end FileErrorKind

/-- The wording of a refused operation. -/
def FileError.message (e : FileError) : String :=
  e.kind.text ++ ": " ++ Text.quoted e.path ++
    match e.target with
    | some t => " -> " ++ Text.quoted t
    | none => ""

/-!
## Causes and their wording

Every way in which an operation can fail, named by its cause. The wording that a caller
sees is in one function; a failure without wording of its own is told by its cause alone.
-/

/-- The codes under which failures of the domain are reported. -/
inductive ErrorKind where
  | projectNotFound
  | classNotFound
  | methodNotFound
  | invalidQuery
  | parseFailure
  | syncAnomaly
  | persistenceFailure
  | enrichmentFailure
  | syncFailed
  deriving Repr, DecidableEq, Inhabited

namespace ErrorKind

/-- Every code. -/
def all : List ErrorKind :=
  [.projectNotFound, .classNotFound, .methodNotFound, .invalidQuery, .parseFailure, .syncAnomaly,
    .persistenceFailure, .enrichmentFailure, .syncFailed]

/-- The written form of a code. -/
def code : ErrorKind → String
  | .projectNotFound => "PROJECT_NOT_FOUND"
  | .classNotFound => "CLASS_NOT_FOUND"
  | .methodNotFound => "METHOD_NOT_FOUND"
  | .invalidQuery => "INVALID_QUERY"
  | .parseFailure => "PARSE_FAILURE"
  | .syncAnomaly => "SYNC_ANOMALY"
  | .persistenceFailure => "PERSISTENCE_FAILURE"
  | .enrichmentFailure => "ENRICHMENT_FAILURE"
  | .syncFailed => "SYNC_FAILED"

/-- The code with a given written form. -/
def ofCode? (s : String) : Option ErrorKind := all.find? (·.code == s)

/-- Whether the code says that something asked for does not exist. -/
def isNotFound : ErrorKind → Bool
  | .projectNotFound | .classNotFound | .methodNotFound => true
  | _ => false

/-- Reading a written code gives the code back. -/
theorem ofCode?_code (k : ErrorKind) : ofCode? k.code = some k := by
  cases k <;> decide

end ErrorKind

/-- Why an operation failed. -/
inductive Failure where
  /-- A failure of the domain, with its code and wording. -/
  | reported (kind : ErrorKind) (text : String)
  /-- A source file that cannot be read. -/
  | unreadableSource (path : String)
  /-- A source file whose analysis failed, with the reason. -/
  | unparsableSource (path reason : String)
  /-- A record lacks a field that must be there. -/
  | missingField (name : String)
  /-- Method rows name classes that are not stored. -/
  | unknownClasses (ids : List String)
  /-- A value has a kind on which the operation does not exist. -/
  | wrongType
  /-- Items were asked of a value that has none; the sort of the value. -/
  | notIterable (found : String)
  /-- Fields were asked of a value that is not a record: the sort of the value and the way in
  which it was asked. -/
  | notARecord (found asked : String)
  /-- A text is not a document at all. -/
  | malformedDocument
  /-- A document has too much within each other; the sort of what is opened too deep. -/
  | nestedTooDeeply (opened : String)
  /-- A value is outside its range, with wording if there is any. -/
  | invalidValue (text : Option String)
  /-- A collaborator or a step gave up with a wording of its own. -/
  | interrupted (text : String)
  /-- A program or file does not exist. -/
  | fileNotFound
  /-- A program did not answer in time. -/
  | timedOut
  /-- A position beyond the end of a list. -/
  | outOfRange
  /-- A file's bytes are not text. -/
  | undecodable (fault : Text.DecodingFault)
  /-- An ignore pattern that has no meaning. -/
  | malformedPattern (line : String)
  /-- A range of characters in an ignore pattern that runs backwards. -/
  | backwardRange
  /-- A command that cannot be split into words. -/
  | malformedCommand (text : String)
  /-- A text whose markup does not fit together. -/
  | malformedMarkup
  /-- The file system refuses an operation. -/
  | fileRefused (e : FileError)
  deriving Repr, DecidableEq, Inhabited

namespace Failure

/-- The wording of a failure, where it has one. -/
def message? : Failure → Option String
  | .reported _ text => some text
  | .unreadableSource _ => none
  | .unparsableSource path reason => some ("Failed to parse " ++ path ++ ": " ++ reason)
  | .missingField name => some name
  | .unknownClasses ids =>
    some ("Methods reference unknown classes: " ++ Text.quotedList ids)
  | .invalidValue text => text
  | .interrupted text => some text
  | .wrongType | .notIterable _ | .notARecord .. | .malformedDocument | .nestedTooDeeply _
  | .fileNotFound | .timedOut | .outOfRange | .undecodable _ | .malformedPattern _ | .backwardRange
  | .malformedCommand _ | .malformedMarkup | .fileRefused _ => none

/-- The wording of a fault of encoded text. -/
def decodingText (f : Text.DecodingFault) : String :=
  let reason := match f.reason with
    | .invalidStart => "invalid start byte"
    | .invalidContinuation => "invalid continuation byte"
    | .unexpectedEnd => "unexpected end of data"
  let place :=
    if f.length = 1 then
      "byte 0x" ++ String.ofList (Text.hexPadded 2 f.byte.toNat) ++ " in position " ++
        toString f.position
    else
      "bytes in position " ++ toString f.position ++ "-" ++ toString (f.position + f.length - 1)
  "'utf-8' codec can't decode " ++ place ++ ": " ++ reason

/-- The text of a failure in reports and logs. Failures of the domain show their code, missing
names are quoted, and a failure without any wording has an empty text. -/
def text : Failure → String
  | .reported kind text => "[" ++ kind.code ++ "] " ++ text
  | .unparsableSource path reason =>
    "[" ++ ErrorKind.parseFailure.code ++ "] Failed to parse " ++ path ++ ": " ++ reason
  | .missingField name => Text.quoted name
  | .unknownClasses ids =>
    Text.quoted ("Methods reference unknown classes: " ++ Text.quotedList ids)
  | .fileRefused e => e.message
  | .malformedCommand text => text
  | .notIterable found => "'" ++ found ++ "' object is not iterable"
  | .notARecord found asked => "'" ++ found ++ "' object has no attribute '" ++ asked ++ "'"
  | .nestedTooDeeply opened =>
    "maximum recursion depth exceeded while decoding a JSON " ++ opened ++ " from a unicode string"
  | .undecodable fault => decodingText fault
  | .malformedPattern line => "Invalid git pattern: " ++ Text.quoted line
  | f => f.message?.getD ""

end Failure

/-- The result of an operation that can fail. -/
abbrev Outcome (α : Type) := Except Failure α

namespace Outcome

variable {α β : Type}

/-- A sequence succeeds exactly if both of its steps do. -/
theorem bind_eq_ok {x : Outcome α} {f : α → Outcome β} {b : β} :
    (x >>= f) = .ok b ↔ ∃ a, x = .ok a ∧ f a = .ok b := by
  cases x with
  | ok a =>
    constructor
    · exact fun h => ⟨a, rfl, h⟩
    · rintro ⟨_, ha, h⟩
      cases ha
      exact h
  | error e =>
    constructor
    · intro h
      cases h
    · rintro ⟨_, ha, _⟩
      cases ha

/-- What every step of a fold keeps, a fold that succeeds keeps. -/
theorem foldlM_keeps {P : β → Prop} {f : β → α → Outcome β} {xs : List α}
    (hstep : ∀ b, ∀ a ∈ xs, ∀ c, P b → f b a = .ok c → P c) {b c : β} (hb : P b)
    (hfold : xs.foldlM f b = .ok c) : P c := by
  induction xs generalizing b with
  | nil =>
    cases hfold
    exact hb
  | cons x rest ih =>
    rw [List.foldlM_cons] at hfold
    obtain ⟨d, hd, hrest⟩ := bind_eq_ok.1 hfold
    exact ih (fun b a ha => hstep b a (List.mem_cons_of_mem _ ha))
      (hstep b x List.mem_cons_self d hb hd) hrest

/-- A fold over written items simulates a fold over what was written, if every step does so and
keeps what the next one needs. -/
theorem foldlM_simulates {γ δ : Type} {f : β → γ → Outcome β} {w : α → γ} {v : β → δ}
    {s : δ → α → δ} {Q : β → Prop} {l : List α}
    (hstep : ∀ b, Q b → ∀ a ∈ l, ∃ c, f b (w a) = .ok c ∧ v c = s (v b) a ∧ Q c)
    {b : β} (hb : Q b) :
    ∃ c, (l.map w).foldlM f b = .ok c ∧ v c = l.foldl s (v b) ∧ Q c := by
  induction l generalizing b with
  | nil => exact ⟨b, rfl, rfl, hb⟩
  | cons x rest ih =>
    obtain ⟨c, hc, hview, hkept⟩ := hstep b hb x List.mem_cons_self
    obtain ⟨d, hd, hlater, hlast⟩ :=
      ih (fun b hb a ha => hstep b hb a (List.mem_cons_of_mem _ ha)) hkept
    refine ⟨d, ?_, by rw [hlater, hview]; rfl, hlast⟩
    rw [List.map_cons, List.foldlM_cons, hc]
    exact hd

/-- What went through a list without failing came from its items. -/
theorem exists_of_mapM_eq_ok {f : α → Outcome β} {xs : List α} {ys : List β}
    (h : xs.mapM f = .ok ys) : ∀ y ∈ ys, ∃ x ∈ xs, f x = .ok y := by
  induction xs generalizing ys with
  | nil =>
    cases h
    exact nofun
  | cons x rest ih =>
    rw [List.mapM_cons] at h
    obtain ⟨z, hz, h⟩ := bind_eq_ok.1 h
    obtain ⟨zs, hzs, h⟩ := bind_eq_ok.1 h
    cases h
    refine List.forall_mem_cons.2 ⟨⟨x, List.mem_cons_self, hz⟩, fun y hy => ?_⟩
    obtain ⟨w, hw, hwy⟩ := ih hzs y hy
    exact ⟨w, List.mem_cons_of_mem _ hw, hwy⟩

/-- A fold over written items whose every step succeeds is a fold over what was written. -/
theorem foldlM_map {γ : Type} {f : β → γ → Outcome β} {write : α → γ} {step : β → α → β}
    (hstep : ∀ b a, f b (write a) = .ok (step b a)) (xs : List α) (b : β) :
    (xs.map write).foldlM f b = .ok (xs.foldl step b) := by
  induction xs generalizing b with
  | nil => rfl
  | cons x rest ih =>
    rw [List.map_cons, List.foldlM_cons, hstep, List.foldl_cons, ← ih]
    rfl

end Outcome

end CodeAtlas
