import CodeAtlas.Workspace

/-!
# The console

What commands print and the lines with which their questions are answered. A session is a
command at work: it may end early with an exit code, and what it printed stays printed however
it ends.
-/

namespace CodeAtlas.CommandLine

/-- What has been printed and the lines of input that are still to be read. -/
structure Console where
  /-- What is shown of a text with markup; some markup is refused. -/
  render : String → Outcome String
  output : String
  input : List String
  deriving Inhabited

/-- A command at work. -/
abbrev Session := ExceptT Nat (Run Console)

/-- The workspace of commands that has files and no programs. -/
def onFiles (render : String → Outcome String) (files : FileTree) : Workspace Console :=
  { files, vanishing := [], records := .ofStore .empty, registry := .empty,
    examiner := ⟨.empty, none⟩, syncing := [], collaborators := ⟨render, "", []⟩ }

namespace Session

variable {α : Type}

/-- Ends with an exit code. -/
def leave (code : Nat) : Session α := throw code

/-- Prints a text as it is. -/
def write (text : String) : Session Unit :=
  modify fun w => { w with
    collaborators := { w.collaborators with output := w.collaborators.output ++ text } }

/-- Prints a line as it is. -/
def writeLine (text : String) : Session Unit := write (text ++ "\n")

/-- The run with an outcome. -/
def ofOutcome (o : Outcome α) : Session α := ExceptT.lift (Run.ofOutcome o)

/-- Prints a line with markup. -/
def print (text : String) : Session Unit := do
  let render := (← get).collaborators.render
  writeLine (← ofOutcome (render text))

/-- Prints lines with markup. -/
def printAll (lines : List String) : Session Unit := lines.forM print

/-- Prints an error and ends. -/
def fail (text : String) : Session α := do
  print ("[red]Error:[/red] " ++ text)
  leave 1

/-- The next line of input, if there is one. -/
def readLine? : Session (Option String) := do
  let w ← get
  match w.collaborators.input with
  | [] => return none
  | line :: rest =>
    set { w with collaborators := { w.collaborators with input := rest } }
    return some line

/-- Runs a computation and then another one, however the first ends. -/
def andThen (x : Session α) (later : Session Unit) : Session α :=
  ExceptT.mk do
    match ← Run.attempt x.run with
    | .ok result =>
      let _ ← later.run
      return result
    | .error f =>
      let _ ← later.run
      throw f

/-- The outcome of a run, a failure being kept as a value. -/
def attempt (x : Run Console α) : Session (Outcome α) := ExceptT.lift (Run.attempt x)

/-- The files as they are now. -/
def files : Session FileTree := ExceptT.lift Run.files

end Session

end CodeAtlas.CommandLine
