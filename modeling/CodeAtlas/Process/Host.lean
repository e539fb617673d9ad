import CodeAtlas.Json.Basic

/-!
# Programs of the host

Programs that do part of the work: version control, enrichers and analyzers. A host says how
each run of them goes and keeps a log of all that was asked of it. Analyzers stay running and
answer line by line; the other programs run to their end.
-/

namespace CodeAtlas

/-- How a run of a program to its end goes. -/
inductive ProgramResult where
  /-- There is no such program. -/
  | missing
  /-- The program does not end in time. -/
  | timedOut
  | finished (output errors : String) (code : Int)
  deriving Repr, DecidableEq, Inhabited

/-- A program that answers line by line. -/
structure AnalyzerProcess where
  /-- The lines that it is still going to write. -/
  lines : List String
  /-- Whether nothing can be written to it. -/
  broken : Bool
  /-- Whether it ends after its last line. -/
  exits : Bool
  /-- Whether it does not end when its input ends. -/
  hangs : Bool
  deriving Repr, DecidableEq, Inhabited

/-- What is asked of programs. -/
inductive ProcessEvent where
  /-- A run of version control. -/
  | versionControl (arguments : List String)
  /-- A run of an enricher with its input. -/
  | enricher (command : List String) (input : Json)
  /-- The start of an analyzer. -/
  | start (command : List String)
  /-- A request to an analyzer. -/
  | request (document : Json)
  /-- An analyzer is ended by force. -/
  | kill
  /-- An analyzer's end is waited for. -/
  | wait
  deriving Repr, Inhabited

/-- The programs of a host and the log of their use. -/
structure ProcessHost where
  /-- The runs of version control, by their arguments. -/
  versionControlRuns : List (List String × ProgramResult)
  /-- How enrichers run. -/
  enricherRun : ProgramResult
  /-- The analyzers in the order in which they will be started. -/
  analyzers : List AnalyzerProcess
  log : List ProcessEvent
  deriving Repr, Inhabited

/-- A computation that uses programs of the host. -/
abbrev HostRun := ExceptT Failure (StateM ProcessHost)

namespace AnalyzerProcess

/-- A process that writes nothing. -/
def silent : AnalyzerProcess := ⟨[], false, false, false⟩

/-- Whether the process has ended by itself. -/
def hasExited (p : AnalyzerProcess) : Bool := p.exits && p.lines.isEmpty

end AnalyzerProcess

namespace ProcessHost

/-- The host without programs. -/
def empty : ProcessHost := ⟨[], .missing, [], []⟩

/-- The host with one more event in its log. -/
def record (h : ProcessHost) (e : ProcessEvent) : ProcessHost := { h with log := h.log ++ [e] }

/-- Runs version control. -/
def runVersionControl (h : ProcessHost) (arguments : List String) : ProgramResult × ProcessHost :=
  let result := match h.versionControlRuns.find? fun r => r.1 == arguments with
    | some (_, result) => result
    | none => .finished "" "fatal: not a git repository\n" 128
  (result, h.record (.versionControl arguments))

/-- Starts an analyzer. -/
def startAnalyzer (h : ProcessHost) (command : List String) : AnalyzerProcess × ProcessHost :=
  (h.analyzers.head?.getD .silent,
    { h with analyzers := h.analyzers.drop 1 }.record (.start command))

/-- Ends an analyzer: by force if it does not end by itself. -/
def endAnalyzer (h : ProcessHost) (p : AnalyzerProcess) : ProcessHost :=
  if p.hangs then (h.record .kill).record .wait else h.record .wait

end ProcessHost

end CodeAtlas
