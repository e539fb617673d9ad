import CodeAtlas.Json.Reader
import CodeAtlas.Json.Printer
import CodeAtlas.Process.Host
import CodeAtlas.Source.File
import CodeAtlas.Source.ModuleAnalysis
import CodeAtlas.Text.Pieces

/-!
# Analyzers that run as programs

An analyzer gets one request per line and answers each by one line, an analysis or an error.
It is started by the first request and ended with the session. In a session every file is
analyzed once, unless its analysis fails; outside of one each analysis has a process of its own.
-/

namespace CodeAtlas

/-- A span of work in which one analyzer runs and analyses are kept. -/
structure AnalyzerSession where
  running : Option AnalyzerProcess
  /-- The analyses that succeeded, by resolved path. -/
  analyses : Dict Path ModuleAnalysis
  deriving Inhabited

/-- What examining files reads and changes besides the files. -/
structure ExaminerState where
  host : ProcessHost
  session : Option AnalyzerSession
  deriving Inhabited

/-- A computation that may use programs of the host. What it did to them stays done when it
fails later. -/
abbrev Examining := ExceptT Failure (StateM ExaminerState)

/-- The computation that has a given outcome and uses no programs. -/
def Examining.ofOutcome {α : Type} (o : Outcome α) : Examining α := ExceptT.mk (pure o)

/-- The outcome of a computation, a failure being kept as a value. -/
def Examining.attempt {α : Type} (x : Examining α) : Examining (Outcome α) :=
  ExceptT.mk (x.run >>= fun o => pure (.ok o))

/-- A command that has at least the name of a program. -/
def checkedAnalyzer (command : List String) : Outcome (List String) :=
  if command.isEmpty then .error (.invalidValue (some "Analyzer command must not be empty"))
  else .ok command

/-- What an analyzer is asked about a module. -/
structure AnalyzerRequest where
  content : String
  path : String
  framework : String
  deriving Repr, Inhabited

namespace AnalyzerRequest

/-- The written request. -/
def toJson (r : AnalyzerRequest) : Json :=
  .object [("content", .string r.content), ("filePath", .string r.path),
    ("frameworkName", .string r.framework)]

/-- The reason that a response gives for having no analysis. An object has it in a field; a
list or text that holds the field's name is no response at all. -/
def responseError? (response : Json) : Outcome (Option String) :=
  match response with
  | .object fields => .ok ((Dict.lookup "error" fields).map Json.shown)
  | .array items =>
    if items.any fun v => v.same (.string "error") then .error .wrongType else .ok none
  | .string s => if Text.occursIn "error" s then .error .wrongType else .ok none
  | _ => .error .wrongType

/-- The analysis that a line of an analyzer's output holds. -/
def readLine (r : AnalyzerRequest) (line : String) : Outcome ModuleAnalysis :=
  if line.isEmpty then .error (.unparsableSource r.path "analyzer process closed its output")
  else
    match Json.read line with
    | .error _ => .error (.unparsableSource r.path "invalid analyzer response")
    | .ok response => do
      match ← responseError? response with
      | some reason => throw (.unparsableSource r.path reason)
      | none => ModuleAnalysis.ofJson response

end AnalyzerRequest

namespace AnalyzerSession

/-- The session in which nothing was asked yet. -/
def fresh : AnalyzerSession := ⟨none, .empty⟩

/-- The running process, started if there is none or the last one has ended. -/
def ensureRunning (command : List String) (running : Option AnalyzerProcess) (h : ProcessHost) :
    AnalyzerProcess × ProcessHost :=
  match running with
  | some p => if p.hasExited then h.startAnalyzer command else (p, h)
  | none => h.startAnalyzer command

/-- One request and its answer, with the process and the host afterwards. -/
def exchange (command : List String) (running : Option AnalyzerProcess) (h : ProcessHost)
    (r : AnalyzerRequest) : Outcome ModuleAnalysis × AnalyzerProcess × ProcessHost :=
  let (p, h) := ensureRunning command running h
  if p.broken then
    (.error (.unparsableSource r.path "analyzer process failed: Broken pipe"), p, h)
  else
    (r.readLine (p.lines.head?.getD ""), { p with lines := p.lines.drop 1 },
      h.record (.request r.toJson))

/-- The host after the session's process has been ended. -/
def finish (running : Option AnalyzerProcess) (h : ProcessHost) : ProcessHost :=
  match running with
  | some p => h.endAnalyzer p
  | none => h

end AnalyzerSession

namespace Examining

/-- Sends a request, to the session's process or to one of its own. -/
def ask (command : List String) (r : AnalyzerRequest) : Examining ModuleAnalysis :=
  ExceptT.mk fun s =>
    let (result, p, h) :=
      AnalyzerSession.exchange command (s.session.bind (·.running)) s.host r
    match s.session with
    | some session => (result, ⟨h, some { session with running := some p }⟩)
    | none => (result, ⟨h.endAnalyzer p, none⟩)

/-- The analysis kept for a file, or else a computed one, which is kept if it succeeds. -/
def kept (file : Path) (compute : Examining ModuleAnalysis) : Examining ModuleAnalysis := do
  match (← get).session.bind fun session => session.analyses.get? file with
  | some a => return a
  | none =>
    let a ← compute
    modify fun s => { s with
      session := s.session.map fun session =>
        { session with analyses := session.analyses.insert file a } }
    return a

/-- Runs a computation in a session, a new one unless there is one already. A new session ends
with the computation, whether it fails or not. -/
def inSession {α : Type} (x : Examining α) : Examining α :=
  ExceptT.mk fun s =>
    match s.session with
    | some _ => x.run s
    | none =>
      let (result, s) := x.run { s with session := some .fresh }
      (result, ⟨AnalyzerSession.finish (s.session.bind (·.running)) s.host, none⟩)

end Examining

end CodeAtlas
