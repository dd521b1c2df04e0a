import SyscallTrace.Catalog.Toml
import SyscallTrace.Command.Request
import SyscallTrace.Config.Toml
import SyscallTrace.File
import SyscallTrace.Record.Json
import SyscallTrace.Trace

/-!
# Command-line runs

A run reads a configuration, a catalog and a trace, in this order, and stops at the first that
fails. It writes the records as JSON or the summary of the trace, and then a warning for each
diagnostic. `Command.run` is a function of the files it may read, which `Request.paths` lists.
-/

namespace SyscallTrace.Command

/-- What a run leaves behind: the exit code, and the lines of both outputs. -/
structure Report where
  exit : Nat
  output : List Text := []
  errors : List Text := []
  deriving DecidableEq

/-- An error and the errors underneath it, from the outermost to the innermost. -/
structure Failure where
  message : Text
  causes : List Text := []

/-- The place of the configuration if the command line names none. -/
def defaultConfigPath : Text := ".config/traceparse.toml".toList

/-- The files that a request may read. -/
def Request.paths : Request → List Text
  | .parse o => [o.config.getD defaultConfigPath, o.catalog, o.trace]
  | _ => []

/-- The wording for a file that is no TOML document of the expected shape. -/
def tomlFailure : Text := "TOML parse error".toList

/-- Loads the configuration. Only one that the command line names has to exist. -/
def loadConfig (named : Option Text) (file : FileText) : Except Failure Config :=
  match file, named with
  | .ok t, _ => (Config.ofToml? t).elim (.error ⟨tomlFailure, []⟩) .ok
  | .error .notFound, none => .ok {}
  | .error .notFound, some path =>
    .error ⟨"override config path ".toList ++ path.quote ++
      " could not be opened".toList, []⟩
  | .error e, _ => .error ⟨e.message, []⟩

/-- Loads the catalog. -/
def loadCatalog (path : Text) (file : FileText) : Except Failure Catalog :=
  match file with
  | .error e =>
    .error ⟨"failed to read syscall catalog ".toList ++ path.quote, [e.message]⟩
  | .ok t =>
    (Catalog.ofToml? t).elim
      (.error ⟨"failed to parse syscall catalog ".toList ++ path.quote, [tomlFailure]⟩) .ok

/-- Loads the trace. -/
def loadTrace (path : Text) (file : FileText) (catalog : Catalog) (config : Config) :
    Except Failure Trace :=
  (Trace.ofFile path file catalog config).mapError fun e =>
    ⟨"failed to parse trace ".toList ++ path.quote, e.message :: e.cause?.toList⟩

/-- Loads the trace that the options ask for. -/
def load (o : Options) (read : Text → FileText) : Except Failure Trace := do
  let config ← loadConfig o.config (read (o.config.getD defaultConfigPath))
  let catalog ← loadCatalog o.catalog (read o.catalog)
  loadTrace o.trace (read o.trace) catalog config

namespace Failure

/-- The lines on causes, numbered if there are several. -/
def causeLines : List Text → List Text
  | [] => []
  | [cause] => [[], "Caused by:".toList, "    ".toList ++ cause]
  | causes =>
    [[], "Caused by:".toList] ++ causes.zipIdx.map fun c =>
      "    ".toList ++ Decimal.ofNat c.2 ++ ": ".toList ++ c.1

/-- The lines that report a failure. -/
def lines (f : Failure) : List Text :=
  ("[ERROR] error occurred parsing trace: ".toList ++ f.message) :: causeLines f.causes

end Failure

/-- The warnings on the diagnostics of a trace. -/
def warnings (t : Trace) : List Text :=
  t.diagnostics.map fun d => "[WARN] ".toList ++ d.text

/-- Parses as the options ask for. Being quiet leaves out warnings, being very quiet errors too. -/
def parse (o : Options) (read : Text → FileText) : Report :=
  match load o read with
  | .error f => { exit := 1, errors := if o.quiet ≤ 1 then f.lines else [] }
  | .ok t =>
    let body := if o.summary then t.summary else recordLines t.records
    { exit := 0, output := body ++ if o.quiet = 0 then warnings t else [] }

/-- The name of the command and its version. -/
def versionLine : Text := "traceparse 0.1.0".toList

/-- Answers a request. -/
def run (r : Request) (read : Text → FileText) : Report :=
  match r with
  | .parse o => parse o read
  | .version => { exit := 0, output := [versionLine] }
  | .help => { exit := 0 }
  | .misuse => { exit := 2 }

end SyscallTrace.Command
