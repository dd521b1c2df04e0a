import SyscallTrace.File
import SyscallTrace.Session

/-!
# Traces

A parsed trace: its path, the columns found on its lines, the catalog it was parsed with, its
records and its diagnostics. Records are in the order in which their calls completed; a call that
never resumed stands at the place of its unfinished line.
-/

namespace SyscallTrace

structure Trace where
  path : Text
  columns : Columns
  catalog : Catalog
  records : List Record
  diagnostics : List Diagnostic

namespace Trace

/-- The columns of the trace, read off the first line with a whole call. -/
def detectColumns (config : Config) (contents : Text) : Except TraceError Columns :=
  match contents.lines.find? isCallLine with
  | none => .error (.format [] .noCalls)
  | some line => Columns.detect config line

/-- Parses the contents of a trace. -/
def ofText (path contents : Text) (catalog : Catalog) (config : Config) :
    Except TraceError Trace := do
  let columns ← detectColumns config contents
  let setting : Setting := ⟨catalog, columns⟩
  let session ← Session.run setting {} (contents.lines.zipIdx 1)
  let (records, diagnostics) ← session.finish setting
  return ⟨path, columns, catalog, records, diagnostics⟩

/-- Parses a trace file, of which reading may have failed. -/
def ofFile (path : Text) (contents : FileText) (catalog : Catalog)
    (config : Config) : Except TraceError Trace :=
  match contents with
  | .error failure => .error (.unreadable path failure)
  | .ok contents => ofText path contents catalog config

/-- The number of records. -/
def size (t : Trace) : Nat := t.records.length

def isEmpty (t : Trace) : Bool := t.records.isEmpty

/-- The tool that wrote the trace. -/
def utility : Text := "strace".toList

/-- Stands for the platform that the trace was parsed on. -/
def platform : Text := "*".toList

/-- The properties of a trace, one on each line. -/
def summary (t : Trace) : List Text :=
  ["trace: ".toList ++ t.path, "tracing utility: ".toList ++ utility,
    "platform: ".toList ++ platform, "options: ".toList ++ t.columns.text,
    "records: ".toList ++ Decimal.ofNat t.size,
    "diagnostics: ".toList ++ Decimal.ofNat t.diagnostics.length]

end Trace

end SyscallTrace
