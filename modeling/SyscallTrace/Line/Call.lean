import SyscallTrace.Argument.Casting
import SyscallTrace.Line.Columns
import SyscallTrace.Line.Form
import SyscallTrace.Line.Outcome

/-!
# Calls

A line that shows a call becomes a `Call`: its columns, its name, its argument tokens and the stage
that the line takes it to. `Call.ofLine` reads a line under the columns of its trace; blank lines
and notices of signals and ends of processes have no call.
-/

namespace SyscallTrace

/-- The stage that a line takes its call to. -/
inductive Stage where
  | complete (outcome : Outcome)
  | unfinished
  | continued
  | resumed (outcome : Outcome)
  deriving DecidableEq

/-- A call that is interrupted again stays unfinished. -/
def Stage.kind : Stage → CallKind
  | complete _ => .complete
  | unfinished | continued => .unfinished
  | resumed _ => .resumed

def Stage.outcome? : Stage → Option Outcome
  | complete outcome | resumed outcome => some outcome
  | unfinished | continued => none

/-- The fields of a line with a call, before its arguments are typed. -/
structure Call where
  heading : Heading
  name : Text
  args : List Text
  stage : Stage
  deriving DecidableEq

namespace Call

def pid (c : Call) : UInt32 := c.heading.pid

def kind (c : Call) : CallKind := c.stage.kind

def ret? (c : Call) : Option Return := c.stage.outcome?.map Outcome.ret

def elapsed? (c : Call) : Option Duration := c.stage.outcome?.bind Outcome.elapsed

def remark? (c : Call) : Option Text := c.stage.outcome?.bind Outcome.remark

/-- Reads the outcome of a form, if its call finished. -/
def ofForm (hasElapsed : Bool) (heading : Heading) : CallForm → Except LineFault Call
  | .complete name args ret rest => do
    let outcome ← Outcome.read hasElapsed ret rest
    return ⟨heading, name.trim, Token.split args, .complete outcome⟩
  | .unfinished name args => .ok ⟨heading, name.trim, Token.split args, .unfinished⟩
  | .continued name args => .ok ⟨heading, name.trim, Token.split args, .continued⟩
  | .resumed name args ret rest => do
    let outcome ← Outcome.read hasElapsed ret rest
    return ⟨heading, name.trim, Token.split args, .resumed outcome⟩

/-- Reads a non-blank line without blanks around it. -/
def read (columns : Columns) (t : Text) : Except LineFault (Option Call) := do
  match ← Heading.take columns t with
  | none => return none
  | some (heading, body) =>
    match CallForm.ofText? body with
    | none => throw .unknownForm
    | some form => return some (← ofForm columns.elapsed heading form)

/-- Reads a line. -/
def ofLine (columns : Columns) (line : Text) : Except TraceError (Option Call) :=
  if line.trim.isEmpty then .ok none
  else (read columns line.trim).mapError (.format line)

end Call

end SyscallTrace
