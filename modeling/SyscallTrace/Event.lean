import SyscallTrace.Trace

/-!
# Events of a parse

What a parse can tell about its progress, for a log. The events follow the functions that they
report on step by step, up to the step that fails, and have no influence on them.
-/

namespace SyscallTrace

inductive LogLevel where
  | debug
  | trace
  deriving DecidableEq

def LogLevel.name : LogLevel → Text
  | debug => "DEBUG".toList
  | trace => "TRACE".toList

inductive Event where
  | columnsDetected (columns : Columns)
  | lineRead (number : Nat) (call : Call)
  | continued (call : Call)
  | superseded (call : PendingCall)
  | neverResumed (call : PendingCall)
  | unknownSyscall (name : Text) (number : Nat)
  | parameterCast (syscall : Text) (parameter : Parameter) (kind : ArgumentKind)
  | untyped (syscall : Text) (parameter : Parameter)
  | flagsKept (error : ModeError)
  | parsed (trace : Trace)

namespace Event

def level : Event → LogLevel
  | lineRead .. | continued .. | parameterCast .. => .trace
  | _ => .debug

/-- The process and the name of a call. -/
def callText (c : Call) : Text :=
  "pid ".toList ++ Decimal.ofNat c.pid.toNat ++ [' '] ++ c.name

def text : Event → Text
  | columnsDetected columns => "detected strace options ".toList ++ columns.text
  | lineRead number call =>
    "line ".toList ++ Decimal.ofNat number ++ ": ".toList ++ call.kind.name ++ [' '] ++
      Decimal.ofNat call.pid.toNat ++ [' '] ++ call.name
  | continued call =>
    callText call ++ ": continued with ".toList ++ Decimal.ofNat call.args.length ++
      " more arguments".toList
  | superseded p =>
    callText p.call ++
      ": unfinished call was never resumed before the next one started".toList
  | neverResumed p => callText p.call ++ ": unfinished call never resumed".toList
  | unknownSyscall name number => (Diagnostic.unknownSyscall name number).text
  | parameterCast syscall parameter kind =>
    syscall ++ ": parameter ".toList ++ parameter.name ++ " cast as ".toList ++ kind.text
  | untyped syscall parameter =>
    syscall ++ ": no typed representation for parameter ".toList ++ parameter.name ++
      " of type ".toList ++ Text.quoteOption parameter.type?
  | flagsKept error => "keeping numeric flags verbatim: ".toList ++ error.message
  | parsed t =>
    "parsed ".toList ++ Decimal.ofNat t.size ++ " records from ".toList ++ t.path.quote ++
      " with options ".toList ++ t.columns.text

/-- The level and the text of an event. -/
def entry (e : Event) : Text :=
  e.level.name ++ [' '] ++ e.text

end Event

/-- The events of the first step of a cast. -/
def CastStep.events (syscall : Text) (p : Parameter) (token : Text) : List Event :=
  let kind := ArgumentKind.select syscall p token
  [.parameterCast syscall p kind] ++
    (if kind = .unimplemented then [.untyped syscall p] else []) ++
    (if kind = .flags then (Flags.keptVerbatim? token).toList.map .flagsKept else [])

/-- The events of a cast. -/
def Casting.events (syscall : Text) : List Parameter → List Text → List Event
  | p :: ps, token :: tokens =>
    CastStep.events syscall p token ++
      match ArgumentValue.read (ArgumentKind.select syscall p token) token tokens with
      | .error _ => []
      | .ok (_, rest) => events syscall ps rest
  | _, _ => []

/-- The events of casting the tokens of a call. -/
def castEvents (syscall : Text) (parameters? : Option (List Parameter)) (tokens : List Text) :
    List Event :=
  Casting.events syscall (parameters?.getD []) tokens

/-- The events of building a record. -/
def Record.events (catalog : Catalog) (c : Call) (number : Nat) : List Event :=
  match catalog.resolve c.name with
  | none => [.unknownSyscall c.name number]
  | some definition => castEvents c.name definition.parameters? c.args

/-- The events of the next call of a trace, up to the building of its record. -/
def PendingTable.events (t : PendingTable) (c : Call) : List Event :=
  match c.stage with
  | .continued => if (t.lookup c.key).isSome then [.continued c] else []
  | .unfinished => (t.lookup c.key).toList.map .superseded
  | .complete _ | .resumed _ => []

namespace Session

/-- The events of a line with a call. -/
def takeEvents (setting : Setting) (s : Session) (number : Nat) (line : Text) (c : Call) :
    List Event :=
  [.lineRead number c] ++ s.pending.events c ++
    match s.pending.advance c line s.slots.size with
    | .ok (.oneLine call, _) | .ok (.twoLine call _, _) =>
      Record.events setting.catalog call number
    | _ => []

/-- The events of the end of a session. -/
def finishEvents (setting : Setting) (s : Session) : List Event :=
  s.pending.drain.map .neverResumed ++ slotEvents s.finalSlots
where
  slotEvents : List NumberedSlot → List Event
    | [] => []
    | slot :: slots =>
      (match slot.slot with
        | .unfinished p => Record.events setting.catalog p.call slot.line
        | _ => []) ++
        match slotRecord setting slot with
        | .error _ => []
        | .ok _ => slotEvents slots

/-- The events of a session, line by line. -/
def events (setting : Setting) (s : Session) : List (Text × Nat) → List Event
  | [] => finishEvents setting s
  | (line, number) :: lines =>
    (match Call.ofLine setting.columns line with
      | .ok (some c) => takeEvents setting s number line c
      | _ => []) ++
      match step setting s number line with
      | .error _ => []
      | .ok s => events setting s lines

end Session

/-- The event of a detection. -/
def Columns.events (config : Config) (line : Text) : List Event :=
  match Columns.detect config line with
  | .error _ => []
  | .ok columns => [.columnsDetected columns]

/-- The events of parsing the contents of a trace. -/
def Trace.events (path contents : Text) (catalog : Catalog) (config : Config) : List Event :=
  match detectColumns config contents with
  | .error _ => []
  | .ok columns =>
    [.columnsDetected columns] ++ Session.events ⟨catalog, columns⟩ {} (contents.lines.zipIdx 1) ++
      match Trace.ofText path contents catalog config with
      | .error _ => []
      | .ok t => [.parsed t]

end SyscallTrace
