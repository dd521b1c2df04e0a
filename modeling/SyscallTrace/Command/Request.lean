import SyscallTrace.Text.Basic

/-!
# Command-line requests

What the words of a command line ask for. Words are read from the left, and the first one that is
wrong, or that asks for the version or for help, decides. After the last word, a request to parse
needs a catalog and a trace, and cannot be both verbose and quiet.
-/

namespace SyscallTrace.Command

/-- How a trace is parsed and what is written. -/
structure Options where
  catalog : Text
  config : Option Text
  trace : Text
  summary : Bool
  verbose : Nat
  quiet : Nat
  deriving DecidableEq

inductive Request where
  | parse (options : Options)
  | version
  | help
  | misuse
  deriving DecidableEq

/-- The options that the words have set so far. -/
structure Draft where
  catalog : Option Text := none
  config : Option Text := none
  trace : Option Text := none
  summary : Bool := false
  verbose : Nat := 0
  quiet : Nat := 0

/-- An option without a value. -/
inductive Switch where
  | summary
  | verbose
  | quiet
  | version
  | help
  deriving DecidableEq

/-- An option with a path as its value. -/
inductive PathOption where
  | catalog
  | config
  deriving DecidableEq

/-- An option of either sort. -/
inductive OptionName where
  | switch (switch : Switch)
  | path (option : PathOption)
  deriving DecidableEq

def OptionName.ofLong? (name : Text) : Option OptionName :=
  if name = "catalog".toList then some (.path .catalog)
  else if name = "config".toList then some (.path .config)
  else if name = "summary".toList then some (.switch .summary)
  else if name = "verbose".toList then some (.switch .verbose)
  else if name = "quiet".toList then some (.switch .quiet)
  else if name = "version".toList then some (.switch .version)
  else if name = "help".toList then some (.switch .help)
  else none

def OptionName.ofShort? : Char → Option OptionName
  | 'c' => some (.path .config)
  | 'v' => some (.switch .verbose)
  | 'q' => some (.switch .quiet)
  | 'V' => some (.switch .version)
  | 'h' => some (.switch .help)
  | _ => none

namespace Draft

/-- Sets a path once. A path is not empty. -/
def setPath (d : Draft) (option : PathOption) (path : Text) : Except Request Draft :=
  if path.isEmpty then .error .misuse
  else
    match option with
    | .catalog => if d.catalog.isSome then .error .misuse else .ok { d with catalog := some path }
    | .config => if d.config.isSome then .error .misuse else .ok { d with config := some path }

/-- Sets the trace once. -/
def setTrace (d : Draft) (path : Text) : Except Request Draft :=
  if path.isEmpty || d.trace.isSome then .error .misuse else .ok { d with trace := some path }

/-- Turns a switch on. The version and the help end the reading. -/
def turnOn (d : Draft) : Switch → Except Request Draft
  | .summary => if d.summary then .error .misuse else .ok { d with summary := true }
  | .verbose => .ok { d with verbose := d.verbose + 1 }
  | .quiet => .ok { d with quiet := d.quiet + 1 }
  | .version => .error .version
  | .help => .error .help

/-- The request of a whole command line. -/
def finish (d : Draft) : Request :=
  match d.catalog, d.trace with
  | some catalog, some trace =>
    if 0 < d.verbose ∧ 0 < d.quiet then .misuse
    else .parse ⟨catalog, d.config, trace, d.summary, d.verbose, d.quiet⟩
  | _, _ => .misuse

end Draft

/-- The word starts an option or ends the options. A lone dash is a path. -/
def isOption (word : Text) : Bool :=
  word.startsWith ['-'] && word.length != 1

/-- Reads an option with a long name. Returns the path option that still needs its value. -/
def readLong (d : Draft) (word : Text) : Except Request (Draft × Option PathOption) :=
  let (name, value) := match word.cutFirst? (· == '=') with
    | some (name, value) => (name, some value)
    | none => (word, none)
  match OptionName.ofLong? name, value with
  | some (.path option), some value => (d.setPath option value).map fun d => (d, none)
  | some (.path option), none => .ok (d, some option)
  | some (.switch switch), none => (d.turnOn switch).map fun d => (d, none)
  | some (.switch _), some _ => .error .misuse
  | none, _ => .error .misuse

/-- Reads a group of options with short names. A path option takes the rest of the group as its
value, less an equals sign in front, or still needs one if there is none. -/
def readShort (d : Draft) : Text → Except Request (Draft × Option PathOption)
  | [] => .ok (d, none)
  | c :: group =>
    match OptionName.ofShort? c with
    | some (.switch switch) =>
      match d.turnOn switch with
      | .ok d => readShort d group
      | .error r => .error r
    | some (.path option) =>
      if group.isEmpty then .ok (d, some option)
      else (d.setPath option ((Text.dropPrefix? group ['=']).getD group)).map fun d => (d, none)
    | none => .error .misuse

/-- Reads one word that is an option. -/
def readOption (d : Draft) (word : Text) : Except Request (Draft × Option PathOption) :=
  match word.dropPrefix? "--".toList with
  | some long => readLong d long
  | none => readShort d (word.drop 1)

/-- Reads words after the end of the options. -/
def readTraces (d : Draft) (words : List Text) : Except Request Draft :=
  words.foldlM setTrace d
where setTrace (d : Draft) (word : Text) : Except Request Draft := d.setTrace word

/-- Reads words, of which the first is the value of a path option if one still needs it. -/
def readWords : Draft → Option PathOption → List Text → Except Request Draft
  | d, none, [] => .ok d
  | _, some _, [] => .error .misuse
  | d, some option, word :: words =>
    if isOption word then .error .misuse
    else
      match d.setPath option word with
      | .ok d => readWords d none words
      | .error r => .error r
  | d, none, word :: words =>
    if word = "--".toList then readTraces d words
    else if isOption word then
      match readOption d word with
      | .ok (d, needed) => readWords d needed words
      | .error r => .error r
    else
      match d.setTrace word with
      | .ok d => readWords d none words
      | .error r => .error r

/-- The request of the words of a command line. -/
def Request.ofWords (words : List Text) : Request :=
  match readWords {} none words with
  | .ok d => d.finish
  | .error r => r

end SyscallTrace.Command
