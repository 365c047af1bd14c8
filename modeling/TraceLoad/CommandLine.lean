import TraceLoad.Config
import TraceLoad.Decimal.Real

/-! # The command line

The arguments are read from left to right, one at a time: `Reading.step` takes the state before an
argument to the state after it, or to the first thing that is wrong. An option that takes a value
may be given as `-w 3`, `-w3`, `-w=3`, `--workers 3` and `--workers=3`. A value that stands in an
argument of its own is looked at only when the next option comes up, or at the end.
-/

namespace TraceLoad

/-- The options that take a value. -/
inductive Setting where
  | workers
  | rate
  | traces
  | duration
  | seed
  | topology
  | output
deriving DecidableEq, Repr

/-- The options that take none. -/
inductive Switch where
  | propagateContext
  | dryRun
  | help
deriving DecidableEq, Repr

/-- Something that can be given on the command line. -/
inductive CommandOption where
  | setting (s : Setting)
  | switch (s : Switch)
deriving DecidableEq, Repr

namespace CommandOption

/-- The name that stands behind two dashes. -/
def longName : CommandOption → String
  | setting .workers => "workers"
  | setting .rate => "rate"
  | setting .traces => "traces"
  | setting .duration => "duration"
  | setting .seed => "seed"
  | setting .topology => "topology"
  | setting .output => "output"
  | switch .propagateContext => "propagate-context"
  | switch .dryRun => "dry-run"
  | switch .help => "help"

/-- The letter that stands behind one dash, if there is one. -/
def letter? : CommandOption → Option Char
  | setting .workers => some 'w'
  | setting .rate => some 'r'
  | setting .traces => some 't'
  | setting .duration => some 'd'
  | setting .output => some 'o'
  | switch .help => some 'h'
  | setting .seed | setting .topology | switch .propagateContext | switch .dryRun => none

def all : List CommandOption := [
  setting .workers, setting .rate, setting .traces, setting .duration,
  switch .propagateContext, setting .seed, setting .topology, setting .output,
  switch .dryRun, switch .help]

def ofLongName? (name : List Char) : Option CommandOption :=
  all.find? fun o => o.longName.toList = name

def ofLetter? (c : Char) : Option CommandOption := all.find? fun o => o.letter? = some c

/-- What an option is for. -/
def about : CommandOption → String
  | setting .workers => "Number of concurrent workers"
  | setting .rate => "Traces per second across all workers (0 or negative = unthrottled)"
  | setting .traces => "Traces per worker (0 = until interrupted; ignored with --duration)"
  | setting .duration => "How long to generate for, e.g. 30s, 5m, 1h"
  | switch .propagateContext => "Pass the trace context through a traceparent header at every hop"
  | setting .seed => "Seed for reproducible attribute generation"
  | setting .topology => "Captured trace export (Jaeger JSON) to use as the topology"
  | setting .output => "Write spans to this file instead of stdout"
  | switch .dryRun => "Validate the configuration and topology, then exit"
  | switch .help => "Print help"

/-- The option as it is given, with the name of its value. -/
def usage (o : CommandOption) : String :=
  let short := match o.letter? with
    | some c => "-" ++ String.singleton c ++ ", "
    | none => "    "
  let value := match o with
    | setting _ => " <" ++ o.longName.toUpper ++ ">"
    | switch _ => ""
  short ++ "--" ++ o.longName ++ value

end CommandOption

/-- Why a command line does not say what to do. -/
inductive CommandLineError where
  /-- an argument that is no option, or a value that no option takes -/
  | unknownArgument (argument : String)
  /-- a value of the wrong kind -/
  | valueValidation (option : Setting) (value : String)
  /-- a value is missing or must not be empty -/
  | invalidValue (option : Setting)
  /-- an option for the second time -/
  | argumentConflict (option : CommandOption)
  /-- a value for an option that takes none -/
  | tooManyValues (option : Switch) (value : String)
  /-- the help text is asked for -/
  | displayHelp
deriving DecidableEq, Repr

/-- What a command line says. -/
structure CommandLine where
  config : Config := {}
  /-- the file that spans are written to -/
  output : Option String := none
  /-- whether nothing is to be run -/
  dryRun : Bool := false
deriving DecidableEq

namespace CommandLine

/-- The command line with the value of a setting. -/
def assign (c : CommandLine) (s : Setting) (value : String) :
    Except CommandLineError CommandLine :=
  let converted {α : Type} (x : Option α) (put : α → CommandLine) :=
    match x with
    | some x => Except.ok (put x)
    | none => .error (.valueValidation s value)
  let path (put : CommandLine) :=
    if value = "" then Except.error (.invalidValue s) else .ok put
  match s with
  | .workers =>
    converted (Decimal.word? value.toList)
      fun n => { c with config := { c.config with workers := n.toNat } }
  | .rate =>
    converted (Decimal.real? value.toList)
      fun x => { c with config := { c.config with rate := x } }
  | .traces =>
    converted (Decimal.word? value.toList)
      fun n => { c with config := { c.config with traces := n.toNat } }
  | .duration =>
    converted (Duration.parse value).toOption
      fun d => { c with config := { c.config with duration := some d } }
  | .seed =>
    converted (Decimal.word? value.toList)
      fun n => { c with config := { c.config with seed := some n } }
  | .topology => path { c with config := { c.config with topology := some value } }
  | .output => path { c with output := some value }

/-- The command line with a switch. -/
def turnOn (c : CommandLine) : Switch → Except CommandLineError CommandLine
  | .propagateContext => .ok { c with config := { c.config with propagateContext := true } }
  | .dryRun => .ok { c with dryRun := true }
  | .help => .error .displayHelp

end CommandLine

/-- How far the arguments have been read. -/
structure Reading where
  line : CommandLine := {}
  /-- the options that have been given -/
  given : List CommandOption := []
  /-- the last setting, while its value has not been looked at; the value may still be missing -/
  pending : Option (Setting × Option String) := none
  /-- whether no more options can come -/
  trailing : Bool := false
deriving DecidableEq

namespace Reading

/-- Notes that an option is given, which must not be so already. -/
def note (r : Reading) (o : CommandOption) : Except CommandLineError Reading :=
  if o ∈ r.given then .error (.argumentConflict o) else .ok { r with given := o :: r.given }

/-- Gives a setting its value. -/
def give (r : Reading) (s : Setting) (value : String) : Except CommandLineError Reading := do
  let r ← r.note (.setting s)
  let line ← r.line.assign s value
  pure { r with line := line }

/-- Looks at the value that is still to be looked at. -/
def resolve (r : Reading) : Except CommandLineError Reading :=
  match r.pending with
  | none => .ok r
  | some (s, none) => .error (.invalidValue s)
  | some (s, some value) => { r with pending := none }.give s value

/-- An option, with a value if one is attached. -/
def option (r : Reading) (o : CommandOption) (attached : Option String) :
    Except CommandLineError Reading :=
  match o, attached with
  | .setting s, some value => do
    let r ← r.resolve
    r.give s value
  | .setting s, none => do
    let r ← r.resolve
    pure { r with pending := some (s, none) }
  | .switch s, some value => .error (.tooManyValues s value)
  | .switch s, none => do
    let r ← r.resolve
    let r ← if s = .help then pure r else r.note o
    let line ← r.line.turnOn s
    pure { r with line := line }

/-- An argument that is no option: the value that is missing, if one is. -/
def value (r : Reading) (argument : String) : Except CommandLineError Reading :=
  match r.pending with
  | some (s, none) => .ok { r with pending := some (s, some argument) }
  | _ => .error (.unknownArgument argument)

/-- The name in front of the first equals sign, and the text behind it. -/
def splitEquals (cs : List Char) : List Char × Option String :=
  match cs.dropWhile (· ≠ '=') with
  | _ :: attached => (cs.takeWhile (· ≠ '='), some (String.ofList attached))
  | [] => (cs, none)

/-- What is attached to an option of one letter. -/
def attachedToLetter : List Char → Option String
  | [] => none
  | '=' :: rest => some (String.ofList rest)
  | rest => some (String.ofList rest)

/-- Reads one argument. -/
def step (r : Reading) (argument : String) : Except CommandLineError Reading :=
  if r.trailing then .error (.unknownArgument argument)
  else
    match argument.toList with
    | ['-', '-'] => .ok { r with trailing := true }
    | '-' :: '-' :: rest =>
      let (name, attached) := splitEquals rest
      match CommandOption.ofLongName? name with
      | some o => r.option o attached
      | none => .error (.unknownArgument argument)
    | '-' :: c :: rest =>
      match CommandOption.ofLetter? c with
      | some (.switch s) => r.option (.switch s) none
      | some o => r.option o (attachedToLetter rest)
      | none => .error (.unknownArgument argument)
    | _ => r.value argument

end Reading

namespace CommandLine

/-- Reads the arguments of a command line. -/
def ofArguments (arguments : List String) : Except CommandLineError CommandLine := do
  let r ← arguments.foldlM Reading.step {}
  let r ← r.resolve
  pure r.line

/-- The help text, line by line. -/
def help : List String :=
  let width := (CommandOption.all.map fun o => o.usage.length).foldl max 0
  let pad (s : String) := s ++ String.ofList (List.replicate (width - s.length) ' ')
  [ "Generate synthetic distributed traces at a controlled rate", "",
    "Usage: tracegen [OPTIONS]", "", "Options:"] ++
    CommandOption.all.map fun o => "  " ++ pad o.usage ++ "  " ++ o.about

end CommandLine

namespace CommandLineError

/-- What is wrong, in words. -/
def message : CommandLineError → String
  | unknownArgument argument => "error: unexpected argument '" ++ argument ++ "' found"
  | valueValidation s value =>
    "error: invalid value '" ++ value ++ "' for '--" ++ (CommandOption.setting s).longName ++ "'"
  | invalidValue s =>
    "error: a value is required for '--" ++ (CommandOption.setting s).longName ++
      "' but none was supplied"
  | argumentConflict o =>
    "error: the argument '--" ++ o.longName ++ "' cannot be used multiple times"
  | tooManyValues s value =>
    "error: unexpected value '" ++ value ++ "' for '--" ++ (CommandOption.switch s).longName ++
      "' found; no more were expected"
  | displayHelp => String.intercalate "\n" CommandLine.help

end CommandLineError

end TraceLoad
