import Retarget.Fixture.Check
import Retarget.Glob.Search

set_option autoImplicit false

/-!
# The command line

The program checks the fixtures of the files that its arguments name. An argument with a wildcard
in it is a pattern, which has to match something; any other argument is a path. All files are read
and decoded before the first check.

## Main definitions

* `Retarget.Request.ofArguments` — what the arguments ask for.
* `Retarget.Outcome` — how a run ends: its exit code and what it shows.
* `Retarget.run` — the program on a file system.
-/

namespace Retarget

/-! ## Arguments -/

/-- A run that checks fixtures. -/
structure Request where
  /-- The paths and patterns of the fixtures. -/
  inputs : List String
  /-- The one target to check. -/
  only : Option TargetKind
  /-- Show the lowered forms. -/
  dump : Bool
  /-- How much logging is asked for. The log is no part of what a run shows. -/
  verbosity : Nat
deriving DecidableEq, Repr

/-- What the arguments ask for. -/
inductive Command
  | check (request : Request)
  | help
  /-- The arguments are not understood. -/
  | invalid
deriving DecidableEq, Repr

namespace Request

/-- The request without any arguments. -/
def empty : Request := ⟨[], none, false, 0⟩

/-- The pattern that stands for no path and no pattern. -/
def defaultInput : String := "fixtures/*.json"

/-- The request with more paths and patterns. -/
def addInputs (r : Request) (inputs : List String) : Request :=
  { r with inputs := r.inputs ++ inputs }

/-- The request for one target, which may be named only once. -/
def setTarget? (r : Request) (name : String) : Option Request :=
  match r.only with
  | some _ => none
  | none => (TargetKind.ofName? name).map fun kind => { r with only := some kind }

/-- The name in an argument that names a target behind an equals sign. -/
def targetIn? (argument : String) : Option String :=
  let option := "--target=".toList
  let cs := argument.toList
  if option.isPrefixOf cs then some (String.ofList (cs.drop option.length)) else none

/-- The request when its arguments are all read. -/
def complete (r : Request) : Command :=
  .check (if r.inputs.isEmpty then r.addInputs [defaultInput] else r)

/-- The request with the letters behind a hyphen, or what they ask for instead. -/
def addLetters (r : Request) : List Char → Except Command Request
  | [] => .ok r
  | c :: cs =>
    if c = 'v' then { r with verbosity := r.verbosity + 1 }.addLetters cs
    else if c = 'h' then .error .help
    else .error .invalid

/-- What a request and further arguments ask for. -/
def addArguments (r : Request) : List String → Command
  | [] => r.complete
  | "--" :: arguments => (r.addInputs arguments).complete
  | "--help" :: _ => .help
  | "--dump-ir" :: arguments =>
    if r.dump then .invalid else { r with dump := true }.addArguments arguments
  | "--verbose" :: arguments =>
    { r with verbosity := r.verbosity + 1 }.addArguments arguments
  | ["--target"] => .invalid
  | "--target" :: name :: arguments =>
    match r.setTarget? name with
    | none => .invalid
    | some r => r.addArguments arguments
  | argument :: arguments =>
    match targetIn? argument with
    | some name =>
      match r.setTarget? name with
      | none => .invalid
      | some r => r.addArguments arguments
    | none =>
      match argument.toList with
      | '-' :: '-' :: _ => .invalid
      | '-' :: c :: cs =>
        match r.addLetters (c :: cs) with
        | .error command => command
        | .ok r => r.addArguments arguments
      | _ => (r.addInputs [argument]).addArguments arguments

/-- What the arguments ask for. -/
def ofArguments (arguments : List String) : Command := empty.addArguments arguments

end Request

/-! ## Runs -/

/-- How a run ends. -/
inductive Outcome
  /-- The arguments are not understood. -/
  | usageError
  | helped
  /-- The fixtures cannot be found, read or decoded. -/
  | fatal (message : String)
  | finished (report : Report)
deriving DecidableEq, Repr

/-- How the program is called. -/
def usage : String :=
  "Usage: retarget [--target TARGET] [--dump-ir] [-v] [INPUT]...\n"

namespace Outcome

/-- The exit code of a run. -/
def exitCode : Outcome → Nat
  | .usageError => 2
  | .helped => 0
  | .fatal _ => 1
  | .finished report => if report.failed = 0 then 0 else 1

/-- What a run shows. -/
def output : Outcome → String
  | .usageError | .fatal _ => ""
  | .helped => usage
  | .finished report => report.text ++ report.summary

/-- Why a run ended before the first check. -/
def fatal? : Outcome → Option String
  | .fatal message => some message
  | _ => none

end Outcome

/-- The argument is a pattern. -/
def isPattern (input : String) : Bool := input.toList.any ['*', '?', '[', '\x7b'].contains

section

variable {m : Type → Type} [Monad m]

/-- The paths that an input stands for, or why there are none. -/
def inputPaths (fs : FileSystem m) (input : String) : ExceptT String m (List String) :=
  if isPattern input then
    match Glob.ofText? input with
    | none => throw ("bad glob pattern: " ++ input)
    | some glob => do
      match ← (glob.search fs : m (List String)) with
      | [] => throw ("glob pattern matched no files: " ++ input)
      | paths => return paths
  else return [input]

/-- The fixture of a file, or why there is none. -/
def load (fs : FileSystem m) (path : String) : ExceptT String m Fixture := do
  match ← fs.read? path with
  | none => throw ("reading " ++ path)
  | some text =>
    match Fixture.ofText? text with
    | none => throw ("decoding " ++ path)
    | some fixture => return fixture

/-- The fixtures that a request names. -/
def Request.fixtures (fs : FileSystem m) (r : Request) : ExceptT String m (List Fixture) := do
  let paths ← r.inputs.mapM (inputPaths fs)
  paths.flatten.mapM (load fs)

/-- The targets that a request is about. -/
def Request.targets (r : Request) : List TargetKind :=
  match r.only with
  | none => TargetKind.every
  | some kind => [kind]

/-- The program on a file system. -/
def run (fs : FileSystem m) (arguments : List String) : m Outcome := do
  match Request.ofArguments arguments with
  | .invalid => return .usageError
  | .help => return .helped
  | .check request =>
    match ← (request.fixtures fs).run with
    | .error message => return .fatal message
    | .ok fixtures =>
      return .finished
        (Report.concat (fixtures.map fun fixture => fixture.report request.targets request.dump))

end

end Retarget
