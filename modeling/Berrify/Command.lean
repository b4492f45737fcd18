import Berrify.Batch

/-!
# The command line

`Request.ofArgs` reads the arguments of the command from left to right : the first one that is
wrong, or that asks for the version or for help, decides. `Request.perform` carries a request out on
a file tree and tells what is printed, what is complained about, and the exit status.
-/

namespace Berrify

/-- What a run is asked to do. -/
structure Invocation where
  /-- The source file, or a directory of them. -/
  input : String
  /-- The settings file, if one is given. -/
  settings : Option String
  /-- Print the output instead of writing it. -/
  toStdout : Bool
  /-- Print a report as JSON. -/
  asJson : Bool
deriving DecidableEq, Repr

/-- What the arguments ask for. -/
inductive Request where
  | translate (invocation : Invocation)
  | version
  | help
  /-- The arguments are wrong. -/
  | misuse
deriving DecidableEq, Repr

/-- The arguments read so far. -/
structure Arguments where
  input : Option String := none
  settings : Option String := none
  toStdout : Bool := false
  asJson : Bool := false
  verbose : Bool := false

namespace Arguments

/-! ## Single arguments -/

/-- Adds the input, which may be given once. -/
def addInput (a : Arguments) (path : String) : Option Arguments :=
  if path.isEmpty || a.input.isSome then none else some { a with input := some path }

/-- Adds the settings file, which may be given once. -/
def addSettings (a : Arguments) (path : String) : Option Arguments :=
  if path.isEmpty || a.settings.isSome then none else some { a with settings := some path }

/-- Sets a flag, which may be given once. -/
def addFlag (a : Arguments) : String → Option Arguments
  | "stdout" => if a.toStdout then none else some { a with toStdout := true }
  | "json" => if a.asJson then none else some { a with asJson := true }
  | "verbose" => if a.verbose then none else some { a with verbose := true }
  | _ => none

/-- What the arguments ask for when all are read. -/
def finish (a : Arguments) : Request :=
  match a.input with
  | none => .misuse
  | some input =>
    if a.toStdout && a.asJson then .misuse
    else .translate
      { input, settings := a.settings, toStdout := a.toStdout, asJson := a.asJson }

/-- What to do behind an argument. -/
inductive Next where
  | goOn (a : Arguments)
  /-- The next argument is the settings file. -/
  | settings (a : Arguments)
  | stop (request : Request)

/-- Goes on if an argument could be added. -/
def Next.ofOption : Option Arguments → Next
  | some a => .goOn a
  | none => .stop .misuse

/-- An option with two dashes, given by its name and its value behind an equals sign. -/
def readLong (a : Arguments) (name : String) (value : Option String) : Next :=
  match name, value with
  | "config", some path => .ofOption (a.addSettings path)
  | "config", none => .settings a
  | "help", none => .stop .help
  | "version", none => .stop .version
  | flag, none => .ofOption (a.addFlag flag)
  | _, some _ => .stop .misuse

/-- The letters behind one dash. What follows the letter of an option with a value is the value,
after an equals sign or not. -/
def readShort (a : Arguments) : List Char → Next
  | [] => .goOn a
  | 'c' :: rest =>
    match rest with
    | [] => .settings a
    | '=' :: path => .ofOption (a.addSettings (String.ofList path))
    | path => .ofOption (a.addSettings (String.ofList path))
  | 'h' :: _ => .stop .help
  | 'V' :: _ => .stop .version
  | 'v' :: rest =>
    match a.addFlag "verbose" with
    | some a => a.readShort rest
    | none => .stop .misuse
  | _ :: _ => .stop .misuse

/-- Reads one argument. -/
def readOne (a : Arguments) (arg : String) : Next :=
  match arg.toList with
  | '-' :: '-' :: body =>
    let name := body.takeWhile (· != '=')
    let value := match body.drop name.length with
      | _ :: value => some (String.ofList value)
      | [] => none
    a.readLong (String.ofList name) value
  | '-' :: c :: letters => a.readShort (c :: letters)
  | _ => .ofOption (a.addInput arg)

/-- Whether an argument looks like an option, so that it is no value of one. -/
def isOption (arg : String) : Bool :=
  match arg.toList with
  | '-' :: _ :: _ => true
  | _ => false

/-! ## All arguments -/

/-- Reads arguments that are all inputs. -/
def readInputs (a : Arguments) : List String → Request
  | [] => a.finish
  | arg :: rest =>
    match a.addInput arg with
    | some a => a.readInputs rest
    | none => .misuse

/-- Reads all arguments; behind two dashes there are no options. -/
def readAll : Arguments → List String → Request
  | a, [] => a.finish
  | a, arg :: rest =>
    if arg == "--" then a.readInputs rest
    else match a.readOne arg with
      | .stop request => request
      | .goOn a => a.readAll rest
      | .settings a =>
        match rest with
        | [] => .misuse
        | path :: rest =>
          if isOption path then .misuse
          else match a.addSettings path with
            | some a => a.readAll rest
            | none => .misuse

end Arguments

/-! ## Runs -/

/-- What a run leaves behind. -/
structure Outcome where
  status : Nat
  /-- What is printed. -/
  output : String := ""
  /-- What is complained about. -/
  complaints : List String := []
  tree : FileTree

/-- A line that complains. -/
def complaint (text : String) : String := "error: " ++ text

/-- The outcome of a run that failed as a whole. -/
def Outcome.failed (failure : Failure) (tree : FileTree) : Outcome :=
  { status := 1, complaints := [complaint failure.message], tree }

/-- What is printed about a file, as text. -/
def Report.printed (r : Report) : String :=
  match r.result with
  | .ok output => output ++ "\n"
  | .error _ => ""

/-- What is complained about in a file, as text. -/
def Report.complaint? (r : Report) : Option String :=
  match r.result with
  | .ok _ => none
  | .error failure => some (complaint (r.input ++ ": " ++ failure.message))

/-- The outcome of a run with a report for each file. -/
def Outcome.ofReports (asJson : Bool) (reports : List Report) (tree : FileTree) : Outcome :=
  { status := if reports.any Report.isError then 1 else 0
    output := if asJson then Report.writeAll reports ++ "\n"
      else String.join (reports.map Report.printed)
    complaints := if asJson then [] else reports.filterMap Report.complaint?
    tree }

/-- Carries out a translation. -/
def Invocation.perform (i : Invocation) (tree : FileTree) : Outcome :=
  match Settings.find tree i.settings "." with
  | .error failure => .failed failure tree
  | .ok settings =>
    let translator := settings.translator
    if i.toStdout then
      match translator.targetOf tree i.input with
      | .ok output => { status := 0, output, tree }
      | .error failure => .failed failure tree
    else
      match translator.translatePath i.input tree with
      | (.ok reports, tree) => .ofReports i.asJson reports tree
      | (.error failure, tree) => .failed failure tree

namespace Request

/-- What the arguments of the command ask for. -/
def ofArgs (args : List String) : Request :=
  Arguments.readAll {} args

/-- The name and the version of the command. -/
def versionText : String := "pyberry 0.1.0\n"

/-- Carries out a request. -/
def perform (request : Request) (tree : FileTree) : Outcome :=
  match request with
  | .translate invocation => invocation.perform tree
  | .version => { status := 0, output := versionText, tree }
  | .help => { status := 0, tree }
  | .misuse => { status := 2, tree }

end Request

end Berrify
