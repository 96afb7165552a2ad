import Stencil.Command.Arguments
import Stencil.Project.Build
import Stencil.Project.Config

/-!
# Running a command

A run of the program is a function of its arguments and the files: it ends with an exit code,
the two output texts, and the files as it leaves them. The exit code is 0 for success, 1 for a
failure, which is reported on the second output, and 2 for arguments that are no command.
-/

namespace Stencil.Command

/-- Why a command fails. -/
inductive Failure where
  | failed (d : Diagnostic)
  /-- The options cannot be had from a file. -/
  | notLoaded (path : Path) (d : Diagnostic)
  /-- The output cannot be written. -/
  | notWritten (path : Path) (e : FileError)
deriving DecidableEq, Repr

namespace Failure

/-- A text with its lines after the first one moved in. -/
def indented (text : String) : String :=
  String.ofList (text.toList.flatMap fun c => if c = '\n' then "\n    ".toList else [c])

/-- A report with its cause. -/
def because (what cause : String) : String :=
  "Error: " ++ what ++ "\n\nCaused by:\n    " ++ indented cause ++ "\n"

/-- The report of a failure. -/
def report : Failure → String
  | failed d => "Error: " ++ d.render ++ "\n"
  | notLoaded path d => because ("failed to load " ++ path.text) d.render
  | notWritten path e => because ("failed to write " ++ path.text) e.message

end Failure

/-- The options for a command: those in the given file, or those of the project. -/
def options (config : Option Path) (root : Path) : Files Failure Options :=
  let path := config.getD (Config.fileIn root)
  (Files.ask (Config.load path)).explain (.notLoaded path)

/-- Builds the sources below a directory. -/
def buildProject (directory : Path) (config : Option Path) (noCache : Bool)
    (runtime : Option String) : Files Failure String := do
  let o ← options config directory
  let o := { o with useCache := o.useCache && !noCache, runtime := runtime.getD o.runtime }
  (do
    let builder ← Builder.create o directory
    let _ ← builder.buildDirectory directory
    return "" : Files Diagnostic String).explain .failed

/-- Compiles a file. -/
def compileFile (file : Path) (print : Bool) (config : Option Path) : Files Failure String := do
  let o ← options config (file.parent?.getD ⟨"."⟩)
  let output ← (Builder.compileFile ⟨o, none⟩ file).explain .failed
  if print then return output
  let target := Source.outputOf file o.outputSuffix
  (Files.change fun t => t.write target (.text output)).explain (.notWritten target)
  return ""

/-- Does what a command says, and gives the text to print. -/
def perform : Command → Files Failure String
  | .build directory config noCache runtime => buildProject directory config noCache runtime
  | .compile file print config => compileFile file print config

/-- How a run ends. -/
structure Ending where
  exit : Nat
  stdout : String := ""
  stderr : String := ""
deriving DecidableEq, Repr

/-- The name of the program and its version. -/
def versionText : String := "htmlc 0.1.0\n"

/-- How to call the program. -/
def usageText : String :=
  "Usage: htmlc [-v] build [DIR] [--config FILE] [--no-cache] [--runtime NAME]\n" ++
  "       htmlc [-v] compile FILE [--stdout] [--config FILE]\n"

/-- The end of a run without a command. -/
def Stop.ending : Stop → Ending
  | .usage => { exit := 2, stderr := usageText }
  | .help => { exit := 0, stdout := usageText }
  | .version => { exit := 0, stdout := versionText }

/-- Runs the program. -/
def run (args : List String) (t : FileTree) : Ending × FileTree :=
  match parse args with
  | .error stop => (stop.ending, t)
  | .ok command =>
    match (perform command).on t with
    | (.ok text, t') => ({ exit := 0, stdout := text }, t')
    | (.error failure, t') => ({ exit := 1, stderr := failure.report }, t')

end Stencil.Command
