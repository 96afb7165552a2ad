import Stencil.Document
import Stencil.Project.Cache
import Stencil.Project.Source

/-!
# Building

Every source of a project is built in four steps: its text is read, the cache is asked for an
output, the output is written, and a new output is kept in the cache. An output from the cache
is written only where no output stands. The steps of a source look at the files, but not at the
steps of other sources, so a `Stage` holds all that is known about a source between two steps.

The sources are built in order, and the first one that fails ends the build. Their steps may also be
taken side by side: `Stencil.Proofs.Schedules` says what holds of a build whichever source has the
next step, and `Stencil.Proofs.Interleaving` when the end does not depend on it.
-/

namespace Stencil

/-- How an output was come by. -/
inductive Origin where
  | compiled
  | cached
deriving DecidableEq, Repr

/-- How far a source has come. -/
inductive Stage where
  | waiting
  /-- The text is read. -/
  | loaded (text : String)
  /-- The cache holds the output. -/
  | found (output : String)
  /-- The cache does not hold the output. -/
  | missed (text : String)
  /-- The output is compiled and written. -/
  | written (text output : String)
  | done (origin : Origin)
deriving DecidableEq, Repr

/-- How the output is come by if the source comes to an end from here. -/
def Stage.origin : Stage → Origin
  | found _ => .cached
  | done origin => origin
  | _ => .compiled

/-- What a build says at its end. -/
structure Report where
  compiled : Nat := 0
  cached : Nat := 0
  /-- The outputs, in the order of their paths. -/
  outputs : List Path := []
deriving DecidableEq, Repr

/-- The report on outputs. -/
def Report.ofOutputs (outputs : List (Path × Origin)) : Report where
  compiled := (outputs.filter fun output => output.2 = .compiled).length
  cached := (outputs.filter fun output => output.2 = .cached).length
  outputs := (outputs.map Prod.fst).mergeSort Path.le

/-- What compiles the sources of a project. -/
structure Builder where
  options : Options
  cache : Option Cache
deriving DecidableEq, Repr

namespace Builder

/-- The builder for a project. The directory of the cache is relative to the root. -/
def create (o : Options) (root : Path) : Files Diagnostic Builder :=
  if o.useCache then do
    let cache ← Cache.create (root.join ⟨o.cacheDir⟩) o
    return ⟨o, some cache⟩
  else return ⟨o, none⟩

/-! ### One file -/

/-- The text of a file. -/
def load (path : Path) : Files Diagnostic String :=
  (Files.ask fun t => t.read path).explain fun e => .io path.text e.message

/-- Writes a text to a file. -/
def store (path : Path) (text : String) : Files Diagnostic Unit :=
  (Files.change fun t => t.write path (.text text)).explain fun e => .io path.text e.message

/-- The code of a source. -/
def compile (b : Builder) (path : Path) (text : String) : Except Diagnostic String :=
  Document.compiled ⟨b.options.runtime⟩ path.text text

/-- The code of a file, which is not written. -/
def compileFile (b : Builder) (path : Path) : Files Diagnostic String := do
  let text ← load path
  ExceptT.mk (pure (b.compile path text))

/-- Where the output of a source goes. -/
def outputOf (b : Builder) (s : Source) : Path := s.output b.options.outputSuffix

/-- Asks the cache for the output of a source. -/
def lookup (b : Builder) (s : Source) (text : String) : Files Diagnostic (Option String) :=
  match b.cache with
  | some cache => cache.get? s.path text
  | none => return none

/-- Keeps the output of a source in the cache. -/
def keep (b : Builder) (s : Source) (text output : String) : Files Diagnostic Unit :=
  match b.cache with
  | some cache => cache.set s.path text output
  | none => return

/-- Writes a text where no file stands. -/
def restore (path : Path) (text : String) : Files Diagnostic Unit := do
  if ← Files.ask fun t => Except.ok (t.exists? path) then return
  store path text

/-- The next step of a source. -/
def step (b : Builder) (s : Source) : Stage → Files Diagnostic Stage
  | .waiting => do
    let text ← load s.path
    return .loaded text
  | .loaded text => do
    match ← b.lookup s text with
    | some output => return .found output
    | none => return .missed text
  | .found output => do
    restore (b.outputOf s) output
    return .done .cached
  | .missed text => do
    let output ← ExceptT.mk (pure (b.compile s.path text))
    store (b.outputOf s) output
    return .written text output
  | .written text output => do
    b.keep s text output
    return .done .compiled
  | .done origin => return .done origin

/-- A number of steps of a source. -/
def advance (b : Builder) (s : Source) : Nat → Stage → Files Diagnostic Stage
  | 0, stage => return stage
  | n + 1, stage => do
    let stage ← b.step s stage
    b.advance s n stage

/-- The most steps that a source takes. -/
def stepCount : Nat := 4

/-- Builds a source. -/
def buildFile (b : Builder) (s : Source) : Files Diagnostic (Path × Origin) := do
  let stage ← b.advance s stepCount .waiting
  return (b.outputOf s, stage.origin)

/-! ### All files -/

/-- Builds sources in order. -/
def buildFiles (b : Builder) : List Source → Files Diagnostic (List (Path × Origin))
  | [] => return []
  | s :: rest => do
    let output ← b.buildFile s
    let outputs ← b.buildFiles rest
    return output :: outputs

/-- Builds the sources below a directory. -/
def buildDirectory (b : Builder) (directory : Path) : Files Diagnostic Report := do
  let sources ← Files.ask (Source.find b.options directory)
  let outputs ← b.buildFiles sources
  return Report.ofOutputs outputs

end Builder

end Stencil
