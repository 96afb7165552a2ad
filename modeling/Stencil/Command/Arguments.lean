import Stencil.Path
import Stencil.Text

/-!
# The command line

The program has two commands, `build` and `compile`. Options may stand anywhere after the
command, and the option for more messages may stand before it too. The value of an option
follows it, or stands in the same argument after an equals sign; a value that begins with a
hyphen has to stand in the same argument. After two hyphens no argument is an option. An option
other than the one for more messages stands at most once.
-/

namespace Stencil

/-- What the program is asked to do. -/
inductive Command where
  /-- Compile the sources below a directory. -/
  | build (directory : Path) (config : Option Path) (noCache : Bool) (runtime : Option String)
  /-- Compile one file, to a file next to it or to the standard output. -/
  | compile (file : Path) (print : Bool) (config : Option Path)
deriving DecidableEq, Repr

namespace Command

/-- Why the arguments are no command. -/
inductive Stop where
  | usage
  | help
  | version
deriving DecidableEq, Repr

/-- An argument by its form. -/
inductive Argument where
  | separator
  | long (name : String) (value : Option String)
  | short (letters : List Char)
  | word (text : String)
deriving DecidableEq, Repr

/-- The form of an argument. -/
def Argument.ofText (text : String) : Argument :=
  match text.toList with
  | ['-', '-'] => .separator
  | '-' :: '-' :: rest =>
    match Text.cut "=" (String.ofList rest) with
    | some (name, value) => .long name (some value)
    | none => .long (String.ofList rest) none
  | ['-'] => .word text
  | '-' :: letters => .short letters
  | _ => .word text

/-- The options of a command, without those that every command has. -/
structure Grammar where
  /-- The options without a value. -/
  flags : List String
  /-- The options with a value. -/
  valued : List String

/-- What the arguments of a command say. -/
structure Given where
  /-- The argument that is neither an option nor its value. -/
  word : Option String := none
  /-- The options without a value. -/
  flags : List String := []
  /-- The options with a value. -/
  values : List (String × String) := []
deriving DecidableEq, Repr

namespace Given

/-- Takes an argument that is no option; there can be one. -/
def addWord (g : Given) (text : String) : Except Stop Given :=
  if g.word.isNone then .ok { g with word := some text } else .error .usage

/-- Takes all arguments after the separator. -/
def addWords (g : Given) : List String → Except Stop Given
  | [] => .ok g
  | text :: rest =>
    match g.addWord text with
    | .ok g => g.addWords rest
    | .error stop => .error stop

/-- Takes an option without a value. -/
def addFlag (g : Given) (name : String) : Except Stop Given :=
  if g.flags.contains name then .error .usage else .ok { g with flags := name :: g.flags }

/-- Takes an option with a value. -/
def addValue (g : Given) (name value : String) : Except Stop Given :=
  if (g.values.lookup name).isSome then .error .usage
  else .ok { g with values := (name, value) :: g.values }

/-- The path in an option; an empty text is no path. -/
def path? (g : Given) (name : String) : Except Stop (Option Path) :=
  match g.values.lookup name with
  | none => .ok none
  | some "" => .error .usage
  | some text => .ok (some ⟨text⟩)

end Given

/-- What letters after a hyphen ask for, if it is not only more messages. -/
def lettersStop (letters : List Char) : Option Stop :=
  match letters.dropWhile (· = 'v') with
  | [] => none
  | 'h' :: _ => some .help
  | _ => some .usage

/-- Reads the arguments of a command. -/
def Grammar.read (grammar : Grammar) (g : Given) : List String → Except Stop Given
  | [] => .ok g
  | arg :: rest =>
    match Argument.ofText arg with
    | .separator => g.addWords rest
    | .word text =>
      match g.addWord text with
      | .ok g => grammar.read g rest
      | .error stop => .error stop
    | .short letters =>
      match lettersStop letters with
      | none => grammar.read g rest
      | some stop => .error stop
    | .long name (some value) =>
      if grammar.valued.contains name then
        match g.addValue name value with
        | .ok g => grammar.read g rest
        | .error stop => .error stop
      else .error .usage
    | .long name none =>
      if name = "verbose" then grammar.read g rest
      else if name = "help" then .error .help
      else if grammar.flags.contains name then
        match g.addFlag name with
        | .ok g => grammar.read g rest
        | .error stop => .error stop
      else if grammar.valued.contains name then
        match rest with
        | [] => .error .usage
        | next :: rest =>
          match Argument.ofText next with
          | .word value =>
            match g.addValue name value with
            | .ok g => grammar.read g rest
            | .error stop => .error stop
          | _ => .error .usage
      else .error .usage

/-- The options of `build`. -/
def buildGrammar : Grammar := ⟨["no-cache"], ["config", "runtime"]⟩

/-- The options of `compile`. -/
def compileGrammar : Grammar := ⟨["stdout"], ["config"]⟩

/-- The command `build` with its arguments. The directory is the current one if none is given. -/
def parseBuild (args : List String) : Except Stop Command := do
  let g ← buildGrammar.read {} args
  let config ← g.path? "config"
  match g.word with
  | some "" => .error .usage
  | word =>
    return .build ⟨word.getD "."⟩ config (g.flags.contains "no-cache")
      (g.values.lookup "runtime")

/-- The command `compile` with its arguments. -/
def parseCompile (args : List String) : Except Stop Command := do
  let g ← compileGrammar.read {} args
  let config ← g.path? "config"
  match g.word with
  | none | some "" => .error .usage
  | some file => return .compile ⟨file⟩ (g.flags.contains "stdout") config

/-- The command of the arguments of the program. -/
def parse : List String → Except Stop Command
  | [] => .error .usage
  | arg :: rest =>
    match Argument.ofText arg with
    | .word "build" => parseBuild rest
    | .word "compile" => parseCompile rest
    | .word "help" => .error .help
    | .long "verbose" none => parse rest
    | .long "version" none => .error .version
    | .long "help" none => .error .help
    | .short letters =>
      match letters.dropWhile (· = 'v') with
      | [] => parse rest
      | 'V' :: _ => .error .version
      | 'h' :: _ => .error .help
      | _ => .error .usage
    | _ => .error .usage

/-- The paths below which a command looks at files. -/
def roots : Command → List Path
  | build directory config _ _ => directory :: config.toList
  | compile file _ config => file.parent?.getD ⟨"."⟩ :: file :: config.toList

end Command

end Stencil
