import Stencil.Host.Literal
import Stencil.Template.Descriptor

/-!
# Code for the runtime

The code that a template becomes: calls that build elements, loops, alternatives, switches
and components against a runtime package. Every construct is a fixed pattern around the
parts it is given; nothing here looks into them.
-/

namespace Stencil

/-- The package that the generated calls refer to. -/
structure Runtime where
  package : String
deriving DecidableEq, Repr

namespace Runtime

/-- A function without parameters. -/
def closure (result body : String) : String :=
  "func() " ++ result ++ " \x7b" ++ body ++ "\x7d"

/-- A function that is called where it stands. -/
def selfEvaluating (result body : String) : String :=
  closure result body ++ "()"

/-- The type of a list of values. -/
def listType : String := "[]interface\x7b\x7d"

/-- The type of any value. -/
def anyType : String := "interface\x7b\x7d"

/-- Entries of a map, each key quoted and each value as it is given. -/
def entries (d : Dict) : String :=
  String.join (d.entries.map fun entry => Host.quote entry.1 ++ ": " ++ entry.2 ++ ",")

/-- Entries of a map with both keys and values quoted. -/
def quotedEntries (d : Dict) : String :=
  String.join (d.entries.map fun entry =>
    Host.quote entry.1 ++ ": " ++ Host.quote entry.2 ++ ",")

/-! ### Elements -/

/-- The event handlers of an element. -/
def handlers (rt : Runtime) (d : Dict) : String :=
  if d.isEmpty then ""
  else
    "Handlers: map[string]" ++ rt.package ++ ".Handler\x7b" ++
      String.join (d.entries.map fun entry =>
        Host.quote entry.1 ++ ": func(e " ++ rt.package ++ ".Event) \x7b" ++ entry.2 ++ "\x7d,") ++
      "\x7d,"

/-- The attributes of an element: plain ones and binds in one map, made anew on every call. -/
def attributes (rt : Runtime) (attrs binds : Dict) : String :=
  if attrs.isEmpty && binds.isEmpty then ""
  else
    let mapType := rt.package ++ ".Map"
    "Attrs: " ++
      closure mapType
        (" return " ++ mapType ++ "\x7b" ++ quotedEntries attrs ++ entries binds ++ "\x7d ") ++
      ","

/-- The raw content of an element. -/
def rawHtml (rt : Runtime) : Option String → String
  | some expr =>
    "HTML: " ++ rt.package ++ ".HTMLDirective\x7bRender: " ++
      closure "string" (" return " ++ expr ++ " ") ++ ",\x7d,"
  | none => ""

/-- The name of an element for later reference. -/
def reference : Option String → String
  | some name => "RefName: " ++ Host.quote name ++ ","
  | none => ""

/-- The mark of a pointer element. -/
def pointer (isPointer : Bool) : String :=
  if isPointer then "IsPointer: true," else ""

/-- The first argument of an element's call: all but its children. -/
def elementBody (rt : Runtime) (d : Descriptor) : String :=
  "&" ++ rt.package ++ ".E\x7bTag:" ++ Host.quote d.tag ++ ", " ++ rt.handlers d.handlers ++
    rt.attributes d.attrs d.binds ++ rt.rawHtml d.rawHtml ++ reference d.reference ++
    pointer d.isPointer ++ "\x7d,"

/-- The call that builds an element around the code of its children. -/
def element (rt : Runtime) (d : Descriptor) (children : String) : String :=
  rt.package ++ ".NE(" ++ rt.elementBody d ++ children ++ ")"

/-! ### Control flow -/

/-- The name of the `n`-th loop's list of results. -/
def loopName (n : Nat) : String :=
  "loop" ++ toString n

/-- Builds the element once per turn of the clause and gathers the results. -/
def loop (clause element name : String) : String :=
  selfEvaluating listType <|
    "var " ++ name ++ " " ++ listType ++ "; for " ++ clause ++ " \x7b " ++ name ++ " = append(" ++
      name ++ ", " ++ element ++ ") \x7d; return " ++ name

/-- The first arm of a chain. -/
def ifArm (condition code : String) : String :=
  "if " ++ condition ++ " \x7b\n\treturn " ++ code ++ "\n\x7d"

/-- A further arm of a chain. -/
def elseIfArm (condition code : String) : String :=
  " else if " ++ condition ++ " \x7b\n\treturn " ++ code ++ "\n\x7d"

/-- The last arm of a chain. -/
def elseArm (code : String) : String :=
  " else \x7b\n\treturn " ++ code ++ "\n\x7d"

/-- A chain of alternatives; it has no value when no arm applies. -/
def chain (arms : String) : String :=
  selfEvaluating anyType ("\n" ++ arms ++ "\nreturn nil\n")

/-- An arm of a switch. -/
def caseArm (value code : String) : String :=
  "\tcase " ++ value ++ ":\n\t\treturn " ++ code ++ "\n"

/-- The arm of a switch for all other values. -/
def defaultArm (code : String) : String :=
  "\tdefault:\n\t\treturn " ++ code ++ "\n"

/-- A switch over a value. -/
def switch (target arms : String) : String :=
  selfEvaluating anyType ("\n\tswitch " ++ target ++ " \x7b\n" ++ arms ++ "\t\x7d\n\treturn nil\n")

/-! ### Components -/

/-- The content that the current component was given for a slot. -/
def slot (name : String) : String :=
  "e.Slots[" ++ Host.quote name ++ "]"

/-- The body that the current component was given. -/
def body (rt : Runtime) : String :=
  rt.package ++ ".NE(&" ++ rt.package ++ ".E\x7b\x7d, e.Compile)"

/-- A template handed to a component: a function of the component's values. -/
def template (preamble code : String) : String :=
  "func(values ..." ++ anyType ++ ") " ++ listType ++ " \x7b\n" ++ preamble ++ "\nreturn " ++
    listType ++ "\x7b" ++ code ++ "\x7d \x7d"

/-- The parts of a component's configuration that are not empty. -/
def configurationParts (rt : Runtime) (body : String) (slots templates attrs : Dict) : String :=
  (if body = "" then "" else "Body: " ++ listType ++ "\x7b" ++ body ++ "\x7d,") ++
  (if slots.isEmpty then ""
    else "Slots: map[string]" ++ anyType ++ "\x7b" ++ entries slots ++ "\x7d,") ++
  (if templates.isEmpty then ""
    else "Templates: map[string]" ++ rt.package ++ ".Template\x7b" ++ entries templates ++
      "\x7d,") ++
  (if attrs.isEmpty then ""
    else "Attrs: map[string]string\x7b" ++ quotedEntries attrs ++ "\x7d,")

/-- The configuration argument of a component, unless every part of it is empty. -/
def configuration (rt : Runtime) (body : String) (slots templates attrs : Dict) :
    Option String :=
  match rt.configurationParts body slots templates attrs with
  | "" => none
  | parts => some (rt.package ++ ".External\x7b" ++ parts ++ "\x7d")

/-- Gives a call one more argument at the end. The call ends with its closing bracket. -/
def appendArgument (call argument : String) : String :=
  let head := Text.dropLast call
  if Text.endsWith '(' (Text.trimEnd head) then
    head ++ argument ++ ")"
  else
    head ++ ", " ++ argument ++ ")"

/-- A function that returns an element. -/
def elementFunction (rt : Runtime) (code : String) : String :=
  "func() *" ++ rt.package ++ ".E \x7breturn " ++ code ++ "\x7d"

end Runtime

end Stencil
