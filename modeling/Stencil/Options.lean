import Stencil.Diagnostic
import Stencil.Json.Read

/-!
# Options

How a project is compiled. Options are read from JSON: an object with any of the fields, or a
list of the values in the order of the fields, with the last ones left out or not. A missing
field has its default, a field that is not known is passed over, and a known field that stands
twice or has a value of another kind is an error.

The fingerprint of options is their compact JSON text, with all fields in order.
-/

namespace Stencil

/-- How a project is compiled. -/
structure Options where
  /-- The package that the generated calls refer to. -/
  runtime : String := "gas"
  /-- The extensions of source files, without the dot. -/
  extensions : List String := ["gos"]
  /-- What an output has in its name instead of the extension. -/
  outputSuffix : String := "_gas.go"
  /-- The directory of the cache. -/
  cacheDir : String := ".htmlc/cache"
  /-- Outputs are kept in the cache, and taken from it. -/
  useCache : Bool := true
  /-- Paths with one of these in them are not looked at. -/
  ignore : List String := ["vendor", ".git"]
deriving DecidableEq, Repr, Inhabited

namespace Options

/-- The options as JSON. -/
def toJson (o : Options) : Json :=
  .ofMembers
    [("runtime", .string (some o.runtime)), ("extensions", .ofTexts o.extensions),
      ("outputSuffix", .string (some o.outputSuffix)), ("cacheDir", .string (some o.cacheDir)),
      ("useCache", .bool o.useCache), ("ignore", .ofTexts o.ignore)]

/-- The text that tells options apart. -/
def fingerprint (o : Options) : String := o.toJson.render

/-- The fields of the options. -/
inductive Field where
  | runtime
  | extensions
  | outputSuffix
  | cacheDir
  | useCache
  | ignore
deriving DecidableEq, Repr

namespace Field

/-- The fields in order. -/
def all : List Field := [runtime, extensions, outputSuffix, cacheDir, useCache, ignore]

/-- The key of a field. -/
def key : Field → String
  | runtime => "runtime"
  | extensions => "extensions"
  | outputSuffix => "outputSuffix"
  | cacheDir => "cacheDir"
  | useCache => "useCache"
  | ignore => "ignore"

/-- The field with a key. -/
def ofKey? (key : String) : Option Field :=
  all.find? fun field => field.key == key

end Field

/-- Sets a field from its value, if the value is of the right kind. -/
def set? (o : Options) (value : Json) : Field → Option Options
  | .runtime => value.text?.map fun text => { o with runtime := text }
  | .extensions => value.texts?.map fun texts => { o with extensions := texts }
  | .outputSuffix => value.text?.map fun text => { o with outputSuffix := text }
  | .cacheDir => value.text?.map fun text => { o with cacheDir := text }
  | .useCache => value.bool?.map fun b => { o with useCache := b }
  | .ignore => value.texts?.map fun texts => { o with ignore := texts }

/-- Sets a field, or tells that it cannot be. -/
def set (o : Options) (field : Field) (value : Json) : Except String Options :=
  match o.set? value field with
  | some o => .ok o
  | none => .error ("wrong kind of value for `" ++ field.key ++ "`")

/-- Sets the fields of an object. `seen` are the fields that stood before. -/
def ofMembers (o : Options) (seen : List Field) :
    List (Option String × Json) → Except String Options
  | [] => .ok o
  | (key, value) :: rest =>
    match key with
    | none => .error "a key is not text"
    | some key =>
      match Field.ofKey? key with
      | none => ofMembers o seen rest
      | some field =>
        if seen.contains field then
          .error ("`" ++ key ++ "` stands twice")
        else
          match o.set field value with
          | .ok o => ofMembers o (field :: seen) rest
          | .error reason => .error reason

/-- Sets the first fields from a list of values. -/
def ofItems (o : Options) : List Field → List Json → Except String Options
  | _, [] => .ok o
  | [], _ :: _ => .error "too many values"
  | field :: fields, value :: rest =>
    match o.set field value with
    | .ok o => ofItems o fields rest
    | .error reason => .error reason

/-- The options of a JSON value. -/
def ofJson : Json → Except String Options
  | .object members => ofMembers {} [] members
  | .array items => ofItems {} Field.all items
  | _ => .error "neither an object nor a list"

/-- The options of a JSON text. -/
def parse (text : String) : Except Diagnostic Options :=
  match Json.parse? text with
  | none => .error { cause := .invalidOptions "not JSON" }
  | some value =>
    match ofJson value with
    | .ok o => .ok o
    | .error reason => .error { cause := .invalidOptions reason }

end Options

end Stencil
