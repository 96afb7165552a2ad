import Stencil.Template.Directive

/-!
# Diagnostics

Everything that can go wrong is a `Cause`. A cause has a code, and the code decides the
category and the hint that go with it. A `Diagnostic` is a cause with the place where it
arose: the opening tag, the block of the host file, and the file. Each part of the place is
set once, by the innermost layer that knows it, and later layers do not change it.
-/

namespace Stencil

/-- The identity of an error to the user. -/
inductive Code where
  | missingAttribute
  | orphanBranch
  | orphanCase
  | directiveConflict
  | switchChild
  | duplicateKey
  | componentCall
  | tagDirective
  | parse
  | io
  /-- A code outside the list. -/
  | other (name : String)
deriving DecidableEq, Repr

/-- The kinds of error. -/
inductive Category where
  /-- A tag misses an attribute or has children it cannot have. -/
  | structural
  /-- An alternative without the construct that opens it. -/
  | controlFlow
  /-- The markup cannot be read. -/
  | parse
  /-- Files cannot be read or written. -/
  | io
deriving DecidableEq, Repr

/-- The name of a category. -/
def Category.name : Category → String
  | structural => "structure"
  | controlFlow => "control-flow"
  | parse => "parse"
  | io => "io"

namespace Code

/-- The text of a code. -/
def name : Code → String
  | missingAttribute => "HTMLC-MISSING-ATTR"
  | orphanBranch => "HTMLC-ORPHAN-BRANCH"
  | orphanCase => "HTMLC-ORPHAN-CASE"
  | directiveConflict => "HTMLC-DIRECTIVE-CONFLICT"
  | switchChild => "HTMLC-SWITCH-CHILD"
  | duplicateKey => "HTMLC-DUPLICATE-KEY"
  | componentCall => "HTMLC-COMPONENT-CALL"
  | tagDirective => "HTMLC-TAG-DIRECTIVE"
  | parse => "HTMLC-PARSE"
  | io => "HTMLC-IO"
  | other name => name

/-- The codes of the list. -/
def listed : List Code :=
  [missingAttribute, orphanBranch, orphanCase, directiveConflict, switchChild, duplicateKey,
    componentCall, tagDirective, parse, io]

/-- The code with a given text. -/
def ofName (text : String) : Code :=
  match listed.find? fun code => code.name == text with
  | some code => code
  | none => other text

/-- The category of a code. -/
def category : Code → Category
  | orphanBranch | orphanCase => .controlFlow
  | parse => .parse
  | io => .io
  | _ => .structural

/-- What to look at when the error appears, for a code of the list. -/
def hint? : Code → Option String
  | missingAttribute => some
    "`e` and `g-switch` need a `run` attribute; `g-slot` and component templates need `name`."
  | orphanBranch => some "`g-else-if` and `g-else` must directly follow a `g-if` sibling."
  | orphanCase => some "`g-case` and `g-default` are only valid on children of a switch."
  | directiveConflict => some
    "An element may carry at most one of g-if, g-else-if, g-else, g-case, g-default."
  | switchChild => some "Every child of a switch must carry `g-case` or `g-default`."
  | duplicateKey => some "Slot names, template names and default arms must be unique."
  | componentCall => some
    "The `run` attribute of `e` must be a call expression such as `Card()`."
  | tagDirective => some <|
    "`e`, `g-slot`, `g-body` and `g-switch` accept only g-if, g-else-if, g-else, g-case, " ++
    "g-default and g-for; `template` accepts none and slot content cannot be a branch."
  | parse => some "The block could not be parsed as markup."
  | io => some "Check that the path exists and is readable."
  | other _ => none

/-- Reading a code's text gives a code with that text. -/
theorem name_ofName (text : String) : (ofName text).name = text := by
  unfold ofName
  split
  · rename_i code h
    simpa using List.find?_some h
  · rfl

end Code

/-- What went wrong. -/
inductive Cause where
  /-- Two directives that place an element among its siblings, in source order. -/
  | branchConflict (tag : String) (first second : Directive)
  /-- An attribute that a component tag does not take. -/
  | unsupportedAttribute (tag key : String)
  /-- An alternative as the content of a slot. -/
  | branchInSlot (slot : String)
  /-- A tag without an attribute that it needs. -/
  | missingAttribute (tag key : String)
  /-- A component whose expression is not a call. -/
  | notACall (run : String)
  /-- Two contents for one slot. -/
  | repeatedSlot (name : String)
  /-- Two templates of one name. -/
  | repeatedTemplate (name : String)
  /-- Two default arms in one switch. -/
  | repeatedDefault
  /-- Text between the arms of a switch. -/
  | textInSwitch (text : String)
  /-- An element of a switch that is no arm. -/
  | notAnArm
  /-- An alternative without an opening condition before it. -/
  | orphanBranch (directive : Directive)
  /-- An arm outside a switch. -/
  | orphanCase (directive : Directive)
  /-- A file operation that failed. -/
  | io (path reason : String)
  /-- Options that cannot be read. -/
  | invalidOptions (reason : String)
  /-- An error with a code and a text of its own. -/
  | reported (code : Code) (message : String)
deriving DecidableEq, Repr

namespace Cause

/-- The code of a cause. -/
def code : Cause → Code
  | branchConflict .. => .directiveConflict
  | unsupportedAttribute .. | branchInSlot _ => .tagDirective
  | missingAttribute .. => .missingAttribute
  | notACall _ => .componentCall
  | repeatedSlot _ | repeatedTemplate _ | repeatedDefault => .duplicateKey
  | textInSwitch _ | notAnArm => .switchChild
  | orphanBranch _ => .orphanBranch
  | orphanCase _ => .orphanCase
  | io .. | invalidOptions _ => .io
  | reported code _ => code

/-- The text of a cause. -/
def message : Cause → String
  | branchConflict tag first second =>
    "`" ++ second.key ++ "` cannot be combined with `" ++ first.key ++ "` on <" ++ tag ++ ">"
  | unsupportedAttribute tag key => "`" ++ key ++ "` is not supported on <" ++ tag ++ ">"
  | branchInSlot slot => "content of slot `" ++ slot ++ "` cannot be a branch"
  | missingAttribute tag key => "<" ++ tag ++ "> requires a `" ++ key ++ "` attribute"
  | notACall run => "`" ++ run ++ "` is not a call expression"
  | repeatedSlot name => "slot `" ++ name ++ "` is defined twice"
  | repeatedTemplate name => "template `" ++ name ++ "` is defined twice"
  | repeatedDefault => "switch has more than one g-default arm"
  | textInSwitch text => "text `" ++ text ++ "` cannot be a switch arm"
  | notAnArm => "switch child has neither g-case nor g-default"
  | orphanBranch directive => "invalid " ++ directive.key ++ ": no g-if before"
  | orphanCase directive => "invalid " ++ directive.key ++ ": not inside a switch"
  | io path reason => path ++ ": " ++ reason
  | invalidOptions reason => "invalid configuration: " ++ reason
  | reported _ message => message

end Cause

/-- A block of a host file: its name and the byte offsets of its token. -/
structure Span where
  block : String
  start : Nat
  stop : Nat
deriving DecidableEq, Repr

/-- A cause and the place where it arose. -/
structure Diagnostic where
  cause : Cause
  /-- The opening tag of the element at fault. -/
  context : Option String := none
  /-- The block in which it stands. -/
  span : Option Span := none
  /-- The file at fault. -/
  file : Option String := none
deriving DecidableEq, Repr

namespace Diagnostic

/-- A failed operation on a file. -/
def io (path reason : String) : Diagnostic :=
  { cause := .io path reason, file := some path }

/-- Sets the element at fault, unless an inner one is known. -/
def inContext (d : Diagnostic) (context : String) : Diagnostic :=
  { d with context := d.context <|> some context }

/-- Sets the block, unless it is known. -/
def inSpan (d : Diagnostic) (span : Span) : Diagnostic :=
  { d with span := d.span <|> some span }

/-- Sets the file, unless it is known. -/
def inFile (d : Diagnostic) (file : String) : Diagnostic :=
  { d with file := d.file <|> some file }

/-- The code of the error. -/
def code (d : Diagnostic) : Code := d.cause.code

/-- The text of the error without its place. -/
def message (d : Diagnostic) : String := d.cause.message

/-- The error on one line: code, text, and as much of the place as is known. -/
def render (d : Diagnostic) : String :=
  "[" ++ d.code.name ++ "] " ++ d.message ++
    (match d.context with
      | some context => " at " ++ context
      | none => "") ++
    (match d.span with
      | some span =>
        " in block `" ++ span.block ++ "` (" ++ toString span.start ++ ".." ++
          toString span.stop ++ ")"
      | none => "") ++
    (match d.file with
      | some file => " of " ++ file
      | none => "")

@[simp] theorem cause_inContext (d : Diagnostic) (context : String) :
    (d.inContext context).cause = d.cause := rfl

/-- A known context stays. -/
theorem inContext_inContext (d : Diagnostic) (inner outer : String) :
    (d.inContext inner).inContext outer = d.inContext inner := by
  unfold inContext
  cases d.context <;> rfl

end Diagnostic

end Stencil
