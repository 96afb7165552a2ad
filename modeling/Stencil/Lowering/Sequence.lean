import Stencil.Host.Runtime

/-!
# Sequences of siblings

The code of siblings is written one after the other, with a separator after every sibling
but comments. A `Sequence` is such code with its last separator marked, so that a block can
leave that one out even when comments follow it. `Siblings` adds the chain of alternatives
that is being gathered: a condition opens it, further alternatives extend it, and anything
else, or the end, writes it out as one sibling.
-/

namespace Stencil

/-- The code of a node, and what is known of the node. -/
inductive Fragment where
  | text (code : String)
  | comment (code : String)
  | element (code : String) (descriptor : Descriptor)
deriving DecidableEq, Repr

namespace Fragment

/-- The code of a node. -/
def code : Fragment → String
  | text code | comment code | element code _ => code

/-- The part that the node plays among its siblings. -/
def branch? : Fragment → Option Branch
  | element _ descriptor => descriptor.branch
  | text _ | comment _ => none

end Fragment

/-- The mark between siblings. -/
def separator : String := ","

/-- Code of siblings, with its last separator marked. -/
structure Sequence where
  /-- The code up to the last separator, or all of it when there is none. -/
  before : String := ""
  /-- The code after the last separator, when there is one. -/
  after : Option String := none
deriving DecidableEq, Repr

namespace Sequence

/-- The code, with all its separators. -/
def code (s : Sequence) : String :=
  match s.after with
  | none => s.before
  | some after => s.before ++ separator ++ after

/-- The code without its last separator. -/
def withoutLast (s : Sequence) : String :=
  s.before ++ s.after.getD ""

/-- Adds code that no separator follows. -/
def pushBare (s : Sequence) (code : String) : Sequence :=
  match s.after with
  | none => { before := s.before ++ code }
  | some after => { s with after := some (after ++ code) }

/-- Adds code and a separator. -/
def pushSeparated (s : Sequence) (code : String) : Sequence :=
  { before := s.code ++ code, after := some "" }

/-- Adds code that ends in a separator and white space. -/
def pushEnded (s : Sequence) (code : String) : Sequence :=
  let kept := Text.trimEnd code
  { before := s.code ++ Text.dropLast kept
    after := some (String.ofList (code.toList.drop kept.length)) }

/-- The code ends in a separator, apart from white space. -/
def endsSeparated (code : String) : Bool :=
  Text.endsWith ',' (Text.trimEnd code)

/-- Adds the code of a sibling, and a separator unless the code ends in one. -/
def push (s : Sequence) (code : String) : Sequence :=
  if endsSeparated code then s.pushEnded code else s.pushSeparated code

end Sequence

/-- Siblings on the way: what is written, and the chain that is open. -/
structure Siblings where
  done : Sequence := {}
  /-- The arms of the open chain. -/
  chain : Option String := none
deriving DecidableEq, Repr

namespace Siblings

/-- The sequence with the open chain written out. -/
def finish (s : Siblings) : Sequence :=
  match s.chain with
  | some arms => s.done.pushSeparated (Runtime.chain arms)
  | none => s.done

/-- An alternative whose chain was never opened, or an arm outside a switch. -/
def orphan (descriptor : Descriptor) (branch : Branch) (cause : Directive → Cause) :
    Diagnostic :=
  { cause := cause branch.directive
    context := some ("<" ++ descriptor.tag ++ " " ++ branch.directive.key ++ ">") }

/-- Adds an arm to the open chain. -/
def extend (s : Siblings) (descriptor : Descriptor) (branch : Branch) (arm : String) :
    Except Diagnostic Siblings :=
  match s.chain with
  | some arms => .ok { s with chain := some (arms ++ arm) }
  | none => .error (orphan descriptor branch .orphanBranch)

/-- Adds an element by the part that it plays. -/
def pushElement (s : Siblings) (code : String) (descriptor : Descriptor) :
    Except Diagnostic Siblings :=
  match descriptor.branch with
  | none => .ok { done := s.finish.push code }
  | some (.ifCond condition) =>
    .ok { done := s.finish, chain := some (Runtime.ifArm condition code) }
  | some (.elseIf condition) =>
    s.extend descriptor (.elseIf condition) (Runtime.elseIfArm condition code)
  | some .otherwise => do
    let extended ← s.extend descriptor .otherwise (Runtime.elseArm code)
    return { done := extended.finish }
  | some (.case value) => .error (orphan descriptor (.case value) .orphanCase)
  | some .default => .error (orphan descriptor .default .orphanCase)

/-- Adds the next sibling. One without code is passed over and leaves an open chain open. -/
def push (s : Siblings) (fragment : Fragment) : Except Diagnostic Siblings :=
  if fragment.code = "" then
    .ok s
  else
    match fragment with
    | .text code => .ok { done := s.finish.push code }
    | .comment code => .ok { done := s.finish.pushBare code }
    | .element code descriptor => s.pushElement code descriptor

end Siblings

end Stencil
