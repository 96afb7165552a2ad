import Stencil.Markup.Token
import Stencil.Markup.Vocabulary

/-!
# Trees on the way

While markup is read, the elements whose end has not come yet are open, each inside the one
before it. `Tree` keeps them innermost first, each with the children that are complete. Below
the outermost one stands the fragment itself, which counts as an element that every search
stops at.

Two things disturb the nesting. An element may be ended while elements inside it are still
open: it then becomes a wrapper of the next one, and is complete together with it. And content
that has no place between the parts of a table is put before the table, while the table stays
open; in a template that holds parts of a table without the table, it is put after them.
-/

namespace Stencil.Markup

/-- Adds a node to nodes that are given last first. Text joins the text before it. -/
def push (node : Node) (nodes : List Node) : List Node :=
  match node, nodes with
  | .text new, .text old :: rest => .text (old ++ new) :: rest
  | node, nodes => node :: nodes

/-- An element that was ended out of turn, around one that is still open. -/
structure Wrapper where
  tag : Tag
  /-- The children before the open one, last first. -/
  children : List Node
deriving Repr

/-- An element whose end has not come yet. -/
structure Frame where
  /-- Tells the element from all others of its tree. -/
  label : Nat
  vocabulary : Vocabulary
  tag : Tag
  /-- The complete children, last first. -/
  children : List Node := []
  /-- The elements around this one that were ended out of turn, innermost first. -/
  wrappers : List Wrapper := []
  /-- The element goes out of the table that it was found in. -/
  fostered : Bool := false
  /-- The complete nodes that follow the element although it is open, last first. -/
  after : List Node := []
deriving Repr

namespace Frame

/-- The name of the element. -/
def name (f : Frame) : String := f.tag.name

/-- An element of hypertext with one of the names. -/
def isOneOf (f : Frame) (names : List String) : Bool :=
  f.vocabulary = .html && names.contains f.name

/-- An element of hypertext with the name. -/
def isNamed (f : Frame) (name : String) : Bool :=
  f.vocabulary = .html && f.name = name

/-- A node, if there is one, inside wrappers. -/
def wrap (node : Option Node) (wrappers : List Wrapper) : Option Node :=
  wrappers.foldl (fun inner w => some (.element w.tag (inner.toList ++ w.children).reverse)) node

/-- The element with the children it has, inside its wrappers. -/
def node (f : Frame) : Node :=
  let element := .element f.tag f.children.reverse
  (wrap (some element) f.wrappers).getD element

/-- An element of a formula or drawing in which text and tags are those of hypertext. -/
def holdsHypertext (f : Frame) : Bool :=
  match f.vocabulary with
  | .math => Vocabulary.mathText.contains f.name
  | .svg => Vocabulary.svgHypertext.contains f.name
  | .html => false

/-- The element is one that searches do not leave. -/
def isBoundary (f : Frame) : Bool :=
  f.isOneOf Vocabulary.boundaries || f.holdsHypertext

/-- The element is one that an end tag of another name does not look past. -/
def isSpecial (f : Frame) : Bool := f.isOneOf Vocabulary.specials

end Frame

/-- The rules by which tokens are taken, by the kind of place that is open. -/
inductive Mode where
  | body
  | table
  | caption
  | columnGroup
  | tableBody
  | row
  | cell
  | select
  | selectInTable
  | template
  /-- In an element whose content is text up to its end tag. -/
  | rawText
deriving DecidableEq, Repr

/-- What is remembered of the elements that set the form of text: each with its tag, and where
an element began that keeps the form of its content to itself. -/
inductive Formatting where
  | marker
  | element (label : Nat) (tag : Tag)
deriving DecidableEq, Repr

/-- Markup as far as it has been read. -/
structure Tree where
  /-- The open elements, innermost first. -/
  frames : List Frame := []
  /-- The complete nodes of the fragment, last first. -/
  top : List Node := []
  /-- The label of the next element. -/
  next : Nat := 0
  mode : Mode := .body
  /-- The rules to go back to after text up to an end tag. -/
  resume : Mode := .body
  /-- The rules inside the open templates, innermost first. -/
  templates : List Mode := []
  /-- The form that the end tag of a form ends. -/
  form : Option Nat := none
  /-- The elements that set the form of text, newest first. -/
  formatting : List Formatting := []
  /-- The token at hand has no place between the parts of a table. -/
  fostering : Bool := false
  /-- A line feed right after the last tag is dropped. -/
  dropLineFeed : Bool := false
  /-- How text is to be read from here on, if not as ordinary text. -/
  request : Option TextMode := none
deriving Repr

namespace Tree

/-! ### The innermost element -/

/-- The innermost element has the name. -/
def currentIs (t : Tree) (name : String) : Bool :=
  match t.frames with
  | f :: _ => f.isNamed name
  | [] => false

/-- The innermost element has one of the names. -/
def currentIn (t : Tree) (names : List String) : Bool :=
  match t.frames with
  | f :: _ => f.isOneOf names
  | [] => false

/-- Content added now goes out of the table. -/
def isStray (t : Tree) : Bool := t.fostering && t.currentIn Vocabulary.tableParts

/-! ### Adding nodes -/

/-- Hands a complete node to the innermost of the frames, or to the fragment. -/
def give (node : Node) : List Frame → List Node → List Frame × List Node
  | [], top => ([], push node top)
  | f :: rest, top => ({ f with children := push node f.children } :: rest, top)

/-- Hands a complete node to what stands around the innermost table, where it comes before the
table; or to a template that is found first, where it comes after what is open in it. -/
def giveOutOfTable (node : Node) : List Frame → List Node → List Frame × List Node
  | [], top => ([], push node top)
  | f :: rest, top =>
    if f.isNamed "table" then
      match f.wrappers with
      | w :: outer =>
        let w := { w with children := push node w.children }
        ({ f with wrappers := w :: outer } :: rest, top)
      | [] =>
        let (rest, top) := give node rest top
        (f :: rest, top)
    else if rest.head?.any fun g => g.isNamed "template" then
      ({ f with after := push node f.after } :: rest, top)
    else
      let (rest, top) := giveOutOfTable node rest top
      (f :: rest, top)

/-- Adds a complete node. -/
def append (t : Tree) (node : Node) : Tree :=
  let (frames, top) :=
    if t.isStray then giveOutOfTable node t.frames t.top else give node t.frames t.top
  { t with frames, top }

/-- Adds text, if there is any. -/
def appendText (t : Tree) (chars : List Char) : Tree :=
  if chars.isEmpty then t else t.append (.text (String.ofList chars))

/-- Opens an element. -/
def insertIn (t : Tree) (vocabulary : Vocabulary) (tag : Tag) : Tree :=
  { t with
    frames := { label := t.next, vocabulary, tag, fostered := t.isStray } :: t.frames
    next := t.next + 1 }

/-- Opens an element of hypertext. -/
def insert (t : Tree) (tag : Tag) : Tree := t.insertIn .html tag

/-- Opens an element that no tag was written for. -/
def insertImplied (t : Tree) (name : String) : Tree := t.insert ⟨name, []⟩

/-- Adds an element without children. -/
def insertVoid (t : Tree) (tag : Tag) : Tree := t.append (.element tag [])

/-! ### Closing elements -/

/-- Hands a complete element, and what follows it, to its place in the frames around it. -/
def settle (f : Frame) (rest : List Frame) (top : List Node) : List Frame × List Node :=
  f.after.foldr (fun node (rest, top) => give node rest top)
    (if f.fostered then giveOutOfTable f.node rest top else give f.node rest top)

/-- Completes the innermost element. -/
def pop (t : Tree) : Tree :=
  match t.frames with
  | f :: rest =>
    let (frames, top) := settle f rest t.top
    { t with frames, top }
  | [] => t

/-- Completes elements until one is completed that meets the condition, or all are. -/
def popThrough (t : Tree) (stop : Frame → Bool) : Tree :=
  go t.frames.length t
where
  go : Nat → Tree → Tree
    | 0, t => t
    | n + 1, t =>
      match t.frames with
      | f :: _ => if stop f then t.pop else go n t.pop
      | [] => t

/-- Completes elements while the innermost one meets the condition. -/
def popWhile (t : Tree) (drop : Frame → Bool) : Tree :=
  go t.frames.length t
where
  go : Nat → Tree → Tree
    | 0, t => t
    | n + 1, t =>
      match t.frames with
      | f :: _ => if drop f then go n t.pop else t
      | [] => t

/-- Completes elements through the innermost one with the name. -/
def close (t : Tree) (name : String) : Tree := t.popThrough fun f => f.isNamed name

/-- Completes the elements whose end tag may be left out, but those of one name. -/
def closeImplied (t : Tree) (but : Option String) : Tree :=
  t.popWhile fun f => f.isOneOf Vocabulary.implied && some f.name != but

/-- The frames without one of them, which becomes a wrapper of the frame inside it. -/
def unframe (label : Nat) : List Frame → List Frame
  | inner :: f :: rest =>
    if f.label = label then
      { inner with
        wrappers := inner.wrappers ++ ⟨f.tag, f.children⟩ :: f.wrappers
        fostered := f.fostered
        after := f.after } :: rest
    else inner :: unframe label (f :: rest)
  | frames => frames

/-- Ends an element out of turn: the elements inside it stay open. -/
def remove (t : Tree) (label : Nat) : Tree :=
  match t.frames with
  | f :: _ => if f.label = label then t.pop else { t with frames := unframe label t.frames }
  | [] => t

/-! ### Searching -/

/-- Some open element has the name. -/
def hasOpen (t : Tree) (name : String) : Bool :=
  t.frames.any fun f => f.isNamed name

/-- An element that meets the condition is found before one that stops the search. -/
def found (target stop : Frame → Bool) : List Frame → Bool
  | [] => false
  | f :: rest => target f || (!stop f && found target stop rest)

/-- An element that meets the condition is in scope. -/
def inScopeOf (t : Tree) (target : Frame → Bool) : Bool :=
  found target Frame.isBoundary t.frames

/-- An element with the name is in scope. -/
def inScope (t : Tree) (name : String) : Bool :=
  t.inScopeOf fun f => f.isNamed name

/-- An element with the name is in scope, where further names stop the search. -/
def inScopeBut (t : Tree) (name : String) (stops : List String) : Bool :=
  found (fun f => f.isNamed name) (fun f => f.isBoundary || f.isOneOf stops) t.frames

/-- An element that meets the condition is in the innermost table. -/
def inTableScopeOf (t : Tree) (target : Frame → Bool) : Bool :=
  found target (fun f => f.isOneOf ["table", "template"]) t.frames

/-- An element with the name is in the innermost table. -/
def inTableScope (t : Tree) (name : String) : Bool :=
  t.inTableScopeOf fun f => f.isNamed name

/-- A selection is open with nothing but its options inside it. -/
def inSelectScope (t : Tree) : Bool :=
  found (fun f => f.isNamed "select") (fun f => !f.isOneOf ["optgroup", "option"]) t.frames

/-- Ends an open paragraph, if there is one before the innermost button. -/
def closeParagraph (t : Tree) : Tree :=
  if t.inScopeBut "p" ["button"] then (t.closeImplied (some "p")).close "p" else t

/-- An end tag without a rule of its own: it ends the element of its name, unless one that is
not looked past stands in between. -/
def endOther (t : Tree) (name : String) : Tree :=
  match t.frames.find? fun f => f.isNamed name || f.isSpecial with
  | some f => if f.isNamed name then (t.closeImplied (some name)).close name else t
  | none => t

/-! ### Rules by what is open -/

/-- The rules for what the open elements are. -/
def modeOf (templates : List Mode) : List Frame → Mode
  | [] => .body
  | f :: rest =>
    if f.vocabulary = .html then
      match f.name with
      | "select" =>
        if found (fun g => g.isNamed "table") (fun g => g.isNamed "template") rest then
          .selectInTable
        else
          .select
      | "td" | "th" => .cell
      | "tr" => .row
      | "tbody" | "thead" | "tfoot" => .tableBody
      | "caption" => .caption
      | "colgroup" => .columnGroup
      | "table" => .table
      | "template" => templates.head?.getD .body
      | _ => modeOf templates rest
    else
      modeOf templates rest

/-- Goes by the rules for what is open. -/
def resetMode (t : Tree) : Tree := { t with mode := modeOf t.templates t.frames }

/-- The tree by other rules. -/
def under (t : Tree) (mode : Mode) : Tree := { t with mode }

/-- Opens an element whose content is text up to its end tag. -/
def insertRaw (t : Tree) (tag : Tag) (text : TextMode) : Tree :=
  { t.insert tag with mode := .rawText, resume := t.mode, request := some text }

/-- The nodes of the fragment when the markup ends: all open elements are complete. -/
def finish (t : Tree) : List Node :=
  (t.popThrough fun _ => false).top.reverse

end Tree

end Stencil.Markup
