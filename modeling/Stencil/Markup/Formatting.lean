import Stencil.Markup.Tree

/-!
# Elements that set the form of text

An element such as `b` or `i` may be left open when its parent ends, and its effect then goes on:
the next text, or the next element in a line of text, opens it again (`Tree.reopen`). Formulas
and drawings do not, as they have a form of their own. An end tag may also come while blocks are
open inside the element. The element then ends before the outermost of these blocks and begins
again inside it (`Tree.endFormatting`), so that the form ends where its end tag stands.

The tree remembers these elements. Some elements, such as cells of a table, keep the form of
their content to themselves; a marker shows where one of them began.
-/

namespace Stencil.Markup

namespace Formatting

/-- The entry is the element's. -/
def isOf (label : Nat) : Formatting → Bool
  | marker => false
  | element other _ => other = label

/-- The label and tag of an element. -/
def element? : Formatting → Option (Nat × Tag)
  | marker => none
  | element label tag => some (label, tag)

/-- The elements after the last marker, newest first. -/
def recent (entries : List Formatting) : List (Nat × Tag) :=
  (entries.takeWhile fun e => e.element?.isSome).filterMap element?

/-- The entries before the last marker. -/
def beforeMarker (entries : List Formatting) : List Formatting :=
  (entries.dropWhile fun e => e.element?.isSome).tail

/-- The entries without one element. -/
def forget (label : Nat) (entries : List Formatting) : List Formatting :=
  entries.filter fun e => !e.isOf label

/-- The tags are alike: the order of attributes does not matter. -/
def alike (a b : Tag) : Bool :=
  a.name = b.name && a.attributes.length = b.attributes.length &&
    a.attributes.all fun x => b.attributes.contains x

/-- The entries with room for one more element: of three that are alike, the oldest is
forgotten. -/
def withRoom (tag : Tag) (entries : List Formatting) : List Formatting :=
  let same := (recent entries).filter fun e => alike tag e.2
  match same.getLast? with
  | some oldest => if same.length < 3 then entries else forget oldest.1 entries
  | none => entries

end Formatting

namespace Tree

/-- Some open element has the label. -/
def isOpen (t : Tree) (label : Nat) : Bool := t.frames.any fun f => f.label = label

/-- The element is remembered for the form of text. -/
def isFormatting (t : Tree) (label : Nat) : Bool := t.formatting.any fun e => e.isOf label

/-- Forgets an element. -/
def forget (t : Tree) (label : Nat) : Tree :=
  { t with formatting := Formatting.forget label t.formatting }

/-- Begins a place that keeps the form of text to itself. -/
def mark (t : Tree) : Tree := { t with formatting := .marker :: t.formatting }

/-- Ends such a place. -/
def unmark (t : Tree) : Tree := { t with formatting := Formatting.beforeMarker t.formatting }

/-- Opens an element and remembers it. -/
def insertRemembered (t : Tree) (tag : Tag) : Tree :=
  { t.insert tag with formatting := .element t.next tag :: t.formatting }

/-- Opens an element that sets the form of text. -/
def insertFormatting (t : Tree) (tag : Tag) : Tree :=
  { t with formatting := Formatting.withRoom tag t.formatting }.insertRemembered tag

/-- Opens again, oldest first, the newest elements that have been closed without their end
tag. -/
def reopen (t : Tree) : Tree :=
  let isClosed (e : Formatting) := (e.element?.map fun e => !t.isOpen e.1).getD false
  let closed := (t.formatting.takeWhile isClosed).filterMap Formatting.element?
  closed.reverse.foldl (fun t e => t.insertRemembered e.2)
    { t with formatting := t.formatting.dropWhile isClosed }

/-! ### End tags -/

/-- The elements between an element that sets the form of text and a block inside it, as the
block leaves that element: those that are remembered begin anew around the block. -/
structure Renewal where
  /-- The new elements, outermost first. -/
  frames : List Frame := []
  formatting : List Formatting
  /-- The label of the next element. -/
  next : Nat

namespace Renewal

/-- The next element outwards. Only the first three can begin anew. -/
def add (r : Renewal) (f : Frame) (position : Nat) : Renewal :=
  match (r.formatting.find? fun e => e.isOf f.label).bind Formatting.element? with
  | some (label, tag) =>
    if position < 3 then
      { frames := { label := r.next, vocabulary := .html, tag } :: r.frames
        formatting := r.formatting.map fun e =>
          if e.isOf label then .element r.next tag else e
        next := r.next + 1 }
    else
      { r with formatting := Formatting.forget label r.formatting }
  | none => r

/-- The formatting when the element itself begins anew inside the block: in its old place, or
right after the innermost of the new elements around the block. -/
def replace (r : Renewal) (label : Nat) (tag : Tag) : List Formatting :=
  let anew := .element r.next tag
  match r.frames.getLast? with
  | some innermost =>
    Formatting.forget label
      (r.formatting.flatMap fun e => if e.isOf innermost.label then [anew, e] else [e])
  | none => r.formatting.map fun e => if e.isOf label then anew else e

end Renewal

/-- Moves a block out of an element that sets the form of text, and begins the element anew
inside the block. The elements are given innermost first: those inside the block, the block,
those between it and the element, the element, and those around it. -/
def moveBlock (t : Tree) (inside : List Frame) (block : Frame) (between : List Frame)
    (element : Frame) (around : List Frame) (tag : Tag) : Tree :=
  let renewal := between.zipIdx.foldl (fun r f => r.add f.1 f.2)
    { formatting := t.formatting, next := t.next : Renewal }
  let rest := between.foldl
    (fun inner f => some { f with children := inner.toList ++ f.children }.node)
    (Frame.wrap none block.wrappers)
  let (around, top) :=
    settle { element with children := rest.toList ++ element.children } around t.top
  let fostered := t.fostering && { t with frames := around }.currentIn Vocabulary.tableParts
  let anew : Frame :=
    { label := renewal.next, vocabulary := .html, tag, children := block.children }
  let bare := { block with children := [], wrappers := [], fostered := false }
  let moved :=
    match renewal.frames with
    | outermost :: inner => { outermost with fostered } :: inner ++ [bare]
    | [] => [{ bare with fostered }]
  { t with
    frames := inside ++ anew :: moved.reverse ++ around
    top
    formatting := renewal.replace element.label tag
    next := renewal.next + 1 }

/-- One round for the end tag of an element that sets the form of text: the tree, and whether
another round is to follow. -/
def endFormattingOnce (t : Tree) (name : String) : Tree × Bool :=
  match (Formatting.recent t.formatting).find? fun e => e.2.name = name with
  | none => (t.endOther name, false)
  | some (label, tag) =>
    let isElement (f : Frame) : Bool := f.label = label
    match t.frames.dropWhile fun f => !isElement f with
    | [] => (t.forget label, false)
    | element :: around =>
      if t.inScopeOf isElement then
        let inner := (t.frames.takeWhile fun f => !isElement f).reverse
        let between := inner.takeWhile fun f => !f.isSpecial
        match inner.dropWhile fun f => !f.isSpecial with
        | [] => ((t.popThrough isElement).forget label, false)
        | block :: inside =>
          (t.moveBlock inside.reverse block between.reverse element around tag, true)
      else (t, false)

/-- The end tag of an element that sets the form of text. At most eight blocks are moved. -/
def endFormatting (t : Tree) (name : String) : Tree :=
  match t.frames with
  | f :: _ => if f.isNamed name && !t.isFormatting f.label then t.pop else rounds 8 t
  | [] => rounds 8 t
where
  rounds : Nat → Tree → Tree
    | 0, t => t
    | n + 1, t =>
      match t.endFormattingOnce name with
      | (t, true) => rounds n t
      | (t, false) => t

/-- Ends an earlier link before the next one: links do not nest. -/
def endEarlierLink (t : Tree) : Tree :=
  match (Formatting.recent t.formatting).find? fun e => e.2.name = "a" with
  | some (label, _) => ((t.endFormatting "a").forget label).remove label
  | none => t

end Tree

end Stencil.Markup
