import Stencil.Markup.Content

/-!
# Insertion rules

How a token changes the tree. The rules depend on what is open: ordinary content, the parts of
a table, a selection, a template, a formula or a drawing. Content that has no place between the
parts of a table is taken by the rules of ordinary content, and goes before the table.

A rule either is done with the token, or changes what is open and leaves the token to the rules
for that (`Taken.again`).
-/

namespace Stencil.Markup

/-- What the rules have made of a token. -/
inductive Taken where
  | done (tree : Tree)
  /-- The token is still to be taken, by the rules of the tree's mode. -/
  | again (tree : Tree)
deriving Repr

namespace Tree

/-! ### Tables -/

/-- Completes elements up to the table. -/
def toTable (t : Tree) : Tree :=
  t.popWhile fun f => !f.isOneOf ["table", "template"]

/-- Completes elements up to the group of rows. -/
def toTableBody (t : Tree) : Tree :=
  t.popWhile fun f => !f.isOneOf ["tbody", "tfoot", "thead", "template"]

/-- Completes elements up to the row. -/
def toRow (t : Tree) : Tree :=
  t.popWhile fun f => !f.isOneOf ["tr", "template"]

/-- The input is not shown. -/
def isHidden (tag : Tag) : Bool :=
  tag.attributes.any fun a => a.key == "type" && Vocabulary.lower a.value == "hidden"

/-- White space of markup. -/
def isMarkupSpace (c : Char) : Bool :=
  c = '\t' || c = '\n' || c = '\x0c' || c = '\r' || c = ' '

/-- A token that has no place between the parts of a table. -/
def foster (t : Tree) (token : Token) : Tree :=
  { { t with fostering := true }.inBody token with fostering := false }

/-- Text between the parts of a table. White space stays there. -/
def textInTable (t : Tree) (chars : List Char) : Tree :=
  let chars := visible chars
  if t.currentIn Vocabulary.tableParts && chars.all isMarkupSpace then t.appendText chars
  else t.foster (.text chars)

/-- A token directly in a table. -/
def inTable (t : Tree) : Token → Taken
  | .startTag tag selfClosing =>
    match tag.name with
    | "caption" => .done ((t.toTable.mark.insert tag).under .caption)
    | "colgroup" => .done ((t.toTable.insert tag).under .columnGroup)
    | "col" => .again ((t.toTable.insertImplied "colgroup").under .columnGroup)
    | "tbody" | "tfoot" | "thead" => .done ((t.toTable.insert tag).under .tableBody)
    | "td" | "th" | "tr" => .again ((t.toTable.insertImplied "tbody").under .tableBody)
    | "table" =>
      if t.inTableScope "table" then .again (t.close "table").resetMode else .done t
    | "style" | "script" | "template" => .done (t.startInHead tag)
    | "input" =>
      .done (if isHidden tag then t.insertVoid tag else t.foster (.startTag tag selfClosing))
    | "form" =>
      if !t.hasOpen "template" && t.form.isNone then
        .done { t.insertVoid tag with form := some t.next, next := t.next + 1 }
      else .done t
    | _ => .done (t.foster (.startTag tag selfClosing))
  | .endTag name =>
    match name with
    | "table" => .done (if t.inTableScope "table" then (t.close "table").resetMode else t)
    | "body" | "caption" | "col" | "colgroup" | "html" | "tbody" | "td" | "tfoot" | "th"
    | "thead" | "tr" => .done t
    | "template" => .done t.endTemplate
    | _ => .done (t.foster (.endTag name))
  | .text chars => .done (t.textInTable chars)
  | .comment text => .done (t.append (.comment text))

/-- A token in the caption of a table. -/
def inCaption (t : Tree) (token : Token) : Taken :=
  let ended := ((t.closeImplied none).close "caption").unmark.under .table
  match token with
  | .startTag tag _ =>
    if ["caption", "col", "colgroup", "tbody", "td", "tfoot", "th", "thead", "tr"].contains
        tag.name then
      if t.inTableScope "caption" then .again ended else .done t
    else .done (t.inBody token)
  | .endTag "caption" => .done (if t.inTableScope "caption" then ended else t)
  | .endTag "table" => if t.inTableScope "caption" then .again ended else .done t
  | .endTag name =>
    if ["body", "col", "colgroup", "html", "tbody", "td", "tfoot", "th", "thead", "tr"].contains
        name then .done t
    else .done (t.inBody token)
  | token => .done (t.inBody token)

/-- A token in a group of columns. -/
def inColumnGroup (t : Tree) (token : Token) : Taken :=
  let ended := t.pop.under .table
  match token with
  | .text chars =>
    if t.currentIs "colgroup" then
      let inside := t.appendText (chars.takeWhile isMarkupSpace)
      match chars.dropWhile isMarkupSpace with
      | [] => .done inside
      | rest => .done ((inside.pop.under .table).textInTable rest)
    else .done (t.appendText (chars.filter isMarkupSpace))
  | .comment _ => .done (t.inBody token)
  | .startTag ⟨"html", _⟩ _ => .done t
  | .startTag ⟨"col", attributes⟩ _ => .done (t.insertVoid ⟨"col", attributes⟩)
  | .startTag ⟨"template", attributes⟩ _ => .done (t.startInHead ⟨"template", attributes⟩)
  | .endTag "colgroup" => .done (if t.currentIs "colgroup" then ended else t)
  | .endTag "col" => .done t
  | .endTag "template" => .done t.endTemplate
  | .startTag .. | .endTag _ => if t.currentIs "colgroup" then .again ended else .done t

/-- A token in a group of rows. -/
def inTableBody (t : Tree) (token : Token) : Taken :=
  let ended := t.toTableBody.pop.under .table
  let leave : Taken :=
    if t.inTableScopeOf fun f => f.isOneOf ["table", "tbody", "tfoot"] then .again ended
    else .done t
  match token with
  | .startTag tag _ =>
    match tag.name with
    | "tr" => .done ((t.toTableBody.insert tag).under .row)
    | "th" | "td" => .again ((t.toTableBody.insertImplied "tr").under .row)
    | "caption" | "col" | "colgroup" | "tbody" | "tfoot" | "thead" => leave
    | _ => t.inTable token
  | .endTag name =>
    match name with
    | "tbody" | "tfoot" | "thead" => .done (if t.inTableScope name then ended else t)
    | "table" => leave
    | "body" | "caption" | "col" | "colgroup" | "html" | "td" | "th" | "tr" => .done t
    | _ => t.inTable token
  | token => t.inTable token

/-- A token in a row. -/
def inRow (t : Tree) (token : Token) : Taken :=
  let ended := t.toRow.pop.under .tableBody
  let leave : Taken := if t.inTableScope "tr" then .again ended else .done t
  match token with
  | .startTag tag _ =>
    match tag.name with
    | "th" | "td" => .done ((t.toRow.insert tag).mark.under .cell)
    | "caption" | "col" | "colgroup" | "tbody" | "tfoot" | "thead" | "tr" => leave
    | _ => t.inTable token
  | .endTag name =>
    match name with
    | "tr" => .done (if t.inTableScope "tr" then ended else t)
    | "table" => leave
    | "tbody" | "tfoot" | "thead" => if t.inTableScope name then leave else .done t
    | "body" | "caption" | "col" | "colgroup" | "html" | "td" | "th" => .done t
    | _ => t.inTable token
  | token => t.inTable token

/-- A token in a cell. -/
def inCell (t : Tree) (token : Token) : Taken :=
  let isCell (f : Frame) := f.isOneOf ["td", "th"]
  let ended := ((t.closeImplied none).popThrough isCell).unmark.under .row
  match token with
  | .startTag tag _ =>
    if ["caption", "col", "colgroup", "tbody", "td", "tfoot", "th", "thead", "tr"].contains
        tag.name then
      if t.inTableScopeOf isCell then .again ended else .done t
    else .done (t.inBody token)
  | .endTag name =>
    match name with
    | "td" | "th" =>
      .done
        (if t.inTableScope name then ((t.closeImplied none).close name).unmark.under .row else t)
    | "body" | "caption" | "col" | "colgroup" | "html" => .done t
    | "table" | "tbody" | "tfoot" | "thead" | "tr" =>
      if t.inTableScope name then .again ended else .done t
    | _ => .done (t.inBody token)
  | token => .done (t.inBody token)

/-! ### Selections -/

/-- Ends the open selection. -/
def closeSelect (t : Tree) : Tree := (t.close "select").resetMode

/-- Ends an open option, and then an open group of options. -/
def closeOptions (t : Tree) : Tree :=
  let t := if t.currentIs "option" then t.pop else t
  if t.currentIs "optgroup" then t.pop else t

/-- A token in a selection. -/
def inSelect (t : Tree) : Token → Taken
  | .startTag tag _ =>
    match tag.name with
    | "option" => .done ((if t.currentIs "option" then t.pop else t).insert tag)
    | "optgroup" => .done (t.closeOptions.insert tag)
    | "hr" => .done (t.closeOptions.insertVoid tag)
    | "select" => .done (if t.inSelectScope then t.closeSelect else t)
    | "input" | "keygen" | "textarea" =>
      if t.inSelectScope then .again t.closeSelect else .done t
    | "script" | "template" => .done (t.startInHead tag)
    | _ => .done t
  | .endTag name =>
    match name with
    | "optgroup" =>
      let inner :=
        match t.frames with
        | f :: g :: _ => f.isNamed "option" && g.isNamed "optgroup"
        | _ => false
      let t := if inner then t.pop else t
      .done (if t.currentIs "optgroup" then t.pop else t)
    | "option" => .done (if t.currentIs "option" then t.pop else t)
    | "select" => .done (if t.inSelectScope then t.closeSelect else t)
    | "template" => .done t.endTemplate
    | _ => .done t
  | .text chars => .done (t.appendText (visible chars))
  | .comment text => .done (t.append (.comment text))

/-- A token in a selection inside a table. Parts of the table end the selection. -/
def inSelectInTable (t : Tree) (token : Token) : Taken :=
  let parts := ["caption", "table", "tbody", "tfoot", "thead", "tr", "td", "th"]
  match token with
  | .startTag tag _ => if parts.contains tag.name then .again t.closeSelect else t.inSelect token
  | .endTag name =>
    if parts.contains name then
      if t.inTableScope name then .again t.closeSelect else .done t
    else t.inSelect token
  | token => t.inSelect token

/-! ### Templates -/

/-- Goes by the rules for what the first tag of a template shows its contents to be. -/
def decideTemplate (t : Tree) (mode : Mode) : Tree :=
  { t with mode, templates := mode :: t.templates.tail }

/-- A token directly in a template. -/
def inTemplate (t : Tree) : Token → Taken
  | .startTag tag _ =>
    if headTags.contains tag.name then
      .done (t.startInHead tag)
    else
      match tag.name with
      | "caption" | "colgroup" | "tbody" | "tfoot" | "thead" => .again (t.decideTemplate .table)
      | "col" => .again (t.decideTemplate .columnGroup)
      | "tr" => .again (t.decideTemplate .tableBody)
      | "td" | "th" => .again (t.decideTemplate .row)
      | _ => .again (t.decideTemplate .body)
  | .endTag name => .done (if name = "template" then t.endTemplate else t)
  | token => .done (t.inBody token)

/-! ### All rules -/

/-- Text and the end tag of an element whose content is text up to its end tag. -/
def inRawText (t : Tree) : Token → Tree
  | .text chars => t.appendText chars
  | .endTag _ => { t.pop with mode := t.resume }
  | .startTag .. | .comment _ => t

/-- A token by the rules of the tree's mode. -/
def byMode (t : Tree) (token : Token) : Taken :=
  match t.mode with
  | .body => .done (t.inBody token)
  | .table => t.inTable token
  | .caption => t.inCaption token
  | .columnGroup => t.inColumnGroup token
  | .tableBody => t.inTableBody token
  | .row => t.inRow token
  | .cell => t.inCell token
  | .select => t.inSelect token
  | .selectInTable => t.inSelectInTable token
  | .template => t.inTemplate token
  | .rawText => .done (t.inRawText token)

/-- An annotation of a formula that is written in hypertext. -/
def isHypertextAnnotation (f : Frame) : Bool :=
  f.tag.attributes.any fun a =>
    a.key == "encoding" &&
      ["text/html", "application/xhtml+xml"].contains (Vocabulary.lower a.value)

/-- The token is one of a formula or drawing. -/
def isForeign (t : Tree) (token : Token) : Bool :=
  match t.frames with
  | [] => false
  | f :: _ =>
    match f.vocabulary, token with
    | .html, _ => false
    | .svg, .text _ | .svg, .startTag .. => !f.holdsHypertext
    | .math, .text _ =>
      !(f.holdsHypertext || (f.name = "annotation-xml" && isHypertextAnnotation f))
    | .math, .startTag tag _ =>
      !((f.holdsHypertext && !(["mglyph", "malignmark"].contains tag.name)) ||
        (f.name = "annotation-xml" && (tag.name = "svg" || isHypertextAnnotation f)))
    | _, _ => true

/-- The innermost element belongs to a formula or drawing, so that sections of character data
may follow. -/
def isInForeign (t : Tree) : Bool :=
  match t.frames with
  | [] => false
  | f :: _ => f.vocabulary != .html

/-- Ends formulas and drawings up to a place for hypertext. -/
def breakOut (t : Tree) : Tree :=
  t.popWhile fun f => !(f.vocabulary = .html || f.holdsHypertext)

/-- The start tag ends the formula or drawing. -/
def isBreakout (tag : Tag) : Bool :=
  Vocabulary.breakouts.contains tag.name ||
    (tag.name = "font" &&
      tag.attributes.any fun a => ["color", "face", "size"].contains a.key)

/-- The end tag ends an element of the formula or drawing, before hypertext around it. -/
def endsForeign (name : String) (innermost : Bool) : List Frame → Option Bool
  | [] => none
  | f :: rest =>
    if !innermost && f.vocabulary = .html then some false
    else if Vocabulary.lower f.name = name then some true
    else endsForeign name false rest

/-- A token in a formula or drawing. -/
def inForeign (t : Tree) (token : Token) : Taken :=
  match token with
  | .text chars =>
    .done (t.appendText (chars.map fun c => if c = '\x00' then Reference.replacement else c))
  | .comment text => .done (t.append (.comment text))
  | .startTag tag selfClosing =>
    if isBreakout tag then
      t.breakOut.byMode token
    else
      let vocabulary := (t.frames.head?.map fun f => f.vocabulary).getD .html
      .done (t.insertForeign vocabulary tag selfClosing)
  | .endTag name =>
    if name = "br" || name = "p" then
      t.breakOut.byMode token
    else
      match endsForeign name true t.frames with
      | some true => .done (t.popThrough fun f => Vocabulary.lower f.name = name)
      | some false => t.byMode token
      | none => .done t

/-- A token by the rules for what is open, as often as it is left to be taken. Each time the
token is left, elements are complete or the rules are those of an inner part, so that four
times the number of open elements is enough. -/
def take (t : Tree) (token : Token) : Tree :=
  go (4 * t.frames.length + 8) t
where
  go : Nat → Tree → Tree
    | 0, t => t
    | n + 1, t =>
      match if t.isForeign token then t.inForeign token else t.byMode token with
      | .done t => t
      | .again t => go n t

/-- Keeps a line feed that would be dropped. -/
def keepLineFeed (t : Tree) : Tree := { t with dropLineFeed := false }

/-- A token after the last one. A line feed is dropped where the last tag asks for it. -/
def process (t : Tree) (token : Token) : Tree :=
  let cleared := { t with dropLineFeed := false, request := none }
  match token with
  | .text chars =>
    let chars := if t.dropLineFeed && chars.head? = some '\n' then chars.tail else chars
    if chars.isEmpty then cleared else cleared.take (.text chars)
  | token => cleared.take token

end Tree

end Stencil.Markup
