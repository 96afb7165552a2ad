import Stencil.Markup.Formatting

/-!
# Ordinary content

How tokens of ordinary content change the tree. Elements end by their end tags, by tags that
cannot stand inside them, and with their parent; an end tag without its element is passed over.
Tags that belong to the head of a document are taken alike everywhere.
-/

namespace Stencil.Markup

namespace Tree

/-- Start tags that may stand in the head of a document. -/
def headTags : List String :=
  ["base", "basefont", "bgsound", "link", "meta", "noframes", "script", "style", "template",
    "title"]

/-- A start tag of the head. -/
def startInHead (t : Tree) (tag : Tag) : Tree :=
  match tag.name with
  | "title" => t.insertRaw tag (.escapable "title")
  | "noframes" | "style" => t.insertRaw tag (.raw tag.name)
  | "script" => t.insertRaw tag (.script .plain)
  | "template" =>
    { (t.insert tag).mark with mode := .template, templates := .template :: t.templates }
  | _ => t.insertVoid tag

/-- The end tag of a template. -/
def endTemplate (t : Tree) : Tree :=
  if t.hasOpen "template" then
    let t := (t.popWhile fun f => f.isOneOf Vocabulary.impliedInTemplate).close "template"
    { t.unmark with templates := t.templates.tail }.resetMode
  else t

/-- Ends an item of a list before the next one. The search does not leave the list. -/
def closeItem (t : Tree) (names : List String) : Tree :=
  let stops (f : Frame) := f.isSpecial && !f.isOneOf ["address", "div", "p"]
  match t.frames.find? fun f => f.isOneOf names || stops f with
  | some f =>
    if f.isOneOf names then (t.closeImplied (some f.name)).close f.name else t
  | none => t

/-- Opens a form. Outside of templates, the next end tag of a form ends it. -/
def insertForm (t : Tree) (tag : Tag) : Tree :=
  if t.hasOpen "template" then
    t.closeParagraph.insert tag
  else if t.form.isSome then
    t
  else
    let t := t.closeParagraph
    { t.insert tag with form := some t.next }

/-- The end tag of a form. -/
def closeForm (t : Tree) : Tree :=
  if t.hasOpen "template" then
    if t.inScope "form" then (t.closeImplied none).close "form" else t
  else
    match t.form with
    | some label =>
      let t := { t with form := none }
      if t.inScopeOf fun f => f.label = label then (t.closeImplied none).remove label else t
    | none => t

/-- Opens an element of a formula or drawing. -/
def insertForeign (t : Tree) (v : Vocabulary) (tag : Tag) (selfClosing : Bool) : Tree :=
  let tag := v.spell tag
  if selfClosing then t.insertVoid tag else t.insertIn v tag

/-- A start tag in ordinary content. -/
def startInBody (t : Tree) (tag : Tag) (selfClosing : Bool) : Tree :=
  let name := tag.name
  if headTags.contains name then
    t.startInHead tag
  else if Vocabulary.blocks.contains name then
    t.closeParagraph.insert tag
  else if Vocabulary.headings.contains name then
    let t := t.closeParagraph
    (if t.currentIn Vocabulary.headings then t.pop else t).insert tag
  else if Vocabulary.voids.contains name then
    t.reopen.insertVoid tag
  else if Vocabulary.details.contains name then
    t.insertVoid tag
  else if Vocabulary.objects.contains name then
    (t.reopen.insert tag).mark
  else if Vocabulary.misplaced.contains name then
    t
  else
    match name with
    | "html" | "body" | "frameset" => t
    | "p" => t.closeParagraph.insert tag
    | "pre" | "listing" => { t.closeParagraph.insert tag with dropLineFeed := true }
    | "form" => t.insertForm tag
    | "li" => (t.closeItem ["li"]).closeParagraph.insert tag
    | "dd" | "dt" => (t.closeItem ["dd", "dt"]).closeParagraph.insert tag
    | "plaintext" => { t.closeParagraph.insert tag with request := some .plain }
    | "button" =>
      (if t.inScope "button" then (t.closeImplied none).close "button" else t).reopen.insert tag
    | "a" => t.endEarlierLink.reopen.insertFormatting tag
    | "nobr" =>
      let t := t.reopen
      (if t.inScope "nobr" then (t.endFormatting "nobr").reopen else t).insertFormatting tag
    | "table" => (t.closeParagraph.insert tag).under .table
    | "hr" => t.closeParagraph.insertVoid tag
    | "image" => t.reopen.insertVoid { tag with name := "img" }
    | "textarea" => { t.insertRaw tag (.escapable name) with dropLineFeed := true }
    | "xmp" => t.closeParagraph.reopen.insertRaw tag (.raw name)
    | "iframe" | "noembed" | "noscript" => t.insertRaw tag (.raw name)
    | "select" =>
      (t.reopen.insert tag).under <|
        if [Mode.table, .caption, .tableBody, .row, .cell].contains t.mode then
          .selectInTable
        else
          .select
    | "optgroup" | "option" => (if t.currentIs "option" then t.pop else t).reopen.insert tag
    | "rb" | "rtc" => (if t.inScope "ruby" then t.closeImplied none else t).insert tag
    | "rp" | "rt" => (if t.inScope "ruby" then t.closeImplied (some "rtc") else t).insert tag
    | "math" => t.insertForeign .math tag selfClosing
    | "svg" => t.insertForeign .svg tag selfClosing
    | _ =>
      if Vocabulary.formatting.contains name then t.reopen.insertFormatting tag
      else t.reopen.insert tag

/-- An end tag in ordinary content. -/
def endInBody (t : Tree) (name : String) : Tree :=
  if Vocabulary.blocks.contains name || ["button", "listing", "pre"].contains name then
    if t.inScope name then (t.closeImplied none).close name else t
  else if Vocabulary.objects.contains name then
    if t.inScope name then ((t.closeImplied none).close name).unmark else t
  else if Vocabulary.headings.contains name then
    if t.inScopeOf fun f => f.isOneOf Vocabulary.headings then
      (t.closeImplied none).popThrough fun f => f.isOneOf Vocabulary.headings
    else t
  else if Vocabulary.formatting.contains name then
    t.endFormatting name
  else
    match name with
    | "template" => t.endTemplate
    | "body" | "html" => t
    | "form" => t.closeForm
    | "p" =>
      if t.inScopeBut "p" ["button"] then t.closeParagraph else t.insertVoid ⟨"p", []⟩
    | "li" =>
      if t.inScopeBut "li" ["ol", "ul"] then (t.closeImplied (some "li")).close "li" else t
    | "dd" | "dt" => if t.inScope name then (t.closeImplied (some name)).close name else t
    | "br" => t.reopen.insertVoid ⟨"br", []⟩
    | _ => t.endOther name

/-- The text without null characters, which hypertext drops. -/
def visible (chars : List Char) : List Char := chars.filter fun c => c != '\x00'

/-- Text in ordinary content. -/
def textInBody (t : Tree) (chars : List Char) : Tree :=
  match visible chars with
  | [] => t
  | chars => t.reopen.appendText chars

/-- Any token in ordinary content. -/
def inBody (t : Tree) : Token → Tree
  | .text chars => t.textInBody chars
  | .comment text => t.append (.comment text)
  | .startTag tag selfClosing => t.startInBody tag selfClosing
  | .endTag name => t.endInBody name

end Tree

end Stencil.Markup
