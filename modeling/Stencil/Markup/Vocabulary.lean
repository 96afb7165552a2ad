import Stencil.Markup.Node

/-!
# The vocabulary of elements

Which elements end which, where a search through the open elements stops, and how names are
spelled inside drawings and formulas. An element belongs to one of three vocabularies; a set of
names here is one of the hypertext vocabulary unless it says otherwise.
-/

namespace Stencil.Markup

/-- The vocabularies of elements. -/
inductive Vocabulary where
  | html
  | svg
  | math
deriving DecidableEq, Repr

namespace Vocabulary

/-- Elements that never have an end tag and stand in a line of text. -/
def voids : List String := ["area", "br", "embed", "img", "input", "keygen", "wbr"]

/-- Elements that never have an end tag and belong to the element around them. -/
def details : List String := ["param", "source", "track"]

/-- Elements that set the form of text. -/
def formatting : List String :=
  ["a", "b", "big", "code", "em", "font", "i", "nobr", "s", "small", "strike", "strong", "tt",
    "u"]

/-- Elements that keep the form of their content to themselves. -/
def objects : List String := ["applet", "marquee", "object"]

/-- Elements that end a paragraph, and whose end tags end all that is open inside them. -/
def blocks : List String :=
  ["address", "article", "aside", "blockquote", "center", "details", "dialog", "dir", "div",
    "dl", "fieldset", "figcaption", "figure", "footer", "header", "hgroup", "main", "menu",
    "nav", "ol", "search", "section", "summary", "ul"]

/-- Headings. -/
def headings : List String := ["h1", "h2", "h3", "h4", "h5", "h6"]

/-- Parts of a table, and other tags that mean nothing outside their place. -/
def misplaced : List String :=
  ["caption", "col", "colgroup", "frame", "head", "tbody", "td", "tfoot", "th", "thead", "tr"]

/-- The parts of a table between which nothing but parts of a table has its place. -/
def tableParts : List String := ["table", "tbody", "tfoot", "thead", "tr"]

/-- Elements that an end tag of another name does not look past. -/
def specials : List String :=
  (blocks.erase "dialog").erase "search" ++ headings ++
    ["applet", "area", "base", "basefont", "bgsound", "body", "br", "button", "caption",
      "col", "colgroup", "dd", "dt", "embed", "form", "frame", "frameset", "head", "hr",
      "html", "iframe", "img", "input", "isindex", "li", "link", "listing", "marquee", "meta",
      "noembed", "noframes", "noscript", "object", "p", "param", "plaintext", "pre", "script",
      "select", "source", "style", "table", "tbody", "td", "template", "textarea", "tfoot",
      "th", "thead", "title", "tr", "track", "wbr", "xmp"]

/-- Elements whose end tag may be left out at the end of their parent. -/
def implied : List String :=
  ["dd", "dt", "li", "option", "optgroup", "p", "rb", "rp", "rt", "rtc"]

/-- Elements whose end tag may be left out at the end of a template. -/
def impliedInTemplate : List String :=
  implied ++ ["caption", "colgroup", "tbody", "td", "tfoot", "th", "thead", "tr"]

/-- Elements that a search for an open element does not leave. -/
def boundaries : List String :=
  ["applet", "caption", "table", "td", "th", "marquee", "object", "template"]

/-- Elements of formulas that hold text. -/
def mathText : List String := ["mi", "mo", "mn", "ms", "mtext"]

/-- Elements of drawings that hold hypertext. -/
def svgHypertext : List String := ["foreignObject", "desc", "title"]

/-- Tags that do not belong into drawings and formulas, and end them. -/
def breakouts : List String :=
  ["b", "big", "blockquote", "body", "br", "center", "code", "dd", "div", "dl", "dt", "em",
    "embed", "h1", "h2", "h3", "h4", "h5", "h6", "head", "hr", "i", "img", "li", "listing",
    "menu", "meta", "nobr", "ol", "p", "pre", "ruby", "s", "small", "span", "strong",
    "strike", "sub", "sup", "table", "tt", "u", "ul", "var"]

/-! ### Spelling in drawings and formulas -/

/-- Element names of drawings with capital letters. -/
def svgNames : List String :=
  ["altGlyph", "altGlyphDef", "altGlyphItem", "animateColor", "animateMotion",
    "animateTransform", "clipPath", "feBlend", "feColorMatrix", "feComponentTransfer",
    "feComposite", "feConvolveMatrix", "feDiffuseLighting", "feDisplacementMap",
    "feDistantLight", "feDropShadow", "feFlood", "feFuncA", "feFuncB", "feFuncG", "feFuncR",
    "feGaussianBlur", "feImage", "feMerge", "feMergeNode", "feMorphology", "feOffset",
    "fePointLight", "feSpecularLighting", "feSpotLight", "feTile", "feTurbulence",
    "foreignObject", "glyphRef", "linearGradient", "radialGradient", "textPath"]

/-- Attribute names of drawings with capital letters. -/
def svgKeys : List String :=
  ["attributeName", "attributeType", "baseFrequency", "baseProfile", "calcMode",
    "clipPathUnits", "diffuseConstant", "edgeMode", "filterUnits", "glyphRef",
    "gradientTransform", "gradientUnits", "kernelMatrix", "kernelUnitLength", "keyPoints",
    "keySplines", "keyTimes", "lengthAdjust", "limitingConeAngle", "markerHeight",
    "markerUnits", "markerWidth", "maskContentUnits", "maskUnits", "numOctaves",
    "pathLength", "patternContentUnits", "patternTransform", "patternUnits", "pointsAtX",
    "pointsAtY", "pointsAtZ", "preserveAlpha", "preserveAspectRatio", "primitiveUnits",
    "refX", "refY", "repeatCount", "repeatDur", "requiredExtensions", "requiredFeatures",
    "specularConstant", "specularExponent", "spreadMethod", "startOffset", "stdDeviation",
    "stitchTiles", "surfaceScale", "systemLanguage", "tableValues", "targetX", "targetY",
    "textLength", "viewBox", "viewTarget", "xChannelSelector", "yChannelSelector",
    "zoomAndPan"]

/-- Attribute names with a vocabulary of their own before the colon, and what is left of them. -/
def qualifiedKeys : List (String × String) :=
  [("xlink:actuate", "actuate"), ("xlink:arcrole", "arcrole"), ("xlink:href", "href"),
    ("xlink:role", "role"), ("xlink:show", "show"), ("xlink:title", "title"),
    ("xlink:type", "type"), ("xml:lang", "lang"), ("xml:space", "space"),
    ("xmlns:xlink", "xlink")]

/-- The text in lower case, as far as its letters are those of ASCII. -/
def lower (s : String) : String := String.ofList (s.toList.map Char.toLower)

/-- The spelling of a name by a list of names with capital letters. -/
def spelled (names : List String) (name : String) : String :=
  (names.find? fun full => lower full == name).getD name

/-- The name of an element as a vocabulary spells it. -/
def elementName (v : Vocabulary) (name : String) : String :=
  match v with
  | svg => spelled svgNames name
  | html | math => name

/-- The key of an attribute as a vocabulary spells it. -/
def attributeKey (v : Vocabulary) (key : String) : String :=
  match v with
  | html => key
  | svg => (qualifiedKeys.lookup key).getD (spelled svgKeys key)
  | math => (qualifiedKeys.lookup key).getD (spelled ["definitionURL"] key)

/-- A tag as a vocabulary spells its name and keys. -/
def spell (v : Vocabulary) (tag : Tag) : Tag :=
  { name := v.elementName tag.name
    attributes := tag.attributes.map fun a => { a with key := v.attributeKey a.key } }

end Vocabulary

end Stencil.Markup
