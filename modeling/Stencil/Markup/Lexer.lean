import Stencil.Markup.Token

/-!
# The lexer of markup

The lexer is an automaton: `Lexer.step` takes a state and a character to the next state, to
characters of text, and to a token if one is complete. No state looks ahead; a character that
ends one construct and begins the next is handed on to the state that it begins.
-/

namespace Stencil.Markup

/-- The states of the lexer. -/
inductive LexState where
  | text (mode : TextMode)
  | reference (mode : TextMode) (reference : Reference)
  /-- After a less-than sign in ordinary text. -/
  | less
  /-- After a less-than sign and a slash in ordinary text. -/
  | lessSlash
  /-- After a less-than sign in other text. -/
  | rawLess (mode : TextMode)
  /-- After a less-than sign and a slash in other text. -/
  | rawLessSlash (mode : TextMode)
  /-- In the name of what may be the end tag of other text. -/
  | rawEnd (mode : TextMode) (reversed : List Char)
  | tagName (draft : Draft)
  | beforeKey (draft : Draft)
  | key (draft : Draft)
  | afterKey (draft : Draft)
  | beforeValue (draft : Draft)
  | value (draft : Draft) (quote : Option Char)
  | valueReference (draft : Draft) (quote : Option Char) (reference : Reference)
  | afterValue (draft : Draft)
  /-- After a slash in a tag. -/
  | slash (draft : Draft)
  /-- After a less-than sign and an exclamation mark, with what follows them. -/
  | declaration (seen : List Char)
  | doctype
  /-- In a comment that ends at the first greater-than sign. -/
  | bogusComment (reversed : List Char)
  /-- At the beginning of a comment, after a dash or none. -/
  | commentStart (dash : Bool)
  | comment (reversed : List Char)
  | commentDash (reversed : List Char)
  | commentDashDash (reversed : List Char)
  | commentBang (reversed : List Char)
  /-- In a section of character data, after at most two closing brackets. -/
  | cdata (brackets : Nat)
deriving DecidableEq, Repr

/-- What a character brings: the next state, characters of text, and perhaps a token, which
comes after the text. A lapse leaves no trace of its own, but stands between what comes before
the text and the text: a document type, an end tag without a name, or a reference that is not
closed. -/
structure Lexed where
  state : LexState
  lapse : Bool := false
  text : List Char := []
  token : Option Token := none
deriving DecidableEq, Repr

namespace Lexer

/-- White space inside a tag. -/
def isTagSpace (c : Char) : Bool :=
  c = '\t' || c = '\n' || c = '\x0c' || c = ' '

/-- Going on with a state. -/
def goto (state : LexState) : Lexed := { state }

/-- Characters of text, and a state to go on with. -/
def say (text : List Char) (state : LexState) : Lexed := { state, text }

/-- What is passed over in ordinary text. -/
def passOver : Lexed := { state := .text .ordinary, lapse := true }

/-- Ending a tag. -/
def emitTag (t : Draft) : Lexed :=
  { state := .text .ordinary, token := some t.token }

/-- Ending a comment. -/
def emitComment (reversed : List Char) : Lexed :=
  { state := .text .ordinary, token := some (.comment (String.ofList reversed.reverse)) }

/-- The same outcome after more text. -/
def after (text : List Char) (next : Lexed) : Lexed :=
  { next with text := text ++ next.text }

/-! ### Text -/

/-- A character of a script. -/
def script (c : Char) : ScriptState → Lexed
  | .plain =>
    if c = '<' then goto (.rawLess (.script .plain))
    else say [Draft.valueChar c] (.text (.script .plain))
  | .opening dash =>
    if c = '-' then
      say [c] (.text (.script (if dash then .comment 2 else .opening true)))
    else if c = '<' then goto (.rawLess (.script .plain))
    else say [Draft.valueChar c] (.text (.script .plain))
  | .comment dashes =>
    if c = '-' then say [c] (.text (.script (.comment (min 2 (dashes + 1)))))
    else if c = '<' then goto (.rawLess (.script (.comment 0)))
    else if c = '>' && dashes = 2 then say [c] (.text (.script .plain))
    else say [Draft.valueChar c] (.text (.script (.comment 0)))
  | .openName reversed =>
    if isTagSpace c || c = '/' || c = '>' then
      let inner := if reversed.reverse = "script".toList then .nested 0 else .comment 0
      say [c] (.text (.script inner))
    else if c.isAlpha then say [c] (.text (.script (.openName (c.toLower :: reversed))))
    else if c = '-' then say [c] (.text (.script (.comment 1)))
    else if c = '<' then goto (.rawLess (.script (.comment 0)))
    else say [Draft.valueChar c] (.text (.script (.comment 0)))
  | .nested dashes =>
    if c = '-' then say [c] (.text (.script (.nested (min 2 (dashes + 1)))))
    else if c = '<' then say [c] (.text (.script .nestedLess))
    else if c = '>' && dashes = 2 then say [c] (.text (.script .plain))
    else say [Draft.valueChar c] (.text (.script (.nested 0)))
  | .nestedLess =>
    if c = '/' then say [c] (.text (.script (.closeName [])))
    else if c = '-' then say [c] (.text (.script (.nested 1)))
    else if c = '<' then say [c] (.text (.script .nestedLess))
    else say [Draft.valueChar c] (.text (.script (.nested 0)))
  | .closeName reversed =>
    if isTagSpace c || c = '/' || c = '>' then
      let inner := if reversed.reverse = "script".toList then .comment 0 else .nested 0
      say [c] (.text (.script inner))
    else if c.isAlpha then say [c] (.text (.script (.closeName (c.toLower :: reversed))))
    else if c = '-' then say [c] (.text (.script (.nested 1)))
    else if c = '<' then say [c] (.text (.script .nestedLess))
    else say [Draft.valueChar c] (.text (.script (.nested 0)))

/-- A character of text. The null character is left to the tree in ordinary text. -/
def text (c : Char) : TextMode → Lexed
  | .ordinary =>
    if c = '&' then goto (.reference .ordinary .start)
    else if c = '<' then goto .less
    else say [c] (.text .ordinary)
  | .escapable element =>
    if c = '&' then goto (.reference (.escapable element) .start)
    else if c = '<' then goto (.rawLess (.escapable element))
    else say [Draft.valueChar c] (.text (.escapable element))
  | .raw element =>
    if c = '<' then goto (.rawLess (.raw element))
    else say [Draft.valueChar c] (.text (.raw element))
  | .script state => script c state
  | .plain => say [Draft.valueChar c] (.text .plain)

/-- The element whose end tag ends the text. -/
def endsAt : TextMode → Option String
  | .escapable element | .raw element => some element
  | .script _ => some "script"
  | .ordinary | .plain => none

/-! ### Tags -/

/-- A character before the key of an attribute. -/
def beforeKey (t : Draft) (c : Char) : Lexed :=
  if isTagSpace c then goto (.beforeKey t)
  else if c = '/' then goto (.slash t)
  else if c = '>' then emitTag t
  else goto (.key (t.beginAttribute c))

/-- A character of the name of a tag. -/
def tagName (t : Draft) (c : Char) : Lexed :=
  if isTagSpace c then goto (.beforeKey t)
  else if c = '/' then goto (.slash t)
  else if c = '>' then emitTag t
  else goto (.tagName (t.pushName c))

/-- A character of a key. -/
def key (t : Draft) (c : Char) : Lexed :=
  if isTagSpace c then goto (.afterKey t)
  else if c = '/' then goto (.slash t)
  else if c = '=' then goto (.beforeValue t)
  else if c = '>' then emitTag t
  else goto (.key (t.pushKey c))

/-- A character after a key. -/
def afterKey (t : Draft) (c : Char) : Lexed :=
  if isTagSpace c then goto (.afterKey t)
  else if c = '/' then goto (.slash t)
  else if c = '=' then goto (.beforeValue t)
  else if c = '>' then emitTag t
  else goto (.key (t.beginAttribute c))

/-- A character of a value. -/
def value (t : Draft) (quote : Option Char) (c : Char) : Lexed :=
  if c = '&' then goto (.valueReference t quote .start)
  else
    match quote with
    | some q =>
      if c = q then goto (.afterValue t)
      else goto (.value (t.pushValue [Draft.valueChar c]) quote)
    | none =>
      if isTagSpace c then goto (.beforeKey t)
      else if c = '>' then emitTag t
      else goto (.value (t.pushValue [Draft.valueChar c]) none)

/-- A character before a value. -/
def beforeValue (t : Draft) (c : Char) : Lexed :=
  if isTagSpace c then goto (.beforeValue t)
  else if c = '"' || c = '\x27' then goto (.value t (some c))
  else if c = '>' then emitTag t
  else value t none c

/-- A character after a value in quotes. -/
def afterValue (t : Draft) (c : Char) : Lexed :=
  if isTagSpace c then goto (.beforeKey t)
  else if c = '/' then goto (.slash t)
  else if c = '>' then emitTag t
  else beforeKey t c

/-- A character after a slash in a tag. -/
def slash (t : Draft) (c : Char) : Lexed :=
  if c = '>' then emitTag { t with selfClosing := true } else beforeKey t c

/-! ### Comments and declarations -/

/-- A character of a comment that ends at a greater-than sign. -/
def bogusComment (reversed : List Char) (c : Char) : Lexed :=
  if c = '>' then emitComment reversed
  else goto (.bogusComment (Draft.valueChar c :: reversed))

/-- A character of a comment. -/
def comment (reversed : List Char) (c : Char) : Lexed :=
  if c = '-' then goto (.commentDash reversed)
  else goto (.comment (Draft.valueChar c :: reversed))

/-- The keywords that may follow a less-than sign and an exclamation mark, in lower case,
with the state that each leads to. The last one counts inside foreign content only. -/
def declarations (foreign : Bool) : List (List Char × LexState) :=
  [("--".toList, .commentStart false), ("doctype".toList, .doctype)] ++
    if foreign then [("[CDATA[".toList, .cdata 0)] else []

/-- The form in which a declaration is compared with a keyword: the letters of a section of
character data are compared as they are. -/
def declarationKey (seen : List Char) : List Char :=
  if seen.head? = some '[' then seen else seen.map Char.toLower

/-- A character of a declaration. One that begins like no keyword is a comment. -/
def declaration (foreign : Bool) (seen : List Char) (c : Char) : Lexed :=
  let all := seen ++ [c]
  match (declarations foreign).find? fun entry => entry.1 = declarationKey all with
  | some entry => goto entry.2
  | none =>
    if (declarations foreign).any fun entry => (declarationKey all).isPrefixOf entry.1 then
      goto (.declaration all)
    else
      bogusComment seen.reverse c

/-- A character after a less-than sign. -/
def less (c : Char) : Lexed :=
  if c = '!' then goto (.declaration [])
  else if c = '/' then goto .lessSlash
  else if c = '?' then bogusComment [] c
  else if c.isAlpha then goto (.tagName { isEnd := false, name := [c.toLower] })
  else after ['<'] (text c .ordinary)

/-- A character after a less-than sign and a slash. -/
def lessSlash (c : Char) : Lexed :=
  if c = '>' then passOver
  else if c.isAlpha then goto (.tagName { isEnd := true, name := [c.toLower] })
  else bogusComment [] c

/-! ### Text that only its end tag ends -/

/-- A character after a less-than sign. In a script it may open a comment, or a tag inside a
comment. -/
def rawLess (mode : TextMode) (c : Char) : Lexed :=
  if c = '/' then goto (.rawLessSlash mode)
  else
    match mode with
    | .script .plain =>
      if c = '!' then say ['<', c] (.text (.script (.opening false)))
      else after ['<'] (text c mode)
    | .script (.comment _) =>
      if c.isAlpha then say ['<', c] (.text (.script (.openName [c.toLower])))
      else after ['<'] (text c mode)
    | _ => after ['<'] (text c mode)

/-- A character after a less-than sign and a slash. -/
def rawLessSlash (mode : TextMode) (c : Char) : Lexed :=
  if c.isAlpha then goto (.rawEnd mode [c]) else after ['<', '/'] (text c mode)

/-- A character of what may be the end tag. -/
def rawEnd (mode : TextMode) (reversed : List Char) (c : Char) : Lexed :=
  let name := reversed.reverse.map Char.toLower
  let draft : Draft := { isEnd := true, name := name.reverse }
  if c.isAlpha then
    goto (.rawEnd mode (c :: reversed))
  else if endsAt mode = some (String.ofList name) && (isTagSpace c || c = '/' || c = '>') then
    tagName draft c
  else
    after ('<' :: '/' :: reversed.reverse) (text c mode)

/-! ### Steps -/

/-- Reads a character. Sections of character data exist in foreign content only. -/
def step (foreign : Bool) (c : Char) : LexState → Lexed
  | .text mode => text c mode
  | .reference mode reference =>
    match reference.step false c with
    | .more reference => goto (.reference mode reference)
    | .done chars true => say chars (.text mode)
    | .done chars false => { after chars (text c mode) with lapse := true }
  | .less => less c
  | .lessSlash => lessSlash c
  | .rawLess mode => rawLess mode c
  | .rawLessSlash mode => rawLessSlash mode c
  | .rawEnd mode reversed => rawEnd mode reversed c
  | .tagName t => tagName t c
  | .beforeKey t => beforeKey t c
  | .key t => key t c
  | .afterKey t => afterKey t c
  | .beforeValue t => beforeValue t c
  | .value t quote => value t quote c
  | .valueReference t quote reference =>
    match reference.step true c with
    | .more reference => goto (.valueReference t quote reference)
    | .done chars true => goto (.value (t.pushValue chars) quote)
    | .done chars false => value (t.pushValue chars) quote c
  | .afterValue t => afterValue t c
  | .slash t => slash t c
  | .declaration seen => declaration foreign seen c
  | .doctype => if c = '>' then passOver else goto .doctype
  | .bogusComment reversed => bogusComment reversed c
  | .commentStart dash =>
    if c = '>' then emitComment []
    else if c = '-' then
      if dash then goto (.commentDashDash []) else goto (.commentStart true)
    else comment (if dash then ['-'] else []) c
  | .comment reversed => comment reversed c
  | .commentDash reversed =>
    if c = '-' then goto (.commentDashDash reversed) else comment ('-' :: reversed) c
  | .commentDashDash reversed =>
    if c = '>' then emitComment reversed
    else if c = '!' then goto (.commentBang reversed)
    else if c = '-' then goto (.commentDashDash ('-' :: reversed))
    else comment ('-' :: '-' :: reversed) c
  | .commentBang reversed =>
    if c = '>' then emitComment reversed
    else if c = '-' then goto (.commentDash ('!' :: '-' :: '-' :: reversed))
    else comment ('!' :: '-' :: '-' :: reversed) c
  | .cdata brackets =>
    if c = ']' then
      if brackets = 2 then say [c] (.cdata 2) else goto (.cdata (brackets + 1))
    else if c = '>' && brackets = 2 then goto (.text .ordinary)
    else say (List.replicate brackets ']' ++ [c]) (.cdata 0)

/-- What is left at the end of the text. A tag that is not complete is dropped. -/
def finish : LexState → Lexed
  | .reference mode reference => { say (reference.finish false) (.text mode) with lapse := true }
  | .less => say ['<'] (.text .ordinary)
  | .lessSlash => say ['<', '/'] (.text .ordinary)
  | .rawLess mode => say ['<'] (.text mode)
  | .rawLessSlash mode => say ['<', '/'] (.text mode)
  | .rawEnd mode reversed => say ('<' :: '/' :: reversed.reverse) (.text mode)
  | .declaration seen => emitComment seen.reverse
  | .bogusComment reversed | .comment reversed | .commentDash reversed
  | .commentDashDash reversed | .commentBang reversed => emitComment reversed
  | .commentStart _ => emitComment []
  | .cdata brackets => say (List.replicate brackets ']') (.text .ordinary)
  | .doctype => passOver
  | .text mode => goto (.text mode)
  | .tagName _ | .beforeKey _ | .key _ | .afterKey _ | .beforeValue _ | .value ..
  | .valueReference .. | .afterValue _ | .slash _ => goto (.text .ordinary)

end Lexer

end Stencil.Markup
