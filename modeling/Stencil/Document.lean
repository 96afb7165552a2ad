import Stencil.Block

/-!
# Host files

Blocks stand in host files between `$name{` and `}$`, where the name is made of ASCII letters
and digits and may be empty. A block has at least one character between the braces, and ends at
the first closing mark after that character which no backslash precedes. A dollar sign that
begins no block is text.

A file is split into pieces: stretches of text, and blocks. Main statements: the pieces make up
the text (`flatMap_source_pieces`), so replacing the blocks leaves all else untouched.
-/

namespace Stencil

/-- A stretch of a host file. -/
inductive Piece where
  | text (chars : List Char)
  | block (name body : List Char)
deriving DecidableEq, Repr

namespace Piece

/-- The text of the host file that a piece stands for. -/
def source : Piece → List Char
  | text chars => chars
  | block name body => '$' :: name ++ '\x7b' :: body ++ ['\x7d', '$']

end Piece

namespace Document

/-! ### Blocks -/

/-- The characters of a block's name. -/
def isNameChar (c : Char) : Bool := c.isAlphanum

/-- The text up to the first closing mark that no backslash precedes, and what follows the
mark. `escaped` tells whether a backslash stands before the text. -/
def toClosing (escaped : Bool) : List Char → Option (List Char × List Char)
  | [] => none
  | c :: rest =>
    if c = '\x7d' && rest.head? = some '$' && !escaped then
      some ([], rest.tail)
    else
      (toClosing (c = '\\') rest).map fun (body, after) => (c :: body, after)

/-- The body of a block, which is not empty, and what follows the block. -/
def body : List Char → Option (List Char × List Char)
  | [] => none
  | c :: rest => (toClosing (c = '\\') rest).map fun (body, after) => (c :: body, after)

/-- The block after a dollar sign: its name, its body, and what follows it. -/
def blockAfter (s : List Char) : Option (List Char × List Char × List Char) :=
  match s.dropWhile isNameChar with
  | '\x7b' :: inner =>
    (body inner).map fun (body, after) => (s.takeWhile isNameChar, body, after)
  | _ => none

theorem eq_of_toClosing {escaped : Bool} {s found after : List Char}
    (h : toClosing escaped s = some (found, after)) :
    s = found ++ ['\x7d', '$'] ++ after := by
  induction s generalizing escaped found with
  | nil => simp [toClosing] at h
  | cons c rest ih =>
    rw [toClosing] at h
    split at h
    · rename_i hc
      simp only [Bool.and_eq_true, decide_eq_true_eq] at hc
      obtain ⟨⟨rfl, hhead⟩, -⟩ := hc
      simp only [Option.some.injEq, Prod.mk.injEq] at h
      obtain ⟨rfl, rfl⟩ := h
      cases rest with
      | nil => simp at hhead
      | cons d rest => simp_all
    · obtain ⟨⟨inner, tail⟩, hrec, heq⟩ := Option.map_eq_some_iff.1 h
      simp only [Prod.mk.injEq] at heq
      obtain ⟨rfl, rfl⟩ := heq
      rw [ih hrec]
      simp

theorem eq_of_body {s found after : List Char} (h : body s = some (found, after)) :
    s = found ++ ['\x7d', '$'] ++ after := by
  cases s with
  | nil => simp [body] at h
  | cons c rest =>
    obtain ⟨⟨inner, tail⟩, hrec, heq⟩ := Option.map_eq_some_iff.1 h
    simp only [Prod.mk.injEq] at heq
    obtain ⟨rfl, rfl⟩ := heq
    rw [eq_of_toClosing hrec]
    simp

/-- The name, the body with its marks, and what follows make up the text after the sign. -/
theorem eq_of_blockAfter {s name found after : List Char}
    (h : blockAfter s = some (name, found, after)) :
    s = name ++ '\x7b' :: found ++ ['\x7d', '$'] ++ after := by
  unfold blockAfter at h
  split at h
  · rename_i inner hdrop
    obtain ⟨⟨b, a⟩, hbody, heq⟩ := Option.map_eq_some_iff.1 h
    simp only [Prod.mk.injEq] at heq
    obtain ⟨rfl, rfl, rfl⟩ := heq
    conv => lhs; rw [← List.takeWhile_append_dropWhile (p := isNameChar) (l := s), hdrop,
      eq_of_body hbody]
    simp
  · cases h

theorem length_lt_of_blockAfter {s name found after : List Char}
    (h : blockAfter s = some (name, found, after)) : after.length < s.length + 1 := by
  rw [eq_of_blockAfter h]
  simp only [List.length_append, List.length_cons]
  omega

/-! ### Pieces -/

/-- Puts a character before the pieces, into a piece of text. -/
def pushChar (c : Char) : List Piece → List Piece
  | .text chars :: rest => .text (c :: chars) :: rest
  | pieces => .text [c] :: pieces

/-- The pieces of a text. -/
def pieces (s : List Char) : List Piece :=
  match s with
  | [] => []
  | c :: rest =>
    if c = '$' then
      match _ : blockAfter rest with
      | some (name, body, after) => .block name body :: pieces after
      | none => pushChar c (pieces rest)
    else
      pushChar c (pieces rest)
termination_by s.length
decreasing_by
  · exact length_lt_of_blockAfter ‹_›
  · exact Nat.lt_succ_self _
  · exact Nat.lt_succ_self _

theorem flatMap_source_pushChar (c : Char) (pieces : List Piece) :
    (pushChar c pieces).flatMap Piece.source = c :: pieces.flatMap Piece.source := by
  unfold pushChar
  split <;> simp [Piece.source]

/-- The pieces make up the text. -/
theorem flatMap_source_pieces (s : List Char) : (pieces s).flatMap Piece.source = s := by
  fun_induction pieces s with
  | case1 => rfl
  | case2 rest name found after h ih =>
    rw [List.flatMap_cons, ih]
    conv => rhs; rw [eq_of_blockAfter h]
    simp [Piece.source]
  | case3 rest h ih => rw [flatMap_source_pushChar, ih]
  | case4 c rest hc ih => rw [flatMap_source_pushChar, ih]

/-! ### Parts with their places -/

/-- A part of a host file: text, or a block with its place. -/
inductive Part where
  | text (value : String)
  | block (block : Block)
deriving DecidableEq, Repr

/-- The number of bytes of a text. -/
def byteSize : List Char → Nat
  | [] => 0
  | c :: rest => c.utf8Size + byteSize rest

/-- The parts for pieces that begin at a byte offset. -/
def partsFrom (file : Option String) (offset : Nat) : List Piece → List Part
  | [] => []
  | .text chars :: rest =>
    .text (String.ofList chars) :: partsFrom file (offset + byteSize chars) rest
  | .block name body :: rest =>
    let stop := offset + byteSize (Piece.block name body).source
    .block
        { name := String.ofList name
          value := String.ofList (Chars.trim body)
          file
          start := offset
          stop } ::
      partsFrom file stop rest

/-- The parts of a host file. -/
def parts (file : Option String) (text : String) : List Part :=
  partsFrom file 0 (pieces text.toList)

/-- The block of a part. -/
def Part.block? : Part → Option Block
  | .block b => some b
  | .text _ => none

/-- The blocks of a host file, in source order. -/
def blocks (file : Option String) (text : String) : List Block :=
  (parts file text).filterMap Part.block?

/-! ### Compilation -/

/-- Compiles the blocks among the parts, in order and with one numbering of loops, and leaves
the text as it is. Every attribute is reported with its block. -/
def compileParts (rt : Runtime) : List Part → Pass (Attribute × Block) String
  | [] => pure ""
  | .text value :: rest => do
    let code ← compileParts rt rest
    return value ++ code
  | .block b :: rest => do
    let first ← (b.compile rt).mapObserved fun a => (a, b)
    let code ← compileParts rt rest
    return first ++ code

/-- Compiles the blocks of a host file and puts the code in their places. -/
def compile (rt : Runtime) (path text : String) : Pass (Attribute × Block) String :=
  compileParts rt (parts (some path) text)

/-- The code of a host file, or the first error. -/
def compiled (rt : Runtime) (path text : String) : Except Diagnostic String :=
  ((compile rt path text).run 0).result

end Document

end Stencil
