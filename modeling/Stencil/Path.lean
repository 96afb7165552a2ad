/-!
# Paths

A path is a text in which slashes separate segments. Empty segments and dots say nothing, except
that a path may begin at the root or at the current directory; what remains are the components.
Paths are compared by their components, but a path keeps its text, and what is made of a path
keeps the text of the part that stays.

Main statements: the segments of a text make it up (`intercalate_segments`), no slash stands in
a segment (`slash_not_mem_segments`), and `Path.le` is total.
-/

namespace Stencil

/-! ### Segments -/

namespace Path

/-- The parts of a text between slashes. -/
def segments : List Char → List (List Char)
  | [] => [[]]
  | c :: rest =>
    if c = '/' then
      [] :: segments rest
    else
      match segments rest with
      | [] => [[c]]
      | segment :: more => (c :: segment) :: more

theorem segments_ne_nil (s : List Char) : segments s ≠ [] := by
  cases s with
  | nil => simp [segments]
  | cons c rest =>
    rw [segments]
    split
    · simp
    · split <;> simp

/-- The segments with slashes between them are the text. -/
theorem intercalate_segments (s : List Char) : ['/'].intercalate (segments s) = s := by
  induction s with
  | nil => rfl
  | cons c rest ih =>
    rw [segments]
    split
    · rename_i hc
      cases hs : segments rest with
      | nil => exact absurd hs (segments_ne_nil rest)
      | cons segment more =>
        rw [hs] at ih
        rw [List.intercalate_cons_cons, ih, hc]
        rfl
    · split
      · rename_i hs
        exact absurd hs (segments_ne_nil rest)
      · rename_i segment more hs
        rw [hs] at ih
        cases more with
        | nil => simp_all [List.intercalate]
        | cons next more =>
          rw [List.intercalate_cons_cons] at ih ⊢
          rw [← ih]
          rfl

/-- No slash stands in a segment. -/
theorem slash_not_mem_segments {s segment : List Char} (h : segment ∈ segments s) :
    '/' ∉ segment := by
  induction s generalizing segment with
  | nil => simp_all [segments]
  | cons c rest ih =>
    rw [segments] at h
    split at h
    · rcases List.mem_cons.1 h with rfl | h
      · simp
      · exact ih h
    · rename_i hc
      split at h
      · simp_all [Ne.symm]
      · rename_i first more hs
        rcases List.mem_cons.1 h with rfl | h
        · have := ih (hs ▸ List.mem_cons_self)
          simp only [List.mem_cons, not_or]
          exact ⟨fun heq => hc heq.symm, this⟩
        · exact ih (hs ▸ List.mem_cons_of_mem _ h)

end Path

/-! ### Names -/

/-- A text that a file can have as its name: it is not empty, it holds no slash, and it is
neither the dot of the current directory nor the two dots of the parent. -/
def isName (s : String) : Bool :=
  s != "" && s != "." && s != ".." && !s.toList.contains '/'

/-- The name of a file or of a directory. -/
structure Name where
  text : String
  valid : isName text = true
deriving DecidableEq, Repr

namespace Name

/-- The name with a text, if it can be one. -/
def ofText? (text : String) : Option Name :=
  if h : isName text = true then some ⟨text, h⟩ else none

theorem ext {a b : Name} (h : a.text = b.text) : a = b := by
  cases a
  cases b
  congr

@[simp] theorem ofText?_text (n : Name) : ofText? n.text = some n := by
  simp [ofText?, n.valid]

/-- What stands after the last dot of a name, if a dot is there and something before it. -/
def extension? (n : Name) : Option String :=
  match n.text.toList.reverse.dropWhile (· ≠ '.') with
  | _ :: _ :: _ => some (String.ofList (n.text.toList.reverse.takeWhile (· ≠ '.')).reverse)
  | _ => none

/-- The name without its extension and the dot before it. -/
def stem (n : Name) : String :=
  match n.text.toList.reverse.dropWhile (· ≠ '.') with
  | _ :: first :: rest => String.ofList (first :: rest).reverse
  | _ => n.text

end Name

/-! ### Components -/

/-- A step on the way that a path describes. -/
inductive Component where
  | root
  | current
  | parent
  | name (name : Name)
deriving DecidableEq, Repr

namespace Component

/-- The step for a segment; an empty segment is none. -/
def ofSegment? (segment : List Char) : Option Component :=
  if segment = ['.'] then some current
  else if segment = ['.', '.'] then some parent
  else (Name.ofText? (String.ofList segment)).map name

/-- The place of a component among the kinds of components. -/
def rank : Component → Nat
  | root => 0
  | current => 1
  | parent => 2
  | name _ => 3

/-- The order of components: the root, the current directory, the parent, then the names in the
order of their texts. -/
def before : Component → Component → Bool
  | name a, name b => a.text < b.text
  | a, b => a.rank < b.rank

/-- The order of lists of components: the first difference decides. -/
def listLe : List Component → List Component → Bool
  | [], _ => true
  | _ :: _, [] => false
  | a :: as, b :: bs => if a = b then listLe as bs else before a b

theorem before_or_before {a b : Component} (h : a ≠ b) :
    before a b = true ∨ before b a = true := by
  cases a <;> cases b
  case name.name a b =>
    rcases Decidable.em (a.text < b.text) with hlt | hlt
    · exact .inl (decide_eq_true hlt)
    · refine .inr (decide_eq_true (Decidable.byContradiction fun hgt => h ?_))
      exact congrArg name
        (Name.ext (String.le_antisymm (String.not_lt.1 hgt) (String.not_lt.1 hlt)))
  all_goals simp_all [before, rank]

theorem listLe_total (as bs : List Component) : listLe as bs || listLe bs as := by
  induction as generalizing bs with
  | nil => simp [listLe]
  | cons a as ih =>
    cases bs with
    | nil => simp [listLe]
    | cons b bs =>
      by_cases h : a = b
      · simpa [listLe, h] using ih bs
      · simpa [listLe, h, Ne.symm h] using before_or_before h

end Component

/-! ### Paths -/

/-- A path, as it is written. -/
structure Path where
  text : String
deriving DecidableEq, Repr, Inhabited

/-- Where a path begins. -/
inductive Anchor where
  /-- At the root, with a slash. -/
  | root
  /-- At the current directory, with a dot. -/
  | current
  /-- At the current directory, without a sign of it. -/
  | none
deriving DecidableEq, Repr

namespace Anchor

/-- The text of the beginning. -/
def text : Anchor → List Char
  | root => ['/']
  | current => ['.']
  | none => []

/-- The component of the beginning. -/
def component? : Anchor → Option Component
  | root => some .root
  | current => some .current
  | none => Option.none

end Anchor

namespace Path

/-- Where the path begins. -/
def anchor (p : Path) : Anchor :=
  match p.text.toList with
  | '/' :: _ => .root
  | ['.'] => .current
  | '.' :: '/' :: _ => .current
  | _ => .none

/-- The segments after the beginning. -/
def body (p : Path) : List (List Char) :=
  segments (p.text.toList.drop p.anchor.text.length)

/-- The path begins at the root. -/
def isAbsolute (p : Path) : Bool := p.anchor = .root

/-- The steps of the path, with every dot. -/
def steps (p : Path) : List Component :=
  p.anchor.component?.toList ++ p.body.filterMap Component.ofSegment?

/-- The components of the path: its steps without the dots after the beginning. -/
def components (p : Path) : List Component :=
  p.anchor.component?.toList ++
    (p.body.filterMap Component.ofSegment?).filter fun c => c ≠ .current

/-- The order of paths, by their components. -/
def le (p q : Path) : Bool := Component.listLe p.components q.components

theorem le_total (p q : Path) : p.le q || q.le p :=
  Component.listLe_total p.components q.components

/-- The last component, if it is a name. -/
def fileName? (p : Path) : Option Name :=
  match p.components.getLast? with
  | some (.name name) => some name
  | _ => none

/-- What stands after the last dot of the file name. -/
def extension? (p : Path) : Option String :=
  p.fileName?.bind Name.extension?

/-- The segment adds no component. -/
def isIdle (segment : List Char) : Bool := segment.isEmpty || segment = ['.']

/-- Segments without the idle ones at the end. -/
def trimIdle (segments : List (List Char)) : List (List Char) :=
  (segments.reverse.dropWhile isIdle).reverse

/-- The path without its last component. The root has no parent, and nor does the empty path. -/
def parent? (p : Path) : Option Path :=
  match trimIdle p.body with
  | [] => if p.anchor = .current then some ⟨""⟩ else none
  | segment :: more =>
    let kept := trimIdle (segment :: more).dropLast
    some ⟨String.ofList (p.anchor.text ++ ['/'].intercalate kept)⟩

/-- A path relative to another one. An absolute path is relative to none. -/
def join (p q : Path) : Path :=
  if q.isAbsolute then q
  else
    match p.text.toList.getLast? with
    | none => q
    | some '/' => ⟨p.text ++ q.text⟩
    | some _ => ⟨p.text ++ "/" ++ q.text⟩

/-- The path with another text in place of its file name. -/
def withFileName (p : Path) (name : String) : Path :=
  match p.fileName? with
  | some _ => (p.parent?.getD p).join ⟨name⟩
  | none => p.join ⟨name⟩

/-- The path of what has a name in the directory of a path. -/
def child (p : Path) (name : Name) : Path := p.join ⟨name.text⟩

/-- The path ends in a slash. -/
def endsInSlash (p : Path) : Bool := p.text.toList.getLast? = some '/'

end Path

end Stencil
