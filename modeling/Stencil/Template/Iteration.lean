import Stencil.Text

/-!
# Iteration clauses

The value of a loop directive is completed to a clause that binds a key and a value. A bare
expression is iterated under the names `key` and `val`; a single name on the left of `:=`
becomes the value beside `key`. Clauses with a semicolon, and assignments to names that exist
already, are left as they are.
-/

namespace Stencil.Iteration

/-- The iterated part of a clause, with the word `range` before it unless it has it. -/
def ranged (part : String) : String :=
  let part := Text.trim part
  if part = "range" || Text.startsWith "range " part then part else "range " ++ part

/-- The bound names of a clause: two names stay, one name is the value beside `key`. -/
def bound (names : String) : String :=
  let names := Text.trim names
  if Text.contains "," names then names else "key, " ++ names

/-- The clause that a loop directive stands for. -/
def normalize (raw : String) : String :=
  let raw := Text.trim raw
  if Text.contains ";" raw then
    raw
  else
    match Text.cut ":=" raw with
    | some (names, part) => bound names ++ " := " ++ ranged part
    | none =>
      if Text.contains "=" raw then raw else "key, val := " ++ ranged raw

end Stencil.Iteration
