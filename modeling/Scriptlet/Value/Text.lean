import Scriptlet.Text.Decimal
import Scriptlet.Text.Quoted
import Scriptlet.Value.Basic

/-!
# The text of a value

A value is shown in two ways: `display` is what a program prints and what the log shows of
arguments, `listed` is what a listing of variables shows.  Both write integers and tuples alike;
they differ in bools and strings, and a `Style` holds the difference.

A tuple of one item is written with a comma behind it, since without it the parentheses would only
group.
-/

namespace Scriptlet.Value

open Scriptlet.Text

/-- The choices that tell two ways of showing a value apart. -/
structure Style where
  /-- How a bool is written. -/
  bool : Bool → List Char
  /-- How a string is written. -/
  string : List Char → List Char

/-- Bools as in source text, strings as they are. -/
def Style.plain : Style where
  bool b := if b then "true".toList else "false".toList
  string text := text

/-- Bools capitalised, strings in quotes. -/
def Style.listing : Style where
  bool b := if b then "True".toList else "False".toList
  string := Quoted.encode

/-- The written items of a tuple, put together. -/
def enclose (items : List (List Char)) : List Char :=
  '(' :: [',', ' '].intercalate items ++ (if items.length = 1 then [',', ')'] else [')'])

mutual

/-- The text of a value in a style. -/
def write (style : Style) : Value → List Char
  | .int n => Decimal.ofInt n
  | .string text => style.string text.toList
  | .bool b => style.bool b
  | .tuple items => enclose (writeItems style items)
  | .absent => "None".toList

/-- The text of each value in a style. -/
def writeItems (style : Style) : List Value → List (List Char)
  | [] => []
  | v :: vs => write style v :: writeItems style vs

end

theorem writeItems_eq_map (style : Style) (vs : List Value) :
    writeItems style vs = vs.map (write style) := by
  induction vs with
  | nil => rfl
  | cons v vs ih => rw [writeItems, ih, List.map_cons]

/-- What is printed for a value. -/
def display (v : Value) : String :=
  String.ofList (v.write .plain)

/-- What a listing of variables shows of a value. -/
def listed (v : Value) : String :=
  String.ofList (v.write .listing)

end Scriptlet.Value
