import Treewalk.Number.Rendering
import Treewalk.Text.Quoted
import Treewalk.Value.Basic

/-!
# `Treewalk.Value.Rendering`: the text of a value

A value has three texts. `display` is what programs print. As an item
of a pack, a text stands between quotes but is otherwise left as it
is. For diagnosis, a text is quoted and its special characters are
escaped. The three agree on every value that is not a text.
-/

set_option autoImplicit false

namespace Treewalk.Value

/-- The text of an object: what it is and what it is called. -/
def tagged (what name : String) : String :=
  "<" ++ what ++ " " ++ name ++ ">"

/-- The text that programs print for a value. -/
def display : Value → String
  | nil => "nil"
  | bool b => if b then "true" else "false"
  | number x => Number.render x
  | text s => s
  | range start stop => Number.render start ++ ".." ++ Number.render stop
  | spec s => tagged "Spec" s.displayName
  | blueprint b => tagged "Blueprint" b.name
  | object i => tagged "Instance of" i.blueprint.name
  | toolkit t => tagged "Toolkit" t.name
  | bridge b => tagged "Bridge" b.name

/-- The text of a value among the items of a pack. -/
def packItem : Value → String
  | text s => "\"" ++ s ++ "\""
  | v => v.display

/-- The text of a value for diagnosis. -/
def debug : Value → String
  | text s => Text.quoted s
  | v => v.display

end Treewalk.Value
