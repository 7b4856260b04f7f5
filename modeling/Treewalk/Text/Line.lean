/-!
# `Treewalk.Text.Line`: lines of text

A line ends with a line feed, and a carriage return right before the
line feed belongs to the end of the line too. What follows the last
line feed is a line of its own unless it is empty, and a carriage
return at its end is part of it.
-/

set_option autoImplicit false

namespace Treewalk.Text

/-- A line without its end. -/
def trimLineEnd (line : List Char) : List Char :=
  match line.reverse with
  | '\n' :: '\r' :: rest => rest.reverse
  | '\n' :: rest => rest.reverse
  | _ => line

/-- A text cut after each line feed. -/
def cutLines : List Char → List (List Char)
  | [] => []
  | c :: rest =>
    if c = '\n' then [c] :: cutLines rest
    else
      match cutLines rest with
      | [] => [[c]]
      | line :: more => (c :: line) :: more

/-- No character is lost where lines are cut. -/
theorem flatten_cutLines (cs : List Char) : (cutLines cs).flatten = cs := by
  induction cs with
  | nil => rfl
  | cons c rest ih =>
    unfold cutLines
    split
    · simp [ih]
    · split <;> simp_all

/-- The lines of a text, without their ends. -/
def lines (text : String) : List String :=
  (cutLines text.toList).map fun line => String.ofList (trimLineEnd line)

end Treewalk.Text
