import Treewalk.Machine

/-!
# `Treewalk.ModuleShelf`: modules that are held in memory

A shelf has a place for each path. A place holds statements or the
reasons why there are none, and reasons win over statements. Of two
bodies for one path the later one counts, and of two lists of reasons
too.
-/

set_option autoImplicit false

namespace Treewalk

/-- What stands on a shelf for one path. -/
structure ShelfEntry where
  path : String
  content : Except (List String) (List Node)

/-- Modules by path, in the order in which they were put there. -/
structure ModuleShelf where
  entries : List ShelfEntry

namespace ModuleShelf

/-- Why a path without a place has no module. -/
def missing (path : String) : List String :=
  [s!"no module at `{path}`"]

/-- The source of modules that reads from a shelf. -/
def source (shelf : ModuleShelf) : ModuleSource := fun path =>
  let here := (shelf.entries.filter fun e => e.path = path).map ShelfEntry.content
  let refusals := here.filter fun c => !c.isOk
  match refusals.getLast?, here.getLast? with
  | some refusal, _ => refusal
  | none, some content => content
  | none, none => .error (missing path)

end ModuleShelf

end Treewalk
