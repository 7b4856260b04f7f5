import Treewalk.Program.Node

/-!
# `Treewalk.Program.Equality`: equal programs

The outline of a node is a plain tree: a label for each form, under it
what the form holds. Two nodes are equal if their outlines are.

Numbers are compared as numbers, so the two zeros are equal and a
number that is none differs from itself. The numbers by which specs
are told apart are no part of the outline: equality is about what a
program says.
-/

set_option autoImplicit false

namespace Treewalk

/-- A plain labelled tree. -/
inductive Outline where
  | number (x : Float)
  | text (s : String)
  | flag (b : Bool)
  | branch (label : String) (parts : List Outline)

namespace Outline

mutual

/-- Whether two outlines agree in every part. -/
def same : Outline → Outline → Bool
  | .number x, .number y => x == y
  | .text s, .text t => s == t
  | .flag a, .flag b => a == b
  | .branch label parts, .branch label' parts' => label == label' && sameList parts parts'
  | _, _ => false

/-- Whether two lists of outlines agree one by one. -/
def sameList : List Outline → List Outline → Bool
  | [], [] => true
  | a :: as, b :: bs => same a b && sameList as bs
  | _, _ => false

end

/-- The outline of a list. -/
def list (parts : List Outline) : Outline :=
  branch "list" parts

/-- The outline of a list of names. -/
def names (ns : List String) : Outline :=
  list (ns.map text)

/-- The outline of a text that may be absent. -/
def optionalText : Option String → Outline
  | none => branch "absent" []
  | some s => branch "present" [text s]

end Outline

open Outline (branch list names optionalText)

mutual

/-- The outline of a node. -/
def Node.outline : Node → Outline
  | n@(.program body) => branch n.kindName (Node.outlines body)
  | n@(.number x) => branch n.kindName [.number x]
  | n@(.text s) => branch n.kindName [.text s]
  | n@(.bool b) => branch n.kindName [.flag b]
  | n@.nil => branch n.kindName []
  | n@(.interpolated pieces) => branch n.kindName (Node.pieceOutlines pieces)
  | n@(.pack items) => branch n.kindName (Node.outlines items)
  | n@(.typeName name) => branch n.kindName [.text name]
  | n@(.docstring s) => branch n.kindName [.text s]
  | n@(.binary op l r) => branch n.kindName [.text op, l.outline, r.outline]
  | n@(.unary op x) => branch n.kindName [.text op, x.outline]
  | n@(.kind x) => branch n.kindName [x.outline]
  | n@(.convert x target) => branch n.kindName [x.outline, .text target]
  | n@(.var name) => branch n.kindName [.text name]
  | n@(.assign target value) => branch n.kindName [target.outline, value.outline]
  | n@(.firm name value) => branch n.kindName [.text name, value.outline]
  | n@(.nick name nickname) => branch n.kindName [.text name, .text nickname]
  | n@(.print items) => branch n.kindName (Node.outlines items)
  | n@(.statement x) => branch n.kindName [x.outline]
  | n@(.embed body) => branch n.kindName (Node.outlines body)
  | n@(.ask prompt) => branch n.kindName (Node.outlines prompt)
  | n@(.wait x) => branch n.kindName [Node.optionalOutline x]
  | n@(.spec ⟨_, name, params, body, exposed, shared, doc⟩) =>
    branch n.kindName
      [optionalText name, names params, list (Node.outlines body), .flag exposed, .flag shared,
        optionalText doc]
  | n@(.back value) => branch n.kindName [Node.optionalOutline value]
  | n@(.call callee args) => branch n.kindName [callee.outline, list (Node.outlines args)]
  | n@(.methodCall object method args) =>
    branch n.kindName [object.outline, .text method, list (Node.outlines args)]
  | n@(.check ⟨condition, body⟩ alters altern) =>
    branch n.kindName
      [condition.outline, list (Node.outlines body), list (Node.branchOutlines alters),
        Node.optionalBody altern]
  | n@(.traverse name start stop step body) =>
    branch n.kindName
      [.text name, start.outline, stop.outline, Node.optionalOutline step,
        list (Node.outlines body)]
  | n@(.each name range body) =>
    branch n.kindName [.text name, range.outline, list (Node.outlines body)]
  | n@(.untilTrue condition body) =>
    branch n.kindName [condition.outline, list (Node.outlines body)]
  | n@.halt => branch n.kindName []
  | n@.proceed => branch n.kindName []
  | n@(.blueprint ⟨name, attributes, methods, constructor, doc⟩) =>
    branch n.kindName
      [.text name, list (Node.outlines attributes), list (Node.outlines methods),
        Node.constructorOutline constructor, optionalText doc]
  | n@(.spawn source args) => branch n.kindName [source.outline, list (Node.outlines args)]
  | n@(.adopt child parent) => branch n.kindName [.text child, .text parent]
  | n@(.attributeOf object name) => branch n.kindName [object.outline, .text name]
  | n@(.toolkit name body) => branch n.kindName [.text name, list (Node.outlines body)]
  | n@(.plug name path) => branch n.kindName [.text name, optionalText path]
  | n@(.expose name) => branch n.kindName [.text name]
  | n@(.bridge name body) => branch n.kindName [.text name, list (Node.outlines body)]
  | n@(.inlet body) => branch n.kindName (Node.outlines body)
  | n@(.link greeter implementation) => branch n.kindName [.text greeter, implementation.outline]
  | n@(.bring modules path) => branch n.kindName [names modules, .text path]
  | n@(.attempt ⟨body, trap, peek, errorVar, conclude⟩) =>
    branch n.kindName
      [list (Node.outlines body), list (Node.outlines trap), .flag peek, optionalText errorVar,
        Node.optionalBody conclude]
  | n@(.trigger name message) => branch n.kindName [.text name, optionalText message]
  | n@(.paral body) => branch n.kindName (Node.outlines body)
  | n@(.hold body) => branch n.kindName (Node.outlines body)
  | n@(.signal body) => branch n.kindName (Node.outlines body)
  | n@(.listen body) => branch n.kindName (Node.outlines body)

/-- The outlines of a list of nodes. -/
def Node.outlines : List Node → List Outline
  | [] => []
  | x :: xs => x.outline :: Node.outlines xs

/-- The outline of a node that may be absent. -/
def Node.optionalOutline : Option Node → Outline
  | none => branch "absent" []
  | some x => branch "present" [x.outline]

/-- The outline of a body that may be absent. -/
def Node.optionalBody : Option (List Node) → Outline
  | none => branch "absent" []
  | some body => branch "present" (Node.outlines body)

/-- The outlines of the pieces of a text. -/
def Node.pieceOutlines : List (Piece Node) → List Outline
  | [] => []
  | .literal s :: rest => branch "literal" [.text s] :: Node.pieceOutlines rest
  | .expression x :: rest => branch "expression" [x.outline] :: Node.pieceOutlines rest

/-- The outlines of a list of branches. -/
def Node.branchOutlines : List (Branch Node) → List Outline
  | [] => []
  | ⟨condition, body⟩ :: rest =>
    branch "branch" [condition.outline, list (Node.outlines body)] :: Node.branchOutlines rest

/-- The outline of a constructor that may be absent. -/
def Node.constructorOutline : Option (Constructor Node) → Outline
  | none => branch "absent" []
  | some ⟨params, body⟩ => branch "present" [names params, list (Node.outlines body)]

end

/-- Whether two nodes say the same. -/
def Node.same (a b : Node) : Bool :=
  a.outline.same b.outline

end Treewalk
