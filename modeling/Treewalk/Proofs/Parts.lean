import Treewalk.Proofs.Constructs

/-!
# `Treewalk.Proofs.Parts`: what a node consists of

`Node.parts` lists the nodes that a node is directly made of, the bodies
of the specs it declares and of the blocks it puts off among them. A
part is smaller than the whole, and `Within` is the closure of being a
part.

Most nodes evaluate nothing but what stands inside of them and the
bodies of the calls they make. `step_congr` says so: two evaluators of
the nodes that agree on the inside of a node are as good as each other
for its step. The exceptions are the nodes that run tasks, handlers or
modules. Together with the loops they are called unbounded here, and a
node without any of them inside is `Tame`.
-/

set_option autoImplicit false

namespace Treewalk

/-! ### Parts -/

/-- The nodes in a piece of an interpolated text. -/
def Piece.parts {Node : Type} : Piece Node → List Node
  | literal _ => []
  | expression x => [x]

/-- The nodes in a branch. -/
def Branch.parts {Node : Type} (b : Branch Node) : List Node :=
  b.condition :: b.body

/-- The nodes in a constructor. -/
def Constructor.parts {Node : Type} (c : Option (Constructor Node)) : List Node :=
  c.elim [] Constructor.body

namespace Node

/-- The nodes that a node is directly made of. -/
def parts : Node → List Node
  | program body | embed body | inlet body => body
  | number _ | text _ | bool _ | nil | typeName _ | docstring _ => []
  | interpolated pieces => pieces.flatMap Piece.parts
  | pack items | print items | ask items => items
  | binary _ left right => [left, right]
  | unary _ x | kind x | convert x _ | statement x | firm _ x | link _ x => [x]
  | var _ | nick .. | halt | proceed | adopt .. => []
  | plug .. | expose _ | bring .. | trigger .. => []
  | assign target value => [target, value]
  | wait x | back x => x.toList
  | spec decl => decl.body
  | call callee args => callee :: args
  | methodCall object _ args => object :: args
  | check first alters altern => (first :: alters).flatMap Branch.parts ++ altern.getD []
  | traverse _ start stop step body => start :: stop :: step.toList ++ body
  | each _ range body => range :: body
  | untilTrue condition body => condition :: body
  | blueprint decl => decl.attributes ++ decl.methods ++ Constructor.parts decl.constructor
  | spawn source args => source :: args
  | attributeOf object _ => [object]
  | toolkit _ body | bridge _ body => body
  | attempt parts => parts.body ++ parts.trap ++ parts.conclude.getD []
  | paral body | hold body | signal body | listen body => body

/-- A node that is another one or stands somewhere in it. -/
inductive Within (x : Node) : Node → Prop where
  | self : Within x x
  | part {y node : Node} : y ∈ node.parts → Within x y → Within x node

/-- A node that stands somewhere in another one. -/
def Inside (x node : Node) : Prop :=
  ∃ y ∈ node.parts, Within x y

/-- Whether the limit of calls does not bound what a node runs: loops,
tasks, handlers, and modules. -/
def isUnbounded : Node → Bool
  | traverse .. | each .. | untilTrue .. => true
  | hold _ | signal _ | bring .. | plug _ (some _) => true
  | _ => false

/-- A node without unbounded nodes. -/
def Tame (node : Node) : Prop :=
  ∀ x, Within x node → x.isUnbounded = false

theorem Within.trans {x y z : Node} (h : Within x y) (h' : Within y z) : Within x z := by
  induction h' with
  | self => exact h
  | part hpart _ ih => exact .part hpart ih

theorem Inside.within {x node : Node} (h : Inside x node) : Within x node := by
  obtain ⟨y, hpart, hwithin⟩ := h
  exact .part hpart hwithin

theorem inside_of_part {x node : Node} (h : x ∈ node.parts) : Inside x node :=
  ⟨x, h, .self⟩

/-- The code of a node is made of its parts. -/
theorem mem_parts_of_code {node : Node} {body : List Node} {x : Node} (hbody : body ∈ node.code)
    (hx : x ∈ body) : x ∈ node.parts := by
  cases node with
  | spec decl =>
    rw [List.mem_singleton.mp hbody] at hx
    exact hx
  | blueprint decl =>
    obtain ⟨k, hk, rfl⟩ := List.mem_map.mp hbody
    refine List.mem_append_right _ ?_
    rw [Option.mem_toList.mp hk]
    exact hx
  | _ => cases hbody

/-- A node is tame if it is bounded itself and its parts are tame. -/
theorem tame_of_parts {node : Node} (h : node.isUnbounded = false)
    (hparts : ∀ x ∈ node.parts, x.Tame) : node.Tame := by
  intro x hx
  cases hx with
  | self => exact h
  | part hpart hwithin => exact hparts _ hpart x hwithin

theorem Tame.inside {x node : Node} (h : node.Tame) (hx : Inside x node) : x.Tame :=
  fun y hy => h y (hy.trans hx.within)

end Node

/-! ### Parts are smaller -/

theorem Piece.sizeOf_part {x : Node} {p : Piece Node} (h : x ∈ p.parts) : sizeOf x < sizeOf p := by
  cases p with
  | literal s => cases h
  | expression y =>
    rw [List.mem_singleton.mp h]
    simp only [expression.sizeOf_spec]
    omega

theorem Branch.sizeOf_part {x : Node} {b : Branch Node} (h : x ∈ b.parts) :
    sizeOf x < sizeOf b := by
  obtain ⟨condition, body⟩ := b
  rcases List.mem_cons.mp h with rfl | h
  · simp only [mk.sizeOf_spec]
    omega
  · have hlt : sizeOf x < sizeOf body := List.sizeOf_lt_of_mem h
    simp only [mk.sizeOf_spec]
    omega

theorem sizeOf_getD {x : Node} {body : Option (List Node)} (h : x ∈ body.getD []) :
    sizeOf x < sizeOf body := by
  cases body with
  | none => cases h
  | some body =>
    have hlt : sizeOf x < sizeOf body := List.sizeOf_lt_of_mem h
    simp only [Option.some.sizeOf_spec]
    omega

theorem sizeOf_toList {x : Node} {o : Option Node} (h : x ∈ o.toList) : sizeOf x < sizeOf o := by
  cases o with
  | none => cases h
  | some y =>
    rw [List.mem_singleton.mp h]
    simp only [Option.some.sizeOf_spec]
    omega

namespace Node

theorem sizeOf_pos (node : Node) : 0 < sizeOf node := by
  apply Nat.pos_of_ne_zero
  cases node <;> simp

/-- A part of a node is smaller than the node. -/
theorem sizeOf_part {x node : Node} (h : x ∈ node.parts) : sizeOf x < sizeOf node := by
  cases node
  case program body | embed body | inlet body | pack body | print body | ask body | paral body
      | hold body | signal body | listen body | toolkit name body | bridge name body =>
    have hlt : sizeOf x < sizeOf body := List.sizeOf_lt_of_mem h
    simp only [program.sizeOf_spec, embed.sizeOf_spec, inlet.sizeOf_spec, pack.sizeOf_spec,
      print.sizeOf_spec, ask.sizeOf_spec, paral.sizeOf_spec, hold.sizeOf_spec, signal.sizeOf_spec,
      listen.sizeOf_spec, toolkit.sizeOf_spec, bridge.sizeOf_spec]
    omega
  case unary op y | kind y | convert y target | statement y | firm name y | link name y
      | attributeOf y name =>
    rw [List.mem_singleton.mp h]
    simp only [unary.sizeOf_spec, kind.sizeOf_spec, convert.sizeOf_spec, statement.sizeOf_spec,
      firm.sizeOf_spec, link.sizeOf_spec, attributeOf.sizeOf_spec]
    omega
  case binary op left right | assign left right =>
    rcases List.mem_cons.mp h with rfl | h
    · simp only [binary.sizeOf_spec, assign.sizeOf_spec]
      omega
    · rw [List.mem_singleton.mp h]
      simp only [binary.sizeOf_spec, assign.sizeOf_spec]
      omega
  case wait o | back o =>
    have hlt := sizeOf_toList h
    simp only [wait.sizeOf_spec, back.sizeOf_spec]
    omega
  case call first rest | spawn first rest | methodCall first name rest | each name first rest
      | untilTrue first rest =>
    rcases List.mem_cons.mp h with rfl | h
    · simp only [call.sizeOf_spec, spawn.sizeOf_spec, methodCall.sizeOf_spec, each.sizeOf_spec,
        untilTrue.sizeOf_spec]
      omega
    · have hlt : sizeOf x < sizeOf rest := List.sizeOf_lt_of_mem h
      simp only [call.sizeOf_spec, spawn.sizeOf_spec, methodCall.sizeOf_spec, each.sizeOf_spec,
        untilTrue.sizeOf_spec]
      omega
  case interpolated pieces =>
    obtain ⟨p, hp, hx⟩ := List.mem_flatMap.mp h
    have hlt := List.sizeOf_lt_of_mem hp
    have hpart := Piece.sizeOf_part hx
    simp only [interpolated.sizeOf_spec]
    omega
  case check first alters altern =>
    rcases List.mem_append.mp h with hbranch | haltern
    · obtain ⟨b, hb, hx⟩ := List.mem_flatMap.mp hbranch
      have hpart := Branch.sizeOf_part hx
      rcases List.mem_cons.mp hb with rfl | hb
      · simp only [check.sizeOf_spec]
        omega
      · have hlt := List.sizeOf_lt_of_mem hb
        simp only [check.sizeOf_spec]
        omega
    · have hlt := sizeOf_getD haltern
      simp only [check.sizeOf_spec]
      omega
  case traverse name start stop step body =>
    rcases List.mem_append.mp h with h | h
    · rcases List.mem_cons.mp h with rfl | h
      · simp only [traverse.sizeOf_spec]
        omega
      · rcases List.mem_cons.mp h with rfl | h
        · simp only [traverse.sizeOf_spec]
          omega
        · have hlt := sizeOf_toList h
          simp only [traverse.sizeOf_spec]
          omega
    · have hlt : sizeOf x < sizeOf body := List.sizeOf_lt_of_mem h
      simp only [traverse.sizeOf_spec]
      omega
  case spec decl =>
    obtain ⟨number, name, params, body, exposed, shared, doc⟩ := decl
    have hlt : sizeOf x < sizeOf body := List.sizeOf_lt_of_mem h
    simp only [spec.sizeOf_spec, Spec.mk.sizeOf_spec]
    omega
  case blueprint decl =>
    obtain ⟨name, attributes, methods, constructor, doc⟩ := decl
    rcases List.mem_append.mp h with h | h
    · have hlt : sizeOf x < sizeOf attributes + sizeOf methods := by
        rcases List.mem_append.mp h with h | h
        · exact Nat.lt_add_right _ (List.sizeOf_lt_of_mem h)
        · exact Nat.lt_add_left _ (List.sizeOf_lt_of_mem h)
      simp only [blueprint.sizeOf_spec, BlueprintDecl.mk.sizeOf_spec]
      omega
    · cases constructor with
      | none => cases h
      | some k =>
        obtain ⟨params, body⟩ := k
        have hlt : sizeOf x < sizeOf body := List.sizeOf_lt_of_mem h
        simp only [blueprint.sizeOf_spec, BlueprintDecl.mk.sizeOf_spec,
          Option.some.sizeOf_spec, Constructor.mk.sizeOf_spec]
        omega
  case attempt parts =>
    obtain ⟨body, trap, peek, errorVar, conclude⟩ := parts
    rcases List.mem_append.mp h with h | h
    · have hlt : sizeOf x < sizeOf body + sizeOf trap := by
        rcases List.mem_append.mp h with h | h
        · exact Nat.lt_add_right _ (List.sizeOf_lt_of_mem h)
        · exact Nat.lt_add_left _ (List.sizeOf_lt_of_mem h)
      simp only [attempt.sizeOf_spec, Attempt.mk.sizeOf_spec]
      omega
    · have hlt : sizeOf x < sizeOf conclude := sizeOf_getD h
      simp only [attempt.sizeOf_spec, Attempt.mk.sizeOf_spec]
      omega
  all_goals cases h

theorem Within.sizeOf_le {x node : Node} (h : Within x node) : sizeOf x ≤ sizeOf node := by
  induction h with
  | self => exact Nat.le_refl _
  | part hpart _ ih => exact Nat.le_trans ih (Nat.le_of_lt (sizeOf_part hpart))

theorem Inside.sizeOf_lt {x node : Node} (h : Inside x node) : sizeOf x < sizeOf node := by
  obtain ⟨y, hpart, hwithin⟩ := h
  exact Nat.lt_of_le_of_lt hwithin.sizeOf_le (sizeOf_part hpart)

end Node

/-! ### Only what is inside is evaluated -/

namespace Evaluator

open Node (Within Inside)

variable {ev ev' : Evaluator}

theorem runBlock_congr {body : List Node} (h : ∀ x ∈ body, ev x = ev' x) :
    runBlock ev body = runBlock ev' body := by
  induction body with
  | nil => rfl
  | cons first rest ih =>
    obtain ⟨hfirst, hrest⟩ := List.forall_mem_cons.mp h
    rw [runBlock, runBlock, hfirst, ih hrest]

theorem evalAll_congr {nodes : List Node} (h : ∀ x ∈ nodes, ev x = ev' x) :
    evalAll ev nodes = evalAll ev' nodes := by
  induction nodes with
  | nil => rfl
  | cons first rest ih =>
    obtain ⟨hfirst, hrest⟩ := List.forall_mem_cons.mp h
    rw [evalAll, evalAll, hfirst, ih hrest]

theorem evalTexts_congr (text : Value → String) {nodes : List Node}
    (h : ∀ x ∈ nodes, ev x = ev' x) : evalTexts ev text nodes = evalTexts ev' text nodes := by
  induction nodes with
  | nil => rfl
  | cons first rest ih =>
    obtain ⟨hfirst, hrest⟩ := List.forall_mem_cons.mp h
    rw [evalTexts, evalTexts, hfirst, ih hrest]

theorem pieces_congr {parts : List (Piece Node)}
    (h : ∀ x ∈ parts.flatMap Piece.parts, ev x = ev' x) : pieces ev parts = pieces ev' parts := by
  induction parts with
  | nil => rfl
  | cons first rest ih =>
    rw [List.flatMap_cons] at h
    obtain ⟨hfirst, hrest⟩ := List.forall_mem_append.mp h
    cases first with
    | literal s => rw [pieces, pieces, ih hrest]
    | expression x => rw [pieces, pieces, hfirst x (List.mem_singleton_self _), ih hrest]

theorem prompt_congr {nodes : List Node} (h : ∀ x ∈ nodes, ev x = ev' x) :
    prompt ev nodes = prompt ev' nodes := by
  induction nodes with
  | nil => rfl
  | cons first rest ih =>
    obtain ⟨hfirst, hrest⟩ := List.forall_mem_cons.mp h
    rw [prompt, prompt, hfirst, ih hrest]

theorem branches_congr {altern : Option (List Node)} {bs : List (Branch Node)}
    (h : ∀ x ∈ bs.flatMap Branch.parts ++ altern.getD [], ev x = ev' x) :
    branches ev altern bs = branches ev' altern bs := by
  induction bs with
  | nil => exact runBlock_congr h
  | cons first rest ih =>
    rw [List.flatMap_cons, List.append_assoc] at h
    obtain ⟨hfirst, hrest⟩ := List.forall_mem_append.mp h
    obtain ⟨hcondition, hbody⟩ := List.forall_mem_cons.mp hfirst
    rw [branches, branches, test, test, hcondition, runBlock_congr hbody, ih hrest]

theorem calleeOf_congr {callee : Node} (h : ev callee = ev' callee) :
    calleeOf ev callee = calleeOf ev' callee := by
  unfold calleeOf
  split
  · rfl
  · exact h

/-- An attribute is looked through to the value that it is bound to. -/
theorem declareAttribute_congr {x : Node} (h : ∀ y, Within y x → ev y = ev' y) :
    declareAttribute ev x = declareAttribute ev' x := by
  fun_induction declareAttribute ev x with
  | case1 name => rfl
  | case2 x ih =>
    rw [declareAttribute]
    exact ih fun y hy => h y (.part (List.mem_singleton_self _) hy)
  | case3 name value =>
    have hvalue : ev value = ev' value := h value (.part (by simp [Node.parts]) .self)
    rw [declareAttribute, hvalue]
  | case4 x hvar hstatement hassign =>
    rw [declareAttribute, h x .self]
    · exact hvar
    · exact hstatement
    · exact hassign

theorem declareAttributes_congr {attributes : List Node}
    (h : ∀ x ∈ attributes, ∀ y, Within y x → ev y = ev' y) :
    declareAttributes ev attributes = declareAttributes ev' attributes := by
  induction attributes with
  | nil => rfl
  | cons first rest ih =>
    obtain ⟨hfirst, hrest⟩ := List.forall_mem_cons.mp h
    rw [declareAttributes, declareAttributes, declareAttribute_congr hfirst, ih hrest]

/-- A write looks through its target to the object that it writes to. -/
theorem writeTo_congr {v : Value} {target : Node} (h : ∀ y, Inside y target → ev y = ev' y) :
    writeTo ev v target = writeTo ev' v target := by
  unfold writeTo
  split
  · rfl
  · rw [h _ (Node.inside_of_part (List.mem_singleton_self _))]
  · rfl

theorem attempt_congr {parts : Attempt Node}
    (h : ∀ x ∈ parts.body ++ parts.trap ++ parts.conclude.getD [], ev x = ev' x) :
    attempt ev parts = attempt ev' parts := by
  obtain ⟨hblocks, hconclude⟩ := List.forall_mem_append.mp h
  obtain ⟨hbody, htrap⟩ := List.forall_mem_append.mp hblocks
  have hsettle : settleBody ev parts = settleBody ev' parts := by
    funext ended
    simp only [settleBody, runTrap, runBlock_congr htrap]
  have hend : conclude ev parts = conclude ev' parts := by
    unfold conclude
    cases hparts : parts.conclude with
    | none => rfl
    | some body =>
      rw [hparts] at hconclude
      have hbody : runBlock ev body = runBlock ev' body := runBlock_congr hconclude
      simp only [hbody]
  simp only [attempt, runBlock_congr hbody, hsettle, hend]

/-- The step of a node that is not unbounded depends on what evaluates
the nodes inside of it, and on nothing else that is evaluated. -/
theorem step_congr {node : Node} (hnode : node.isUnbounded = false)
    (h : ∀ x, Inside x node → ev x = ev' x) (run : List Node → Eval Unit) (bound : Nat) :
    step ev run bound node = step ev' run bound node := by
  have hparts : ∀ x ∈ node.parts, ev x = ev' x := fun x hx => h x (Node.inside_of_part hx)
  cases node with
  | program body | inlet body =>
    have hbody : runBlock ev body = runBlock ev' body := runBlock_congr hparts
    simp only [step, block, hbody]
  | embed body =>
    have hbody : runBlock ev body = runBlock ev' body := runBlock_congr hparts
    simp only [step, embed, hbody]
  | toolkit name body =>
    have hbody : runBlock ev body = runBlock ev' body := runBlock_congr hparts
    simp only [step, declareToolkit, hbody]
  | bridge name body =>
    have hbody : runBlock ev body = runBlock ev' body := runBlock_congr hparts
    simp only [step, declareBridge, hbody]
  | listen body =>
    have hbody : runBlock ev body = runBlock ev' body := runBlock_congr hparts
    simp only [step, listen, hbody]
  | interpolated parts =>
    have hpieces : pieces ev parts = pieces ev' parts := pieces_congr hparts
    simp only [step, interpolated, hpieces]
  | pack nodes =>
    have htexts : ∀ text, evalTexts ev text nodes = evalTexts ev' text nodes :=
      fun text => evalTexts_congr text hparts
    simp only [step, pack, htexts]
  | print nodes =>
    have htexts : ∀ text, evalTexts ev text nodes = evalTexts ev' text nodes :=
      fun text => evalTexts_congr text hparts
    simp only [step, printLine, htexts]
  | ask nodes =>
    have hprompt : prompt ev nodes = prompt ev' nodes := prompt_congr hparts
    simp only [step, ask, hprompt]
  | binary op left right =>
    have hleft : ev left = ev' left := hparts left (by simp [Node.parts])
    have hright : ev right = ev' right := hparts right (by simp [Node.parts])
    simp only [step, binary, hleft, hright]
  | unary op x | kind x | convert x target | statement x | firm name x | link name x
  | attributeOf x name =>
    have hx : ev x = ev' x := hparts x (List.mem_singleton_self x)
    simp only [step, unary, kindOf, convert, declareConstant, link, readAttribute, hx]
  | assign target value =>
    have hvalue : ev value = ev' value := hparts value (by simp [Node.parts])
    have hwrite : ∀ v, writeTo ev v target = writeTo ev' v target := fun v =>
      writeTo_congr fun y hy => h y ⟨target, List.mem_cons_self .., hy.within⟩
    simp only [step, assignTo, hvalue, hwrite]
  | back value =>
    cases value with
    | none => rfl
    | some x =>
      have hx : ev x = ev' x := hparts x (List.mem_singleton_self x)
      simp only [step, back, hx]
  | call callee args =>
    obtain ⟨hcallee, hargs⟩ := List.forall_mem_cons.mp hparts
    simp only [step, call, calleeOf_congr hcallee, evalAll_congr hargs]
  | methodCall object name args =>
    obtain ⟨hobject, hargs⟩ := List.forall_mem_cons.mp hparts
    simp only [step, methodCall, hobject, evalAll_congr hargs]
  | spawn source args =>
    obtain ⟨hsource, hargs⟩ := List.forall_mem_cons.mp hparts
    have hinit : ∀ i, initialise ev run i args = initialise ev' run i args := fun i => by
      simp only [initialise, evalAll_congr hargs]
    simp only [step, spawn, hsource, hinit]
  | check first alters altern =>
    have hbranches : branches ev altern (first :: alters) = branches ev' altern (first :: alters) :=
      branches_congr hparts
    simp only [step, check, hbranches]
  | blueprint decl =>
    have hattributes := declareAttributes_congr fun x (hx : x ∈ decl.attributes) y hy =>
      h y ⟨x, by simp [Node.parts, hx], hy⟩
    have hmethods := runBlock_congr fun x (hx : x ∈ decl.methods) =>
      hparts x (by simp [Node.parts, hx])
    simp only [step, declareBlueprint, hattributes, hmethods]
  | attempt parts => exact attempt_congr hparts
  | plug name path =>
    cases path with
    | none => rfl
    | some path => cases hnode
  | traverse var start stop step body => cases hnode
  | each var range body => cases hnode
  | untilTrue condition body => cases hnode
  | hold body => cases hnode
  | signal body => cases hnode
  | bring names path => cases hnode
  | _ => rfl

end Evaluator

end Treewalk
