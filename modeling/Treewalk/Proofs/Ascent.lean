import Mathlib.Data.List.Perm.Subperm
import Treewalk.Proofs.Hosting

/-!
# `Treewalk.Proofs.Ascent`: walks along a chain end

A look-up asks a scope, then the scope that encloses it, and so on. So
does an assignment for the scope that binds the name, and so does an
export for its toolkit. `Store.Walk` is such a walk as a loop that knows
of no bound, together with the scopes that it visits.

From scope to scope a walk goes back in time, and therefore it comes to
an end and never comes by a scope twice. This does not depend on which of
the links of a scope are alive, and so it is of no matter if others die
before a walk or while it is under way. `Climb` is a walk during which
everything that can happen to scopes may happen between any two steps.

`chains_acyclic` has all of this for every state that a host can bring a
session to.
-/

set_option autoImplicit false

namespace Treewalk

/-- A walk from a scope upward. It ends at the first scope that answers or
at the top. The scopes it visits are listed as they are visited. -/
inductive Store.Walk {α : Type} (s : Store) (answer : ScopeId → Scope → Option α) :
    ScopeId → List ScopeId → Option α → Prop where
  | answered {id : ScopeId} {scope : Scope} {a : α} : s.scope? id = some scope →
      answer id scope = some a → Walk s answer id [id] (some a)
  | top {id : ScopeId} {scope : Scope} : s.scope? id = some scope → answer id scope = none →
      s.enclosing? scope = none → Walk s answer id [id] none
  | above {id above : ScopeId} {scope : Scope} {rest : List ScopeId} {r : Option α} :
      s.scope? id = some scope → answer id scope = none → s.enclosing? scope = some above →
        Walk s answer above rest r → Walk s answer id (id :: rest) r

namespace Proofs

/-- A walk that ends with a result and visits no scope twice. There is no
other way for it to end. -/
structure WalkEnds {α : Type} (s : Store) (answer : ScopeId → Scope → Option α) (start : ScopeId)
    (result : Option α) : Prop where
  course : ∃ visited, s.Walk answer start visited result
  only {visited : List ScopeId} {r : Option α} : s.Walk answer start visited r →
    r = result ∧ visited.Nodup

/-- A walk during which the history goes on. Between any two of its steps
scopes may be made, written to and let go. The scopes that it has visited
are listed latest first. -/
inductive Climb (first start : ScopeId) : List Change → List ScopeId → Prop where
  | start {history : List Change} {scope : Scope} :
      (storeAfter first history).scope? start = some scope → Climb first start history [start]
  | meanwhile {history : List Change} {visited : List ScopeId} (change : Change) :
      Climb first start history visited → Climb first start (history ++ [change]) visited
  | up {history : List Change} {visited : List ScopeId} {id above : ScopeId} {scope : Scope} :
      Climb first start history (id :: visited) →
        (storeAfter first history).scope? id = some scope →
        (storeAfter first history).enclosing? scope = some above →
          Climb first start history (above :: id :: visited)

/-- One scope is linked to another one, whether or not that is alive. -/
def LinkedTo (s : Store) (id link : ScopeId) : Prop :=
  ∃ scope, s.scope? id = some scope ∧ link ∈ scope.links

/-! ### Walks in one store -/

/-- Different scopes with numbers up to a bound are not more than that
bound allows. -/
theorem length_le_of_nodup {visited : List ScopeId} {start : ScopeId} (hnodup : visited.Nodup)
    (hle : ∀ id ∈ visited, id ≤ start) : visited.length ≤ start + 1 := by
  have hsub : visited ⊆ List.range (start + 1) :=
    fun id hid => List.mem_range.mpr (Nat.lt_succ_of_le (hle id hid))
  simpa using (List.subperm_of_subset hnodup hsub).length_le

section
variable {s : Store} {α : Type} {answer : ScopeId → Scope → Option α} {id : ScopeId}
  {visited : List ScopeId} {r : Option α}

/-- A walk visits nothing above its start. -/
theorem Descends.le_of_walk (h : Descends s) (hwalk : s.Walk answer id visited r) :
    ∀ i ∈ visited, i ≤ id := by
  induction hwalk with
  | answered => simp
  | top => simp
  | above hscope _ habove _ ih =>
    have hlt := (h.enclosing hscope habove).1
    intro i hi
    rcases List.mem_cons.mp hi with rfl | hi
    · exact Nat.le_refl _
    · exact Nat.le_trans (ih i hi) (Nat.le_of_lt hlt)

theorem Descends.nodup_of_walk (h : Descends s) (hwalk : s.Walk answer id visited r) :
    visited.Nodup := by
  induction hwalk with
  | answered => simp
  | top => simp
  | above hscope _ habove hrest ih =>
    have hlt := (h.enclosing hscope habove).1
    refine List.nodup_cons.mpr ⟨fun hid => ?_, ih⟩
    exact Nat.not_le_of_lt hlt (h.le_of_walk hrest _ hid)

/-- A bounded search that is given room for a walk ends as the walk
does. -/
theorem search_eq_of_walk (hwalk : s.Walk answer id visited r) {bound : Nat}
    (hbound : visited.length ≤ bound) : s.search answer bound id = r := by
  induction hwalk generalizing bound with
  | answered hscope hanswer =>
    obtain ⟨n, rfl⟩ := Nat.exists_eq_add_one_of_ne_zero (Nat.ne_zero_of_lt hbound)
    simp [Store.search, hscope, hanswer]
  | top hscope hanswer habove =>
    obtain ⟨n, rfl⟩ := Nat.exists_eq_add_one_of_ne_zero (Nat.ne_zero_of_lt hbound)
    simp [Store.search, hscope, hanswer, habove]
  | above hscope hanswer habove _ ih =>
    obtain ⟨n, rfl⟩ := Nat.exists_eq_add_one_of_ne_zero (Nat.ne_zero_of_lt hbound)
    simp [Store.search, hscope, hanswer, habove, ih (Nat.le_of_succ_le_succ hbound)]

/-- Where there is a chain, a walk has a course along it. -/
theorem exists_walk {chain : List ScopeId} (hchain : s.Chain id chain)
    (answer : ScopeId → Scope → Option α) : ∃ visited r, s.Walk answer id visited r := by
  induction hchain with
  | @top id scope hscope habove =>
    cases hanswer : answer id scope with
    | none => exact ⟨_, _, .top hscope hanswer habove⟩
    | some a => exact ⟨_, _, .answered hscope hanswer⟩
  | @above id _ scope _ hscope habove _ ih =>
    obtain ⟨visited, r, hwalk⟩ := ih
    cases hanswer : answer id scope with
    | none => exact ⟨_, _, .above hscope hanswer habove hwalk⟩
    | some a => exact ⟨_, _, .answered hscope hanswer⟩

/-- Walks from live scopes end, and with what the bounded search finds. -/
theorem Descends.walkEnds (h : Descends s) {scope : Scope} (hscope : s.scope? id = some scope)
    (answer : ScopeId → Scope → Option α) : WalkEnds s answer id (s.findUp? answer id) := by
  -- The search has room for every walk, and so it ends as any of them does.
  have honly : ∀ {visited r}, s.Walk answer id visited r →
      r = s.findUp? answer id ∧ visited.Nodup := by
    intro visited r hwalk
    have hnodup := h.nodup_of_walk hwalk
    have hlength := length_le_of_nodup hnodup (h.le_of_walk hwalk)
    exact ⟨(search_eq_of_walk hwalk hlength).symm, hnodup⟩
  obtain ⟨chain, hchain⟩ := h.exists_chain hscope
  obtain ⟨visited, r, hwalk⟩ := exists_walk hchain answer
  obtain ⟨rfl, -⟩ := honly hwalk
  exact ⟨⟨visited, hwalk⟩, honly⟩

theorem Descends.lt_of_transGen (h : Descends s) {link : ScopeId}
    (hlinks : Relation.TransGen (LinkedTo s) id link) : link < id := by
  have hstep : ∀ {i j}, LinkedTo s i j → j < i :=
    fun ⟨scope, hscope, hmem⟩ => h _ scope hscope _ hmem
  induction hlinks with
  | single hfirst => exact hstep hfirst
  | tail _ hlast ih => exact Nat.lt_trans (hstep hlast) ih

end

/-! ### Walks while time goes on -/

/-- A climb goes back in time: what it visits has been made, and every
scope before the one that it was visited from. -/
theorem climb_descends {first start : ScopeId} {history : List Change} {visited : List ScopeId}
    (h : Climb first start history visited) :
    visited.Pairwise (· < ·) ∧ ∀ id ∈ visited, Existed first history id ∧ id ≤ start := by
  induction h with
  | start hscope =>
    refine ⟨List.pairwise_singleton _ _, fun id hid => ?_⟩
    rw [List.mem_singleton.mp hid]
    exact ⟨.now ⟨_, hscope⟩, Nat.le_refl _⟩
  | meanwhile change _ ih =>
    exact ⟨ih.1, fun id hid => ⟨(ih.2 id hid).1.later (List.prefix_append _ _), (ih.2 id hid).2⟩⟩
  | @up history visited id above scope _ hscope habove ih =>
    obtain ⟨hsorted, hvisited⟩ := ih
    obtain ⟨hlt, halive⟩ := (descends_ofHistory first history).enclosing hscope habove
    -- The scope that is climbed to is below the latest one, which is below all others.
    have hbelow : ∀ i ∈ id :: visited, id ≤ i := by
      intro i hi
      rcases List.mem_cons.mp hi with rfl | hi
      · exact Nat.le_refl _
      · exact Nat.le_of_lt (List.rel_of_pairwise_cons hsorted hi)
    refine ⟨List.pairwise_cons.mpr ⟨fun i hi => Nat.lt_of_lt_of_le hlt (hbelow i hi), hsorted⟩, ?_⟩
    refine List.forall_mem_cons.mpr ⟨⟨.now halive, ?_⟩, hvisited⟩
    exact Nat.le_of_lt (Nat.lt_of_lt_of_le hlt (hvisited id (List.mem_cons_self ..)).2)

/-- Whatever happens to scopes while a walk is under way, each one that it
comes to was made before all that it has visited, and it is over after no
more steps than the number of its start allows. -/
theorem climb_ends {first start : ScopeId} {history : List Change} {visited : List ScopeId}
    (h : Climb first start history visited) :
    visited.Pairwise (MadeBefore first history) ∧ visited.Nodup ∧ visited.length ≤ start + 1 := by
  obtain ⟨hsorted, hvisited⟩ := climb_descends h
  have hnodup : visited.Nodup := hsorted.imp Nat.ne_of_lt
  refine ⟨?_, hnodup, length_le_of_nodup hnodup fun id hid => (hvisited id hid).2⟩
  exact hsorted.imp_of_mem fun ha hb hlt => madeBefore_of_lt (hvisited _ ha).1 (hvisited _ hb).1 hlt

/-! ### Chains end -/

/-- What is true of the chains in a store that a history has led to. -/
structure ChainsEnd (first : ScopeId) (history : List Change) (s : Store) : Prop where
  /-- Every link of a scope goes to one that was made before, whether or
  not that is alive. -/
  links {id link : ScopeId} {scope : Scope} : s.scope? id = some scope → link ∈ scope.links →
    MadeBefore first history link id
  /-- So does the link that answers for the scope above. -/
  enclosing {id above : ScopeId} {scope : Scope} : s.scope? id = some scope →
    s.enclosing? scope = some above → MadeBefore first history above id
  /-- No way along links, alive or not, comes back to where it began. -/
  acyclic (id : ScopeId) : ¬ Relation.TransGen (LinkedTo s) id id
  lookup {id : ScopeId} {scope : Scope} (name : String) : s.scope? id = some scope →
    WalkEnds s (fun _ scope => s.answer? name scope) id (s.lookup? id name)
  assign {id : ScopeId} {scope : Scope} (name : String) : s.scope? id = some scope →
    WalkEnds s (fun id scope => (scope.binding? name).map fun _ => id) id (s.holder? id name)
  exports {id : ScopeId} {scope : Scope} : s.scope? id = some scope →
    WalkEnds s
      (fun _ scope =>
        match scope.kind with
        | .toolkit exports => some exports
        | _ => none)
      id (s.nearestExports? id)

theorem chainsEnd (first : ScopeId) (history : List Change) :
    ChainsEnd first history (storeAfter first history) := by
  have hdescends : Descends (storeAfter first history) := descends_ofHistory first history
  exact
    { links := links_madeBefore
      enclosing := fun hscope habove => links_madeBefore hscope (List.mem_of_find?_eq_some habove)
      acyclic := fun id hcycle => Nat.lt_irrefl id (hdescends.lt_of_transGen hcycle)
      lookup := fun _ hscope => hdescends.walkEnds hscope _
      assign := fun _ hscope => hdescends.walkEnds hscope _
      exports := fun hscope => hdescends.walkEnds hscope _ }

/-- Chains of scopes are acyclic, and walks along them end. After any
history all links of a scope go to scopes that were made before it. So
every walk from a live scope ends, for every name, and visits no scope
twice. This is also true of walks during which scopes are made, written to
and let go.

Whatever a host does with a session, the store is one after a history, and
at every moment of what is evaluated next it is one that continues this
history. -/
theorem chains_acyclic (first : ScopeId) :
    (∀ history, ChainsEnd first history (storeAfter first history)) ∧
    (∀ start history visited, Climb first start history visited →
      visited.Pairwise (MadeBefore first history) ∧ visited.Nodup ∧
        visited.length ≤ start + 1) ∧
    ∀ (settings : Settings) (out err : Sink) (input : Source) (s : Session),
      Relation.ReflTransGen HostStep (.start settings out err input first) s →
        ∃ history, s.machine.store = storeAfter first history ∧
          ∀ (steps : Nat) (alarm : Eval Unit) (scope : ScopeId),
            let c := hostContext s scope
            let look := sentry
              (fun _ m => ∃ more, m.store = storeAfter first (history ++ more)) alarm
            (∀ node, watched (fun _ => look) steps 0 node c s.machine =
              evaluate steps node c s.machine) ∧
            ∀ program, runProgram (watched (fun _ => look) steps 0) program c s.machine =
              runProgram (evaluate steps) program c s.machine := by
  refine ⟨chainsEnd first, fun start history visited => climb_ends, ?_⟩
  intro settings out err input s hs
  obtain ⟨history, hhistory⟩ := exists_history hs
  exact ⟨history, hhistory, fun steps alarm scope =>
    history_watched hhistory steps alarm (hostContext s scope)⟩

/-- A block in a function in a bridge. -/
def blockInBridge : List Change :=
  [.make .global, .makeIn 0 .bridge, .makeIn 1 .function, .makeIn 2 .block]

/-- The bridge is let go while all others are held. -/
def bridgeGone : Change :=
  .letGo [.scope 0, .scope 2, .scope 3] [.scope 1]

/-- A walk from the block has come to the function when the bridge is let
go, and goes on at the top. A session in which a host has made a bridge has
a history. -/
theorem chains_acyclic_bridge :
    let history := blockInBridge ++ [bridgeGone]
    let s := Session.start .standard (.limited none none) (.limited none none) ⟨[]⟩ 0
    let t := s.addChild "b" 0 .bridge
    (Climb 0 3 history [0, 2, 3] ∧ [0, 2, 3].Pairwise (MadeBefore 0 history)) ∧
      Relation.ReflTransGen HostStep s t ∧ ∃ history, t.machine.store = storeAfter 0 history := by
  intro history s t
  obtain ⟨-, hclimbs, hsessions⟩ := chains_acyclic 0
  have hfunction : Climb 0 3 blockInBridge [2, 3] := .up (.start rfl) rfl rfl
  have htop : Climb 0 3 history [0, 2, 3] := .up (.meanwhile bridgeGone hfunction) rfl rfl
  have hreached : Relation.ReflTransGen HostStep s t := .single (.child s "b" 0 .bridge)
  obtain ⟨made, hmade, -⟩ := hsessions _ _ _ _ t hreached
  exact ⟨⟨htop, (hclimbs 3 history _ htop).1⟩, hreached, made, hmade⟩

end Proofs

end Treewalk
