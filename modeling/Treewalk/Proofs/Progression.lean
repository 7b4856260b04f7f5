import Treewalk.Evaluation.Evaluate
import Treewalk.Proofs.Assignment
import Treewalk.Proofs.Doubles

/-!
# `Treewalk.Proofs.Progression`: what a counted loop counts through

A counted loop adds its step to the last number until the sum is beyond
the end. With whole numbers that doubles can tell apart this is the
arithmetic progression `a, a + s, a + 2 * s, …` up to the end. No sum is
rounded, and no comparison is misled.

The loop keeps the next number to itself. The body gets to see it in the
variable only, so it can change the variable, make it constant or count
with it in a loop of its own, and the numbers stay the same.

`LoopCourse` is what a loop does with the doubles that it has before it.
`countFrom_step` says that one iteration is a step of that, and
`countFrom_course` that a loop takes its course through a progression
(`progression`, `climb_denotes`). A loop over a range is a counted loop
too.

Main statement: `counted_loop_visits_progression`.
-/

set_option autoImplicit false

namespace Treewalk.Proofs

open Eval Number

/-! ### The numbers -/

/-- How many numbers there are from `a` on in steps of `s` that are not
beyond `b`. The quotient is rounded down. -/
def laps (a b s : Int) : Nat :=
  ((b - a).fdiv s + 1).toNat

/-- The numbers from `a` on in steps of `s` that are not beyond `b`. -/
def progression (a b s : Int) : List Int :=
  (List.range (laps a b s)).map fun k : Nat => a + k * s

/-- The doubles that a loop counts through, starting with the first. -/
def climb (step : Float) : Nat → Float → List Float
  | 0, _ => []
  | more + 1, x => x :: climb step more (x + step)

section
variable {a b s : Int}

/-- A quotient that is rounded down is at least zero if both numbers
point the same way. -/
theorem fdiv_nonneg_iff {n d : Int} (hd : d ≠ 0) :
    0 ≤ n.fdiv d ↔ (0 < d ∧ 0 ≤ n) ∨ (d < 0 ∧ n ≤ 0) := by
  obtain hneg | hpos : d < 0 ∨ 0 < d := by omega
  · have hiff : 0 ≤ n.fdiv d ↔ n ≤ 0 := by
      refine ⟨fun h => ?_, fun h => Int.fdiv_nonneg_of_nonpos_of_nonpos h hneg.le⟩
      by_contra hn
      have hlt : (-n).fdiv (-d) < 0 := Int.fdiv_neg_of_neg_of_pos (by omega) (by omega)
      rw [Int.neg_fdiv_neg] at hlt
      omega
    omega
  · have hiff : 0 ≤ n.fdiv d ↔ 0 ≤ n := by
      refine ⟨fun h => ?_, fun h => Int.fdiv_nonneg h hpos.le⟩
      by_contra hn
      have hlt : n.fdiv d < 0 := Int.fdiv_neg_of_neg_of_pos (by omega) hpos
      omega
    omega

theorem laps_pos_iff (hs : s ≠ 0) : 0 < laps a b s ↔ (0 < s ∧ a ≤ b) ∨ (s < 0 ∧ b ≤ a) := by
  have hsides := fdiv_nonneg_iff (n := b - a) hs
  rw [laps]
  omega

theorem laps_eq_succ (hs : s ≠ 0) (h : 0 < laps a b s) :
    laps a b s = laps (a + s) b s + 1 := by
  have hless : (b - (a + s)).fdiv s = (b - a).fdiv s - 1 := by
    rw [← Int.sub_mul_fdiv_right _ _ hs]
    congr 1
    omega
  rw [laps] at *
  rw [laps, hless]
  omega

/-- A number that is not the first one lies between the first and the
last. -/
theorem abs_next_le (hs : s ≠ 0) (ha : |a| ≤ 2 ^ 53 - |s|) (hb : |b| ≤ 2 ^ 53 - |s|)
    (hmore : 0 < laps (a + s) b s) : |a + s| ≤ 2 ^ 53 - |s| := by
  rw [laps_pos_iff hs] at hmore
  rw [abs_le] at ha hb ⊢
  omega

theorem progression_eq_nil (h : laps a b s = 0) : progression a b s = [] := by
  rw [progression, h]
  rfl

theorem progression_eq_cons (hs : s ≠ 0) (h : 0 < laps a b s) :
    progression a b s = a :: progression (a + s) b s := by
  rw [progression, progression, laps_eq_succ hs h, List.range_succ_eq_map, List.map_cons,
    List.map_map]
  congr 1
  · simp
  · refine List.map_congr_left fun k _ => ?_
    simp only [Function.comp_apply, Nat.succ_eq_add_one]
    push_cast
    ring

theorem progression_length (a b s : Int) : (progression a b s).length = laps a b s := by
  rw [progression, List.length_map, List.length_range]

theorem progression_head? (hs : s ≠ 0) (h : 0 < laps a b s) :
    (progression a b s).head? = some a := by
  rw [progression_eq_cons hs h, List.head?_cons]

theorem progression_getLast? {n : Nat} (h : laps a b s = n + 1) :
    (progression a b s).getLast? = some (a + n * s) := by
  rw [progression, h, List.range_succ, List.map_append, List.map_singleton, List.getLast?_concat]

/-- A range is counted through from one end to the other. -/
theorem range_ends (a b : Int) :
    (progression a b (if a ≤ b then 1 else -1)).head? = some a ∧
      (progression a b (if a ≤ b then 1 else -1)).getLast? = some b := by
  by_cases hle : a ≤ b
  · rw [if_pos hle]
    obtain ⟨n, rfl⟩ : ∃ n : Nat, b = a + n := ⟨(b - a).toNat, by omega⟩
    have hlaps : laps a (a + n) 1 = n + 1 := by simp [laps]
    exact ⟨progression_head? (by decide) (by omega),
      by rw [progression_getLast? hlaps, mul_one]⟩
  · rw [if_neg hle]
    obtain ⟨n, rfl⟩ : ∃ n : Nat, b = a - n := ⟨(a - b).toNat, by omega⟩
    have hlaps : laps a (a - n) (-1) = n + 1 := by simp [laps]
    exact ⟨progression_head? (by decide) (by omega),
      by rw [progression_getLast? hlaps, mul_neg_one, sub_eq_add_neg]⟩

end

/-! ### The course of a loop -/

/-- How a counted loop comes to its end. -/
inductive LoopEnd where
  /-- No number is left. -/
  | finished
  /-- The body halts the loop. -/
  | halted
  /-- The body is left in any other way. -/
  | left (e : Exit)
  /-- The variable cannot be assigned to. -/
  | refused
  /-- The run is to stop. -/
  | interrupted
  /-- The body has no outcome. -/
  | exhausted

/-- The outcome of a loop that has come to its end. -/
def LoopEnd.outcome {α : Type} (a : α) (var : String) :
    LoopEnd → Machine → Option (Except Exit α × Machine)
  | .finished, m | .halted, m => some (.ok a, m)
  | .left e, m => some (.error e, m)
  | .refused, m => some (.error (.fault (.constant var)), m)
  | .interrupted, m => some (.error .interrupted, m)
  | .exhausted, _ => none

section
variable (ev : Evaluator) (var : String) (body : List Node) (c : Context)

/-- The body is about to run for a number, which the variable has just
been given. -/
structure Begins (x : Float) (m m₁ : Machine) : Prop where
  running : m.interrupted = false
  assigned : Eval.assign var (.number x) c m = some (.ok (), m₁)

/-- `LoopCourse ev var body c xs m ys e m'`: a loop that has the numbers `xs`
before it runs its body for `ys`, one after the other, and so gets from
`m` to `m'`, where it ends as `e` says. -/
inductive LoopCourse : List Float → Machine → List Float → LoopEnd → Machine → Prop
  | finished {m : Machine} : LoopCourse [] m [] .finished m
  | next {x : Float} {xs ys : List Float} {m m₁ m₂ m' : Machine} {r : Except Exit Unit}
      {e : LoopEnd} (hbegins : Begins var c x m m₁)
      (hbody : Evaluator.runBlock ev body c m₁ = some (r, m₂))
      (hr : r = .ok () ∨ r = .error (.flow .proceed)) (hrest : LoopCourse xs m₂ ys e m') :
      LoopCourse (x :: xs) m (x :: ys) e m'
  | halted {x : Float} {xs : List Float} {m m₁ m₂ : Machine} (hbegins : Begins var c x m m₁)
      (hbody : Evaluator.runBlock ev body c m₁ = some (.error (.flow .halt), m₂)) :
      LoopCourse (x :: xs) m [x] .halted m₂
  | left {x : Float} {xs : List Float} {m m₁ m₂ : Machine} {e : Exit}
      (hbegins : Begins var c x m m₁)
      (hbody : Evaluator.runBlock ev body c m₁ = some (.error e, m₂))
      (hproceed : e ≠ .flow .proceed) (hhalt : e ≠ .flow .halt) :
      LoopCourse (x :: xs) m [x] (.left e) m₂
  | refused {x : Float} {xs : List Float} {m : Machine} (hrunning : m.interrupted = false)
      (hfixed : FixedNearest m.store c.scope var) : LoopCourse (x :: xs) m [] .refused m
  | interrupted {x : Float} {xs : List Float} {m : Machine} (hflag : m.interrupted = true) :
      LoopCourse (x :: xs) m [] .interrupted m
  | exhausted {x : Float} {xs : List Float} {m m₁ : Machine} (hbegins : Begins var c x m m₁)
      (hbody : Evaluator.runBlock ev body c m₁ = none) : LoopCourse (x :: xs) m [x] .exhausted m₁

end

namespace LoopCourse

variable {ev : Evaluator} {var : String} {body : List Node} {c : Context} {xs ys : List Float}
  {e : LoopEnd} {m m' : Machine}

/-- The body runs for the first numbers. -/
theorem isPrefix (h : LoopCourse ev var body c xs m ys e m') : ys <+: xs := by
  induction h with
  | finished => exact List.prefix_rfl
  | next _ _ _ _ ih => exact List.cons_prefix_cons.mpr ⟨rfl, ih⟩
  | halted | left | exhausted => exact List.cons_prefix_cons.mpr ⟨rfl, List.nil_prefix⟩
  | refused | interrupted => exact List.nil_prefix

/-- A loop that is not broken off runs its body for all numbers. -/
theorem eq_of_finished (h : LoopCourse ev var body c xs m ys .finished m') : ys = xs := by
  generalize he : LoopEnd.finished = e at h
  induction h with
  | finished => rfl
  | next _ _ _ _ ih => rw [ih he]
  | halted | left | refused | interrupted | exhausted => cases he

end LoopCourse

/-! ### Counting -/

/-- What an outcome of the body does to the loop. -/
theorem goesOn_cases (r : Except Exit Unit) :
    ((r = .ok () ∨ r = .error (.flow .proceed)) ∧ Evaluator.goesOn r = pure true) ∨
      (r = .error (.flow .halt) ∧ Evaluator.goesOn r = pure false) ∨
        ∃ e, r = .error e ∧ e ≠ .flow .proceed ∧ e ≠ .flow .halt ∧ Evaluator.goesOn r = exit e := by
  fun_cases Evaluator.goesOn r with
  | case1 => exact .inl ⟨.inl rfl, rfl⟩
  | case2 => exact .inl ⟨.inr rfl, rfl⟩
  | case3 => exact .inr (.inl ⟨rfl, rfl⟩)
  | case4 e hproceed hhalt => exact .inr (.inr ⟨e, rfl, hproceed, hhalt, rfl⟩)

section
variable (ev : Evaluator) (var : String) (body : List Node) (c : Context)

/-- One iteration: either the body has finished and the loop goes on with
the next number, or the loop has come to its end, whatever numbers are
left. -/
theorem countFrom_step {x B S : Float} (hreach : Evaluator.inReach x B S = true) (more : Nat)
    (m : Machine) :
    (∃ m₁ m₂ r, Begins var c x m m₁ ∧ Evaluator.runBlock ev body c m₁ = some (r, m₂) ∧
      (r = .ok () ∨ r = .error (.flow .proceed)) ∧
      Evaluator.countFrom ev var B S body (more + 1) x c m =
        Evaluator.countFrom ev var B S body more (x + S) c m₂) ∨
    ∃ ys e m', (∀ xs, LoopCourse ev var body c (x :: xs) m ys e m') ∧
      Evaluator.countFrom ev var B S body (more + 1) x c m = e.outcome () var m' := by
  rw [Evaluator.countFrom, if_pos hreach]
  by_cases hflag : m.interrupted = true
  · have hcheck : checkInterrupt c m = some (.error .interrupted, m) := by
      rw [checkInterrupt_apply, if_pos hflag]
    exact .inr ⟨[], .interrupted, m, fun _ => .interrupted hflag, bind_of_error hcheck⟩
  have hrunning : m.interrupted = false := Bool.eq_false_of_not_eq_true hflag
  have hcheck : checkInterrupt c m = some (.ok (), m) := by
    rw [checkInterrupt_apply, hrunning]
    rfl
  rw [bind_of_ok hcheck]
  obtain ⟨m₁, hassigned⟩ | ⟨hfixed, hrefused⟩ := assign_cases var (.number x) c m
  · have hbegins : Begins var c x m m₁ := ⟨hrunning, hassigned⟩
    rw [bind_of_ok hassigned]
    cases hbody : Evaluator.runBlock ev body c m₁ with
    | none =>
      have hiteration : Evaluator.iteration ev body c m₁ = none :=
        bind_of_none (outcome_eq_none.mpr hbody)
      exact .inr ⟨[x], .exhausted, m₁, fun _ => .exhausted hbegins hbody,
        bind_of_none hiteration⟩
    | some ended =>
      obtain ⟨r, m₂⟩ := ended
      have hiteration : Evaluator.iteration ev body c m₁ = Evaluator.goesOn r c m₂ :=
        bind_of_ok (outcome_of_some hbody)
      obtain ⟨hr, hon⟩ | ⟨rfl, hon⟩ | ⟨e, rfl, hproceed, hhalt, hon⟩ := goesOn_cases r <;>
        rw [hon] at hiteration
      · exact .inl ⟨m₁, m₂, r, hbegins, hbody, hr, bind_of_ok hiteration⟩
      · exact .inr ⟨[x], .halted, m₂, fun _ => .halted hbegins hbody, bind_of_ok hiteration⟩
      · exact .inr ⟨[x], .left e, m₂, fun _ => .left hbegins hbody hproceed hhalt,
          bind_of_error hiteration⟩
  · exact .inr ⟨[], .refused, m, fun _ => .refused hrunning hfixed, bind_of_error hrefused⟩

section
variable {b s : Int} {B S : Float} (hB : Denotes B b) (hS : Denotes S s) (hs : s ≠ 0)
include hS

/-- The next number is exact. -/
theorem next_denotes {x : Float} {a : Int} (hx : Denotes x a) (ha : |a| ≤ 2 ^ 53 - |s|) :
    Denotes (x + S) (a + s) := by
  refine hx.add hS ?_
  have htriangle := abs_add_le a s
  omega

include hs

theorem climb_denotes (hb : |b| ≤ 2 ^ 53 - |s|) {x : Float} {a : Int} (hx : Denotes x a)
    (ha : 0 < laps a b s → |a| ≤ 2 ^ 53 - |s|) :
    List.Forall₂ Denotes (climb S (laps a b s) x) (progression a b s) := by
  generalize hn : laps a b s = n
  induction n generalizing x a with
  | zero =>
    rw [progression_eq_nil hn]
    exact .nil
  | succ n ih =>
    have hpos : 0 < laps a b s := by omega
    have hrest : laps (a + s) b s = n := by
      have hsucc := laps_eq_succ hs hpos
      omega
    rw [progression_eq_cons hs hpos]
    exact .cons hx (ih (next_denotes hS hx (ha hpos)) (abs_next_le hs (ha hpos) hb) hrest)

theorem count_apply (bound : Nat) (A : Float) (m : Machine) :
    Evaluator.count ev bound var A B S body c m =
      (Evaluator.countFrom ev var B S body bound A >>= fun _ => pure .nil) c m := by
  rw [Evaluator.count, if_neg]
  rw [hS.isNaN, Bool.or_false, hS.beq_iff .zero]
  exact hs

include hB

/-- A loop goes on as long as a number is left. -/
theorem inReach_iff {x : Float} {a : Int} (hx : Denotes x a) :
    Evaluator.inReach x B S = true ↔ 0 < laps a b s := by
  simp [Evaluator.inReach, laps_pos_iff hs, Denotes.zero.lt_iff hS, hS.lt_iff .zero,
    hx.le_iff hB, hB.le_iff hx]

/-- A loop that counts from `a` on takes its course through the numbers
from `a` on. The induction is on the iterations that are granted. -/
theorem countFrom_course (hb : |b| ≤ 2 ^ 53 - |s|) (bound : Nat) {x : Float} {a : Int}
    (hx : Denotes x a) (ha : 0 < laps a b s → |a| ≤ 2 ^ 53 - |s|) (m : Machine) :
    (∃ ys e m', LoopCourse ev var body c (climb S (laps a b s) x) m ys e m' ∧
      Evaluator.countFrom ev var B S body bound x c m = e.outcome () var m') ∨
    bound ≤ laps a b s ∧ Evaluator.countFrom ev var B S body bound x c m = none := by
  induction bound generalizing x a m with
  | zero => exact .inr ⟨Nat.zero_le _, rfl⟩
  | succ bound ih =>
    obtain hzero | hpos := Nat.eq_zero_or_pos (laps a b s)
    · -- No number is left.
      have hreach : ¬ Evaluator.inReach x B S = true := by
        rw [inReach_iff hB hS hs hx]
        omega
      rw [hzero, Evaluator.countFrom, if_neg hreach]
      exact .inl ⟨[], .finished, m, .finished, rfl⟩
    · have hreach : Evaluator.inReach x B S = true := (inReach_iff hB hS hs hx).mpr hpos
      rw [laps_eq_succ hs hpos, climb]
      obtain ⟨m₁, m₂, r, hbegins, hbody, hr, hstep⟩ | ⟨ys, e, m', hends, hstep⟩ :=
        countFrom_step ev var body c hreach bound m
      · -- The next number is exact, and the rest is the course from there.
        rw [hstep]
        obtain ⟨ys, e, m', hcourse, hrest⟩ | ⟨hle, hrest⟩ :=
          ih (next_denotes hS hx (ha hpos)) (abs_next_le hs (ha hpos) hb) m₂
        · exact .inl ⟨x :: ys, e, m', .next hbegins hbody hr hcourse, hrest⟩
        · exact .inr ⟨Nat.succ_le_succ hle, hrest⟩
      · exact .inl ⟨ys, e, m', hends _, hstep⟩

end

end

/-! ### The two loops -/

/-- A loop visits numbers: the doubles that its variable is given stand
for them, and the loop takes its course through these doubles. It has no
outcome besides only if it is granted no more iterations than there are
numbers. -/
def Visits (ev : Evaluator) (var : String) (body : List Node) (c : Context) (numbers : List Int)
    (m : Machine) (loop : Nat → Option (Except Exit Value × Machine)) : Prop :=
  ∃ xs, List.Forall₂ Denotes xs numbers ∧ ∀ bound,
    (∃ ys e m', LoopCourse ev var body c xs m ys e m' ∧ ys <+: xs ∧ (e = .finished → ys = xs) ∧
      loop bound = e.outcome .nil var m') ∨
    bound ≤ numbers.length ∧ loop bound = none

theorem count_visits {a b s : Int} {A B S : Float} (hA : Denotes A a) (hB : Denotes B b)
    (hS : Denotes S s) (hs : s ≠ 0) (ha : |a| ≤ 2 ^ 53 - |s|) (hb : |b| ≤ 2 ^ 53 - |s|)
    (ev : Evaluator) (var : String) (body : List Node) (c : Context) (m : Machine) :
    Visits ev var body c (progression a b s) m fun bound =>
      Evaluator.count ev bound var A B S body c m := by
  refine ⟨climb S (laps a b s) A, climb_denotes hS hs hb hA fun _ => ha, fun bound => ?_⟩
  dsimp only
  rw [progression_length, count_apply ev var body c hS hs]
  obtain ⟨ys, e, m', hcourse, hcount⟩ | ⟨hle, hcount⟩ :=
    countFrom_course ev var body c hB hS hs hb bound hA (fun _ => ha) m
  · refine .inl ⟨ys, e, m', hcourse, hcourse.isPrefix, ?_, ?_⟩
    · rintro rfl
      exact hcourse.eq_of_finished
    · cases e with
      | finished | halted => exact bind_of_ok hcount
      | left | refused | interrupted => exact bind_of_error hcount
      | exhausted => exact bind_of_none hcount
  · exact .inr ⟨hle, bind_of_none hcount⟩

/-- A node is evaluated to a double that stands for a whole number. -/
def ReadsAs (ev : Evaluator) (c : Context) (x : Node) (n : Int) (m m' : Machine) : Prop :=
  ∃ d, Denotes d n ∧ ev x c m = some (.ok (.number d), m')

/-- The bounds of a counted loop are read one after the other. A step
that is left out is one. -/
def ReadsBounds (ev : Evaluator) (c : Context) (start stop : Node) (step : Option Node)
    (a b s : Int) (m m' : Machine) : Prop :=
  ∃ m₁ m₂, ReadsAs ev c start a m m₁ ∧ ReadsAs ev c stop b m₁ m₂ ∧
    match step with
    | none => s = 1 ∧ m' = m₂
    | some x => ReadsAs ev c x s m₂ m'

/-- A node is evaluated to a range between whole numbers. -/
def ReadsRange (ev : Evaluator) (c : Context) (x : Node) (a b : Int) (m m' : Machine) : Prop :=
  ∃ d d', Denotes d a ∧ Denotes d' b ∧ ev x c m = some (.ok (.range d d'), m')

section
variable {ev : Evaluator} {var : String} {body : List Node} {c : Context} {m m' : Machine}

theorem loopBound_of_number {x : Node} {d : Float} (h : ev x c m = some (.ok (.number d), m'))
    (which : LoopBound) : Evaluator.loopBound ev which x c m = some (.ok d, m') :=
  borrow_of_plain h rfl

theorem rangeStep_denotes {A B : Float} {a b : Int} (hA : Denotes A a) (hB : Denotes B b) :
    Denotes (Evaluator.rangeStep A B) (if a ≤ b then 1 else -1) := by
  rw [Evaluator.rangeStep]
  by_cases hle : a ≤ b
  · rw [if_pos hle, if_pos ((hA.le_iff hB).mpr hle)]
    exact .one
  · rw [if_neg hle, if_neg (mt (hA.le_iff hB).mp hle)]
    exact .neg_one

end

theorem traverse_apply {ev : Evaluator} {c : Context} {start stop : Node} {step : Option Node}
    {a b s : Int} {m m' : Machine} (h : ReadsBounds ev c start stop step a b s m m') :
    ∃ A B S, Denotes A a ∧ Denotes B b ∧ Denotes S s ∧ ∀ bound var body,
      Evaluator.traverse ev bound var start stop step body c m =
        Evaluator.count ev bound var A B S body c m' := by
  obtain ⟨m₁, m₂, ⟨A, hA, hstart⟩, ⟨B, hB, hstop⟩, hstep⟩ := h
  have hstart := loopBound_of_number hstart .start
  have hstop := loopBound_of_number hstop .stop
  cases step with
  | none =>
    obtain ⟨rfl, rfl⟩ := hstep
    exact ⟨A, B, 1, hA, hB, .one, fun bound var body =>
      (bind_of_ok hstart).trans (bind_of_ok hstop)⟩
  | some x =>
    obtain ⟨S, hS, hread⟩ := hstep
    have hread := loopBound_of_number hread .step
    exact ⟨A, B, S, hA, hB, hS, fun bound var body =>
      (bind_of_ok hstart).trans ((bind_of_ok hstop).trans (bind_of_ok hread))⟩

theorem each_apply {ev : Evaluator} {c : Context} {range : Node} {a b : Int} {m m' : Machine}
    (h : ReadsRange ev c range a b m m') :
    ∃ A B S, Denotes A a ∧ Denotes B b ∧ Denotes S (if a ≤ b then 1 else -1) ∧
      ∀ bound var body, Evaluator.each ev bound var range body c m =
        Evaluator.count ev bound var A B S body c m' := by
  obtain ⟨A, B, hA, hB, hrange⟩ := h
  refine ⟨A, B, _, hA, hB, rangeStep_denotes hA hB, fun bound var body => ?_⟩
  unfold Evaluator.each
  refine bind_of_ok (a := (A, B)) ?_
  rw [borrow_of_plain hrange rfl]
  rfl

/-- A counted loop visits the numbers from `a` to `b` in steps of `s`, for
whole numbers small enough that doubles count exactly.

* The numbers are read once, before the first iteration. Their number is
  the quotient `(b - a) / s`, rounded down, and one more, or none if that
  is negative.
* In each iteration the variable is given the next number, and right
  after that the body runs. The loop goes on if the body finishes or
  proceeds, whatever has become of the variable and of what the bounds
  were read from.
* The loop visits all numbers and then finishes, unless the body halts or
  is left, the variable cannot be assigned to because its nearest binding
  is for good, or the run is to stop.

A loop over a range counts in the same way in steps of one, upward or
downward, from one end of the range to the other. -/
theorem counted_loop_visits_progression {a b s : Int} (hs : s ≠ 0) (ha : |a| ≤ 2 ^ 53 - |s|)
    (hb : |b| ≤ 2 ^ 53 - |s|) (ev : Evaluator) (var : String) (body : List Node) (c : Context)
    (m m' : Machine) :
    (∀ start stop step, ReadsBounds ev c start stop step a b s m m' →
      Visits ev var body c (progression a b s) m' fun bound =>
        Evaluator.traverse ev bound var start stop step body c m) ∧
    (s = (if a ≤ b then 1 else -1) →
      (progression a b s).head? = some a ∧ (progression a b s).getLast? = some b ∧
      ∀ range, ReadsRange ev c range a b m m' →
        Visits ev var body c (progression a b s) m' fun bound =>
          Evaluator.each ev bound var range body c m) := by
  refine ⟨fun start stop step hbounds => ?_, ?_⟩
  · obtain ⟨A, B, S, hA, hB, hS, htraverse⟩ := traverse_apply hbounds
    simp only [htraverse]
    exact count_visits hA hB hS hs ha hb ev var body c m'
  · rintro rfl
    obtain ⟨hhead, hlast⟩ := range_ends a b
    refine ⟨hhead, hlast, fun range hrange => ?_⟩
    obtain ⟨A, B, S, hA, hB, hS, heach⟩ := each_apply hrange
    simp only [heach]
    exact count_visits hA hB hS hs ha hb ev var body c m'

/-- A loop down from one to minus one, and the loop over that range, with
a body that gives the variable another value. -/
theorem counted_loop_visits_downward :
    let ev := evaluate 3
    let body : List Node := [.assign (.var "i") (.number 1), .proceed]
    let range : Node := .binary ".." (.number 1) (.number (-1))
    let c : Context := ⟨.standard, 0, [.scope 0]⟩
    let m := Machine.single (Scope.top .global)
    (ReadsBounds ev c (.number 1) (.number (-1)) (some (.number (-1))) 1 (-1) (-1) m m ∧
      Visits ev "i" body c [1, 0, -1] m fun bound => Evaluator.traverse ev bound "i" (.number 1)
        (.number (-1)) (some (.number (-1))) body c m) ∧
    ReadsRange ev c range 1 (-1) m m ∧
      Visits ev "i" body c [1, 0, -1] m fun bound =>
        Evaluator.each ev bound "i" range body c m := by
  intro ev body range c m
  have hbounds : ReadsBounds ev c (.number 1) (.number (-1)) (some (.number (-1))) 1 (-1) (-1)
      m m := ⟨m, m, ⟨1, .one, rfl⟩, ⟨-1, .neg_one, rfl⟩, -1, .neg_one, rfl⟩
  have hrange : ReadsRange ev c range 1 (-1) m m := ⟨1, -1, .one, .neg_one, rfl⟩
  have hnumbers : progression 1 (-1) (-1) = [1, 0, -1] := by decide
  have hvisits := counted_loop_visits_progression (a := 1) (b := -1) (s := -1) (by decide)
    (by decide) (by decide) ev "i" body c m m
  rw [hnumbers] at hvisits
  exact ⟨⟨hbounds, hvisits.1 _ _ _ hbounds⟩, hrange, (hvisits.2 rfl).2.2 _ hrange⟩

end Treewalk.Proofs
