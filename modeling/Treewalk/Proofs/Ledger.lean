import Treewalk.Machine

/-!
# `Treewalk.Proofs.Ledger`: a ledger of the tasks

The queue of tasks forgets a task when it is taken out. The ledger does
not: it has a record of every task that has ever been put off, in the
order in which they were, and marks on each record of what has happened
to the task. A task without marks waits.

`Ledger.Settles` is what an evaluation does to a ledger once it has
ended. Records with marks are as they were. A record that waited still
waits or is settled: its task has been taken and then either started,
once, or abandoned. So is every record that is new.

A ledger can be filed in the place of a queue, so that an evaluation can
keep it where it would keep the queue.
-/

set_option autoImplicit false

namespace Treewalk

/-- What happens to a task: a drain takes it, and starts or abandons
it. -/
inductive Mark where
  | taken
  | started
  | abandoned
deriving DecidableEq, Repr

/-- A task, and what has happened to it so far. -/
structure Record where
  body : List Node
  marks : List Mark

namespace Record

/-- Whether nothing has happened to a task. -/
def waits (r : Record) : Bool :=
  r.marks.isEmpty

/-- The record with one more mark. -/
def mark (k : Mark) (r : Record) : Record :=
  { r with marks := r.marks ++ [k] }

/-- A record with a mark does not wait. -/
theorem not_waits_mark (k : Mark) (r : Record) : (r.mark k).waits = false := by
  simp [waits, mark]

/-- A record of a task that waits, has been started exactly once, or has
been abandoned. -/
inductive Accounted (r : Record) : Prop where
  | waiting : r.marks = [] → Accounted r
  | started : r.marks = [.taken, .started] → Accounted r
  | abandoned : r.marks = [.taken, .abandoned] → Accounted r

/-- What becomes of a record: nothing, or it waited and is accounted
for. -/
def Settles (r r' : Record) : Prop :=
  r' = r ∨ r.marks = [] ∧ r'.body = r.body ∧ r'.Accounted

theorem Settles.refl (r : Record) : r.Settles r :=
  .inl rfl

theorem Settles.trans {r r' r'' : Record} (h : r.Settles r') (h' : r'.Settles r'') :
    r.Settles r'' := by
  rcases h with rfl | ⟨hwaits, hbody, haccounted⟩
  · exact h'
  · rcases h' with rfl | ⟨-, hbody', haccounted'⟩
    · exact .inr ⟨hwaits, hbody, haccounted⟩
    · exact .inr ⟨hwaits, hbody'.trans hbody, haccounted'⟩

/-- A record with marks stays as it is. -/
theorem Settles.eq_of_marks {r r' : Record} (h : r.Settles r') (hmarks : r.marks ≠ []) :
    r' = r := by
  rcases h with hsame | ⟨hwaits, -⟩
  · exact hsame
  · exact absurd hwaits hmarks

theorem Accounted.settles {r r' : Record} (h : r.Accounted) (hsettles : r.Settles r') :
    r'.Accounted := by
  rcases hsettles with rfl | ⟨-, -, haccounted⟩
  · exact h
  · exact haccounted

end Record

/-- The records of all tasks, in the order in which they were put
off. -/
abbrev Ledger := List Record

namespace Ledger

/-- The tasks that wait, in order. -/
def waiting (l : Ledger) : List (List Node) :=
  (l.filter Record.waits).map Record.body

/-- The tasks that wait, in order, each with the number of its
record. -/
def due (l : Ledger) : List (Nat × List Node) :=
  (l.zipIdx.filter fun entry => entry.1.waits).map fun entry => (entry.2, entry.1.body)

/-- The ledger with one more task. -/
def enter (l : Ledger) (body : List Node) : Ledger :=
  l ++ [⟨body, []⟩]

/-- The ledger after all tasks that waited have been taken. -/
def takeAll (l : Ledger) : Ledger :=
  l.map fun r => if r.waits then r.mark .taken else r

/-- The ledger with a mark on one record. -/
def put (k : Mark) (l : Ledger) (n : Nat) : Ledger :=
  l.modify n (Record.mark k)

/-- The ledger with a mark on each of some records. -/
def putAll (k : Mark) (l : Ledger) (ns : List Nat) : Ledger :=
  ns.foldl (put k) l

/-- A ledger in which every task waits, has been started exactly once, or
has been abandoned. -/
def Accounted (l : Ledger) : Prop :=
  ∀ r ∈ l, r.Accounted

/-- A record is accounted for if it is new, or if it comes of one that
is accounted for. -/
theorem accounted_of_new {l l' : Ledger} {n : Nat} {r' : Record} (hr' : l'[n]? = some r')
    (hnew : l.length ≤ n → r'.Accounted)
    (hold : ∀ r, l[n]? = some r → r.Accounted ∧ ∃ found, l'[n]? = some found ∧ r.Settles found) :
    r'.Accounted := by
  cases hr : l[n]? with
  | none => exact hnew (List.getElem?_eq_none_iff.mp hr)
  | some r =>
    obtain ⟨haccounted, found, hfound, hsettles⟩ := hold r hr
    rw [hr'] at hfound
    cases hfound
    exact haccounted.settles hsettles

/-- What an evaluation does to a ledger once it has ended. -/
structure Settles (l l' : Ledger) : Prop where
  old {n : Nat} {r : Record} : l[n]? = some r → ∃ r', l'[n]? = some r' ∧ r.Settles r'
  new {n : Nat} {r : Record} : l'[n]? = some r → l.length ≤ n → r.Accounted

theorem Settles.refl (l : Ledger) : l.Settles l where
  old {n r} hr := ⟨r, hr, .refl r⟩
  new {n r} hr hn := by
    rw [List.getElem?_eq_none hn] at hr
    cases hr

theorem Settles.trans {l l' l'' : Ledger} (h : l.Settles l') (h' : l'.Settles l'') :
    l.Settles l'' where
  old hr := by
    obtain ⟨r', hr', hsettles⟩ := h.old hr
    obtain ⟨r'', hr'', hsettles'⟩ := h'.old hr'
    exact ⟨r'', hr'', hsettles.trans hsettles'⟩
  new hr'' hn :=
    accounted_of_new hr'' (h'.new hr'') fun _ hr' => ⟨h.new hr' hn, h'.old hr'⟩

/-- A record with marks stays where it is, as it is. -/
theorem Settles.getElem?_eq {l l' : Ledger} (h : l.Settles l') {n : Nat} {r : Record}
    (hr : l[n]? = some r) (hmarks : r.marks ≠ []) : l'[n]? = some r := by
  obtain ⟨r', hr', hsettles⟩ := h.old hr
  rw [hr', hsettles.eq_of_marks hmarks]

/-- Where all is accounted for it stays so. -/
theorem Settles.accounted {l l' : Ledger} (h : l.Settles l') (hl : l.Accounted) :
    l'.Accounted := by
  intro r' hr'
  obtain ⟨n, hn⟩ := List.mem_iff_getElem?.mp hr'
  exact accounted_of_new hn (h.new hn) fun r hr => ⟨hl r (List.mem_of_getElem? hr), h.old hr⟩

/-! ### Tasks that wait -/

theorem waiting_enter (l : Ledger) (body : List Node) :
    (l.enter body).waiting = l.waiting ++ [body] := by
  have hwaits : (⟨body, []⟩ : Record).waits = true := rfl
  rw [waiting, enter, List.filter_append, List.filter_cons_of_pos hwaits, List.map_append]
  rfl

theorem settles_enter (l : Ledger) (body : List Node) : l.Settles (l.enter body) where
  old {n r} hr := by
    refine ⟨r, ?_, .refl r⟩
    obtain ⟨hn, -⟩ := List.getElem?_eq_some_iff.mp hr
    rw [enter, List.getElem?_append_left hn, hr]
  new {n r} hr hn := by
    rw [enter, List.getElem?_append_right hn] at hr
    rw [List.mem_singleton.mp (List.mem_of_getElem? hr)]
    exact .waiting rfl

theorem waiting_takeAll (l : Ledger) : (takeAll l).waiting = [] := by
  rw [waiting, takeAll, List.map_eq_nil_iff, List.filter_eq_nil_iff]
  intro r hr
  obtain ⟨before, -, rfl⟩ := List.mem_map.mp hr
  split
  · simp [Record.not_waits_mark]
  · assumption

theorem getElem?_takeAll (l : Ledger) (n : Nat) :
    (takeAll l)[n]? = l[n]?.map fun r => if r.waits then r.mark .taken else r := by
  rw [takeAll, List.getElem?_map]

/-- The tasks that are due are those that wait. -/
theorem map_snd_due (l : Ledger) : l.due.map Prod.snd = l.waiting := by
  have hrecords : (l.zipIdx.filter fun entry => entry.1.waits).map Prod.fst =
      l.filter Record.waits := by
    have hfilter := List.filter_map (f := Prod.fst) (p := Record.waits) (l := l.zipIdx)
    rw [List.zipIdx_map_fst] at hfilter
    exact hfilter.symm
  rw [waiting, ← hrecords, due, List.map_map, List.map_map]
  rfl

theorem mem_due {l : Ledger} {t : Nat × List Node} :
    t ∈ l.due ↔ l[t.1]? = some ⟨t.2, []⟩ := by
  constructor
  · intro ht
    obtain ⟨⟨r, n⟩, hentry, rfl⟩ := List.mem_map.mp ht
    obtain ⟨hmem, hwaits⟩ := List.mem_filter.mp hentry
    have hmarks : r.marks = [] := List.isEmpty_iff.mp hwaits
    have hr : l[n]? = some r := List.mk_mem_zipIdx_iff_getElem?.mp hmem
    rw [hr, ← hmarks]
  · intro hr
    refine List.mem_map.mpr ⟨(⟨t.2, []⟩, t.1), List.mem_filter.mpr ⟨?_, rfl⟩, rfl⟩
    exact List.mk_mem_zipIdx_iff_getElem?.mpr hr

theorem nodup_due (l : Ledger) : (l.due.map Prod.fst).Nodup := by
  have hsub : (l.due.map Prod.fst).Sublist (l.zipIdx.map Prod.snd) := by
    rw [due, List.map_map]
    exact List.filter_sublist.map Prod.snd
  rw [List.zipIdx_map_snd] at hsub
  exact hsub.nodup List.nodup_range'

/-! ### Marks -/

theorem getElem?_put (k : Mark) (l : Ledger) (n i : Nat) :
    (put k l n)[i]? = if n = i then l[i]?.map (Record.mark k) else l[i]? := by
  rw [put, List.getElem?_modify]
  split <;> simp_all

/-- A task with a mark gets another one, and those that wait are the
same. -/
theorem waiting_put (k : Mark) {l : Ledger} {n : Nat} {r : Record} (hr : l[n]? = some r)
    (hmarks : r.marks ≠ []) : (put k l n).waiting = l.waiting := by
  induction l generalizing n with
  | nil => cases hr
  | cons first rest ih =>
    cases n with
    | zero =>
      cases hr
      have hwaits : r.waits = false := by simpa [Record.waits] using hmarks
      simp [put, waiting, hwaits, Record.not_waits_mark]
    | succ n =>
      have hrest := ih hr
      simp only [put, waiting, List.modify_succ_cons] at hrest ⊢
      cases hwaits : first.waits <;> simp [hwaits, hrest]

theorem getElem?_putAll (k : Mark) (l : Ledger) {ns : List Nat} (hns : ns.Nodup) (i : Nat) :
    (putAll k l ns)[i]? = if i ∈ ns then l[i]?.map (Record.mark k) else l[i]? := by
  induction ns generalizing l with
  | nil => simp [putAll]
  | cons n rest ih =>
    obtain ⟨hn, hrest⟩ := List.nodup_cons.mp hns
    have hlater := ih (put k l n) hrest
    rw [getElem?_put] at hlater
    show (putAll k (put k l n) rest)[i]? = _
    rw [hlater]
    by_cases hi : n = i
    · subst hi
      simp [hn]
    · simp [hi, Ne.symm hi]

theorem length_putAll (k : Mark) (l : Ledger) (ns : List Nat) :
    (putAll k l ns).length = l.length := by
  induction ns generalizing l with
  | nil => rfl
  | cons n rest ih =>
    show (putAll k (put k l n) rest).length = _
    rw [ih, put, List.length_modify]

theorem waiting_putAll (k : Mark) {l : Ledger} {ns : List Nat}
    (h : ∀ n ∈ ns, ∃ r, l[n]? = some r ∧ r.marks ≠ []) : (putAll k l ns).waiting = l.waiting := by
  induction ns generalizing l with
  | nil => rfl
  | cons n rest ih =>
    obtain ⟨r, hr, hmarks⟩ := h n (List.mem_cons_self ..)
    show (putAll k (put k l n) rest).waiting = _
    rw [ih, waiting_put k hr hmarks]
    intro i hi
    obtain ⟨r', hr', hmarks'⟩ := h i (List.mem_cons_of_mem _ hi)
    rw [getElem?_put, hr']
    split
    · exact ⟨r'.mark k, rfl, by simp [Record.mark]⟩
    · exact ⟨r', rfl, hmarks'⟩

/-! ### A drain -/

/-- What a drain makes of the tasks that it has taken: the first `k` of
them it starts, in order, and the others it abandons. Of the other tasks
all that ran inside has made what an evaluation makes. -/
structure Drained (due : List (Nat × List Node)) (k : Nat) (l l' : Ledger) : Prop where
  le : k ≤ due.length
  started : ∀ t ∈ due.take k, l'[t.1]? = some ⟨t.2, [.taken, .started]⟩
  abandoned : ∀ t ∈ due.drop k, l'[t.1]? = some ⟨t.2, [.taken, .abandoned]⟩
  others {n : Nat} {r : Record} : l[n]? = some r → n ∉ due.map Prod.fst →
    ∃ r', l'[n]? = some r' ∧ r.Settles r'
  new {n : Nat} {r : Record} : l'[n]? = some r → l.length ≤ n → r.Accounted

/-- Where there is nothing to drain nothing happens. -/
theorem Drained.nil (l : Ledger) : Drained [] 0 l l where
  le := Nat.le_refl _
  started t ht := by cases ht
  abandoned t ht := by cases ht
  others {n r} hr _ := ⟨r, hr, .refl r⟩
  new := (Settles.refl l).new

/-- A drain that goes no further abandons all tasks. -/
theorem Drained.stopped {due : List (Nat × List Node)} {l : Ledger}
    (hnodup : (due.map Prod.fst).Nodup) (htaken : ∀ t ∈ due, l[t.1]? = some ⟨t.2, [.taken]⟩) :
    Drained due 0 l (putAll .abandoned l (due.map Prod.fst)) where
  le := Nat.zero_le _
  started t ht := by cases ht
  abandoned t ht := by
    have hmem : t.1 ∈ due.map Prod.fst := List.mem_map_of_mem ht
    rw [getElem?_putAll _ _ hnodup, if_pos hmem, htaken t ht]
    rfl
  others {n r} hr hn := ⟨r, by rw [getElem?_putAll _ _ hnodup, if_neg hn, hr], .refl r⟩
  new {n r} hr hn := by
    rw [← length_putAll .abandoned l (due.map Prod.fst)] at hn
    rw [List.getElem?_eq_none hn] at hr
    cases hr

/-- A drain starts its first task, and goes on with the others when that
has ended. -/
theorem Drained.cons {first : Nat × List Node} {rest : List (Nat × List Node)} {k : Nat}
    {l l' l'' : Ledger} (hnodup : ((first :: rest).map Prod.fst).Nodup)
    (htaken : ∀ t ∈ first :: rest, l[t.1]? = some ⟨t.2, [.taken]⟩)
    (hfirst : (put .started l first.1).Settles l') (hrest : Drained rest k l' l'') :
    Drained (first :: rest) (k + 1) l l'' := by
  obtain ⟨hnew, -⟩ := List.nodup_cons.mp hnodup
  have hothers : ∀ {n : Nat} {r : Record}, (put .started l first.1)[n]? = some r →
      n ∉ rest.map Prod.fst → ∃ r', l''[n]? = some r' ∧ r.Settles r' := by
    intro n r hr hn
    obtain ⟨r', hr', hsettles⟩ := hfirst.old hr
    obtain ⟨r'', hr'', hsettles'⟩ := hrest.others hr' hn
    exact ⟨r'', hr'', hsettles.trans hsettles'⟩
  refine ⟨Nat.succ_le_succ hrest.le, fun t ht => ?_, hrest.abandoned, fun {n r} hr hn => ?_,
    fun {n r''} hr'' hn => ?_⟩
  · rcases List.mem_cons.mp ht with rfl | ht
    · have hstarted : (put .started l t.1)[t.1]? = some ⟨t.2, [.taken, .started]⟩ := by
        rw [getElem?_put, if_pos rfl, htaken t (List.mem_cons_self ..)]
        rfl
      obtain ⟨r, hr, hsettles⟩ := hothers hstarted hnew
      rw [hr, hsettles.eq_of_marks (by simp)]
    · exact hrest.started t ht
  · obtain ⟨hne, hn⟩ : n ≠ first.1 ∧ n ∉ rest.map Prod.fst := by simpa using hn
    exact hothers (by rw [getElem?_put, if_neg (Ne.symm hne), hr]) hn
  · -- A record that is new is not among those that have been taken.
    have hn' : n ∉ rest.map Prod.fst := by
      intro hmem
      obtain ⟨t, ht, rfl⟩ := List.mem_map.mp hmem
      obtain ⟨hlt, -⟩ := List.getElem?_eq_some_iff.mp (htaken t (List.mem_cons_of_mem _ ht))
      exact absurd hlt (Nat.not_lt.mpr hn)
    refine accounted_of_new hr'' (hrest.new hr'') fun r' hr' => ⟨?_, hrest.others hr' hn'⟩
    exact hfirst.new hr' (by rwa [put, List.length_modify])

/-- A drain of all tasks that waited settles the ledger. -/
theorem Drained.settles {k : Nat} {l l' : Ledger} (h : Drained l.due k (takeAll l) l') :
    l.Settles l' where
  old {n r} hr := by
    have htaken := getElem?_takeAll l n
    rw [hr] at htaken
    by_cases hmarks : r.marks = []
    · have hdue : (n, r.body) ∈ l.due := mem_due.mpr (by rw [hr, ← hmarks])
      rw [← List.take_append_drop k l.due] at hdue
      rcases List.mem_append.mp hdue with hstarted | habandoned
      · exact ⟨_, h.started _ hstarted, .inr ⟨hmarks, rfl, .started rfl⟩⟩
      · exact ⟨_, h.abandoned _ habandoned, .inr ⟨hmarks, rfl, .abandoned rfl⟩⟩
    · have hwaits : r.waits = false := by simpa [Record.waits] using hmarks
      rw [Option.map_some, hwaits, if_neg (by decide)] at htaken
      refine h.others htaken fun hmem => hmarks ?_
      obtain ⟨t, ht, rfl⟩ := List.mem_map.mp hmem
      rw [mem_due.mp ht] at hr
      cases hr
      rfl
  new hr hn := h.new hr (by rwa [takeAll, List.length_map])

/-- What runs after a drain does not undo it. -/
theorem Drained.followed {due : List (Nat × List Node)} {k : Nat} {l l' l'' : Ledger}
    (h : Drained due k l l') (h' : l'.Settles l'') : Drained due k l l'' where
  le := h.le
  started t ht := h'.getElem?_eq (h.started t ht) (by simp)
  abandoned t ht := h'.getElem?_eq (h.abandoned t ht) (by simp)
  others hr hn := by
    obtain ⟨r', hr', hsettles⟩ := h.others hr hn
    obtain ⟨r'', hr'', hsettles'⟩ := h'.old hr'
    exact ⟨r'', hr'', hsettles.trans hsettles'⟩
  new hr'' hn :=
    accounted_of_new hr'' (h'.new hr'') fun _ hr' => ⟨h.new hr' hn, h'.old hr'⟩

end Ledger

/-! ### A ledger in the place of a queue -/

namespace Mark

/-- A mark as a node. -/
def node : Mark → Node
  | taken => .nil
  | started => .bool true
  | abandoned => .bool false

/-- The mark that a node stands for. -/
def ofNode : Node → Mark
  | .nil => taken
  | .bool true => started
  | _ => abandoned

theorem ofNode_node (k : Mark) : ofNode k.node = k := by
  cases k <;> rfl

end Mark

namespace Record

/-- A record as a block. -/
def encode (r : Record) : List Node :=
  .program r.body :: r.marks.map Mark.node

/-- The record that a block stands for. -/
def decode : List Node → Record
  | .program body :: marks => ⟨body, marks.map Mark.ofNode⟩
  | body => ⟨body, []⟩

theorem decode_encode (r : Record) : decode r.encode = r := by
  simp [encode, decode, Function.comp_def, Mark.ofNode_node]

end Record

namespace Ledger

/-- A ledger as a queue. -/
def file (l : Ledger) : TaskQueue :=
  ⟨l.map Record.encode⟩

/-- The ledger that is filed as a queue. -/
def read (q : TaskQueue) : Ledger :=
  q.pending.map Record.decode

theorem read_file (l : Ledger) : read l.file = l := by
  simp [read, file, Function.comp_def, Record.decode_encode]

end Ledger

namespace Machine

/-- The machine with a ledger in the place of its queue. -/
def filed (m : Machine) (l : Ledger) : Machine :=
  { m with tasks := l.file }

/-- The machine in whose queue the tasks of a ledger wait. -/
def queued (m : Machine) (l : Ledger) : Machine :=
  { m with tasks := ⟨l.waiting⟩ }

end Machine

end Treewalk
