import Treewalk.Text.Line
import Treewalk.Text.Utf8

/-!
# `Treewalk.Stream`: where output goes and input comes from

A sink is offered texts one at a time and reacts to each: it takes the
text, takes it and asks the run to stop, or refuses it with a reason.
The reactions may be any function of the number of offers before.

A source is a sequence of bytes that is read line by line.
-/

set_option autoImplicit false

namespace Treewalk

/-- What a sink does with a text that it is offered. -/
inductive Reaction where
  | accept
  | acceptAndInterrupt
  | refuse (reason : String)
deriving DecidableEq, Repr

/-- A sink: what it has taken, how many offers there were, and how it
reacts to the next. -/
structure Sink where
  taken : String
  offers : Nat
  reaction : Nat → Reaction

namespace Sink

/-- The sink after an offer, and its reaction. -/
def offer (s : Sink) (text : String) : Reaction × Sink :=
  let reaction := s.reaction s.offers
  let taken :=
    match reaction with
    | .refuse _ => s.taken
    | _ => s.taken ++ text
  (reaction, { s with taken, offers := s.offers + 1 })

/-- The sink with what it has taken carried away. -/
def collect (s : Sink) : String × Sink :=
  (s.taken, { s with taken := "" })

/-- Why a sink that holds its fill takes no more. -/
def full : String := "sink full"

/-- A sink that takes `capacity` texts and refuses all later ones, and
that asks the run to stop when it takes text number `alarm`, counted
from one. Without a capacity it refuses nothing, and without an alarm
it never asks. -/
def limited (capacity alarm : Option Nat) : Sink where
  taken := ""
  offers := 0
  reaction n :=
    if capacity.any (· ≤ n) then .refuse full
    else if alarm = some (n + 1) then .acceptAndInterrupt
    else .accept

end Sink

/-- Bytes that are still to be read. -/
structure Source where
  bytes : List UInt8

namespace Source

/-- The byte that ends a line. -/
def lineFeed : UInt8 := 10

/-- Why a line cannot be read as text. -/
def notText : String := "stream did not contain valid UTF-8"

/-- The bytes up to the end of the first line, and the rest. -/
def cutLine (bytes : List UInt8) : List UInt8 × List UInt8 :=
  let rest := bytes.dropWhile (· ≠ lineFeed)
  (bytes.takeWhile (· ≠ lineFeed) ++ rest.take 1, rest.drop 1)

/-- No byte is lost where a line is cut off. -/
theorem cutLine_append (bytes : List UInt8) :
    (cutLine bytes).1 ++ (cutLine bytes).2 = bytes := by
  simp [cutLine, -List.drop_one]

/-- The next line without its end, or nothing when all is read. A line
that is no text is used up all the same. -/
def readLine (s : Source) : Except String (Option String) × Source :=
  match s.bytes with
  | [] => (.ok none, s)
  | bytes =>
    let (line, rest) := cutLine bytes
    let result :=
      match Text.Utf8.decode? line with
      | some text => .ok (some (String.ofList (Text.trimLineEnd text.toList)))
      | none => .error notText
    (result, ⟨rest⟩)

/-- The rest after a line is shorter, unless nothing was there. -/
theorem length_cutLine_lt {bytes : List UInt8} (h : bytes ≠ []) :
    (cutLine bytes).2.length < bytes.length := by
  have hpos : 0 < bytes.length := List.length_pos_iff.mpr h
  have hrest : (bytes.dropWhile (· ≠ lineFeed)).length ≤ bytes.length :=
    (List.dropWhile_sublist _).length_le
  show ((bytes.dropWhile (· ≠ lineFeed)).drop 1).length < bytes.length
  rw [List.length_drop]
  omega

/-- Reading never gives bytes back. -/
theorem length_readLine_le (s : Source) : s.readLine.2.bytes.length ≤ s.bytes.length := by
  unfold readLine
  split
  · exact Nat.le_refl _
  · rename_i hsome
    exact Nat.le_of_lt (length_cutLine_lt hsome)

/-- A line that is no text has at least one byte. -/
theorem length_readLine_lt {s : Source} {reason : String} (h : s.readLine.1 = .error reason) :
    s.readLine.2.bytes.length < s.bytes.length := by
  unfold readLine at h ⊢
  split
  · rename_i hnone
    rw [hnone] at h
    cases h
  · rename_i hsome
    exact length_cutLine_lt hsome

/-- The source after a number of lines have been read. -/
def skip : Nat → Source → Source
  | 0, s => s
  | n + 1, s => skip n s.readLine.2

theorem skip_add (a b : Nat) (s : Source) : s.skip (a + b) = (s.skip a).skip b := by
  induction a generalizing s with
  | zero => rw [Nat.zero_add, skip]
  | succ a ih => rw [Nat.succ_add, skip, skip, ih]

theorem length_skip_le (n : Nat) (s : Source) : (s.skip n).bytes.length ≤ s.bytes.length := by
  induction n generalizing s with
  | zero => exact Nat.le_refl _
  | succ n ih => exact Nat.le_trans (ih s.readLine.2) s.length_readLine_le

end Source

/-- A buffer that collects bytes and shows them as text. -/
structure Capture where
  bytes : List UInt8

namespace Capture

/-- The buffer that holds nothing. -/
def empty : Capture := ⟨[]⟩

/-- The buffer after more bytes. -/
def write (c : Capture) (bytes : List UInt8) : Capture :=
  ⟨c.bytes ++ bytes⟩

/-- The bytes as text, flaws replaced. -/
def contents (c : Capture) : String :=
  Text.Utf8.decodeLossy c.bytes

/-- The lines of the text. -/
def lines (c : Capture) : List String :=
  Text.lines c.contents

end Capture

end Treewalk
