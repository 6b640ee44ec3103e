import StubTree.Fault
import StubTree.Yaml.Stream

/-! # The stack of calls

Reading is as deep as what is read: a manifest is loaded inside the loading of the one that refers
to it, and collections are read, merged and shown inside one another. All this shares one stack
of calls. Where it would take more frames than the stack holds, reading breaks off.

How many frames a stack holds and how many a call takes is not up to the program, so both are given
from outside. Unless they are, the stack has no end. What else is done on the way, such as looking
for files, takes fewer frames than reading any text does and is not counted.
-/

namespace StubTree

/-- The calls inside which a manifest is loaded: for a target, for an identity, or for a reference
of another manifest. -/
inductive Caller where
  | target
  | identity
  | reference
  deriving DecidableEq, Repr

/-- A stack of calls: how many frames it holds, if it has an end, and how many are in use. Every
caller takes some frames; the text of options or of a manifest takes as many as are in use at once
while it is read. -/
structure Stack where
  limit : Option Nat := none
  used : Nat := 0
  frames : Caller → Nat := fun _ => 0
  options : Yaml.Stream → Nat := fun _ => 0
  manifest : Yaml.Stream → Nat := fun _ => 0

namespace Stack

def endless : Stack := {}

/-- The stack as a caller leaves it to what it calls. -/
def inside (s : Stack) (c : Caller) : Stack := { s with used := s.used + s.frames c }

@[simp] theorem inside_endless (c : Caller) : endless.inside c = endless := rfl

/-- Whether there is room for so many frames. -/
def Holds (s : Stack) (frames : Nat) : Prop :=
  ∀ limit ∈ s.limit, s.used + frames ≤ limit

instance (s : Stack) (frames : Nat) : Decidable (s.Holds frames) :=
  inferInstanceAs (Decidable (∀ limit ∈ s.limit, s.used + frames ≤ limit))

@[simp] theorem holds_endless (frames : Nat) : endless.Holds frames := fun _ h => by cases h

/-- Inside a caller there is room for what has room together with the frames of the caller. -/
theorem holds_inside {s : Stack} {c : Caller} {frames : Nat} :
    (s.inside c).Holds frames ↔ s.Holds (s.frames c + frames) := by
  simp only [Holds, inside, Nat.add_assoc]

/-- Breaks off where there is no room for so many frames. -/
def reserve (s : Stack) (frames : Nat) : Except Fault Unit :=
  if s.Holds frames then .ok () else .error .tooDeep

@[simp] theorem reserve_endless (frames : Nat) : endless.reserve frames = .ok () :=
  if_pos (holds_endless frames)

end Stack

end StubTree
