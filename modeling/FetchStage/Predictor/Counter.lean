/-! # Two-bit direction counters

Four states from strongly not taken to strongly taken. Training moves one step towards the outcome and stays
at the strong ends.
-/
namespace FetchStage

inductive Counter where
  | strongNotTaken
  | weakNotTaken
  | weakTaken
  | strongTaken
  deriving DecidableEq, Repr, Inhabited

namespace Counter

/-- State of a slot that no branch has trained. -/
def reset : Counter := .weakNotTaken

def increment : Counter → Counter
  | .strongNotTaken => .weakNotTaken
  | .weakNotTaken => .weakTaken
  | .weakTaken | .strongTaken => .strongTaken

def decrement : Counter → Counter
  | .strongNotTaken | .weakNotTaken => .strongNotTaken
  | .weakTaken => .weakNotTaken
  | .strongTaken => .weakTaken

def train (c : Counter) (taken : Bool) : Counter := if taken then c.increment else c.decrement

def predictsTaken : Counter → Bool
  | .strongNotTaken | .weakNotTaken => false
  | .weakTaken | .strongTaken => true

def bits : Counter → Fin 4
  | .strongNotTaken => 0
  | .weakNotTaken => 1
  | .weakTaken => 2
  | .strongTaken => 3

def all : List Counter := [.strongNotTaken, .weakNotTaken, .weakTaken, .strongTaken]

def ofBits : Fin 4 → Counter
  | 0 => .strongNotTaken
  | 1 => .weakNotTaken
  | 2 => .weakTaken
  | 3 => .strongTaken

@[simp] theorem ofBits_bits (c : Counter) : ofBits c.bits = c := by cases c <;> rfl

theorem bits_inj {c d : Counter} : c.bits = d.bits ↔ c = d :=
  ⟨fun h => by rw [← ofBits_bits c, h, ofBits_bits], fun h => h ▸ rfl⟩

def name : Counter → String
  | .strongNotTaken => "StrongNotTaken"
  | .weakNotTaken => "WeakNotTaken"
  | .weakTaken => "WeakTaken"
  | .strongTaken => "StrongTaken"

end Counter

end FetchStage
