import FetchStage.Text.Digits
import FetchStage.Text.Quoted

/-! # Text for a terminal

A control sequence in a text could move the cursor of the terminal that shows it. `guarded` spells out the characters
that start one, and `plain` leaves control sequences and stray control characters out.
-/
namespace FetchStage.Text

/-- Spells out the escape character, the bell, the backspace, the form feed, the delete character and the upper
control characters. -/
def spell (c : Char) : List Char :=
  if [0x07, 0x08, 0x0C, 0x1B, 0x7F].contains c.toNat then ['\\', 'x'] ++ hexDigits false 2 c.toNat
  else if 0x80 ≤ c.toNat ∧ c.toNat < 0xA0 then codePoint c
  else [c]

def guarded (s : String) : String := String.ofList (s.toList.flatMap spell)

inductive Phase where
  /-- Outside any sequence. -/
  | ground
  /-- Behind the escape character. -/
  | escape
  | intermediate
  /-- In a control sequence proper, up to its final letter. -/
  | control
  /-- In a command to the operating system, up to a bell. -/
  | operating
  | device
  | deviceParameters
  | deviceIntermediate
  /-- In a string, up to its terminator. -/
  | string
  deriving DecidableEq, Repr

namespace Phase

/-- The byte that ends a string, which may also stand inside a character. -/
def terminator : UInt8 := 0x9C

def graphic (p : Phase) (c : Char) : Phase :=
  if c.toNat = 0x7F then p
  else match p with
    | .escape =>
      if c.toNat < 0x30 then .intermediate
      else if c = '[' then .control
      else if c = ']' then .operating
      else if c = 'P' then .device
      else if c = 'X' ∨ c = '^' ∨ c = '_' then .string
      else .ground
    | .intermediate => if c.toNat < 0x30 then .intermediate else .ground
    | .control => if c.toNat < 0x40 then .control else .ground
    | .device =>
      if c.toNat < 0x30 then .deviceIntermediate else if c.toNat < 0x40 then .deviceParameters else .string
    | .deviceParameters =>
      if c.toNat < 0x30 then .deviceIntermediate else if c.toNat < 0x3C then .deviceParameters else .string
    | .deviceIntermediate => if c.toNat < 0x30 then .deviceIntermediate else .string
    | p => p

def next (p : Phase) (c : Char) : Phase :=
  if c = '\x1b' then .escape
  else if c = '\x18' ∨ c = '\x1a' then .ground
  else if c.toNat < 0x20 then (if p = .operating ∧ c = '\x07' then .ground else p)
  else if c.toNat < 0x80 then p.graphic c
  else if p = .string ∧ (String.singleton c).toUTF8.data.contains terminator then .ground
  else p

def isOpen : Phase → Bool
  | .ground | .escape | .intermediate | .control => true
  | _ => false

end Phase

def isLayout (c : Char) : Bool := c == '\t' || c == '\n' || c == '\x0c' || c == '\r'

/-- Not a control character, or one that only lays text out. -/
def isVisible (c : Char) : Bool := isLayout c || (0x20 ≤ c.toNat && c.toNat != 0x7F)

/-- A text read so far. A tab or line end inside a sequence starts to show the text behind it; the sequence goes on
at the next control character. -/
structure Passage where
  phase : Phase := .ground
  showing : Bool := false
  /-- The characters kept, the last one first. -/
  kept : List Char := []

namespace Passage

def keeps (p : Passage) (c : Char) : Bool :=
  isVisible c && (p.showing || p.phase == .ground || (isLayout c && p.phase.isOpen))

def step (p : Passage) (c : Char) : Passage :=
  if p.keeps c then { phase := if c.toNat < 0x80 then p.phase else .ground, showing := true, kept := c :: p.kept }
  else { p with phase := p.phase.next c, showing := false }

end Passage

def plain (s : String) : String := String.ofList (s.toList.foldl Passage.step {}).kept.reverse

example : plain "a\x1b]0;t\x07b" = "ab" := by decide +kernel
example : plain "é\x1b[1mé" = "éé" := by decide +kernel
example : plain "a\x0bb\tc\x7f" = "ab\tc" := by decide +kernel

end FetchStage.Text
