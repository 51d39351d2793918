import FetchStage.Json.Fault
import FetchStage.Text.Digits

/-! # Quotations

The text of a JSON string, read behind its opening quote one character at a time. A code point beyond the sixteen-bit
range is a pair of escapes, and half a pair alone is malformed. The four digits of an escape are looked at together:
a text with fewer than four bytes left is incomplete whatever they are.
-/
namespace FetchStage.Json
open Text

inductive QuotePhase where
  | plain
  | escape
  /-- Within the digits of an escape, of which `seen` bytes are read; `sound` while all are digits. -/
  | digits (high : Option Nat) (seen : Nat) (sound : Bool) (value : Nat)
  /-- Behind the first escape of a pair: the backslash of the second must follow. -/
  | pair (high : Nat)
  | pairMark (high : Nat)

def isLeading (n : Nat) : Bool := 0xD800 ≤ n && n ≤ 0xDBFF

def isTrailing (n : Nat) : Bool := 0xDC00 ≤ n && n ≤ 0xDFFF

def joinPair (high low : Nat) : Nat := 0x10000 + (high - 0xD800) * 0x400 + (low - 0xDC00)

def shortEscape? (c : Char) : Option Char :=
  match c with
  | '"' => some '"'
  | '\\' => some '\\'
  | '/' => some '/'
  | 'b' => some '\x08'
  | 'f' => some '\x0c'
  | 'n' => some '\n'
  | 'r' => some '\r'
  | 't' => some '\t'
  | _ => none

def escapeValue (high : Option Nat) (value : Nat) : Except Fault (QuotePhase × Option Char) :=
  match high with
  | some h =>
    if isTrailing value then .ok (.plain, some (Char.ofNat (joinPair h value))) else .error .malformed
  | none =>
    if isTrailing value then .error .malformed
    else if isLeading value then .ok (.pair value, none)
    else .ok (.plain, some (Char.ofNat value))

/-- The phase after a character, and the character of the text that it completes. The closing quote is not fed. -/
def QuotePhase.feed (phase : QuotePhase) (c : Char) : Except Fault (QuotePhase × Option Char) :=
  match phase with
  | .plain =>
    if c = '\\' then .ok (.escape, none)
    else if c.toNat < 0x20 then .error .malformed
    else .ok (.plain, some c)
  | .escape =>
    if c = 'u' then .ok (.digits none 0 true 0, none)
    else
      match shortEscape? c with
      | some e => .ok (.plain, some e)
      | none => .error .malformed
  | .digits high seen sound value =>
    let seen := seen + c.utf8Size
    let sound := sound && (digitIn 16 c).isSome
    let value := value * 16 + (digitIn 16 c).getD 0
    if seen < 4 then .ok (.digits high seen sound value, none)
    else if sound then escapeValue high value
    else .error .malformed
  | .pair high => if c = '\\' then .ok (.pairMark high, none) else .error .malformed
  | .pairMark high => if c = 'u' then .ok (.digits (some high) 0 true 0, none) else .error .malformed

/-- Reads to the closing quote; `read` holds the characters so far, the last one first. -/
def readQuotation (phase : QuotePhase) (read : List Char) : Reader (List Char)
  | [] => .error .incomplete
  | c :: cs =>
    match phase, c with
    | .plain, '"' => .ok (read.reverse, cs)
    | phase, c =>
      match phase.feed c with
      | .ok (phase, some e) => readQuotation phase (e :: read) cs
      | .ok (phase, none) => readQuotation phase read cs
      | .error f => .error f

def quotation : Reader (List Char) := readQuotation .plain []

end FetchStage.Json
