import FetchStage.Json.Quotation
import FetchStage.Json.Number
import FetchStage.Json.Skim

/-! # Records

A record is an object whose known keys name its fields, each at most once, or a list of its fields in order. What is
not given keeps its value from before. Unknown keys are skipped with their values.
-/
namespace FetchStage.Json
open Text

def letters : List Char → List Char → Except Fault (List Char)
  | [], cs => .ok cs
  | _ :: _, [] => .error .incomplete
  | d :: ds, c :: cs => if c = d then letters ds cs else .error .malformed

def found (cs : List Char) : Except Fault Found :=
  match cs with
  | 'n' :: rest => (letters ['u', 'l', 'l'] rest).map fun _ => .null
  | 't' :: rest => (letters ['r', 'u', 'e'] rest).map fun _ => .boolean true
  | 'f' :: rest => (letters ['a', 'l', 's', 'e'] rest).map fun _ => .boolean false
  | '"' :: rest => (quotation rest).map fun r => .text r.1
  | '[' :: _ => .ok .sequence
  | '\x7b' :: _ => .ok .map
  | c :: _ => if c = '-' ∨ c.isDigit then (number cs).map fun r => r.1.found else .error .malformed
  | [] => .error .incomplete

/-- The complaint about a value of the wrong kind; a fault of the value itself goes first. -/
def mistaken {α : Type} (expected : String) (cs : List Char) : Except Fault α :=
  match found cs with
  | .ok f => .error (.misfit (.wrongType f expected))
  | .error f => .error f

def count (limit : Nat) (expected : String) : Reader Nat := fun cs =>
  let cs := skipSpace cs
  match cs with
  | [] => .error .incomplete
  | c :: _ =>
    if c = '-' ∨ c.isDigit then do
      let (n, rest) ← number cs
      match n with
      | .integer i =>
        if 0 ≤ i ∧ i < limit then return (i.toNat, rest) else throw (.misfit (.outOfRange i expected))
      | .real _ => throw (.misfit (.wrongType n.found expected))
    else mistaken expected cs

def boolean : Reader Bool := fun cs =>
  match skipSpace cs with
  | [] => .error .incomplete
  | 't' :: rest => (letters ['r', 'u', 'e'] rest).map (true, ·)
  | 'f' :: rest => (letters ['a', 'l', 's', 'e'] rest).map (false, ·)
  | cs => mistaken "a boolean" cs

/-- One of a list of names: its text, or an object with the name as its key and nothing as its value. -/
def variant {α : Type} (names : List (String × α)) (known : List String) : Reader α := fun cs =>
  let select (name : List Char) : Except Fault α :=
    match names.find? fun n => n.1.toList == name with
    | some (_, a) => .ok a
    | none => .error (.misfit (.unknownVariant name known))
  match skipSpace cs with
  | [] => .error .incomplete
  | '"' :: rest => do
    let (name, rest) ← quotation rest
    return (← select name, rest)
  | '\x7b' :: rest => do
    let (name, rest) ← match skipSpace rest with
      | [] => throw .incomplete
      | '"' :: rest => quotation rest
      | _ => throw .malformed
    let a ← select name
    let rest ← match skipSpace rest with
      | [] => throw .incomplete
      | ':' :: rest => pure rest
      | _ => throw .malformed
    let rest ← match skipSpace rest with
      | [] => throw .incomplete
      | 'n' :: rest => letters ['u', 'l', 'l'] rest
      | cs => mistaken "unit" cs
    match skipSpace rest with
    | [] => throw .incomplete
    | '\x7d' :: rest => return (a, rest)
    | _ => throw .malformed
  | _ => .error .malformed

/-- A field of a record: its name, and how its value is read into the record. -/
structure RecordField (ρ : Type) where
  name : String
  read : ρ → Reader ρ

def RecordField.of {ρ α : Type} (name : String) (read : Reader α) (store : α → ρ → ρ) : RecordField ρ :=
  ⟨name, fun r cs => (read cs).map fun v => (store v.1 r, v.2)⟩

def openKey (first : Bool) (cs : List Char) : Except Fault (List Char) :=
  match first, cs with
  | true, '"' :: rest => .ok rest
  | false, ',' :: rest =>
    match skipSpace rest with
    | [] => .error .incomplete
    | '"' :: rest => .ok rest
    | _ => .error .malformed
  | _, _ => .error .malformed

def colon (cs : List Char) : Except Fault (List Char) :=
  match skipSpace cs with
  | [] => .error .incomplete
  | ':' :: rest => .ok rest
  | _ => .error .malformed

def member {ρ : Type} (fields : List (RecordField ρ)) (seen : List String) (record : ρ) (cs : List Char) :
    Except Fault (List String × ρ × List Char) := do
  let (key, cs) ← quotation cs
  match fields.find? fun f => f.name.toList == key with
  | some f =>
    if seen.contains f.name then throw (.misfit (.repeatedField f.name))
    let cs ← colon cs
    let (record, cs) ← f.read record cs
    return (f.name :: seen, record, cs)
  | none =>
    let cs ← colon cs
    return (seen, record, ← skim cs)

/-- Members up to the closing brace. Every member takes up text, so `fuel` never runs out before it. -/
def members {ρ : Type} (fields : List (RecordField ρ)) : Nat → Bool → List String → ρ → Reader ρ
  | 0, _, _, _, _ => .error .malformed
  | fuel + 1, first, seen, record, cs =>
    match skipSpace cs with
    | [] => .error .incomplete
    | '\x7d' :: rest => .ok (record, rest)
    | cs => do
      let cs ← openKey first cs
      let (seen, record, cs) ← member fields seen record cs
      members fields fuel false seen record cs

def closeList (cs : List Char) : Except Fault (List Char) :=
  match skipSpace cs with
  | [] => .error .incomplete
  | ']' :: rest => .ok rest
  | _ => .error .malformed

def nextElement (first : Bool) (cs : List Char) : Except Fault (Option (List Char)) :=
  match first, skipSpace cs with
  | _, [] => .error .incomplete
  | _, ']' :: _ => .ok none
  | true, cs => .ok (some cs)
  | false, ',' :: rest =>
    match skipSpace rest with
    | [] => .error .incomplete
    | ']' :: _ => .error .malformed
    | cs => .ok (some cs)
  | false, _ => .error .malformed

def elements {ρ : Type} : List (RecordField ρ) → Bool → ρ → Reader ρ
  | [], _, record, cs => (closeList cs).map (record, ·)
  | f :: fields, first, record, cs => do
    match ← nextElement first cs with
    | none => (closeList cs).map (record, ·)
    | some cs =>
      let (record, cs) ← f.read record cs
      elements fields false record cs

def record {ρ : Type} (expected : String) (fields : List (RecordField ρ)) (start : ρ) : Reader ρ := fun cs =>
  match skipSpace cs with
  | [] => .error .incomplete
  | '[' :: rest => elements fields true start rest
  | '\x7b' :: rest => members fields (rest.length + 1) true [] start rest
  | cs => mistaken expected cs

def whole {α : Type} (read : Reader α) (cs : List Char) : Except Fault α := do
  let (a, rest) ← read cs
  if (skipSpace rest).isEmpty then return a else throw .malformed

end FetchStage.Json
