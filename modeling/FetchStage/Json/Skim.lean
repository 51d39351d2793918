import FetchStage.Json.Fault
import FetchStage.Text.Digits

/-! # Skipped values

A value that nobody asks for is only checked for its shape, one character at a time, with the open frames on a stack.
So it may be nested to any depth, its numbers may have any size, and its strings may hold half a pair of escapes.
-/
namespace FetchStage.Json
open Text

inductive Frame where
  | list
  | object
  deriving DecidableEq

inductive NumberPhase where
  | minus
  | zero
  | whole
  | point
  | fraction
  | mark
  | sign
  | exponent
  deriving DecidableEq

inductive TextPhase where
  | plain
  | escape
  | digits (seen : Nat) (sound : Bool)
  deriving DecidableEq

inductive Phase where
  /-- A value starts here. -/
  | value
  /-- A frame was just opened. -/
  | opened
  /-- A key starts here. -/
  | key
  | colon
  /-- A value has ended within a frame. -/
  | after
  /-- Within `true`, `false` or `null`; these letters are left. -/
  | letters (left : List Char)
  | text (isKey : Bool) (phase : TextPhase)
  | number (phase : NumberPhase)
  deriving DecidableEq

inductive Move where
  /-- It belongs to the value, which goes on. -/
  | on (phase : Phase) (stack : List Frame)
  /-- It ends the value. -/
  | last
  /-- The value ended before it. -/
  | past
  deriving DecidableEq

/-- A value inside the frames of `stack` has just ended. -/
def Move.ended : List Frame → Move
  | [] => .last
  | stack => .on .after stack

def NumberPhase.complete : NumberPhase → Bool
  | .zero | .whole | .fraction | .exponent => true
  | _ => false

def NumberPhase.next (phase : NumberPhase) (c : Char) : Option NumberPhase :=
  match phase with
  | .minus => if c = '0' then some .zero else if c.isDigit then some .whole else none
  | .zero => if c = '.' then some .point else if c = 'e' ∨ c = 'E' then some .mark else none
  | .whole =>
    if c.isDigit then some .whole
    else if c = '.' then some .point
    else if c = 'e' ∨ c = 'E' then some .mark
    else none
  | .point => if c.isDigit then some .fraction else none
  | .fraction => if c.isDigit then some .fraction else if c = 'e' ∨ c = 'E' then some .mark else none
  | .mark => if c = '+' ∨ c = '-' then some .sign else if c.isDigit then some .exponent else none
  | .sign => if c.isDigit then some .exponent else none
  | .exponent => if c.isDigit then some .exponent else none

def startValue (stack : List Frame) (c : Char) : Except Fault Move :=
  if isSpace c then .ok (.on .value stack)
  else if c = 'n' then .ok (.on (.letters ['u', 'l', 'l']) stack)
  else if c = 't' then .ok (.on (.letters ['r', 'u', 'e']) stack)
  else if c = 'f' then .ok (.on (.letters ['a', 'l', 's', 'e']) stack)
  else if c = '"' then .ok (.on (.text false .plain) stack)
  else if c = '[' then .ok (.on .opened (.list :: stack))
  else if c = '\x7b' then .ok (.on .opened (.object :: stack))
  else if c = '-' then .ok (.on (.number .minus) stack)
  else
    match NumberPhase.next .minus c with
    | some phase => .ok (.on (.number phase) stack)
    | none => .error .malformed

def startKey (stack : List Frame) (c : Char) : Except Fault Move :=
  if isSpace c then .ok (.on .key stack)
  else if c = '"' then .ok (.on (.text true .plain) stack)
  else .error .malformed

def Frame.closes : Frame → Char → Bool
  | .list, c => c == ']'
  | .object, c => c == '\x7d'

def afterOpening (stack : List Frame) (c : Char) : Except Fault Move :=
  match stack with
  | [] => .error .malformed
  | frame :: outer =>
    if isSpace c then .ok (.on .opened stack)
    else if frame.closes c then .ok (.ended outer)
    else
      match frame with
      | .list => startValue stack c
      | .object => startKey stack c

def afterValue (stack : List Frame) (c : Char) : Except Fault Move :=
  match stack with
  | [] => .ok .past
  | frame :: outer =>
    if isSpace c then .ok (.on .after stack)
    else if frame.closes c then .ok (.ended outer)
    else if c = ',' then .ok (.on (match frame with | .list => .value | .object => .key) stack)
    else .error .malformed

def withinText (isKey : Bool) (phase : TextPhase) (stack : List Frame) (c : Char) : Except Fault Move :=
  match phase with
  | .plain =>
    if c = '"' then .ok (if isKey then .on .colon stack else .ended stack)
    else if c = '\\' then .ok (.on (.text isKey .escape) stack)
    else if c.toNat < 0x20 then .error .malformed
    else .ok (.on (.text isKey .plain) stack)
  | .escape =>
    if c = 'u' then .ok (.on (.text isKey (.digits 0 true)) stack)
    else if "\"\\/bfnrt".toList.contains c then .ok (.on (.text isKey .plain) stack)
    else .error .malformed
  | .digits seen sound =>
    let seen := seen + c.utf8Size
    let sound := sound && (digitIn 16 c).isSome
    if seen < 4 then .ok (.on (.text isKey (.digits seen sound)) stack)
    else if sound then .ok (.on (.text isKey .plain) stack)
    else .error .malformed

def advance (phase : Phase) (stack : List Frame) (c : Char) : Except Fault Move :=
  match phase with
  | .value => startValue stack c
  | .opened => afterOpening stack c
  | .key => startKey stack c
  | .colon =>
    if isSpace c then .ok (.on .colon stack)
    else if c = ':' then .ok (.on .value stack)
    else .error .malformed
  | .after => afterValue stack c
  | .letters [] => .error .malformed
  | .letters (d :: left) =>
    if c ≠ d then .error .malformed
    else if left.isEmpty then .ok (.ended stack)
    else .ok (.on (.letters left) stack)
  | .text isKey phase => withinText isKey phase stack c
  | .number phase =>
    match phase.next c with
    | some phase => .ok (.on (.number phase) stack)
    | none => if phase.complete && !(phase == .zero && c.isDigit) then afterValue stack c else .error .malformed

/-- The text ends within a value. A number may end there if it stands alone, and an unfinished number is malformed. -/
def atEnd (phase : Phase) (stack : List Frame) : Except Fault (List Char) :=
  match phase with
  | .number phase =>
    if !phase.complete then .error .malformed
    else if stack.isEmpty then .ok []
    else .error .incomplete
  | _ => .error .incomplete

def skimFrom (phase : Phase) (stack : List Frame) : List Char → Except Fault (List Char)
  | [] => atEnd phase stack
  | c :: cs =>
    match advance phase stack c with
    | .ok (.on phase stack) => skimFrom phase stack cs
    | .ok .last => .ok cs
    | .ok .past => .ok (c :: cs)
    | .error f => .error f

def skim : List Char → Except Fault (List Char) := skimFrom .value []

end FetchStage.Json
