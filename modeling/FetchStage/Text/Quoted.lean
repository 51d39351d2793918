import FetchStage.Text.Printable
import FetchStage.Text.Digits

/-! # Quoted text

Text between double quotes, as messages show it. A quote, a backslash and the usual control characters have short
escapes; other characters that are not printable are written by code point.
-/
namespace FetchStage.Text

/-- Lowercase hexadecimal without leading zeros. -/
def bareHex (n : Nat) : List Char := Nat.toDigits 16 n

def codePoint (c : Char) : List Char := ['\\', 'u', '\x7b'] ++ bareHex c.toNat ++ ['\x7d']

def escape (c : Char) : List Char :=
  if c = '"' then ['\\', '"']
  else if c = '\\' then ['\\', '\\']
  else if c = '\n' then ['\\', 'n']
  else if c = '\r' then ['\\', 'r']
  else if c = '\t' then ['\\', 't']
  else if c = '\x00' then ['\\', '0']
  else if isPrintable c then [c]
  else codePoint c

def quoted (cs : List Char) : String := String.ofList ('"' :: cs.flatMap escape ++ ['"'])

end FetchStage.Text
