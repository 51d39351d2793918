import FetchStage.Format.Fault
import FetchStage.Text.Lines

/-! # Program images as text

Hexadecimal words, any number on a line, placed at consecutive addresses from zero. They are written one to a line.
-/
namespace FetchStage.Format
open Text

def wordTokens (text : List Char) : List (Nat × List Char) :=
  (numbered text).flatMap fun (line, content) => (fields content).map (line, ·)

def readProgram (text : List Char) : Except LineFault (List Word) :=
  (wordTokens text).mapM fun (line, token) => orFault line (.badWord token) (readWord token)

/-- One word of eight capital digits on each line. -/
def programText (words : List Word) : List Char :=
  words.flatMap fun w => hexDigits true 8 w.toNat ++ ['\n']

end FetchStage.Format
