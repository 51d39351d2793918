import FetchStage.Text.Blank

/-! # Lines, comments and fields

Text files are read line by line. A line ends at a newline, with one carriage return before it dropped. A comment
starts at `#` or `//`. What is left, without surrounding blanks, is the line's content.
-/
namespace FetchStage.Text

def pieces (separator : Char → Bool) (cs : List Char) : List (List Char) :=
  cs.foldr
    (fun c ps =>
      if separator c then [] :: ps
      else match ps with
        | [] => [[c]]
        | p :: ps => (c :: p) :: ps)
    [[]]

def dropReturn (line : List Char) : List Char :=
  if line.getLast? = some '\r' then line.dropLast else line

/-- Lines of a text. A text that ends in a newline has no empty line after it, and a carriage return at the very
end of the text belongs to its line. -/
def lines (cs : List Char) : List (List Char) :=
  let ps := pieces (· == '\n') cs
  let ended := ps.dropLast.map dropReturn
  match ps.getLast? with
  | some (c :: last) => ended ++ [c :: last]
  | _ => ended

/-- The lines that a text makes up when it is printed with a newline after it. -/
def printedLines (s : String) : List String := (lines (s.toList ++ ['\n'])).map String.ofList

def trim (cs : List Char) : List Char :=
  ((cs.dropWhile isBlank).reverse.dropWhile isBlank).reverse

/-- A comment starts here, given the character that follows. -/
def startsComment (c next : Char) : Bool := c == '#' || (c == '/' && next == '/')

def beforeComment (cs : List Char) : List Char :=
  ((cs.zip (cs.drop 1 ++ ['\n'])).takeWhile fun p => !startsComment p.1 p.2).map (·.1)

def content (line : List Char) : List Char := trim (beforeComment line)

def fieldsBy (separator : Char → Bool) (cs : List Char) : List (List Char) :=
  (pieces separator cs).filter fun p => !p.isEmpty

def fields (cs : List Char) : List (List Char) := fieldsBy isBlank cs

/-- The content of each line, beside its number counted from one. -/
def numbered (cs : List Char) : List (Nat × List Char) :=
  ((lines cs).zipIdx 1).map fun l => (l.2, content l.1)

def lower (cs : List Char) : List Char := cs.map Char.toLower

def byteSize (cs : List Char) : Nat := cs.foldl (fun n c => n + c.utf8Size) 0

end FetchStage.Text
