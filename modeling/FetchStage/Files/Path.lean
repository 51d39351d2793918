import FetchStage.Text.Lines

/-! # Sibling paths

The path of another file beside a given one. A path that ends in no file name is taken for the directory itself.
-/
namespace FetchStage.Path
open Text

def isIdle (component : List Char) : Bool := component.isEmpty || component == ['.']

/-- Components without idle ones at the end; the first always stays. -/
def trimIdle (components : List (List Char)) : List (List Char) :=
  match components with
  | [] => []
  | first :: rest => first :: (rest.reverse.dropWhile isIdle).reverse

def joinWith (directory name : List Char) : List Char :=
  if directory.isEmpty then name
  else if directory.getLast? = some '/' then directory ++ name
  else directory ++ '/' :: name

def join (components : List (List Char)) : List Char := ['/'].intercalate components

/-- The directory that holds the file, if the path ends in a file name. -/
def directory? (path : List Char) : Option (List Char) :=
  match (pieces (· == '/') path).reverse.dropWhile isIdle with
  | [] => none
  | last :: before =>
    if last = ['.', '.'] then none
    else
      match trimIdle before.reverse with
      | [[]] => some ['/']
      | components => some (join components)

def sibling (path name : String) : String :=
  String.ofList (joinWith ((directory? path.toList).getD path.toList) name.toList)

example : sibling "q.mem" "a" = "a" := by decide +kernel
example : sibling "no/q.mem" "a" = "no/a" := by decide +kernel
example : sibling "./q.mem" "a" = "./a" := by decide +kernel
example : sibling "/q" "a" = "/a" := by decide +kernel
example : sibling ".." "a" = "../a" := by decide +kernel

end FetchStage.Path
