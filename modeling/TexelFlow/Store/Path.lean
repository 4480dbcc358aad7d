import TexelFlow.Text.Pieces

/-!
# Paths

A path is a text cut into segments by slashes. Empty segments name nothing, and neither does a single
point, except as the first segment of a relative path. The directory of a path is what stands before
its last name; what it keeps of the path is kept as it was written.
-/

namespace TexelFlow.Path

/-- The segments of a path. The first one of an absolute path is empty. -/
def segments (path : String) : List (List Char) := Text.pieces '/' path.toList

/-- Whether a path starts at the root. -/
def isAbsolute (path : String) : Bool := path.toList.head? = some '/'

/-- A segment behind the first one that names nothing. -/
def isFiller (segment : List Char) : Bool := segment = [] || segment = ['.']

/-- What stands before the last name of a path; none if there is no name. -/
def parent? (path : String) : Option String :=
  match segments path with
  | [] => none
  | head :: tail =>
    match tail.reverse.dropWhile isFiller with
    | [] => if head = [] then none else some ""
    | _ :: above =>
      let kept := (above.dropWhile isFiller).reverse
      if head = [] && kept = [] then some "/"
      else some (String.ofList (Text.join '/' (head :: kept)))

/-- The directory that a path stands in. -/
def directory (path : String) : String := (parent? path).getD "."

/-- A path seen from a directory. An absolute path is seen alike from everywhere. -/
def within (directory path : String) : String :=
  if isAbsolute path then path
  else if directory = "" || directory.toList.getLast? = some '/' then directory ++ path
  else directory ++ "/" ++ path

/-- A file that stands beside another one. -/
def beside (path name : String) : String := within (directory path) name

end TexelFlow.Path
