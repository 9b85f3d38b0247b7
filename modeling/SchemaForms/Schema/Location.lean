import SchemaForms.Text.Split

/-!
Locations of schema documents: web addresses and file paths. A relative location is taken from the
directory of the document that names it. In a path, empty steps and single dots after the start do
not count as steps.
-/

namespace SchemaForms.Location

def isWeb (location : String) : Bool :=
  location.startsWith "http://" || location.startsWith "https://"

def isAbsolutePath (location : String) : Bool := location.startsWith "/"

/-- Whether a path begins with a step to the directory itself. -/
def startsAtDot : List Char → Bool
  | ['.'] => true
  | '.' :: '/' :: _ => true
  | _ => false

def isStep (piece : List Char) : Bool := piece != [] && piece != ['.']

/-- The directory of a file; the start of a path, a slash or a dot, belongs to it. -/
def directory (path : List Char) : List Char :=
  let start := if path.head? = some '/' || startsAtDot path then path.take 1 else []
  let reversed := (Text.pieces (· == '/') (path.drop start.length)).reverse.dropWhile (!isStep ·)
  match reversed with
  | [] => []
  | _ :: steps => start ++ ['/'].intercalate (steps.dropWhile (!isStep ·)).reverse

/-- Puts a relative path after a directory. -/
def join (directory path : List Char) : List Char :=
  match directory.getLast? with
  | none => path
  | some '/' => directory ++ path
  | some _ => directory ++ '/' :: path

def resolve (base location : String) : String :=
  if isWeb location || isAbsolutePath location then location
  else if isWeb base then
    let directory := match Text.cutLast '/' base.toList with
      | some (before, _) => before
      | none => base.toList
    String.ofList (directory ++ '/' :: location.toList)
  else String.ofList (join (directory base.toList) location.toList)

end SchemaForms.Location
