import SchemaForms.Files.Store

/-!
A directory held in memory. Paths are walked step by step from the directory itself, or from the
root if they begin with a slash; each step but the last has to stand at a directory. A directory
exists where it is on the way to the directory itself or to a file in it. Paths, and the names in
them, are bounded by their length in bytes: a path before it is walked, a name where it is looked
up.
-/

namespace SchemaForms

/-- The steps from the root to the directory, and its files by their paths inside it. -/
structure Directory where
  steps : List String
  files : List (String × String)
  deriving Repr, Inhabited

inductive PathError where
  | missing
  | notADirectory
  | isADirectory
  | tooLong
  deriving DecidableEq, Repr

def PathError.message : PathError → String
  | missing => FileStore.missing
  | notADirectory => "Not a directory (os error 20)"
  | isADirectory => "Is a directory (os error 21)"
  | tooLong => "File name too long (os error 36)"

namespace Directory

def maxPathBytes : Nat := 4095

def maxNameBytes : Nat := 255

def pathSteps (path : String) : List String :=
  (Text.pieces (· == '/') path.toList).map String.ofList

def absolute (steps : List String) : String := "/" ++ "/".intercalate steps

/-- The files by their steps from the root. -/
def contents (directory : Directory) : List (List String × String) :=
  directory.files.map fun (path, text) => (directory.steps ++ pathSteps path, text)

def hasDirectory (directory : Directory) (place : List String) : Bool :=
  place.isPrefixOf directory.steps ||
    directory.contents.any fun (steps, _) => place.isPrefixOf steps && place ≠ steps

def step (directory : Directory) (place : List String) (name : String) :
    Except PathError (List String) :=
  if !directory.hasDirectory place then .error .notADirectory
  else if name = "" || name = "." then .ok place
  else if name = ".." then .ok place.dropLast
  else if maxNameBytes < name.utf8ByteSize then .error .tooLong
  else
    let next := place ++ [name]
    if directory.hasDirectory next || (directory.contents.lookup next).isSome then .ok next
    else .error .missing

/-- Where a path leads. -/
def locate (directory : Directory) (path : String) : Except PathError (List String) :=
  if path = "" then .error .missing
  else if maxPathBytes < path.utf8ByteSize then .error .tooLong
  else
    (pathSteps path).foldlM directory.step
      (if Location.isAbsolutePath path then [] else directory.steps)

def read (directory : Directory) (path : String) : Except PathError SchemaSource := do
  let place ← directory.locate path
  match directory.contents.lookup place with
  | some text => return ⟨absolute place, text⟩
  | none => throw .isADirectory

def store (directory : Directory) : FileStore where
  stock := directory.contents.map fun (place, text) => ⟨absolute place, text⟩
  read path := (directory.read path).mapError PathError.message
  mem_stock := by
    intro path source h
    unfold read at h
    cases hplace : directory.locate path with
    | error e =>
      rw [hplace] at h
      cases h
    | ok place =>
      cases htext : directory.contents.lookup place with
      | none =>
        simp only [hplace, htext, bind, Except.bind] at h
        cases h
      | some text =>
        obtain ⟨before, after, split, _⟩ := List.lookup_eq_some_iff.mp htext
        simp only [hplace, htext, bind, Except.bind] at h
        obtain rfl := Except.ok.inj h
        simp [split]

end Directory

end SchemaForms
