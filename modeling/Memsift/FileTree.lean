import Memsift.Disk

/-!
# File trees

A tree of folders and files, with one of the folders as the current one.  Paths follow the usual rules: they start at
the root or at the current folder, a point stands for the folder itself, two points stand for the folder around it,
and every step goes through a folder that exists.
-/

namespace Memsift

/-- The names of a file or folder and of the folders around it, the innermost first. -/
abbrev Place := List String

structure FileTree where
  /-- The current folder. -/
  here : Place
  /-- The folders apart from the root. -/
  folders : List Place
  files : List (Place × ByteArray)

namespace FileTree

/-- The most bytes that a name can have. -/
def nameLimit : Nat := 255

/-- The most bytes that a path can have. -/
def pathLimit : Nat := 4095

/-- A tree with an empty current folder. -/
def empty : FileTree := ⟨["home"], [["home"]], []⟩

/-- The steps of a path: names, points, and nothing between two slashes.  The empty path has none. -/
def steps? (path : String) : Option (List String) :=
  let steps := path.splitOn "/"
  if path.isEmpty ∨ pathLimit < path.utf8ByteSize ∨ path.contains '\x00' ∨
      steps.any (fun name => nameLimit < name.utf8ByteSize) then none
  else some steps

/-- Whether a step is the name of something inside a folder. -/
def isName (step : String) : Bool := step != "" && step != "." && step != ".."

def start (t : FileTree) (path : String) : Place := if path.startsWith "/" then [] else t.here

def hasFolder (t : FileTree) (place : Place) : Bool := place.isEmpty || t.folders.contains place

/-- Where a step from a folder leads. -/
def follow (place : Place) (step : String) : Place :=
  if isName step then step :: place else if step = ".." then place.tail else place

/-- The folder that some steps lead to. -/
def walk? (t : FileTree) (place : Place) (steps : List String) : Option Place :=
  steps.foldlM (fun place step =>
    let next := follow place step
    if t.hasFolder next then some next else none) place

/-- Makes the folders that are missing on the way. -/
def makeFolders? (t : FileTree) (place : Place) (steps : List String) : Option (FileTree × Place) :=
  steps.foldlM (fun (t, place) step =>
    let next := follow place step
    if t.hasFolder next then some (t, next)
    else if (t.files.lookup next).isSome then none
    else some ({ t with folders := next :: t.folders }, next)) (t, place)

/-- The folder that a path leads to. -/
def folderAt? (t : FileTree) (path : String) : Option Place :=
  (steps? path).bind (t.walk? (t.start path))

/-- The folder that a path leads through, and the name at its end. -/
def splitName? (path : String) : Option (List String × String) :=
  (steps? path).bind fun steps => steps.getLast?.bind fun name =>
    if isName name then some (steps.dropLast, name) else none

/-- The place of a file, whether there is one or not. -/
def placeAt? (t : FileTree) (path : String) : Option Place :=
  (splitName? path).bind fun (steps, name) => (t.walk? (t.start path) steps).map (name :: ·)

def read? (t : FileTree) (path : String) : Option ByteArray :=
  (t.placeAt? path).bind fun place => t.files.lookup place

def contains (t : FileTree) (path : String) : Bool := (t.folderAt? path).isSome || (t.read? path).isSome

/-- Puts a file at a place, in place of one that is there. -/
def put (t : FileTree) (place : Place) (content : ByteArray) : FileTree :=
  { t with files := (place, content) :: t.files.filter (·.1 != place) }

def write? (t : FileTree) (path : String) (content : ByteArray) : Option FileTree :=
  (t.placeAt? path).bind fun place => if t.hasFolder place then none else some (t.put place content)

/-- Makes the folders on a path, and adds to the end of the file there. -/
def append? (t : FileTree) (path : String) (content : ByteArray) : Option FileTree :=
  match splitName? path with
  | none => none
  | some (steps, name) =>
    (t.makeFolders? (t.start path) steps).bind fun (t, folder) =>
      let place := name :: folder
      if t.hasFolder place then none else some (t.put place (((t.files.lookup place).getD .empty) ++ content))

/-- A path from the current folder to a place inside it. -/
def pathTo? (t : FileTree) (place : Place) : Option String :=
  let depth := place.length - t.here.length
  if t.here.length < place.length ∧ place.drop depth = t.here then some ("/".intercalate (place.take depth).reverse)
  else none

/-- The files inside the current folder by their paths, in order. -/
def listing (t : FileTree) : List (String × ByteArray) :=
  (t.files.filterMap fun (place, content) => (t.pathTo? place).map (·, content)).mergeSort
    fun x y => decide (x.1 ≤ y.1)

/-- A tree as a disk: what fails changes nothing. -/
def disk : Disk (StateM FileTree) :=
  let change (f : FileTree → Option FileTree) : StateM FileTree Bool := fun t =>
    match f t with
    | some t => (true, t)
    | none => (false, t)
  { contains := fun path t => (t.contains path, t)
    read? := fun path t => (t.read? path, t)
    write := fun path content => change (·.write? path content)
    append := fun path content => change (·.append? path content) }

end FileTree
end Memsift
