/-!
File names as text: the directory, the stem and the extension of a path, and joining them again. A
path is cut at its slashes; segments that are empty or a single dot lead nowhere and are skipped,
except for a dot at the very start.
-/
namespace RegisterMachine.Path

inductive Start where
  | relative
  /-- The dot that stands for the working directory. -/
  | dot
  | root
  deriving DecidableEq

structure Parts where
  start : Start
  segments : List (List Char)

def split (path : String) : Parts :=
  match path.toList.splitOn '/' with
  | [] :: segment :: rest => ⟨.root, segment :: rest⟩
  | ['.'] :: rest => ⟨.dot, rest⟩
  | segments => ⟨.relative, segments⟩

def joinSegments (segments : List (List Char)) : List Char := ['/'].intercalate segments

def Parts.render (parts : Parts) : String :=
  String.ofList <| match parts.start with
    | .relative => joinSegments parts.segments
    | .dot => '.' :: parts.segments.flatMap ('/' :: ·)
    | .root => '/' :: joinSegments parts.segments

def isIdle (segment : List Char) : Bool := segment = [] || segment = ['.']

/-- The segments, last first, from the last one that leads somewhere. -/
def Parts.backwards (parts : Parts) : List (List Char) :=
  parts.segments.reverse.dropWhile isIdle

def parent? (path : String) : Option String :=
  let parts := split path
  match parts.backwards, parts.start with
  | _ :: before, _ => some { parts with segments := (before.dropWhile isIdle).reverse : Parts }.render
  | [], .dot => some ""
  | [], _ => none

def fileName? (path : String) : Option (List Char) :=
  match (split path).backwards with
  | [] => none
  | name :: _ => if name = ['.', '.'] then none else some name

/-- A name cut at its last dot. A dot at the start of a name does not count. -/
def splitName (name : List Char) : List Char × Option (List Char) :=
  let extension := name.reverse.takeWhile (· ≠ '.')
  match name.reverse.dropWhile (· ≠ '.') with
  | _ :: c :: rest => ((c :: rest).reverse, some extension.reverse)
  | _ => (name, none)

def stem? (path : String) : Option String :=
  (fileName? path).map fun name => String.ofList (splitName name).1

def extension? (path : String) : Option String :=
  (fileName? path).bind fun name => (splitName name).2.map String.ofList

def join (directory name : String) : String :=
  if directory = "" ∨ directory.toList.getLast? = some '/' then directory ++ name
  else directory ++ "/" ++ name

end RegisterMachine.Path
