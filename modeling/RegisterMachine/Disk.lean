import RegisterMachine.Files
import RegisterMachine.Path

/-!
A file system held in memory, seen from a working directory. Paths are followed from segment to
segment, so a file in the middle of a path, or a slash after it, is found out.
-/
namespace RegisterMachine

inductive Node where
  | file (bytes : Array UInt8)
  | directory

/-- Where files and directories are: `names` down from the directory `up` levels above the working
directory, or from the root. -/
structure Place where
  up : Option Nat := some 0
  names : List String := []
  deriving DecidableEq

structure Disk where
  nodes : Table Place Node := {}

namespace Disk

/-- All directories above the working directory exist. -/
def node? (disk : Disk) (place : Place) : Option Node :=
  if place.names = [] then some .directory else disk.nodes.find? place

def requireDirectory (disk : Disk) (place : Place) : Except FileTrouble Unit :=
  match disk.node? place with
  | some .directory => .ok ()
  | some (.file _) => .error .notDirectory
  | none => .error .missing

def parent (place : Place) : Place :=
  if place.names = [] then { place with up := place.up.map (· + 1) }
  else { place with names := place.names.dropLast }

def follow (disk : Disk) (place : Place) (segment : List Char) : Except FileTrouble Place := do
  disk.requireDirectory place
  if Path.isIdle segment then return place
  else if segment = ['.', '.'] then return parent place
  else return { place with names := place.names ++ [String.ofList segment] }

def startOf : Path.Start → Place
  | .relative => {}
  | .dot => {}
  | .root => { up := none }

def locate (disk : Disk) (path : String) : Except FileTrouble Place :=
  if path = "" then .error .missing
  else
    let parts := Path.split path
    parts.segments.foldlM disk.follow (startOf parts.start)

def find (disk : Disk) (path : String) : Except FileTrouble Node := do
  match disk.node? (← disk.locate path) with
  | some node => return node
  | none => .error .missing

def read (disk : Disk) (path : String) : Except FileTrouble (Array UInt8) := do
  match ← disk.find path with
  | .file bytes => return bytes
  | .directory => .error .isDirectory

def present (disk : Disk) (path : String) : Bool := (disk.find path).isOk

/-- Only a name can be written to: a slash or dots at the end ask for a directory. -/
def write (disk : Disk) (path : String) (bytes : Array UInt8) : Except FileTrouble Disk :=
  if path = "" then .error .missing
  else
    let parts := Path.split path
    match parts.segments.reverse.dropWhile (· = []) with
    | [] => .error .isDirectory
    | last :: before => do
      let directory ← before.reverse.foldlM disk.follow (startOf parts.start)
      disk.requireDirectory directory
      if parts.segments.getLast? = some [] || last = ['.'] || last = ['.', '.'] then
        .error .isDirectory
      else
        let place ← disk.follow directory last
        match disk.nodes.find? place with
        | some .directory => .error .isDirectory
        | _ => return ⟨disk.nodes.insert place (.file bytes)⟩

def files : Files (StateM Disk) where
  present path := return (← get).present path
  read path := return (← get).read path
  write path bytes := do
    match (← get).write path bytes with
    | .ok disk => set disk; return .ok ()
    | .error trouble => return .error trouble

def withParents (disk : Disk) (names : List String) : Disk :=
  (List.range (names.length - 1)).foldl
    (fun disk above => ⟨disk.nodes.insert { names := names.take (above + 1) } .directory⟩) disk

def add (disk : Disk) (name : String) (bytes : Array UInt8) : Disk :=
  let segments := (Path.split name).segments
  let names := (segments.filter (!Path.isIdle ·)).map String.ofList
  let node := if segments.getLast? = some [] then .directory else .file bytes
  ⟨(disk.withParents names).nodes.insert { names } node⟩

def contents (disk : Disk) : List (String × Array UInt8) :=
  let files := disk.nodes.entries.filterMap fun
    | (⟨some 0, names⟩, .file bytes) => some ("/".intercalate names, bytes)
    | _ => none
  files.mergeSort fun a b => a.1 ≤ b.1

end Disk

end RegisterMachine
