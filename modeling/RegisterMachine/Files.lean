import RegisterMachine.Assembly.Diagnostic
import RegisterMachine.Assembly.Source

/-!
What programs need of a file system, and the ways in which images and sources come from files.
-/
namespace RegisterMachine

structure Files (m : Type → Type) where
  present : String → m Bool
  read : String → m (Except FileTrouble (Array UInt8))
  write : String → Array UInt8 → m (Except FileTrouble Unit)

namespace Files

variable {m : Type → Type} [Monad m]

def readImage (files : Files m) (path : String) : m (Except Fault Image) := do
  return ((← files.read path).mapError (.file path)).map Image.ofBytes

def writeImage (files : Files m) (path : String) (image : Image) : m (Except Fault Unit) := do
  return (← files.write path image.bytes).mapError (.file path)

def decodeText (bytes : Array UInt8) : Except FileTrouble String :=
  match String.fromUTF8? ⟨bytes⟩ with
  | some text => .ok text
  | none => .error .notText

/-- Assembles the source in a file. The text is the report on what is wrong with the source. -/
def assemble (files : Files m) (path : String) : m (Except Fault Image × String) := do
  match (← files.read path) >>= decodeText with
  | .error trouble => return (.error (.file path trouble), "")
  | .ok source =>
    match Assembly.assemble source with
    | .ok image => return (.ok image, "")
    | .error fault => return (.error fault, Assembly.report path source fault)

end Files

end RegisterMachine
