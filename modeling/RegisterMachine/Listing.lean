import RegisterMachine.Disassembly
import RegisterMachine.Image

/-!
The readable form of an image: a line for every instruction that its code starts with, then the
bytes that are left, sixteen to a row.
-/
namespace RegisterMachine

def Operand.render : Operand → String
  | .register index => "r" ++ Numeral.decimal index.toNat
  | .byte value => Numeral.decimal value.toNat
  | .word value => Numeral.address value.toUInt64.toNat

def Decoded.render (decoded : Decoded) : String :=
  let operands := match decoded.operands with
    | [] => ""
    | operands => " " ++ ", ".intercalate (operands.map Operand.render)
  Numeral.hex 8 decoded.offset ++ ": " ++ decoded.instruction.mnemonic ++ operands

namespace Listing

def row (offset : Nat) (bytes : List UInt8) : String :=
  Numeral.hex 8 offset ++ ": " ++ " ".intercalate (bytes.map fun byte => Numeral.hex 2 byte.toNat)

def rows (offset : Nat) (bytes : List UInt8) : List String :=
  if bytes = [] then []
  else row offset (bytes.take 16) :: rows (offset + 16) (bytes.drop 16)
termination_by bytes.length
decreasing_by
  simp only [List.length_drop]
  have := List.length_pos_iff.2 ‹bytes ≠ []›
  omega

def dataLines (offset : Nat) (bytes : List UInt8) : List String :=
  if bytes = [] then []
  else
    ("; data: " ++ Numeral.decimal bytes.length ++ " bytes at " ++ Numeral.address offset) ::
      rows offset bytes

end Listing

def Image.listing (image : Image) : String :=
  let (instructions, stop) := Disassembly.leading image.code
  let lines := instructions.map Decoded.render ++
    Listing.dataLines stop (image.bytes.extract stop image.bytes.size).toList
  String.join (lines.map (· ++ "\n"))

end RegisterMachine
