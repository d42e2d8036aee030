/-!
The kinds of values that the machine keeps on its stack.
-/
namespace RegisterMachine

inductive Kind where
  | int | float | text
  deriving DecidableEq

def Kind.name : Kind → String
  | .int => "Int"
  | .float => "Float"
  | .text => "Text"

end RegisterMachine
