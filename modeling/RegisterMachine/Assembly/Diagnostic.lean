import RegisterMachine.Fault

/-!
Reports about a source that does not assemble: the message, the place, and the line with a mark
under the character that it is about.
-/
namespace RegisterMachine.Assembly

/-- The lines of a text without their ends. A last line end starts no further line. -/
def lines (source : String) : List (List Char) :=
  let parts := source.toList.splitOn '\n'
  if parts.getLast? = some [] then parts.dropLast else parts

def trimmed (line : List Char) : List Char := (line.reverse.dropWhile (· = '\r')).reverse

def excerpt (source : String) (place : Position) : List String :=
  match (lines source)[place.line - 1]? with
  | none => []
  | some line =>
    let number := (Numeral.decimalDigits place.line).leftpad 4 ' '
    ["  |",
      String.ofList (number ++ [' ', '|', ' '] ++ trimmed line),
      String.ofList ([' ', ' ', '|', ' '] ++ List.replicate (place.column - 1) ' ' ++ ['^'])]

def report (name source : String) : Fault → String
  | .located place cause =>
    let title := ["error: " ++ cause.message,
      " --> " ++ name ++ ":" ++ Numeral.decimal place.line ++ ":" ++ Numeral.decimal place.column]
    String.join ((title ++ excerpt source place ++ [""]).map (· ++ "\n"))
  | fault => "error: " ++ fault.message ++ "\n"

end RegisterMachine.Assembly
