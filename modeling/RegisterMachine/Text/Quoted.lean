import RegisterMachine.Numeral
import RegisterMachine.Text.Extender
import RegisterMachine.Text.Unprintable

/-!
Quoted text: how a text is shown inside a message, so that every character of it can be seen.
-/
namespace RegisterMachine.Text

/-- A backslash form for the usual controls, the quote and the backslash; the code point for any
other character that would not show on its own. -/
def escape (c : Char) : List Char :=
  if c = '\t' then ['\\', 't']
  else if c = '\r' then ['\\', 'r']
  else if c = '\n' then ['\\', 'n']
  else if c.toNat = 0 then ['\\', '0']
  else if c = '"' then ['\\', '"']
  else if c = '\\' then ['\\', '\\']
  else if extenders.contains c || unprintables.contains c then
    ['\\', 'u', '\x7b'] ++ Numeral.hexDigits c.toNat ++ ['\x7d']
  else [c]

def quoted (text : String) : String :=
  String.ofList ('"' :: text.toList.flatMap escape ++ ['"'])

end RegisterMachine.Text
