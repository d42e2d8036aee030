/-!
Messages for the person at the console. A log keeps what it has written as one text.
-/
namespace RegisterMachine

inductive Level where
  | debug | info | warn | error
  deriving DecidableEq

namespace Level

def rank : Level → Nat
  | .debug => 0
  | .info => 1
  | .warn => 2
  | .error => 3

def name : Level → String
  | .debug => "DEBUG"
  | .info => "INFO"
  | .warn => "WARN"
  | .error => "ERROR"

def style : Level → String
  | .debug => "\x1b[0m\x1b[36m"
  | .info => "\x1b[0m"
  | .warn => "\x1b[0m\x1b[1m\x1b[33m"
  | .error => "\x1b[0m\x1b[1m\x1b[31m"

end Level

structure Log where
  /-- The lowest level that is written. -/
  minimum : Level := .info
  /-- Whether a line starts with its level. -/
  tagged : Bool := true
  colored : Bool := false
  text : String := ""

namespace Log

def enabled (log : Log) (level : Level) : Bool := log.minimum.rank ≤ level.rank

def line (log : Log) (level : Level) (message : String) : String :=
  let tag := if log.tagged then "[" ++ level.name ++ "] " else ""
  let body := tag ++ message ++ "\n"
  if log.colored then level.style ++ body ++ "\x1b[0m" else body

def write (log : Log) (level : Level) (message : String) : Log :=
  if log.enabled level then { log with text := log.text ++ log.line level message } else log

end Log

end RegisterMachine
