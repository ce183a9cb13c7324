import FlashImage.CommandLine.Arguments

/-!
# Log

What a command notes down while it runs.  Each note has a level, and the flags
choose which levels are shown.
-/

namespace FlashImage.CommandLine

/-- How important a note is. -/
inductive Level where
  | error
  | warn
  | info
  | debug
  deriving DecidableEq, Repr

namespace Level

/-- The rank of a level; what is more important comes first. -/
def rank : Level → Nat
  | error => 0
  | warn => 1
  | info => 2
  | debug => 3

def name : Level → String
  | error => "ERROR"
  | warn => "WARN"
  | info => "INFO"
  | debug => "DEBUG"

/-- The least important level that the flags let through. -/
def ofFlags (f : Flags) : Level :=
  if f.quiet then error
  else
    match f.verbose with
    | 0 => warn
    | 1 => info
    | _ => debug

end Level

/-- A note. -/
structure Note where
  level : Level
  message : String
  deriving DecidableEq, Repr

namespace Note

def line (n : Note) : String :=
  n.level.name ++ " " ++ n.message

def isShown (limit : Level) (n : Note) : Bool :=
  n.level.rank ≤ limit.rank

end Note

end FlashImage.CommandLine
