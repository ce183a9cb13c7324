import FlashImage.CommandLine.Value

/-!
# Usage errors

Why a command line is not carried out at all.
-/

namespace FlashImage.CommandLine

/-- Why a command line is not carried out. -/
inductive UsageError where
  | unknownSubcommand (name : String)
  | unknownArgument (argument : String)
  /-- A file that the command needs is not named. -/
  | missingArgument (name : String)
  /-- An option stands without its value, or with an empty path. -/
  | missingValue
  /-- A flag is given a value. -/
  | unexpectedValue (argument : String)
  /-- An option that is used once is used again. -/
  | repeated
  | refusedValue (error : ValueError)
  /-- A value that must be text is no UTF-8. -/
  | notText
  /-- Help is asked for, which ends the run. -/
  | help
  /-- The version is asked for, which ends the run. -/
  | version
  deriving DecidableEq, Repr

namespace UsageError

/-- The exit code: asking for help or the version is no mistake. -/
def exitCode : UsageError → Nat
  | help => 0
  | version => 0
  | _ => 2

def message : UsageError → String
  | unknownSubcommand name => "unrecognized subcommand '" ++ name ++ "'"
  | unknownArgument argument => "unexpected argument '" ++ argument ++ "' found"
  | missingArgument name => "the argument " ++ name ++ " is required"
  | missingValue => "a value is required for an argument but none was supplied"
  | unexpectedValue argument => "unexpected value for '" ++ argument ++ "'"
  | repeated => "an argument cannot be used multiple times"
  | refusedValue error => "invalid value: " ++ error.message
  | notText => "invalid UTF-8 was detected in one or more arguments"
  | help => ""
  | version => ""

end UsageError

def usage : String :=
  "Usage: flashimage [-v|-vv] [-q] [--json] COMMAND\n" ++
  "\n" ++
  "  root [-m FILE] [-o FILE] [--rfsconf SETTINGS] [--alignment BYTES] [--dircopies N]\n" ++
  "       [--gard ID=FILE] [--mlfile ID=FILE] [--camconf ID=FILE] [--app ID=FILE]\n" ++
  "       [--appdata ID=FILE]          build a root image\n" ++
  "  camera [-m FILE] [-o FILE] [--basicconf SETTINGS] [--camconfcmnd ID=FILE]\n" ++
  "                                    build a camera configuration\n" ++
  "  i2c INPUT -o FILE                 turn a register script into its blob\n" ++
  "  inspect FILE                      show what is in a file"

def version : String :=
  "flashimage 0.1.0"

end FlashImage.CommandLine
