import GCode.Command.Arguments

/-!
# What the command says about itself
-/

namespace GCode.Command

def version : String :=
  "rs274-annotate 0.1.0\n"

def usage : String :=
  "Usage: rs274-annotate [OPTIONS] <FILE>\n"

def help : String :=
  "Parse an RS-274 G-code file and annotate every word\n\n" ++ usage
    ++ "\nArguments:\n"
    ++ "  <FILE>  G-code file to read\n"
    ++ "\nOptions:\n"
    ++ "      --flavor <FLAVOR>          Flavor to use (default: rs274ngc)\n"
    ++ "      --flavor-dir <FLAVOR_DIR>  Directory containing flavor TOML files\n"
    ++ "      --log-level <LOG_LEVEL>    Log level (trace, debug, info, warn, error) [default: warn]\n"
    ++ "  -h, --help                     Print help\n"
    ++ "  -V, --version                  Print version\n"

/-- What is printed instead of running the command, if that was asked for. -/
def UsageError.answer? : UsageError → Option String
  | displayHelp => some help
  | displayVersion => some version
  | _ => none

end GCode.Command
