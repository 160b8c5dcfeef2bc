/-!
# Usage texts

What the program says about itself: its banner, its version and how it is used.
-/

namespace Teach6809

/-- What is shown if nothing is asked for. -/
def bannerText : String :=
"
~ sim6809 v0.1.0 ~

Welcome to sim6809, an assembler and step-through simulator
for a 6809-style teaching CPU.
Please use `-h` or `--help` to access the usage instructions and documentation.

"

/-- The name and version of the program. -/
def versionText : String := "sim6809 0.1.0\n"

/-- How the program is used. -/
def usageText : String :=
"sim6809 assembles and runs programs for a 6809-style teaching CPU

Usage: sim6809 [PATH] [COMMAND]

Commands:
  run <NAME> [-m]                   Assemble and run a `.asmb` file, then show the final registers
  debug <NAME> [-c <COMMAND>] [-m]  Step through a `.asmb` file with the debugger
  compile <NAME> [DEST]             Create a binary `.bin` image of the assembled program
  check <NAME>                      Check a `.asmb` file without running or outputting binary
  watch <NAME>                      Place a watch on a `.asmb` file
  help                              Print this message

Options:
  -h, --help     Print help
  -V, --version  Print version
"

end Teach6809
