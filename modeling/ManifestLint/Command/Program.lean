import ManifestLint.Command.Lint
import ManifestLint.Command.Listing

set_option autoImplicit false

/-! # The program

The program as a function: from its surroundings and the words of its command line to what it
comes to. -/

namespace ManifestLint.Command

/-- The name and version of the program. -/
def versionLine : String := "bracelint 0.1.0"

/-- Does what a command line asks for. -/
def Invocation.run (surroundings : Surroundings) : Invocation → Result
  | .help => .usage surroundings.tree 0
  | .misuse => .usage surroundings.tree 2
  | .version => .answer surroundings.tree [versionLine]
  | .lint request => Command.lint surroundings request
  | .checks => listChecks surroundings.tree
  | .tokens file => listTokens surroundings.tree file

/-- Runs the program. -/
def run (surroundings : Surroundings) (arguments : List String) : Result :=
  (Invocation.ofArguments arguments).run surroundings

end ManifestLint.Command
