import LineaLang.CommandLine.Arguments

/-!
# `LineaLang.CommandLine.Usage` — the help texts

## Contents

* `usage` — how the program is called.
* `helpText` — the same with what each option does.
* `refusalText` — how the program is called, and what is wrong with the arguments.
-/

namespace LineaLang.CommandLine

/-- **How the program is called.** -/
def usage : Text :=
  Text.ofLines
    ["usage: linea [-h] [-v]",
     "             [--emit-ast LINEA_FILE | --ast AST_JSON_FILE | --bytecode LINEA_FILE | --tokens LINEA_FILE | --tree LINEA_FILE]",
     "             [program]"]

/-- **The help text.** -/
def helpText : Text :=
  usage ++ Text.ofLines
    ["",
     "Linea language interpreter",
     "",
     "positional arguments:",
     "  program               Linea program file (.linea) to execute",
     "",
     "options:",
     "  -h, --help            show this help message and exit",
     "  -v                    increase debug verbosity (can be repeated)",
     "  --emit-ast LINEA_FILE",
     "                        emit AST JSON for the given .linea file",
     "  --ast AST_JSON_FILE   execute AST from a JSON file",
     "  --bytecode LINEA_FILE",
     "                        print the bytecode listing",
     "  --tokens LINEA_FILE   print the token stream",
     "  --tree LINEA_FILE     print the AST as an indented tree"]

/-- The text shown when arguments are refused. -/
def refusalText (refusal : Refusal) : Text :=
  usage ++ Text.ofLines ["linea: error: " ++ refusal.message]

end LineaLang.CommandLine
