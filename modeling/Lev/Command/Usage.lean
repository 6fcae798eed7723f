import Lev.Text.Basic

/-!
What the command says about itself.
-/
namespace Lev.Command

/-- How the command is called. -/
def usage : Text :=
  lit "usage: levc.py [-h] [-o OUTPUT] [--emit-ir | --emit-bitcode | --emit-ast]\n" ++
  lit "               [--module-name MODULE_NAME] [--entry ENTRY] [--triple TRIPLE]\n" ++
  lit "               [--verbose]\n" ++
  lit "               source\n"

/-- What the command does and what its arguments mean. -/
def help : Text :=
  usage ++
  lit "\nLev Compiler\n" ++
  lit "\npositional arguments:\n" ++
  lit "  source                Program AST (.json)\n" ++
  lit "\noptions:\n" ++
  lit "  -h, --help            show this help message and exit\n" ++
  lit "  -o OUTPUT, --output OUTPUT\n" ++
  lit "                        Output file (default: source with .o/.bc extension)\n" ++
  lit "  --emit-ir             Print LLVM IR (or write it to -o)\n" ++
  lit "  --emit-bitcode        Write LLVM bitcode instead of an object file\n" ++
  lit "  --emit-ast            Print AST to stdout\n" ++
  lit "  --module-name MODULE_NAME\n" ++
  lit "                        Name of the LLVM module (default: Main)\n" ++
  lit "  --entry ENTRY         Name of the entry function (default: main)\n" ++
  lit "  --triple TRIPLE       Target triple (default: host)\n" ++
  lit "  --verbose             Log lowering details to stderr\n" ++
  lit "\nExamples:\n" ++
  lit "  levc.py count.json                   Compile to count.o\n" ++
  lit "  levc.py count.json -o out.o          Compile to out.o\n" ++
  lit "  levc.py count.json --emit-ir         Print LLVM IR\n" ++
  lit "  levc.py count.json --emit-bitcode    Write count.bc\n" ++
  lit "  levc.py count.json --emit-ast        Print AST\n" ++
  lit "        \n"

end Lev.Command
