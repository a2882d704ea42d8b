import Recognizer.CommandLine

/-!
The program: prints what a command line asks for.
-/

namespace Recognizer

def usage : String :=
  "Usage: recognizer [--first CLASS] [--rest CLASS] COMMAND\n\n"
    ++ "Commands:\n"
    ++ "  tree [--dot]\n  functions\n  dfa [--dot]\n  minimize [--dot]\n"
    ++ "  simulate [--minimized] [--trace] WORDS...\n  check WORDS...\n"

end Recognizer

def main (arguments : List String) : IO UInt32 := do
  match Recognizer.CommandLine.run arguments with
  | .refused =>
      IO.eprint Recognizer.usage
      return 2
  | .failed message =>
      IO.eprint message
      return 1
  | .printed warning text =>
      IO.eprint warning
      IO.print text
      return 0
