import Lisan.Console

/-!
# The program

Reads the file that the arguments name and writes what the console answers.
-/

namespace Lisan

def readInput (input : String) : IO (Except FileError String) := do
  match (<- (IO.FS.readBinFile input).toBaseIO) with
  | .ok bytes => return Console.decode bytes
  | .error (.noFileOrDirectory ..) => return .error .missing
  | .error (.inappropriateType ..) => return .error .directory
  | .error e => return .error (.other (toString e))

def writeAnswer (answer : Answer) : IO UInt32 := do
  IO.print answer.out
  IO.eprint answer.err
  return answer.code.toUInt32

end Lisan

def main (args : List String) : IO UInt32 := do
  match Lisan.Options.ofArgs args with
  | .ok options =>
      let contents <- Lisan.readInput options.input
      Lisan.writeAnswer (Lisan.Console.answer options contents)
  | .error e => Lisan.writeAnswer (Lisan.Console.answerUsage e)
