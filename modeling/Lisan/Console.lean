import Lisan.Capability
import Lisan.Interpretation

/-!
# Console

The command line: what its arguments ask for, and what is written in answer.
-/

namespace Lisan

structure Options where
  input : String
  printTree : Bool
  verbose : Bool
deriving DecidableEq, Repr

inductive UsageError where
  | unknownArgument (argument : String)
  | argumentConflict (argument : String)
  | tooManyValues (argument : String)
  | emptyInput
  | help
  | version
deriving DecidableEq, Repr

namespace Options

def defaultInput : String :=
  "main.garga"

inductive Flag where
  | printTree
  | verbose
  | help
  | version

def Flag.ofLong? : List Char -> Option Flag
  | ['p', 'r', 'i', 'n', 't', '-', 'a', 's', 't'] => some printTree
  | ['v', 'e', 'r', 'b', 'o', 's', 'e'] => some verbose
  | ['h', 'e', 'l', 'p'] => some help
  | ['v', 'e', 'r', 's', 'i', 'o', 'n'] => some version
  | _ => none

def Flag.ofShort? : Char -> Option Flag
  | 'v' => some verbose
  | 'h' => some help
  | 'V' => some version
  | _ => none

structure Draft where
  input : Option String
  printTree : Bool
  verbose : Bool

/-- The name of a file must not be empty. This is noticed only when something
valid comes behind it, or at the end. -/
def Draft.check (draft : Draft) : Except UsageError Unit :=
  if draft.input = some "" then .error .emptyInput else .ok ()

def Draft.set (draft : Draft) (argument : String) (flag : Flag) : Except UsageError Draft := do
  draft.check
  match flag with
  | .printTree =>
      if draft.printTree then .error (.argumentConflict argument)
      else .ok { draft with printTree := true }
  | .verbose =>
      if draft.verbose then .error (.argumentConflict argument)
      else .ok { draft with verbose := true }
  | .help => .error .help
  | .version => .error .version

def Draft.setInput (draft : Draft) (argument : String) : Except UsageError Draft :=
  match draft.input with
  | none => .ok { draft with input := some argument }
  | some _ => .error (.unknownArgument argument)

def Draft.setLong (draft : Draft) (argument : String) (chars : List Char) :
    Except UsageError Draft :=
  match Flag.ofLong? (chars.takeWhile (· != '=')), chars.contains '=' with
  | some _, true => .error (.tooManyValues argument)
  | some flag, false => draft.set argument flag
  | none, _ => .error (.unknownArgument argument)

def Draft.setShort (argument : String) (draft : Draft) (letter : Char) :
    Except UsageError Draft :=
  match Flag.ofShort? letter with
  | some flag => draft.set argument flag
  | none => .error (.unknownArgument argument)

/-- Takes the arguments one by one. Behind two hyphens no argument is a flag,
and a single hyphen is none either. -/
def Draft.read (draft : Draft) : List String -> Except UsageError Draft
  | [] => .ok draft
  | argument :: rest =>
      match argument.toList with
      | ['-', '-'] => rest.foldlM Draft.setInput draft
      | '-' :: '-' :: chars => do (<- draft.setLong argument chars).read rest
      | '-' :: c :: chars => do
          (<- (c :: chars).foldlM (Draft.setShort argument) draft).read rest
      | _ => do (<- draft.setInput argument).read rest

def ofArgs (args : List String) : Except UsageError Options := do
  let draft <- (Draft.mk none false false).read args
  draft.check
  return ⟨draft.input.getD defaultInput, draft.printTree, draft.verbose⟩

end Options

structure Answer where
  code : Nat
  out : String
  err : String
deriving DecidableEq, Repr

namespace Console

def decode (bytes : ByteArray) : Except FileError String :=
  match String.fromUTF8? bytes with
  | some text => .ok text
  | none => .error .notText

def runText (text : String) : Except (Failure Capability) (List String) :=
  match Program.interpret Capability.host Program.ampleFuel text (Run.initial .withSay) with
  | .ok _ state => .ok state.said.toList
  | .error e _ => .error e

def runFile (contents : Except FileError String) :
    Except (Failure Capability) (List String) :=
  match contents with
  | .ok text => runText text
  | .error e => .error (.file e)

def failed (input : String) (e : Failure Capability) : Answer :=
  ⟨1, "", "[" ++ input ++ "] Error: " ++ e.message ++ "\n"⟩

def printFile (input : String) (contents : Except FileError String) : Answer :=
  match contents with
  | .error e => ⟨1, "", "Error: " ++ e.message ++ "\n"⟩
  | .ok text =>
      match Program.ofText text with
      | .ok tree => ⟨0, tree.print ++ "\n", ""⟩
      | .error e => failed input e

def answer (options : Options) (contents : Except FileError String) : Answer :=
  if options.printTree then
    printFile options.input contents
  else
    match runFile contents with
    | .ok lines => ⟨0, String.join (lines.map (· ++ "\n")), ""⟩
    | .error e => failed options.input e

def versionText : String :=
  "garga 0.1.0\n"

def usageText : String :=
  "Usage: garga [--print-ast] [-v | --verbose] [INPUT]\n"

def answerUsage : UsageError -> Answer
  | .unknownArgument argument =>
      ⟨2, "", "error: unexpected argument '" ++ argument ++ "' found\n" ++ usageText⟩
  | .argumentConflict argument =>
      ⟨2, "", "error: '" ++ argument ++ "' sets a flag a second time\n" ++ usageText⟩
  | .tooManyValues argument =>
      ⟨2, "", "error: '" ++ argument ++ "' gives a flag a value\n" ++ usageText⟩
  | .emptyInput => ⟨2, "", "error: the name of the input is empty\n" ++ usageText⟩
  | .help => ⟨0, usageText, ""⟩
  | .version => ⟨0, versionText, ""⟩

end Console
end Lisan
