import PostLisp.Eval.Session
import PostLisp.Number.Numeral

/-!
# Invocations

The command line names one program to run, and may switch off remembering calls or set the depth
limit. Of several limits the last one counts. Words that start with two dashes are options; any
other word is the path of the program.
-/

namespace PostLisp

structure Invocation where
  path : String
  options : Options
  deriving DecidableEq, Repr

inductive UsageError where
  | depthMissing
  | depthInvalid (given : String)
  | unknownFlag (flag : String)
  | secondPath
  | pathMissing
  deriving DecidableEq, Repr

namespace UsageError

def message : UsageError → String
  | .depthMissing => "--max-depth needs a value"
  | .depthInvalid given => "invalid depth '" ++ given ++ "'"
  | .unknownFlag flag => "unknown flag '" ++ flag ++ "'"
  | .secondPath => "only one program path is accepted"
  | .pathMissing => "missing program path"

end UsageError

namespace Invocation

def usage : String := "usage: psil [--no-memo] [--max-depth N] <path>"

def noMemoFlag : String := "--no-memo"

def maxDepthFlag : String := "--max-depth"

def isFlag (arg : String) : Bool := "--".toList.isPrefixOf arg.toList

/-- Reads arguments from left to right, given the options and the path found so far. The first
wrong argument is the error. -/
def ofArgsFrom (options : Options) (path : Option String) : List String →
    Except UsageError Invocation
  | [] =>
    match path with
    | some path => .ok ⟨path, options⟩
    | none => .error .pathMissing
  | arg :: args =>
    if arg = noMemoFlag then ofArgsFrom { options with memoize := false } path args
    else if arg = maxDepthFlag then
      match args with
      | [] => .error .depthMissing
      | depth :: args =>
        match Number.readSize? depth.toList with
        | some maxDepth => ofArgsFrom { options with maxDepth } path args
        | none => .error (.depthInvalid depth)
    else if isFlag arg then .error (.unknownFlag arg)
    else if path.isSome then .error .secondPath
    else ofArgsFrom options (some arg) args

def ofArgs (args : List String) : Except UsageError Invocation :=
  ofArgsFrom .standard none args

end Invocation

end PostLisp
