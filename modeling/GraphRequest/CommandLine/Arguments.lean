import GraphRequest.CommandLine.Manual
import GraphRequest.Text.Likeness

/-!
# Arguments

The arguments either name a command or are answered at once: with a manual, a version, or a
complaint.  They are taken one after the other, and the first that asks for help or does not fit
settles the answer; what is missing or given twice is only seen at the end.

An argument that begins with a dash is a flag, except for a dash alone, which stands for standard
input.  After two dashes no argument is a flag.

A complaint about a word that names nothing proposes the name that is most like it, if one is like
enough.
-/

namespace GraphRequest.CommandLine

/-- What the program leaves behind: an exit code and what it printed. -/
structure Reply where
  code : Nat
  output : String
  complaint : String
deriving DecidableEq

namespace Reply

/-- The reply to a wish that was granted. -/
def printed (text : String) : Reply :=
  ⟨0, text, ""⟩

/-- The reply to a wish that could not be granted. -/
def refused (text : String) : Reply :=
  ⟨1, "", text ++ "\n"⟩

/-- A complaint about the arguments. -/
def misused (what usage : String) : Reply :=
  refused ("error: " ++ what ++ "\n\nUSAGE:\n    " ++ usage
    ++ "\n\nFor more information try --help")

/-- The complaint about an argument that has no place, with advice after it. -/
def unexpected (argument advice usage : String) : Reply :=
  misused ("Found argument '" ++ argument
    ++ "' which wasn't expected, or isn't valid in this context" ++ advice) usage

end Reply

/-- What an argument looks like. -/
inductive Shape where
  /-- Two dashes: all that follows are operands. -/
  | separator
  /-- A flag with a long name. -/
  | long (name : String)
  /-- One or more flags of a letter each; the first is told. -/
  | short (letter : Char)
  | operand

/-- The shape of an argument.  A long flag may have more than two dashes, and what follows an equals
    sign is no part of its name. -/
def Shape.of (argument : String) : Shape :=
  match argument.toList with
  | ['-', '-'] => .separator
  | '-' :: '-' :: rest =>
    .long (String.ofList ((rest.dropWhile (· == '-')).takeWhile (· != '=')))
  | '-' :: letter :: _ => .short letter
  | _ => .operand

/-- The tool of a name. -/
def Tool.named? (name : String) : Option Tool :=
  Tool.all.find? fun tool => tool.name == name

/-- The flag of a letter. -/
def Flag.lettered? (letter : Char) : Option Flag :=
  Flag.all.find? fun flag => flag.letter? == some letter

/-! ## Advice -/

/-- Text in the colour of advice. -/
def highlighted (text : String) : String :=
  "\x1b[32m" ++ text ++ "\x1b[0m"

namespace Flag

/-- A flag in the colour of advice, dashes and name apart. -/
def highlighted (flag : Flag) : String :=
  CommandLine.highlighted "--" ++ CommandLine.highlighted flag.name

/-- The flag that was probably meant by a name. -/
def meant? (name : String) (flags : List Flag) : Option Flag :=
  (Likeness.closest? name (flags.map Flag.name)).bind fun found =>
    flags.find? fun flag => flag.name == found

/-- The advice to give a flag. -/
def proposal (flag : Flag) : String :=
  "\n\tDid you mean " ++ flag.highlighted ++ "?"

/-- The advice to give a flag after a tool. -/
def proposalAfter (flag : Flag) (tool : Tool) : String :=
  "\n\tDid you mean to put '" ++ flag.highlighted ++ "' after the subcommand '"
    ++ CommandLine.highlighted tool.name ++ "'?"

end Flag

/-- The advice on a flag that the program does not have: to give it after the first tool that
    follows and has one like it. -/
def misplacedFlag? (name : String) (rest : List String) : Option String :=
  rest.findSome? fun argument =>
    (Tool.named? argument).bind fun tool =>
      (Flag.meant? name tool.ownFlags).map fun flag => flag.proposalAfter tool

/-- The complaint about a flag that the program does not have. -/
def unknownFlag (name : String) (rest : List String) : Reply :=
  match Flag.meant? name programFlags with
  | some flag => .unexpected ("--" ++ name) flag.proposal (programUsage [flag])
  | none => .unexpected ("--" ++ name) ((misplacedFlag? name rest).getD "") (programUsage [])

/-- The complaint about a tool that there is not. -/
def unknownTool (name : String) : Reply :=
  match Likeness.closest? name (Tool.all.map Tool.name ++ ["help"]) with
  | some found =>
    .misused ("The subcommand '" ++ name ++ "' wasn't recognized\n\tDid you mean '" ++ found
      ++ "'?\n\nIf you believe you received this message in error, try re-running with '"
      ++ program ++ " -- " ++ name ++ "'") (programUsage [])
  | none => .unexpected name "" (programUsage [])

/-! ## Commands -/

/-- A command: a tool with its operands. -/
inductive Command where
  | compile (query : String)
  | tree (query : String)
  | reduce (query rows : String) (pretty : Bool)
deriving DecidableEq

/-- The arguments a tool was given so far. -/
structure Given where
  operands : List String
  pretty : Nat
  /-- Whether only operands can follow. -/
  plain : Bool

namespace Given

/-- Nothing given yet. -/
def nothing : Given :=
  ⟨[], 0, false⟩

/-- The flags given so far. -/
def flags (given : Given) : List Flag :=
  if 0 < given.pretty then [.pretty] else []

/-- The usage shown in a complaint. -/
def usage (tool : Tool) (given : Given) : String :=
  tool.usage given.flags

/-- The complaint about a flag that a tool does not have.  The usage shows a flag that is proposed
    as if it had been given. -/
def unknownFlag (tool : Tool) (given : Given) (name : String) : Reply :=
  match Flag.meant? name tool.flags with
  | some flag => .unexpected ("--" ++ name) flag.proposal (tool.usage (flag :: given.flags))
  | none => .unexpected ("--" ++ name) "" (given.usage tool)

/-- Takes an operand if one is still wanted. -/
def takeOperand (tool : Tool) (given : Given) (argument : String) : Except Reply Given :=
  if given.operands.length < tool.operands.length then
    .ok { given with operands := given.operands ++ [argument] }
  else .error (.unexpected argument "" (given.usage tool))

/-- Takes a flag of the tool. -/
def takeFlag (tool : Tool) (given : Given) : Flag → Except Reply Given
  | .help => .error (.printed (tool.manual ++ "\n"))
  | .version => .error (.printed (tool.version ++ "\n"))
  | .pretty => .ok { given with pretty := given.pretty + 1 }

/-- Takes one more argument. -/
def take (tool : Tool) (given : Given) (argument : String) : Except Reply Given :=
  if given.plain then given.takeOperand tool argument
  else match Shape.of argument with
    | .separator => .ok { given with plain := true }
    | .operand => given.takeOperand tool argument
    | .short letter =>
      match Flag.lettered? letter with
      | some flag => given.takeFlag tool flag
      | none => .error (.unexpected (String.ofList ['-', letter]) "" (given.usage tool))
    | .long name =>
      match tool.flags.find? fun flag => flag.name == name with
      | some flag => given.takeFlag tool flag
      | none => .error (given.unknownFlag tool name)

/-- The command that was given, if it is complete. -/
def command (tool : Tool) (given : Given) : Except Reply Command :=
  let missing := tool.operands.drop given.operands.length
  if !missing.isEmpty then
    .error (.misused ("The following required arguments were not provided:"
      ++ String.join (missing.map fun operand => "\n    " ++ operand.placeholder))
      (given.usage tool))
  else if 1 < given.pretty then
    .error (.misused
      "The argument '--pretty' was provided more than once, but cannot be used multiple times"
      (given.usage tool))
  else
    let operand (index : Nat) := given.operands.getD index ""
    .ok <| match tool with
      | .compile => .compile (operand 0)
      | .tree => .tree (operand 0)
      | .reduce => .reduce (operand 0) (operand 1) (given.pretty == 1)

end Given

/-- The page of the manual on a tool, or on asking for such pages. -/
def page? (name : String) : Option String :=
  if name = "help" then some helpManual else (Tool.named? name).map Tool.manual

/-- What is printed for `help` and the names after it.  A tool has no tools of its own, so a second
    name is never known. -/
def help : List String → Reply
  | [] => .printed (manual ++ "\n")
  | name :: names =>
    let unknown (name : String) : Reply :=
      .refused ("error: The subcommand '" ++ name ++ "' wasn't recognized\n\nUSAGE:\n\t" ++ program
        ++ " help <subcommands>...\n\nFor more information try --help")
    match page? name, names with
    | some page, [] => .printed (page ++ "\n")
    | some _, other :: _ => unknown other
    | none, _ => unknown name

/-- The answer to a flag of the program. -/
def flagAnswer (flag : Flag) : Reply :=
  .printed ((if flag = .help then manual else version) ++ "\n")

/-- The command the arguments give, or what they are answered with. -/
def Command.ofArguments : List String → Except Reply Command
  | [] => .error (.refused manual)
  | argument :: rest =>
    match Shape.of argument with
    | .separator =>
      match rest with
      | [] => .error (.refused manual)
      | name :: _ => .error (unknownTool name)
    | .short letter =>
      match Flag.lettered? letter with
      | some flag => .error (flagAnswer flag)
      | none => .error (.unexpected (String.ofList ['-', letter]) "" (programUsage []))
    | .long name =>
      match programFlags.find? fun flag => flag.name == name with
      | some flag => .error (flagAnswer flag)
      | none => .error (unknownFlag name rest)
    | .operand =>
      if argument = "help" then .error (help rest)
      else match Tool.named? argument with
        | none => .error (unknownTool argument)
        | some tool => do
          let given ← rest.foldlM (Given.take tool) Given.nothing
          given.command tool

end GraphRequest.CommandLine
