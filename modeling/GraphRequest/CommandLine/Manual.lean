/-!
# The manual of the command line

The program has three tools, and each answers to `--help` and `--version`.  A tool takes operands
in a fixed order; `reduce` also has a flag of its own.  All texts but the end of the manual of
`reduce` are put together from the descriptions of the tools and flags.
-/

namespace GraphRequest.CommandLine

/-- The tools of the program. -/
inductive Tool where
  | compile
  | tree
  | reduce
deriving DecidableEq

/-- The flags of the program and its tools. -/
inductive Flag where
  | help
  | pretty
  | version
deriving DecidableEq

namespace Flag

/-- The flags in the order of manuals and usages. -/
def all : List Flag :=
  [.help, .pretty, .version]

/-- The name of a flag, which follows two dashes. -/
def name : Flag → String
  | .help => "help"
  | .pretty => "pretty"
  | .version => "version"

/-- The letter of a flag, which follows one dash. -/
def letter? : Flag → Option Char
  | .help => some 'h'
  | .pretty => none
  | .version => some 'V'

/-- How a flag is shown in a manual. -/
def heading (flag : Flag) : String :=
  match flag.letter? with
  | some letter => String.ofList ['-', letter] ++ ", --" ++ flag.name
  | none => "    --" ++ flag.name

/-- What a flag does. -/
def about : Flag → String
  | .help => "Prints help information"
  | .pretty => "Pretty-prints the output"
  | .version => "Prints version information"

end Flag

/-- The operands a tool can take: where the request is, and where the rows are. -/
inductive Operand where
  | query
  | rows
deriving DecidableEq

/-- How an operand is shown in a manual. -/
def Operand.placeholder : Operand → String
  | .query => "<QUERY>"
  | .rows => "<ROWS>"

/-- What an operand is. -/
def Operand.about : Operand → String
  | .query => "Request file, or - for stdin"
  | .rows => "JSON rows file, or - for stdin"

/-- The name of the program. -/
def program : String := "graphq"

/-- Flags as they stand in a usage, each once. -/
def flagsText (given : List Flag) : String :=
  String.join ((Flag.all.filter given.contains).map fun flag => " --" ++ flag.name)

namespace Tool

/-- All tools. -/
def all : List Tool :=
  [.compile, .tree, .reduce]

/-- The name of a tool. -/
def name : Tool → String
  | .compile => "compile"
  | .reduce => "reduce"
  | .tree => "tree"

/-- What a tool does. -/
def about : Tool → String
  | .compile => "Prints the query text of the request"
  | .reduce => "Folds result rows into nested entities"
  | .tree => "Prints the validated request tree"

/-- The operands of a tool, all of them required. -/
def operands : Tool → List Operand
  | .reduce => [.query, .rows]
  | _ => [.query]

/-- The flags that a tool does not share with the others. -/
def ownFlags : Tool → List Flag
  | .reduce => [.pretty]
  | _ => []

/-- The flags of a tool. -/
def flags (tool : Tool) : List Flag :=
  tool.ownFlags ++ [.help, .version]

/-- What the manual of a tool ends with. -/
def epilogue : Tool → String
  | .reduce => "\n\nROWS must hold a JSON array of objects keyed by the columns of the\n"
      ++ "return clause printed by the compile subcommand.\n"
  | _ => ""

/-- The operands of a tool as they stand in its usage. -/
def operandText (tool : Tool) : String :=
  " ".intercalate (tool.operands.map Operand.placeholder)

/-- The usage of a tool.  Where flags were given the usage shows them in their places, after the
    operands; otherwise it only says that there are flags to choose. -/
def usage (tool : Tool) (given : List Flag) : String :=
  program ++ " " ++ tool.name
    ++ (if given.isEmpty && !tool.ownFlags.isEmpty then " [FLAGS]" else "")
    ++ " " ++ tool.operandText ++ flagsText given

end Tool

/-- The flags that the program has without a tool. -/
def programFlags : List Flag :=
  [.help, .version]

/-- The usage of the program, where a flag stands in for a tool. -/
def programUsage (given : List Flag) : String :=
  program ++ (if given.isEmpty then " <SUBCOMMAND>" else flagsText given)

/-- A table of names and what they are, with the second column aligned. -/
def aligned (entries : List (String × String)) : String :=
  let width := entries.foldl (fun widest (name, _) => max widest name.length) 0
  "\n".intercalate <| entries.map fun (name, about) =>
    "    " ++ name ++ String.ofList (List.replicate (width - name.length + 4) ' ') ++ about

/-- Flags as they stand in a manual. -/
def flagTable (flags : List Flag) : String :=
  aligned ((Flag.all.filter flags.contains).map fun flag => (flag.heading, flag.about))

/-- The version of the program. -/
def version : String :=
  program ++ " 0.0.0"

/-- What a tool says instead of a version. -/
def Tool.version (tool : Tool) : String :=
  program ++ "-" ++ tool.name ++ " "

/-- What the help tool does. -/
def aboutHelp : String :=
  "Prints this message or the help of the given subcommand(s)"

/-- The manual of the program, with the tools in the order of the alphabet. -/
def manual : String :=
  let entry (tool : Tool) := (tool.name, tool.about)
  version ++ "\nE-Neo <e-neo@qq.com>\n"
    ++ "Nested graph request DSL compiled to pattern queries, with result reduction\n\n"
    ++ "USAGE:\n    " ++ programUsage [] ++ "\n\n"
    ++ "FLAGS:\n" ++ flagTable programFlags ++ "\n\n"
    ++ "SUBCOMMANDS:\n"
    ++ aligned [entry .compile, ("help", aboutHelp), entry .reduce, entry .tree]

/-- The manual of a tool. -/
def Tool.manual (tool : Tool) : String :=
  tool.version ++ "\n" ++ tool.about ++ "\n\n"
    ++ "USAGE:\n    " ++ tool.usage [] ++ "\n\n"
    ++ "FLAGS:\n" ++ flagTable tool.flags ++ "\n\n"
    ++ "ARGS:\n"
    ++ aligned (tool.operands.map fun operand => (operand.placeholder, operand.about))
    ++ tool.epilogue

/-- The manual of the help tool. -/
def helpManual : String :=
  program ++ "-help \n" ++ aboutHelp ++ "\n\n"
    ++ "USAGE:\n    " ++ program ++ " help [subcommand]...\n\n"
    ++ "ARGS:\n"
    ++ aligned [("<subcommand>...", "The subcommand whose help message to display")]

end GraphRequest.CommandLine
