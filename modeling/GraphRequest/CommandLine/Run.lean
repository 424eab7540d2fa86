import GraphRequest.CommandLine.Arguments
import GraphRequest.Query
import GraphRequest.Json.Reader
import GraphRequest.Text.Quoted

/-!
# Running a command

A command reads the request, compiles it, and only then reads rows, so a fault of the request is
met before one of the rows.  Where the bytes come from is left open: a command runs in any monad
that can open a source, which is a file or, for a single dash, standard input.
-/

namespace GraphRequest.CommandLine

/-- Why a source could not be read. -/
inductive ReadFault where
  | missing
  | denied
  | directory
  | noDirectory
  | nameTooLong
  | notText
deriving DecidableEq

/-- The description of a fault of the operating system. -/
def systemFault (code : Nat) (kind message : String) : String :=
  "Os \x7b code: " ++ code.repr ++ ", kind: " ++ kind ++ ", message: " ++ Quoted.quote message
    ++ " \x7d"

/-- The description of a fault. -/
def ReadFault.description : ReadFault → String
  | .missing => systemFault 2 "NotFound" "No such file or directory"
  | .denied => systemFault 13 "PermissionDenied" "Permission denied"
  | .noDirectory => systemFault 20 "NotADirectory" "Not a directory"
  | .directory => systemFault 21 "IsADirectory" "Is a directory"
  | .nameTooLong => systemFault 36 "InvalidFilename" "File name too long"
  | .notText => "Error \x7b kind: InvalidData, message: "
      ++ Quoted.quote "stream did not contain valid UTF-8" ++ " \x7d"

/-- Why a command came to nothing. -/
inductive Failure where
  | unreadable (fault : ReadFault)
  /-- The request in a source was refused. -/
  | refused (source : String) (fault : Fault)
  /-- The rows are no JSON text. -/
  | notJson
  /-- The rows of a source are JSON, but not an array of objects. -/
  | notRows (source : String)

/-- The description of a failure. -/
def Failure.description : Failure → String
  | .unreadable fault => fault.description
  | .refused source fault =>
    "CompileError(" ++ Quoted.quote source ++ ", " ++ Quoted.quote fault.message ++ ")"
  | .notJson => "Error(JSON)"
  | .notRows source => "RowsError(" ++ Quoted.quote source ++ ")"

/-- The text in a source. -/
def decode (bytes : Except ReadFault ByteArray) : Except Failure String :=
  match bytes with
  | .error fault => .error (.unreadable fault)
  | .ok bytes =>
    match String.fromUTF8? bytes with
    | none => .error (.unreadable .notText)
    | some text => .ok text

/-- The query of the request in a source. -/
def queryOf (source text : String) : Except Failure Query :=
  match Query.ofText? text with
  | .error fault => .error (.refused source fault)
  | .ok query => .ok query

/-- A row, if a value is one. -/
def row? : Json → Option Row
  | .object members => some members
  | _ => none

/-- The rows in a source. -/
def rowsOf (source text : String) : Except Failure (List Row) :=
  match Json.parse? Json.nestingLimit text with
  | none => .error .notJson
  | some (.array items) =>
    match items.mapM row? with
    | none => .error (.notRows source)
    | some rows => .ok rows
  | some _ => .error (.notRows source)

/-- The text of records as one array. -/
def recordsText (records : List Record) (pretty : Bool) : String :=
  let whole := Json.array (records.map Json.object)
  if pretty then whole.pretty else whole.compact

variable {m : Type → Type} [Monad m]

/-- Reads and compiles the request in a source. -/
def loadQuery (read : String → m (Except ReadFault ByteArray)) (source : String) :
    ExceptT Failure m Query := do
  let text ← ExceptT.mk (decode <$> read source)
  ExceptT.mk (pure (queryOf source text))

/-- What a command prints, given how sources are read. -/
def Command.output (read : String → m (Except ReadFault ByteArray)) :
    Command → ExceptT Failure m String
  | .compile source => do
    let query ← loadQuery read source
    return query.text ++ "\n"
  | .tree source => do
    let query ← loadQuery read source
    return query.tree.outline
  | .reduce source rowSource pretty => do
    let query ← loadQuery read source
    let text ← ExceptT.mk (decode <$> read rowSource)
    let rows ← ExceptT.mk (pure (rowsOf rowSource text))
    return recordsText (query.tree.reduce rows) pretty ++ "\n"

/-- The reply to arguments. -/
def reply (read : String → m (Except ReadFault ByteArray)) (arguments : List String) : m Reply := do
  match Command.ofArguments arguments with
  | .error answer => return answer
  | .ok command =>
    match ← (command.output read).run with
    | .error failure => return .refused ("Error: " ++ failure.description)
    | .ok text => return .printed text

end GraphRequest.CommandLine
