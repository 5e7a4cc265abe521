/-
# The command line

Reads a JSON document from a file or from standard input, evaluates it, and
prints the value as indented JSON. What is wrong with the document is told on
the error output.

The arguments are read from left to right, and the first one that cannot be
used decides; a request for help or for the version is answered at once. The
name of a file is looked at only when an option follows or nothing does.

Key definitions: `CommandLine.Request`, `CommandLine.parseArguments`,
`CommandLine.execute`.
-/
import Curtail.Json.Grammar
import Curtail.SourceFile

namespace Curtail
namespace CommandLine

/-! ### Arguments -/

/-- What the caller asks for. -/
structure Request where
  file : Option String
  keepsBlanks : Bool
  reportsCalls : Bool
deriving DecidableEq, Repr

/-- Why arguments lead to no request. -/
inductive Usage where
  | help
  | version
  /-- An option that does not exist, or a second file. -/
  | unknown
  /-- An option given twice. -/
  | repeated
  /-- A value for an option that takes none. -/
  | value
  /-- An empty name of a file. -/
  | emptyName
deriving DecidableEq, Repr

/-- The kind of a usage, for programs to read. -/
def Usage.kind : Usage → String
  | help => "DisplayHelp"
  | version => "DisplayVersion"
  | unknown => "UnknownArgument"
  | repeated => "ArgumentConflict"
  | value => "TooManyValues"
  | emptyName => "InvalidValue"

/-- The options. -/
inductive Flag where
  | keepBlanks
  | calls
  | help
  | version

def Flag.ofLong? : String → Option Flag
  | "keep-whitespace" => some .keepBlanks
  | "calls" => some .calls
  | "help" => some .help
  | "version" => some .version
  | _ => none

def Flag.ofShort? : Char → Option Flag
  | 'h' => some .help
  | 'V' => some .version
  | _ => none

/-- A request whose file, if it names one, has a name. -/
def Request.checked (request : Request) : Except Usage Request :=
  if request.file = some "" then .error .emptyName else .ok request

/-- A request with one more option. -/
def Flag.apply (flag : Flag) (request : Request) : Except Usage Request :=
  match request.checked with
  | .error u => .error u
  | .ok request =>
    match flag with
    | keepBlanks =>
      if request.keepsBlanks then .error .repeated else .ok { request with keepsBlanks := true }
    | calls =>
      if request.reportsCalls then .error .repeated else .ok { request with reportsCalls := true }
    | help => .error .help
    | version => .error .version

/-- A request with the name of a file. -/
def addFile (request : Request) (name : String) : Except Usage Request :=
  if request.file.isSome then .error .unknown else .ok { request with file := some name }

/-- An option with a long name, perhaps with a value. -/
def addLong (request : Request) (text : List Char) : Except Usage Request :=
  match Flag.ofLong? (String.ofList (text.takeWhile (· != '='))) with
  | none => .error .unknown
  | some flag => if text.contains '=' then .error .value else flag.apply request

/-- An argument that is no plain name: an option with a long name, or some with short names. -/
def addOption (request : Request) (text : List Char) : Except Usage Request :=
  match text with
  | '-' :: '-' :: name => addLong request name
  | _ :: letter :: _ =>
    match Flag.ofShort? letter with
    | none => .error .unknown
    | some flag => flag.apply request
  | _ => addFile request (String.ofList text)

/-- The request that arguments make; after `--` all are names of files. -/
def addArguments (onlyNames : Bool) : List String → Request → Except Usage Request
  | [], request => request.checked
  | arg :: args, request =>
    if onlyNames then
      match addFile request arg with
      | .error u => .error u
      | .ok request => addArguments true args request
    else if arg = "--" then addArguments true args request
    else
      match (if arg.startsWith "-" then addOption request arg.toList else addFile request arg) with
      | .error u => .error u
      | .ok request => addArguments false args request

def parseArguments (args : List String) : Except Usage Request :=
  addArguments false args ⟨none, false, false⟩

/-! ### Execution -/

/-- Why an input could not be read. -/
inductive ReadFault where
  | missing
  | directory
  | notText
  /-- A reason that only the system knows, in its words. -/
  | other (words : String)

def ReadFault.message : ReadFault → String
  | missing => "No such file or directory (os error 2)"
  | directory => "Is a directory (os error 21)"
  | notText => "stream did not contain valid UTF-8"
  | other words => words

/-- What an execution tells: the exit code, the standard output, and what goes to the error output. -/
structure Report where
  exitCode : Nat
  output : String
  calls : Option Nat
  message : Option String
  diagnostic : Option Diagnostic

/-- The text in some bytes. -/
def decode (bytes : ByteArray) : Except ReadFault String :=
  match String.fromUTF8? bytes with
  | some text => .ok text
  | none => .error .notText

/-- The help that goes with a fault. -/
def helpFor : Fault → Option String
  | .trailing _ => some "a JSON document holds exactly one value"
  | _ => none

/-- Evaluates a file and prints its value. -/
def evaluateFile (request : Request) (file : SourceFile) : Report :=
  let calls (s : Session) : Option Nat := if request.reportsCalls then some s.memo.calls else none
  match Json.evaluate (file.reader (!request.keepsBlanks)) .fresh with
  | none => ⟨1, "", none, some "error: out of fuel", none⟩
  | some (.ok value, s) => ⟨0, value.jsonText .pretty ++ "\n", calls s, none, none⟩
  | some (.error f, s) => ⟨1, "", calls s, none, some ⟨file, f, helpFor f⟩⟩

/-- Executes a request, given what could be read from the input it names. -/
def execute (request : Request) (input : Except ReadFault ByteArray) : Report :=
  match input.bind decode with
  | .ok text => evaluateFile request ⟨request.file.getD "<stdin>", text⟩
  | .error f =>
    let source := (request.file).getD "standard input"
    ⟨1, "", none, some s!"error: cannot read {source}: {f.message}", none⟩

/-- A part of a name that leads to no file: empty or made of points. -/
def isStep (part : String) : Bool := part == "" || part == "." || part == ".."

/-- Whether a name can only be that of a directory. -/
def namesDirectory (name : String) : Bool := (name.splitOn "/").all isStep

/-- A name without the single points in front. -/
def plainName (name : String) : String :=
  String.intercalate "/" ((name.splitOn "/").dropWhile (· == "."))

/-- The line that tells the number of calls. -/
def Report.callsLine (report : Report) : Option String := report.calls.map fun n => s!"parser calls: {n}"

/-- The first line of a text; a carriage return before the line break belongs to the break. -/
def firstLine (text : String) : String :=
  match text.splitOn "\n" with
  | line :: _ :: _ => String.ofList (if line.endsWith "\r" then line.toList.dropLast else line.toList)
  | _ => text

/-- The first line of the message. -/
def Report.messageLine (report : Report) : Option String := report.message.map firstLine

/-- The line that helps. -/
def Report.helpLine (report : Report) : Option String :=
  (report.diagnostic.bind (·.help)).map ("  help: " ++ ·)

/-- The lines for the error output. -/
def Report.errorLines (report : Report) : List String :=
  let diagnostic := report.diagnostic.toList.flatMap fun d => [d.fault.code, d.file.faultLine d.fault]
  report.callsLine.toList ++ report.message.toList ++ diagnostic ++ report.helpLine.toList

/-- The help text. -/
def helpText : String :=
  "Parse a JSON document with a combinator grammar and print the evaluated value.\n\n" ++
  "Usage: parsley-json [OPTIONS] [FILE]\n\n" ++
  "Arguments:\n  [FILE]  The JSON file to read. Reads standard input when omitted\n\n" ++
  "Options:\n" ++
  "      --keep-whitespace  Treat whitespace as significant instead of skipping it between tokens\n" ++
  "      --calls            Report the number of parser calls on standard error\n" ++
  "  -h, --help             Print help\n" ++
  "  -V, --version          Print version\n"

end CommandLine
end Curtail
