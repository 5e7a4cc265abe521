/-
# The program

Reads the arguments and the input they name, hands both to
`CommandLine.execute`, and prints what it tells.

Key definitions: `main`.
-/
import Curtail.CommandLine

namespace Curtail
namespace CommandLine

/-- What can be read from a file or from standard input. -/
def readInput (request : Request) : IO (Except ReadFault ByteArray) := do
  match request.file with
  | none =>
    let stdin ← IO.getStdin
    return .ok (← readAll stdin 0x100000 ByteArray.empty)
  | some name =>
    try
      return .ok (← IO.FS.readBinFile name)
    catch
      | .noFileOrDirectory .. => return .error .missing
      | .inappropriateType .. => return .error .directory
      | e => return .error (.other (toString e))
where
  readAll (stream : IO.FS.Stream) (fuel : Nat) (got : ByteArray) : IO ByteArray := do
    match fuel with
    | 0 => return got
    | fuel + 1 =>
      let chunk ← stream.read 0x10000
      if chunk.isEmpty then return got else readAll stream fuel (got ++ chunk)

/-- Prints what an execution tells; yields the exit code. -/
def Report.print (report : Report) : IO UInt32 := do
  let stdout ← IO.getStdout
  let stderr ← IO.getStderr
  for line in report.errorLines do stderr.putStrLn line
  stdout.putStr report.output
  return UInt32.ofNat report.exitCode

/-- Answers arguments that lead to no request; yields the exit code. -/
def Usage.print (usage : Usage) : IO UInt32 := do
  let stdout ← IO.getStdout
  let stderr ← IO.getStderr
  match usage with
  | .help => stdout.putStr helpText; return 0
  | .version => stdout.putStrLn "parsley-json 0.1.0"; return 0
  | _ => stderr.putStrLn s!"error: {usage.kind}"; return 2

end CommandLine
end Curtail

def main (args : List String) : IO UInt32 := do
  match Curtail.CommandLine.parseArguments args with
  | .error usage => usage.print
  | .ok request => (Curtail.CommandLine.execute request (← Curtail.CommandLine.readInput request)).print
