import TapeCalc.CommandLine.Session

/-!
# The command

Reads the files that the arguments name, and writes what a session answers. The prompt is
answered line by line.
-/
namespace TapeCalc.CommandLine

/-- The system's number of an error, which some calls give with its sign changed. -/
def systemCode (code : UInt32) : Nat :=
  if code.toNat < 2 ^ 31 then code.toNat else 2 ^ 32 - code.toNat

def readErrorOf (e : IO.Error) : ReadError :=
  match e with
  | .noFileOrDirectory .. => .notFound
  | .inappropriateType _ code _ =>
    if systemCode code = 20 then .notFolder
    else if systemCode code = 21 then .isFolder
    else .other (toString e)
  | .invalidArgument _ code _ =>
    if systemCode code = 36 then .nameTooLong else .other (toString e)
  | _ => .other (toString e)

def readText (path : String) : IO (Except ReadError String) := do
  if path.contains '\x00' then return .error .nulInPath
  try
    match String.fromUTF8? (← IO.FS.readBinFile path) with
    | some text => return .ok text
    | none => return .error .notText
  catch e => return .error (readErrorOf e)

/-- Reads files ahead; a path that is not among them is not found. -/
def readAhead (paths : List String) : IO (String → Except ReadError String) := do
  let contents ← paths.mapM fun path => return (path, ← readText path)
  return fun path => (contents.lookup path).getD (.error .notFound)

/-- The files that a session reads once its configuration file is known. -/
def programPaths (options : Options) (read : String → Except ReadError String) : List String :=
  match options.configure read with
  | .ok { modulesDir := some folder, .. } => Operator.all.map (·.path folder)
  | _ => []

def emit (transcript : Transcript) : IO Unit := do
  for line in transcript.errors do
    IO.eprintln line
  IO.print transcript.written
  (← IO.getStdout).flush

/-- The bytes up to the end of a line, and whether the input has ended before them. -/
partial def readLine (input : IO.FS.Stream) (line : ByteArray) : IO (ByteArray × Bool) := do
  let next ← input.read 1
  if next.isEmpty then return (line, line.isEmpty)
  if next.toList = [10] then return (line, false)
  readLine input (line ++ next)

/-- Answers the prompt until a line or the end of the input stops it. -/
partial def converse (session : Session) (input : IO.FS.Stream) : IO Unit := do
  emit (.write Session.promptMark)
  let (line, ended) ← readLine input ByteArray.empty
  if ended then emit Session.farewell
  else
    match String.fromUTF8? line with
    | none => emit Session.refusal
    | some line =>
      let request := Session.requestOf line
      match session.reply Machine.endless request with
      | none => return
      | some transcript =>
        emit transcript
        if request ≠ .quit then converse session input

end TapeCalc.CommandLine

open TapeCalc.CommandLine in
def main (arguments : List String) : IO UInt32 := do
  match Options.parse arguments with
  | .error stop =>
    emit stop.exit.transcript
    return stop.exit.status.toUInt32
  | .ok options =>
    let read ← readAhead options.config.toList
    let read ← readAhead (options.config.toList ++ programPaths options read)
    match options.begin read with
    | .error exit =>
      emit exit.transcript
      return exit.status.toUInt32
    | .ok (loading, session) =>
      emit loading
      emit ((session.batch TapeCalc.Machine.endless).getD {})
      if session.isInteractive then
        emit session.greeting
        converse session (← IO.getStdin)
      return 0
