import GoToC.Command.Run

/-!
# The command line

Reads the files that a compilation can need, runs the command on their texts, and
prints or writes what it comes to.
-/

namespace GoToC.CommandLine

/-- The files read so far, by path. -/
abbrev Shelf := List (String × Except FileError String)

/-- The positive form of a system error code, which may come negated. -/
def positiveCode (code : UInt32) : UInt32 := if code < 0x80000000 then code else 0 - code

/-- The error of a system error code. -/
def codedError (code : UInt32) (details : String) : FileError :=
  if code = 2 then .notFound
  else if code = 20 then .notADirectory
  else if code = 21 then .isADirectory
  else if code = 36 then .nameTooLong
  else .other s!"{details.capitalize} (os error {code})"

def fileError : IO.Error → FileError
  | .noFileOrDirectory _ code details | .inappropriateType _ code details
  | .permissionDenied _ code details | .invalidArgument _ code details =>
      codedError (positiveCode code) details
  | cause => .other (toString cause)

def readFile (path : String) : IO (Except FileError String) := do
  if path.contains '\x00' then return .error .nulInName
  try
    match String.fromUTF8? (← IO.FS.readBinFile path) with
    | some text => return .ok text
    | none => return .error .notUtf8
  catch cause => return .error (fileError cause)

/-- The paths of the modules that a source imports. -/
def importPaths (libDir text : String) : List String :=
  match parse text with
  | .ok file => file.imports.map fun decl => modulePath libDir decl.name
  | .error _ => []

/-- Reads the pending files and those that they import. -/
partial def collect (libDir : String) (shelf : Shelf) : List String → IO Shelf
  | [] => return shelf
  | path :: pending => do
      if (shelf.lookup path).isSome then collect libDir shelf pending
      else
        let result ← readFile path
        let imports := match result with
          | .ok text => importPaths libDir text
          | .error _ => []
        collect libDir ((path, result) :: shelf) (imports ++ pending)

/-- The files to start from. -/
def startPaths (args : CompileArgs) : List String :=
  if args.skipBuiltin then [args.input]
  else [args.input, modulePath args.libDir SessionM.builtinName]

def textSize : Except FileError String → Nat
  | .ok text => text.utf8ByteSize
  | .error _ => 0

def Shelf.disk (shelf : Shelf) : Disk where
  read path := (shelf.lookup path).getD (.error .notFound)
  bound := shelf.foldr (fun (_, result) total => textSize result + total) 0

/-- The disk that a list of arguments needs. -/
def diskFor (args : List String) : IO Disk := do
  match Request.ofArgs args with
  | .ok (.compile args) => return (← collect args.libDir [] (startPaths args)).disk
  | _ => return Shelf.disk []

def writeFile (path text : String) : IO (Except FileError Unit) := do
  if path.contains '\x00' then return .error .nulInName
  try
    IO.FS.writeFile path text
    return .ok ()
  catch cause => return .error (fileError cause)

def carryOut : Outcome → IO Report
  | .report report => return report
  | .write path text => return Report.ofWriting path (← writeFile path text)

end GoToC.CommandLine

def main (args : List String) : IO UInt32 := do
  let outcome := GoToC.runCommand (← GoToC.CommandLine.diskFor args) args
  let report ← GoToC.CommandLine.carryOut outcome
  IO.print report.stdout
  IO.eprint report.stderr
  return report.exitCode.toUInt32
