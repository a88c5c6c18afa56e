import GoToC.Command.Args
import GoToC.Command.Disk
import GoToC.Compile.Module
import GoToC.Diagnostic.Terminal

/-!
# The command

Reads a source file, compiles it and hands over the C program, or reports the first
error. The only thing left to do after that is to write a file.
-/

namespace GoToC

/-- What a command prints and the code that it exits with. -/
structure Report where
  exitCode : Nat
  stdout : String
  stderr : String
  deriving Repr, DecidableEq, Inhabited

namespace Report

def success (stdout : String) : Report := ⟨0, stdout, ""⟩

def failure (stderr : String) : Report := ⟨1, "", stderr⟩

/-- The report of an error that is not in a source. -/
def ofMessage (message : String) : Report := failure ("error: " ++ message ++ "\n")

/-- The report of wrong arguments, which explains the right ones. -/
def ofUsageError (cause : UsageError) : Report :=
  failure ("error: " ++ cause.message ++ "\n\n" ++ usage ++ "\n")

/-- The report once the result was to be written to a file. -/
def ofWriting (path : String) : Except FileError Unit → Report
  | .ok _ => success ""
  | .error cause => ofMessage (cause.whenWriting path)

/-- The report of a fault. -/
def ofFault (message : String) : Report := ⟨101, "", message ++ "\n"⟩

end Report

namespace CompileArgs

/-- Compiles the text of the input file. -/
def compile (args : CompileArgs) (disk : Disk) (text : String) : Except Failure String :=
  GoToC.compile (disk.library args.libDir) (!args.skipBuiltin) text

/-- The path and the text of the source of a module. -/
def moduleSource? (args : CompileArgs) (disk : Disk) (text module : String) :
    Option (String × String) :=
  if module = SessionM.mainName then some (args.input, text)
  else
    let path := modulePath args.libDir module
    match disk.read path with
    | .ok found => some (path, found)
    | .error _ => none

/-- The terminal for errors in a module, without colours. -/
def terminal (args : CompileArgs) (disk : Disk) (text module : String) : Terminal :=
  match args.moduleSource? disk text module with
  | some (path, found) => ⟨false, some found, some path⟩
  | none => Terminal.plain

/-- An error as it is shown, with the closing line. -/
def renderError (args : CompileArgs) (disk : Disk) (text : String) (error : CompileError) :
    String :=
  let terminal := args.terminal disk text error.module
  terminal.render error.toDiagnostic ++ terminal.summary 1

/-- The report of a compilation that gave no result. -/
def reportFailure (args : CompileArgs) (disk : Disk) (text : String) : Failure → Report
  | .error error => Report.failure (args.renderError disk text error)
  | .fault fault => Report.ofFault fault.message
  | .exhausted => Report.ofFault "out of steps"

end CompileArgs

/-- What a command comes to: a report, or a file to be written. -/
inductive Outcome where
  | report (report : Report)
  | write (path text : String)
  deriving Repr, DecidableEq, Inhabited

/-- Runs a compilation. -/
def CompileArgs.run (args : CompileArgs) (disk : Disk) : Outcome :=
  match disk.read args.input with
  | .error cause => .report (Report.ofMessage (cause.whenReading args.input))
  | .ok text =>
      match args.compile disk text with
      | .error failure => .report (args.reportFailure disk text failure)
      | .ok program =>
          match args.output with
          | some path => .write path program
          | none => .report (Report.success program)

/-- Runs the command. -/
def runCommand (disk : Disk) (args : List String) : Outcome :=
  match Request.ofArgs args with
  | .ok .help => .report (Report.success (usage ++ "\n"))
  | .ok .version => .report (Report.success (versionLine ++ "\n"))
  | .ok (.compile args) => args.run disk
  | .error cause => .report (Report.ofUsageError cause)

end GoToC
