import GoToC.Compile.Build
import GoToC.Compile.Emit
import GoToC.Compile.Library
import GoToC.Grammar.File

/-!
# Compiling modules and programs

A module is compiled once, when it is first asked for. It becomes known before its own
imports are followed, so a cycle of imports ends at the module that is already known.
-/

namespace GoToC

namespace SessionM

/-- Compiles the declarations of a module. -/
def compileJob (importer : Importer) (job : Job) : SessionM Unit := do
  declareAll job
  let init ← build importer job
  writeDeclarations job.id
  writeInit job init
  writeFuncs job

/-- The module of a name, which is loaded and compiled if it is not known yet. Failure to
load it is an error of the module that asks for it. -/
def importWith (library : Library) (compile : String → String → SessionM ModuleId) : Importer :=
  fun name asking span => do
    match (← get).program.find? name with
    | some id => return id
    | none =>
        match library.load name with
        | .ok text => compile name text
        | .error .missing => error asking span (.moduleNotFound name)
        | .error (.unreadable reason) => error asking span (.moduleUnreadable name reason)

/-- Reads the source of a module. -/
def readSource (name text : String) : SessionM SourceFile :=
  match parse text with
  | .ok file => return file
  | .error (.error cause) => error name cause.span (.parse cause)
  | .error .exhausted => throw .exhausted

/-- Compiles a source as the module of a name, unless that module is known; imports are
followed through no more than the given number of modules. -/
def compileWithin (library : Library) : Nat → String → String → SessionM ModuleId
  | 0, _, _ => throw .exhausted
  | depth + 1, name, text => do
      match (← get).program.find? name with
      | some id => return id
      | none =>
          let file ← readSource name text
          let job ← register name file
          compileJob (importWith library (compileWithin library depth)) job
          finish job.id
          return job.id

/-- Compiles a source as the module of a name, unless that module is known. -/
def compileSource (library : Library) (name text : String) : SessionM ModuleId :=
  compileWithin library (library.bound + 1) name text

/-- The module of a name from the library. -/
def loadModule (library : Library) (name : String) : SessionM ModuleId :=
  importWith library (compileSource library) name name Span.nowhere

/-- The name of the module that all others see. -/
def builtinName : String := "builtin"

def loadBuiltin (library : Library) : SessionM ModuleId := do
  let id ← loadModule library builtinName
  setBuiltin id
  return id

/-- Writes what every C program starts with. -/
def writePreamble : SessionM Unit := write .includes

/-- The name of the module that a program starts from. -/
def mainName : String := "main"

/-- Compiles a program from the source of its main module. -/
def compileProgram (library : Library) (withBuiltin : Bool) (text : String) : SessionM Unit := do
  writePreamble
  if withBuiltin then
    let _ ← loadBuiltin library
  let _ ← compileSource library mainName text

end SessionM

/-- The C program for the source of a main module. -/
def compile (library : Library) (withBuiltin : Bool) (text : String) : Except Failure String :=
  match (SessionM.compileProgram library withBuiltin text).run.run Session.empty with
  | (.ok _, session) => .ok session.text
  | (.error failure, _) => .error failure

end GoToC
