/-!
# Arguments

The arguments of the command, read from left to right. The first word that asks for help
or for the version settles the matter, and so does the first mistake.
-/

namespace GoToC

/-- What is wrong with the arguments. -/
inductive UsageError where
  | noPath
  | noDirectory
  | unknownOption (option : String)
  | unexpected (argument : String)
  | noInput
  deriving Repr, DecidableEq, Inhabited

def UsageError.message : UsageError → String
  | noPath => "-o needs a path"
  | noDirectory => "--lib-dir needs a directory"
  | unknownOption option => s!"unknown option `{option}`"
  | unexpected argument => s!"unexpected argument `{argument}`"
  | noInput => "missing input file"

/-- What to compile, and where the result goes. -/
structure CompileArgs where
  input : String
  /-- Without it the result goes to standard output. -/
  output : Option String
  /-- Where imported modules are found. -/
  libDir : String
  skipBuiltin : Bool
  deriving Repr, DecidableEq, Inhabited

inductive Request where
  | help
  | version
  | compile (args : CompileArgs)
  deriving Repr, DecidableEq, Inhabited

namespace Request

/-- The arguments read so far. -/
structure Draft where
  input : Option String
  output : Option String
  libDir : String
  skipBuiltin : Bool

def Draft.empty : Draft := ⟨none, none, "lib", false⟩

/-- The request that a complete list of arguments makes. -/
def Draft.close (draft : Draft) : Except UsageError Request :=
  match draft.input with
  | some input => .ok (.compile ⟨input, draft.output, draft.libDir, draft.skipBuiltin⟩)
  | none => .error .noInput

/-- Takes an argument that is no known option. -/
def Draft.takePlain (draft : Draft) (argument : String) : Except UsageError Draft :=
  if argument.startsWith "-" then .error (.unknownOption argument)
  else if draft.input.isSome then .error (.unexpected argument)
  else .ok { draft with input := some argument }

def readArgs (draft : Draft) : List String → Except UsageError Request
  | [] => draft.close
  | "help" :: _ | "-h" :: _ | "--help" :: _ => .ok .help
  | "version" :: _ | "-V" :: _ | "--version" :: _ => .ok .version
  | ["-o"] => .error .noPath
  | "-o" :: path :: rest => readArgs { draft with output := some path } rest
  | ["--lib-dir"] => .error .noDirectory
  | "--lib-dir" :: directory :: rest => readArgs { draft with libDir := directory } rest
  | "--skip-builtin" :: rest => readArgs { draft with skipBuiltin := true } rest
  | argument :: rest => do readArgs (← draft.takePlain argument) rest

/-- The request of a list of arguments. -/
def ofArgs (args : List String) : Except UsageError Request := readArgs Draft.empty args

end Request

/-- The text that explains the arguments. -/
def usage : String :=
  "Usage: gosub <input.go> [options]\n"
    ++ "       gosub help | version\n"
    ++ "\n"
    ++ "Options:\n"
    ++ "  -o <path>           Write C to <path> instead of stdout\n"
    ++ "  --lib-dir <dir>     Directory holding imported modules (default: lib)\n"
    ++ "  --skip-builtin      Do not load the builtin module\n"
    ++ "  -h, --help          Show this message\n"
    ++ "  -V, --version       Show the version"

def versionLine : String := "gosub 0.1.0-alpha.1"

end GoToC
