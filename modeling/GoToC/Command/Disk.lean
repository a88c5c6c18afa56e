import GoToC.Compile.Library

/-!
# Disks

The command sees files through a function that reads the text of a path. Imported
modules are the files of one directory whose names end in `.go`.
-/

namespace GoToC

/-- Why a file cannot be read or written. -/
inductive FileError where
  | notFound
  | notADirectory
  | isADirectory
  | nameTooLong
  | notUtf8
  | nulInName
  /-- Another error, by its message. -/
  | other (message : String)
  deriving Repr, DecidableEq, Inhabited

def FileError.message : FileError → String
  | notFound => "No such file or directory (os error 2)"
  | notADirectory => "Not a directory (os error 20)"
  | isADirectory => "Is a directory (os error 21)"
  | nameTooLong => "File name too long (os error 36)"
  | notUtf8 => "stream did not contain valid UTF-8"
  | nulInName => "file name contained an unexpected NUL byte"
  | other message => message

/-- The message about a file that cannot be read. -/
def FileError.whenReading (cause : FileError) (path : String) : String :=
  s!"cannot read {path}: " ++ cause.message

/-- The message about a file that cannot be written. -/
def FileError.whenWriting (cause : FileError) (path : String) : String :=
  s!"cannot write {path}: " ++ cause.message

/-- Files that can be read by path. -/
structure Disk where
  read : String → Except FileError String
  /-- At least the number of bytes of all files, and so of import declarations in them. -/
  bound : Nat

/-- A path below a directory; an absolute path stays as it is. -/
def joinPath (directory path : String) : String :=
  if path.startsWith "/" then path
  else if directory.isEmpty || directory.endsWith "/" then directory ++ path
  else directory ++ "/" ++ path

/-- The path of a module in a library directory. -/
def modulePath (libDir name : String) : String := joinPath libDir (name ++ ".go")

/-- The modules of a library directory. -/
def Disk.library (disk : Disk) (libDir : String) : Library where
  load name :=
    let path := modulePath libDir name
    match disk.read path with
    | .ok text => .ok text
    | .error .notFound => .error .missing
    | .error cause => .error (.unreadable (cause.whenReading path))
  bound := disk.bound

end GoToC
