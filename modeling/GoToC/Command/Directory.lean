import GoToC.Command.Run

/-!
# Directories in memory

A working directory with all that is below it. Paths are followed name by name. Nothing
is known of what lies outside, except that it is reached through directories.
-/

namespace GoToC

inductive Node where
  | file (bytes : ByteArray)
  | folder

/-- The number of bytes that a node holds itself. -/
def Node.size : Node → Nat
  | file bytes => bytes.size
  | folder => 0

/-- The files and folders below a working directory, each with the names that lead to it. -/
structure Directory where
  nodes : List (List String × Node)

/-- A path as it is followed. -/
structure Path where
  isAbsolute : Bool
  /-- The names between slashes. -/
  names : List String
  endsInSlash : Bool
  deriving Repr, DecidableEq, Inhabited

namespace Path

/-- The parts between slashes; empty ones count as none. -/
def split : List Char → List (List Char)
  | [] => [[]]
  | c :: rest =>
      match split rest with
      | [] => [[c]]
      | part :: parts => if c = '/' then [] :: part :: parts else (c :: part) :: parts

def ofText (text : String) : Path where
  isAbsolute := text.startsWith "/"
  names := ((split text.toList).filter (! ·.isEmpty)).map String.ofList
  endsInSlash := text.endsWith "/"

/-- The number of bytes that a name in a path may have. -/
def maxName : Nat := 255

/-- The number of bytes that a path may have. -/
def maxPath : Nat := 4095

end Path

/-- A directory that a path leads to. -/
inductive Place where
  | inside (names : List String)
  | outside
  deriving Repr, DecidableEq, Inhabited

/-- What a path leads to. -/
inductive Spot where
  | folder
  | file (names : List String) (bytes : ByteArray)
  /-- Nothing, in a directory that exists. -/
  | vacant (place : Place) (name : String)

namespace Directory

/-- A directory with the given files and folders, and the folders that lead to them. -/
def ofList (nodes : List (String × Node)) : Directory :=
  ⟨nodes.map fun (path, node) => ((Path.ofText path).names, node)⟩

/-- What the names lead to; a folder is also whatever something lies in. -/
def node? (directory : Directory) (names : List String) : Option Node :=
  match directory.nodes.find? (·.1 == names) with
  | some (_, node) => some node
  | none => if directory.nodes.any (names.isPrefixOf ·.1) then some .folder else none

/-- Goes from a directory on to the directory of a name. -/
def enter (directory : Directory) (place : Place) (name : String) : Except FileError Place :=
  if name = "." then .ok place
  else if name = ".." then
    match place with
    | .inside (first :: rest) => .ok (.inside (first :: rest).dropLast)
    | _ => .ok .outside
  else if Path.maxName < name.utf8ByteSize then .error .nameTooLong
  else
    match place with
    | .outside => .error .notFound
    | .inside names =>
        match directory.node? (names ++ [name]) with
        | some .folder => .ok (.inside (names ++ [name]))
        | some (.file _) => .error .notADirectory
        | none => .error .notFound

/-- Looks up the last name of a path. -/
def spot (directory : Directory) (place : Place) (name : String) : Except FileError Spot :=
  if name = "." || name = ".." then .ok .folder
  else if Path.maxName < name.utf8ByteSize then .error .nameTooLong
  else
    match place with
    | .outside => .ok (.vacant place name)
    | .inside names =>
        match directory.node? (names ++ [name]) with
        | some .folder => .ok .folder
        | some (.file bytes) => .ok (.file (names ++ [name]) bytes)
        | none => .ok (.vacant place name)

/-- Follows a path. -/
def follow (directory : Directory) (path : Path) : Except FileError Spot :=
  match path.names.getLast? with
  | none => .ok .folder
  | some last => do
      let start := if path.isAbsolute then Place.outside else .inside []
      directory.spot (← path.names.dropLast.foldlM directory.enter start) last

/-- The path of a text, unless no file can have it. -/
def checkedPath (text : String) : Except FileError Path :=
  if text.contains '\x00' then .error .nulInName
  else if text.isEmpty then .error .notFound
  else if Path.maxPath < text.utf8ByteSize then .error .nameTooLong
  else .ok (Path.ofText text)

/-- The text of a file. -/
def read (directory : Directory) (text : String) : Except FileError String := do
  let path ← checkedPath text
  match ← directory.follow path with
  | .folder => throw .isADirectory
  | .vacant _ _ => throw .notFound
  | .file _ bytes =>
      if path.endsInSlash then throw .notADirectory
      match String.fromUTF8? bytes with
      | some content => return content
      | none => throw .notUtf8

/-- Puts a file in place of what the names led to. -/
def put (directory : Directory) (names : List String) (bytes : ByteArray) : Directory :=
  ⟨(names, .file bytes) :: directory.nodes.filter (·.1 != names)⟩

/-- Writes a file; one that lies outside leaves no trace. -/
def write (directory : Directory) (text content : String) : Except FileError Directory := do
  let path ← checkedPath text
  let spot ← directory.follow path
  if path.endsInSlash then throw .isADirectory
  match spot with
  | .folder => throw .isADirectory
  | .file names _ => return directory.put names content.toUTF8
  | .vacant .outside _ => return directory
  | .vacant (.inside names) name => return directory.put (names ++ [name]) content.toUTF8

/-- Whether the names lead to a file with these bytes. -/
def holds (directory : Directory) (names : List String) (bytes : ByteArray) : Bool :=
  match directory.node? names with
  | some (.file found) => found == bytes
  | _ => false

/-- The files that are new or different, by path. -/
def changesSince (directory before : Directory) : List (String × ByteArray) :=
  directory.nodes.filterMap fun (names, node) =>
    match node with
    | .folder => none
    | .file bytes =>
        if before.holds names bytes then none else some ("/".intercalate names, bytes)

/-- The number of bytes of all files. -/
def weight (directory : Directory) : Nat :=
  directory.nodes.foldr (fun (_, node) total => node.size + total) 0

def disk (directory : Directory) : Disk := ⟨directory.read, directory.weight⟩

/-- Runs the command in a directory. -/
def run (directory : Directory) (args : List String) : Report × Directory :=
  match runCommand directory.disk args with
  | .report report => (report, directory)
  | .write path text =>
      match directory.write path text with
      | .ok after => (Report.ofWriting path (.ok ()), after)
      | .error cause => (Report.ofWriting path (.error cause), directory)

end Directory

end GoToC
