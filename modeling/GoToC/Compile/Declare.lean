import GoToC.Compile.Session

/-!
# Declared names

Before anything of a module is built, all its names are entered, so that declarations
may refer to each other in any order. Methods have no entry here: they belong to their
structs.
-/

namespace GoToC

/-- A name that a module declares. -/
structure Declaration where
  kind : GlobalKind
  /-- Its position among the declarations of its kind. -/
  index : Nat
  name : String
  span : Span
  deriving Repr, DecidableEq, Inhabited

namespace Declaration

/-- The declarations of one kind, numbered from `index` on. -/
def numbered (kind : GlobalKind) : Nat → List (String × Span) → List Declaration
  | _, [] => []
  | index, (name, span) :: rest => ⟨kind, index, name, span⟩ :: numbered kind (index + 1) rest

/-- All declared names of a module, kind after kind. -/
def ofFile (file : SourceFile) : List Declaration :=
  numbered .import 0 (file.imports.map fun decl => (decl.name, decl.span))
    ++ numbered .type 0 (file.types.map fun decl => (decl.name, decl.span))
    ++ numbered .const 0 (file.consts.map fun decl => (decl.name, decl.span))
    ++ numbered .var 0 (file.vars.map fun decl => (decl.name, decl.span))
    ++ numbered .func 0 (file.funcs.map fun decl => (decl.name, decl.span))

/-- The C name of a global. -/
def cName (package name : String) : String := package ++ "__" ++ name

/-- The global of a declaration, before it is built. -/
def toGlobal (package : String) (decl : Declaration) (handle : Option Handle) : Global :=
  ⟨package, decl.name, cName package decl.name, decl.kind, decl.index, decl.span, none, handle⟩

end Declaration

namespace SessionM

/-- The handle that a type goes by until it is built. -/
def newHandle (decl : Declaration) : SessionM (Option Handle) := do
  match decl.kind with
  | .type =>
      let (handle, store) := (← get).program.types.newHandle decl.name
      setTypes store
      return some handle
  | _ => return none

/-- Enters one name; it must be new in its module. -/
def declare (job : Job) (decl : Declaration) : SessionM Unit := do
  match ← global? job.id decl.name with
  | some previous => error job.package decl.span (.redefined decl.name previous.span)
  | none =>
      let handle ← newHandle decl
      updateModule job.id (·.addGlobal (decl.toGlobal job.package handle))

/-- Enters all names of a module. -/
def declareAll (job : Job) : SessionM Unit := (Declaration.ofFile job.file).forM (declare job)

end SessionM

end GoToC
