import GoToC.Proofs.Routine.Yields

/-!
# Expressions that denote types

Types and modules are no values of C. An expression that stands for one is compiled without any
variables or statements; an expression that needs some stands for a value. So whatever a type is
written as, a routine declares nothing for it and writes nothing.
-/

namespace GoToC

variable {action : RoutineM Value} {specs : List (MethodSpec Operand)}

/-- Nothing more is declared in a routine, or written. -/
structure Routine.Keeps (routine after : Routine) : Prop where
  locals : after.locals = routine.locals
  body : after.body = routine.body

theorem Routine.Keeps.refl (routine : Routine) : routine.Keeps routine := ⟨rfl, rfl⟩

theorem Routine.Keeps.trans {routine middle after : Routine} (h : routine.Keeps middle)
    (hNext : middle.Keeps after) : routine.Keeps after :=
  ⟨hNext.locals.trans h.locals, hNext.body.trans h.body⟩

/-- A value that is not one of C: a type or a module. -/
def Value.Denotes : Value → Prop
  | .type _ => True
  | .module _ => True
  | _ => False

namespace RoutineM

variable {α β : Type}

/-- An action that declares and writes nothing. -/
def Still (action : RoutineM α) : Prop :=
  ∀ env routine value after, action.exec env routine = (.ok value, after) → routine.Keeps after

/-- An action that declares and writes nothing if what it gives denotes a type or a module. -/
def Denotes (action : RoutineM Value) : Prop :=
  ∀ env routine value after, action.exec env routine = (.ok value, after) → value.Denotes →
    routine.Keeps after

/-- An action that gives values of C only. -/
def Evaluates (action : RoutineM Value) : Prop :=
  ∀ env routine value after, action.exec env routine = (.ok value, after) → ¬ value.Denotes

theorem Asks.still {action : RoutineM α} (h : action.Asks) : action.Still := by
  intro env routine value after hRun
  have hSame := h env routine
  rw [hRun] at hSame
  obtain rfl : after = routine := hSame
  exact .refl after

theorem Still.bind {action : RoutineM α} {next : α → RoutineM β} (h : action.Still)
    (hNext : ∀ value, (next value).Still) : (action >>= next).Still := by
  intro env routine value after hRun
  obtain ⟨first, middle, hFirst, hRest⟩ := bind_eq_ok.mp hRun
  exact (h env routine first middle hFirst).trans (hNext first env middle value after hRest)

theorem Still.denotes (h : action.Still) : action.Denotes :=
  fun env routine value after hRun _ => h env routine value after hRun

theorem Still.nextSerial : RoutineM.nextSerial.Still := by
  intro env routine value after hRun
  cases hRun
  exact ⟨rfl, rfl⟩

theorem Still.newFunc (inputs outputs : List (Member Ty)) (variadic isMethod : Bool) :
    (RoutineM.newFunc inputs outputs variadic isMethod).Still := by
  intro env routine value after hRun
  cases hRun
  exact ⟨rfl, rfl⟩

theorem Still.newStruct (name : String) (fields : List (Member Ty)) :
    (RoutineM.newStruct name fields).Still := by
  intro env routine value after hRun
  cases hRun
  exact ⟨rfl, rfl⟩

/-- A type that was put together without variables or statements. -/
theorem Still.asType {action : RoutineM Ty} (h : action.Still) :
    Denotes (do return Value.type (← action)) :=
  (h.bind fun _ => (Asks.pure _).still).denotes

namespace Evaluates

theorem pure {value : Value} (h : ¬ value.Denotes) : Evaluates (pure value) := by
  intro env routine found after hRun
  cases hRun
  exact h

theorem error (span : Span) (problem : Problem) : Evaluates (RoutineM.error span problem) := by
  intro env routine found after hRun
  cases hRun

/-- What comes last counts. -/
theorem bind {action : RoutineM α} {next : α → RoutineM Value}
    (h : ∀ value, (next value).Evaluates) : (action >>= next).Evaluates := by
  intro env routine value after hRun
  obtain ⟨first, middle, -, hRest⟩ := bind_eq_ok.mp hRun
  exact h first env middle value after hRest

theorem denotes (h : action.Evaluates) : action.Denotes :=
  fun env routine value after hRun hDenotes => absurd hDenotes (h env routine value after hRun)

theorem expr (e : Typed) : Evaluates (Pure.pure (Value.expr e)) := .pure id

end Evaluates

end RoutineM

open RoutineM

namespace Call

theorem apply_evaluates (callee : CExpr) (func : FuncType Ty) (leading : List CExpr)
    (inputs : List (Member Ty)) (args : List Operand) (spread : Bool) (span : Span) :
    (apply callee func leading inputs args spread span).Evaluates := by
  refine .bind fun _ => .bind fun _ => ?_
  dsimp only
  split
  · split
    · exact .bind fun _ => .bind fun _ => .bind fun _ => .expr _
    · exact .bind fun _ => .bind fun _ => .expr _
  · exact .bind fun _ => .bind fun _ => .expr _

theorem conversion_evaluates (type : Ty) (args : List Operand) (span : Span) :
    (conversion type args span).Evaluates := by
  have hFound (value : Typed) (found : Option Conversion) :
      (converted type value span found).Evaluates := by
    cases found with
    | some conversion => exact .expr _
    | none => exact .error _ _
  have hConverted (value : Typed) (convertible : Bool) :
      (attempted type value span convertible).Evaluates := by
    cases convertible with
    | true => exact .bind (hFound value)
    | false => exact .bind (hFound value)
  unfold conversion
  split
  · refine .bind fun value => .bind fun storable => ?_
    split
    · exact .bind fun _ => hConverted value _
    · refine .bind fun func => ?_
      split
      · exact .bind fun _ => hConverted value _
      · refine .bind fun found => ?_
        split
        · exact .bind fun _ => hConverted value _
        · exact .bind fun _ => .bind fun _ => hConverted value _
  · exact .error _ _

theorem lengthOf_evaluates (args : List Operand) (spread : Bool) (span : Span) :
    (lengthOf args spread span).Evaluates := by
  unfold lengthOf
  split
  · next arg =>
      have hLength : (lengthOf [arg] false span).Evaluates := by
        refine .bind fun value => .bind fun isString => ?_
        split
        · exact .expr _
        · refine .bind fun elem => ?_
          split
          · exact .bind fun _ => .expr _
          · exact .error _ _
      dsimp only
      split
      · exact .bind fun _ => hLength
      · exact hLength
  · exact .error _ _

theorem appended_evaluates (args : List Operand) (spread : Bool) (span : Span) :
    (appended args spread span).Evaluates := by
  unfold appended
  split
  · exact .error _ _
  · refine .bind fun slice => .bind fun elem => ?_
    split
    · exact .error _ _
    · refine .bind fun result => .bind fun _ => ?_
      dsimp only
      split
      · split <;> exact .bind fun _ => .expr _
      · exact .bind fun _ => .expr _

theorem call_evaluates (callee : Operand) (args : List Operand) (spread : Bool) (span : Span) :
    (call callee args spread span).Evaluates := by
  refine .bind fun intrinsic => ?_
  split
  · exact lengthOf_evaluates args spread span
  · exact appended_evaluates args spread span
  · refine .bind fun value => ?_
    split
    · exact conversion_evaluates _ args span
    · exact apply_evaluates _ _ _ _ args spread span
    · refine .bind fun e => .bind fun func => ?_
      split
      · exact apply_evaluates _ _ _ _ args spread span
      · exact .error _ _

end Call

namespace ExprRule

/-- A method of a value is no type either. -/
theorem valueMember_evaluates (receiver : Typed) (member : String) (span : Span) :
    (valueMember receiver member span).Evaluates := by
  have hBound (callee : CExpr) (method : Option (Member Ty)) :
      (boundMethod? callee receiver.c method >>= foundMethod receiver member span).Evaluates := by
    intro env routine value after hRun
    obtain ⟨found, middle, hFound, hRest⟩ := bind_eq_ok.mp hRun
    cases found with
    | none => cases hRest
    | some bound =>
        cases hRest
        unfold boundMethod? at hFound
        cases method with
        | none => cases hFound
        | some method =>
            obtain ⟨func, _, -, hFunc⟩ := bind_eq_ok.mp hFound
            cases func <;> cases hFunc
            exact id
  refine .bind fun pointee => ?_
  split
  · split
    · exact .expr _
    · exact .bind fun env => hBound _ _
  · refine .bind fun interface => ?_
    split
    · exact hBound _ _
    · exact .error _ _

theorem slice_evaluates (receiver : Operand) (lo hi : Option Operand) (span : Span) :
    (slice receiver lo hi span).Evaluates := by
  refine .bind fun container => .bind fun elem => .bind fun copy => .bind fun _ =>
    .bind fun lo => .bind fun hi => ?_
  split
  · exact .bind fun _ => .expr _
  · exact .expr _

theorem ctor_evaluates (type : Operand) (fields : List (FieldInit Operand)) (span : Span) :
    (ctor type fields span).Evaluates := by
  refine .bind fun structType => .bind fun found => ?_
  split
  · exact .error _ _
  · exact .bind fun _ => .bind fun _ => .bind fun _ => .expr _

end ExprRule

namespace Operand

/-- An operand that is to denote a type declares and writes nothing if it does. -/
theorem type_still {operand : Operand} (h : operand.compile.Denotes) : operand.type.Still := by
  intro env routine value after hRun
  obtain ⟨found, middle, hFound, hRest⟩ := bind_eq_ok.mp hRun
  cases found with
  | type denoted =>
      cases hRest
      exact h env routine _ _ hFound trivial
  | _ => cases hRest

theorem members_still {params : List (Param Operand)}
    (h : ∀ param ∈ params, param.type.compile.Denotes) : (members params).Still := by
  induction params with
  | nil => exact (Asks.pure _).still
  | cons param rest ih =>
      exact (type_still (h param List.mem_cons_self)).bind fun _ =>
        (ih fun other hOther => h other (.tail _ hOther)).bind fun _ => (Asks.pure _).still

theorem signature_still {receiver : Option (Param Operand)} {sig : Signature Operand}
    (hReceiver : ∀ param ∈ receiver, param.type.compile.Denotes)
    (hSig : sig.All fun type => type.compile.Denotes) : (signature receiver sig).Still := by
  refine (members_still fun param hParam => ?_).bind fun _ =>
    (members_still hSig.2).bind fun _ => .newFunc _ _ _ _
  rcases List.mem_append.mp hParam with hParam | hParam
  · exact hReceiver param (Option.mem_toList.mp hParam)
  · exact hSig.1 param hParam

theorem methods_still (h : ∀ spec ∈ specs, spec.signature.All fun type => type.compile.Denotes) :
    (methods specs).Still := by
  induction specs with
  | nil => exact (Asks.pure _).still
  | cons spec rest ih =>
      exact (signature_still (by simp) (h spec List.mem_cons_self)).bind fun _ =>
        (ih fun other hOther => h other (.tail _ hOther)).bind fun _ => (Asks.pure _).still

theorem structType_still (name : String) {fields : List (Param Operand)}
    (h : ∀ param ∈ fields, param.type.compile.Denotes) : (structType name fields).Still :=
  (members_still h).bind fun _ => (Still.newStruct _ _).bind fun _ => (Asks.pure _).still

theorem interfaceType_still (name : String)
    (h : ∀ spec ∈ specs, spec.signature.All fun type => type.compile.Denotes) :
    (interfaceType name specs).Still :=
  (methods_still h).bind fun _ => (Asks.read).still.bind fun _ => (Asks.pure _).still

end Operand

/-- A form of expression that makes no type or module makes values of C. -/
theorem Operand.denotes_kept : Kept fun e => e.compile.Denotes where
  int _ _ := (Evaluates.expr _).denotes
  str _ _ := (Evaluates.expr _).denotes
  ident span name := (Asks.lookup name span).still.denotes
  unary _ _ _ _ := Evaluates.denotes (.bind fun _ => .expr _)
  binary _ _ _ _ _ _ := Evaluates.denotes (.bind fun _ => .bind fun _ => .expr _)
  call span _ _ spread _ _ := (Call.call_evaluates _ _ spread span).denotes
  dot span _ member hReceiver := by
    intro env routine value after hRun hDenotes
    obtain ⟨found, middle, hFound, hRest⟩ := bind_eq_ok.mp hRun
    have hMember (e : RoutineM Typed)
        (hRest : (e >>= fun e => ExprRule.valueMember e member span).exec env middle =
          (.ok value, after)) : routine.Keeps after := by
      obtain ⟨e, last, -, hMember⟩ := bind_eq_ok.mp hRest
      exact absurd hDenotes (ExprRule.valueMember_evaluates e member span env last value
        after hMember)
    cases found with
    | module id =>
        have hSame := (Idle.moduleMember id member span).asks.still env middle value after hRest
        exact (hReceiver env routine _ _ hFound trivial).trans hSame
    | _ => exact hMember _ hRest
  index _ _ _ _ _ := Evaluates.denotes (.bind fun _ => .bind fun _ => .pure id)
  slice span _ _ _ _ _ _ := (ExprRule.slice_evaluates _ _ _ span).denotes
  ctor span _ _ _ _ := (ExprRule.ctor_evaluates _ _ span).denotes
  pointerType _ _ hInner := ((Operand.type_still hInner).bind fun _ => (Asks.pure _).still).denotes
  sliceType _ _ hElem := ((Operand.type_still hElem).bind fun _ => (Asks.pure _).still).denotes
  mapType _ _ _ hKey hValue :=
    ((Operand.type_still hKey).bind fun _ => (Operand.type_still hValue).bind fun _ =>
      (Asks.pure _).still).denotes
  structType _ _ hFields :=
    (Still.nextSerial.bind fun _ => Operand.structType_still _ hFields).asType
  interfaceType _ specs hSpecs := by
    have hType : (Operand.anonymousInterface (specOperands specs)).Still := by
      unfold Operand.anonymousInterface
      split
      · exact (Asks.pure _).still
      · exact Still.nextSerial.bind fun _ => Operand.interfaceType_still _ hSpecs
    exact hType.asType

theorem typeOperand_still (e : Expr) : (operand e).type.Still :=
  Operand.type_still (Operand.denotes_kept.operand e)

theorem compileNamedType_still (e : Expr) (name : String) : (compileNamedType e name).Still := by
  unfold compileNamedType
  split
  · exact Operand.structType_still name (Operand.denotes_kept.paramOperands _)
  · exact Operand.interfaceType_still name (Operand.denotes_kept.specOperands _)
  · exact typeOperand_still e

theorem compileSignature_still (receiver : Option (Param Expr)) (signature : Signature Expr) :
    (compileSignature receiver signature).Still :=
  Operand.signature_still (Operand.denotes_kept.receiver receiver)
    (Operand.denotes_kept.signatureOperands signature)

end GoToC
