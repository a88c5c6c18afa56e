import Mathlib.Data.List.Basic
import Mathlib.Data.List.Pairwise
import Mathlib.Logic.Function.Basic
import GoToC.C.Stmt

/-!
# Evaluation of fragments

What a fragment comes to, for any meaning of its operators and of the calls in it. What an
output pointer points to is only set by the statements that hand back outputs, so these are run
here one after another, and compared with a run in which every fragment still reads the outputs
as they were before the first of them.
-/

namespace GoToC

variable {results : List (String × CExpr)} {name : String} {result : String × CExpr}

/-- What the parts of fragments mean. A call may change the world, from which variables, memory
and functions are read; outputs are no part of it. -/
structure Meaning (V W : Type) where
  /-- The value of a fragment that has no parts. -/
  leaf : CExpr → W → V
  unary : UnaryOp → V → V
  /-- The value that the left operand alone decides on, so that the right one is left out. -/
  decided : BinaryOp → V → Option V
  binary : BinaryOp → V → V → V
  field : String → V → W → V
  subscript : V → V → W → V
  call : V → List V → W → V × W
  toInterface : V → V
  cast : Prim → V → V
  byteCount : V → V
  elementCount : String → V → V

/-- Calls change nothing. -/
def Meaning.Quiet {V W : Type} (m : Meaning V W) : Prop :=
  ∀ function values w, (m.call function values w).2 = w

namespace CExpr

variable {V W : Type}

mutual

/-- The value of a fragment, where the outputs hold what they hold. -/
def eval (m : Meaning V W) (outs : String → V) : CExpr → StateM W V
  | .result name => return outs name
  | .unary op operand => return m.unary op (← operand.eval m outs)
  | .binary op left right => do
      let value ← left.eval m outs
      match m.decided op value with
      | some decided => return decided
      | none => return m.binary op value (← right.eval m outs)
  | .field receiver name => do
      let value ← receiver.eval m outs
      return m.field name value (← get)
  | .subscript receiver index => do
      let value ← receiver.eval m outs
      let place ← index.eval m outs
      return m.subscript value place (← get)
  | .call callee args => do
      let function ← callee.eval m outs
      let values ← evalAll m outs args
      m.call function values
  | .toInterface operand => return m.toInterface (← operand.eval m outs)
  | .cast prim operand => return m.cast prim (← operand.eval m outs)
  | .byteCount operand => return m.byteCount (← operand.eval m outs)
  | .elementCount operand elem => return m.elementCount elem (← operand.eval m outs)
  | .int value => return m.leaf (.int value) (← get)
  | .nil => return m.leaf .nil (← get)
  | .string text => return m.leaf (.string text) (← get)
  | .localVar name => return m.leaf (.localVar name) (← get)
  | .param name => return m.leaf (.param name) (← get)
  | .global name => return m.leaf (.global name) (← get)
  | .dispatch method => return m.leaf (.dispatch method) (← get)
  | .addressOf name => return m.leaf (.addressOf name) (← get)

def evalAll (m : Meaning V W) (outs : String → V) : List CExpr → StateM W (List V)
  | [] => return []
  | e :: rest => do
      let value ← e.eval m outs
      let values ← evalAll m outs rest
      return value :: values

end

mutual

/-- The outputs that a fragment reads. -/
def reads : CExpr → List String
  | .result name => [name]
  | .unary _ operand => operand.reads
  | .binary _ left right => left.reads ++ right.reads
  | .field receiver _ => receiver.reads
  | .subscript receiver index => receiver.reads ++ index.reads
  | .call callee args => callee.reads ++ readsAll args
  | .toInterface operand => operand.reads
  | .cast _ operand => operand.reads
  | .byteCount operand => operand.reads
  | .elementCount operand _ => operand.reads
  | .int _ | .nil | .string _ | .localVar _ | .param _ | .global _ | .dispatch
      _ | .addressOf _ => []

def readsAll : List CExpr → List String
  | [] => []
  | e :: rest => e.reads ++ readsAll rest

end

variable {m : Meaning V W} {outs outs' : String → V}

mutual

/-- The value of a fragment depends on no outputs but those that it reads. -/
theorem eval_congr : (e : CExpr) → (∀ name ∈ e.reads, outs name = outs' name) →
    e.eval m outs = e.eval m outs'
  | .result name, h => by
      rw [eval, eval, h name List.mem_cons_self]
  | .unary _ operand, h => by
      rw [eval, eval, eval_congr operand h]
  | .binary _ left right, h => by
      rw [reads, List.forall_mem_append] at h
      rw [eval, eval, eval_congr left h.1, eval_congr right h.2]
  | .field receiver _, h => by
      rw [eval, eval, eval_congr receiver h]
  | .subscript receiver index, h => by
      rw [reads, List.forall_mem_append] at h
      rw [eval, eval, eval_congr receiver h.1, eval_congr index h.2]
  | .call callee args, h => by
      rw [reads, List.forall_mem_append] at h
      rw [eval, eval, eval_congr callee h.1, evalAll_congr args h.2]
  | .toInterface operand, h => by
      rw [eval, eval, eval_congr operand h]
  | .cast _ operand, h => by
      rw [eval, eval, eval_congr operand h]
  | .byteCount operand, h => by
      rw [eval, eval, eval_congr operand h]
  | .elementCount operand _, h => by
      rw [eval, eval, eval_congr operand h]
  | .int _, _ | .nil, _ | .string _, _ | .localVar _, _ | .param _, _ | .global _, _
  | .dispatch _, _ | .addressOf _, _ => by rw [eval, eval]

theorem evalAll_congr : (es : List CExpr) → (∀ name ∈ readsAll es, outs name = outs' name) →
    evalAll m outs es = evalAll m outs' es
  | [], _ => rfl
  | e :: rest, h => by
      rw [readsAll, List.forall_mem_append] at h
      rw [evalAll, evalAll, eval_congr e h.1, evalAll_congr rest h.2]

end

theorem eval_binary (op : BinaryOp) (left right : CExpr) (w : W) :
    (CExpr.binary op left right).eval m outs w =
      match m.decided op (left.eval m outs w).1 with
      | some decided => (decided, (left.eval m outs w).2)
      | none => (m.binary op (left.eval m outs w).1 (right.eval m outs (left.eval m outs w).2).1,
          (right.eval m outs (left.eval m outs w).2).2) := by
  rw [eval]
  cases hLeft : left.eval m outs w with
  | mk value middle =>
      simp only [Bind.bind, StateT.bind, hLeft]
      cases m.decided op value <;> rfl

/-! Where calls change nothing, no fragment does. -/

mutual

theorem eval_quiet (hQuiet : m.Quiet) : (e : CExpr) → (w : W) → (e.eval m outs w).2 = w
  | .unary _ operand, w => by
      rw [eval]
      exact eval_quiet hQuiet operand w
  | .binary op left right, w => by
      have hLeft := eval_quiet hQuiet left w
      rw [eval_binary, hLeft]
      split
      · rfl
      · exact eval_quiet hQuiet right w
  | .field receiver _, w => by
      rw [eval]
      exact eval_quiet hQuiet receiver w
  | .subscript receiver index, w => by
      rw [eval]
      show (index.eval m outs (receiver.eval m outs w).2).2 = w
      rw [eval_quiet hQuiet receiver w, eval_quiet hQuiet index w]
  | .call callee args, w => by
      rw [eval]
      show (m.call _ _ (evalAll m outs args (callee.eval m outs w).2).2).2 = w
      rw [hQuiet, eval_quiet hQuiet callee w, evalAll_quiet hQuiet args w]
  | .toInterface operand, w => by
      rw [eval]
      exact eval_quiet hQuiet operand w
  | .cast _ operand, w => by
      rw [eval]
      exact eval_quiet hQuiet operand w
  | .byteCount operand, w => by
      rw [eval]
      exact eval_quiet hQuiet operand w
  | .elementCount operand _, w => by
      rw [eval]
      exact eval_quiet hQuiet operand w
  | .result _, _ | .int _, _ | .nil, _ | .string _, _ | .localVar _, _ | .param _, _
  | .global _, _ | .dispatch _, _ | .addressOf _, _ => by
      rw [eval]
      rfl

theorem evalAll_quiet (hQuiet : m.Quiet) : (es : List CExpr) → (w : W) → (evalAll m outs es w).2 = w
  | [], _ => rfl
  | e :: rest, w => by
      show (evalAll m outs rest (e.eval m outs w).2).2 = w
      rw [eval_quiet hQuiet e w, evalAll_quiet hQuiet rest w]

end

end CExpr

/-! ## Fragments that read nothing -/

/-- A fragment that is made of literals, operators and conversions. -/
def CExpr.Fixed : CExpr → Prop
  | .int _ | .nil | .string _ => True
  | .unary _ operand => operand.Fixed
  | .binary _ left right => left.Fixed ∧ right.Fixed
  | .toInterface operand => operand.Fixed
  | .cast _ operand => operand.Fixed
  | _ => False

/-- Literals mean the same in all worlds. -/
def Meaning.Literal {V W : Type} (m : Meaning V W) : Prop :=
  ∀ e : CExpr, e.Fixed → ∀ w w', m.leaf e w = m.leaf e w'

/-- A fragment that reads nothing has the same value wherever it is evaluated, and changes
nothing. -/
theorem CExpr.Fixed.eval {V W : Type} {m : Meaning V W} (hLiteral : m.Literal)
    (outs outs' : String → V) (w w' : W) :
    (e : CExpr) → e.Fixed → e.eval m outs w = ((e.eval m outs' w').1, w)
  | .int _, h | .nil, h | .string _, h => by
      rw [CExpr.eval, CExpr.eval]
      exact congrArg (·, w) (hLiteral _ h w w')
  | .unary _ operand, h | .toInterface operand, h | .cast _ operand, h => by
      have hOperand := CExpr.Fixed.eval hLiteral outs outs' w w' operand h
      rw [CExpr.eval, CExpr.eval]
      simp only [bind, StateT.bind, hOperand]
      rfl
  | .binary op left right, h => by
      have hLeft := CExpr.Fixed.eval hLiteral outs outs' w w' left h.1
      have hRight (w' : W) := CExpr.Fixed.eval hLiteral outs outs' w w' right h.2
      rw [eval_binary, eval_binary, hLeft]
      split
      · next hDecided => rw [hDecided]
      · next hDecided => rw [hDecided, hRight]

/-! ## Outputs that are set one after another -/

/-- The statements that hand back the values of fragments through output pointers. -/
def resultStmts (results : List (String × CExpr)) : List CStmt :=
  results.map fun result => .setResult result.1 result.2

theorem resultStmts_injective : Function.Injective resultStmts := by
  apply List.map_injective_iff.mpr
  rintro ⟨name, e⟩ ⟨name', e'⟩ h
  cases h
  rfl

/-- So many statements at the end tell what outputs are set to. -/
theorem append_resultStmts_inj {before before' : List CStmt} {results' : List (String × CExpr)}
    (hLength : results.length = results'.length)
    (h : before ++ resultStmts results = before' ++ resultStmts results') :
    before = before' ∧ results = results' := by
  have hParts := List.append_inj' h (by simpa [resultStmts] using hLength)
  exact ⟨hParts.1, resultStmts_injective hParts.2⟩

section Run

variable {V W : Type}

/-- The outputs and the world after the statements that set outputs, run one after another. -/
def setInOrder (m : Meaning V W) : List (String × CExpr) → (String → V) → W → (String → V) × W
  | [], outs, w => (outs, w)
  | (name, e) :: rest, outs, w =>
      setInOrder m rest (Function.update outs name (e.eval m outs w).1) (e.eval m outs w).2

/-- The same, but every fragment reads the outputs that `start` tells. -/
def setFrom (m : Meaning V W) (start : String → V) :
    List (String × CExpr) → (String → V) → W → (String → V) × W
  | [], outs, w => (outs, w)
  | (name, e) :: rest, outs, w =>
      setFrom m start rest (Function.update outs name (e.eval m start w).1) (e.eval m start w).2

/-- No fragment reads an output that an earlier statement has given another value. -/
def NoneOverwritten (results : List (String × CExpr)) : Prop :=
  results.Pairwise fun earlier later =>
    earlier.1 ∉ later.2.reads ∨ earlier.2 = .result earlier.1

variable {m : Meaning V W} {start outs : String → V} {w : W} {results : List (String × CExpr)}

theorem setInOrder_eq_setFrom (h : NoneOverwritten results)
    (hStart : ∀ result ∈ results, ∀ name ∈ result.2.reads, outs name = start name) :
    setInOrder m results outs w = setFrom m start results outs w := by
  induction results generalizing outs w with
  | nil => rfl
  | cons result rest ih =>
      obtain ⟨name, e⟩ := result
      obtain ⟨hFirst, hRest⟩ := List.pairwise_cons.mp h
      obtain ⟨hReads, hLater⟩ := List.forall_mem_cons.mp hStart
      have hSame : e.eval m outs = e.eval m start := CExpr.eval_congr e hReads
      rw [setInOrder, setFrom, hSame]
      apply ih hRest
      intro later hMem other hOther
      by_cases hName : other = name
      · subst hName
        rw [Function.update_self]
        have hKept : e = .result other := (hFirst later hMem).resolve_left (not_not_intro hOther)
        rw [hKept]
        rfl
      · rw [Function.update_of_ne hName]
        exact hLater later hMem other hOther

/-- Whatever fragments mean, the outputs come to hold what the fragments stand for at the start. -/
def SetsFromStart (results : List (String × CExpr)) : Prop :=
  ∀ {V W : Type} (m : Meaning V W) (outs : String → V) (w : W),
    setInOrder m results outs w = setFrom m outs results outs w

theorem NoneOverwritten.setsFromStart (h : NoneOverwritten results) : SetsFromStart results := by
  intro V W m outs w
  apply setInOrder_eq_setFrom h
  intro result _ name _
  rfl

/-- An output that no statement sets keeps its value. -/
theorem setFrom_of_not_mem (h : name ∉ results.map (·.1)) :
    (setFrom m start results outs w).1 name = outs name := by
  induction results generalizing outs w with
  | nil => rfl
  | cons result rest ih =>
      simp only [List.map_cons, List.mem_cons, not_or] at h
      rw [setFrom, ih h.2, Function.update_of_ne h.1]

theorem setInOrder_of_not_mem (h : name ∉ results.map (·.1)) :
    (setInOrder m results outs w).1 name = outs name := by
  induction results generalizing outs w with
  | nil => rfl
  | cons result rest ih =>
      simp only [List.map_cons, List.mem_cons, not_or] at h
      rw [setInOrder, ih h.2, Function.update_of_ne h.1]

/-- Where calls change nothing, each output is set to the value of its fragment at the start. -/
theorem setFrom_quiet (hQuiet : m.Quiet) (hNames : (results.map (·.1)).Nodup)
    (h : result ∈ results) :
    (setFrom m start results outs w).1 result.1 = (result.2.eval m start w).1 := by
  induction results generalizing outs with
  | nil => cases h
  | cons first rest ih =>
      obtain ⟨hNew, hRest⟩ := List.nodup_cons.mp hNames
      rw [setFrom, CExpr.eval_quiet hQuiet]
      rcases List.mem_cons.mp h with rfl | h
      · rw [setFrom_of_not_mem hNew, Function.update_self]
      · exact ih hRest h

/-- The same for the outputs that are set in order, where that is no matter. -/
theorem SetsFromStart.quiet (h : SetsFromStart results) (hQuiet : m.Quiet)
    (hNames : (results.map (·.1)).Nodup) (hMem : result ∈ results) :
    (setInOrder m results outs w).1 result.1 = (result.2.eval m outs w).1 := by
  rw [h m outs w, setFrom_quiet hQuiet hNames hMem]

/-! ## When the order does not matter -/

/-- Fragments that mean themselves. -/
def Meaning.itself : Meaning CExpr Unit where
  leaf e _ := e
  unary := .unary
  decided _ _ := none
  binary := .binary
  field name receiver _ := .field receiver name
  subscript receiver index _ := .subscript receiver index
  call callee args _ := (.call callee args, ())
  toInterface := .toInterface
  cast := .cast
  byteCount := .byteCount
  elementCount elem operand := .elementCount operand elem

end Run

namespace CExpr

mutual

/-- A fragment means itself where the outputs do. -/
theorem eval_itself : (e : CExpr) → e.eval .itself .result = (pure e : StateM Unit CExpr)
  | .result _ => by rw [eval]
  | .unary _ operand => by
      rw [eval, eval_itself operand]
      rfl
  | .binary _ left right => by
      rw [eval, eval_itself left, eval_itself right]
      rfl
  | .field receiver _ => by
      rw [eval, eval_itself receiver]
      rfl
  | .subscript receiver index => by
      rw [eval, eval_itself receiver, eval_itself index]
      rfl
  | .call callee args => by
      rw [eval, eval_itself callee, evalAll_itself args]
      rfl
  | .toInterface operand => by
      rw [eval, eval_itself operand]
      rfl
  | .cast _ operand => by
      rw [eval, eval_itself operand]
      rfl
  | .byteCount operand => by
      rw [eval, eval_itself operand]
      rfl
  | .elementCount operand _ => by
      rw [eval, eval_itself operand]
      rfl
  | .int _ | .nil | .string _ | .localVar _ | .param _ | .global _ | .dispatch _
  | .addressOf _ => by
      rw [eval]
      rfl

theorem evalAll_itself : (es : List CExpr) →
    evalAll .itself .result es = (pure es : StateM Unit (List CExpr))
  | [] => rfl
  | e :: rest => by
      rw [evalAll, eval_itself e, evalAll_itself rest]
      rfl

end

variable {outs outs' : String → CExpr}

mutual

/-- With outputs put in for their names a fragment tells all of those that it reads. -/
theorem outs_eq_of_eval_eq : (e : CExpr) →
    (e.eval .itself outs ()).1 = (e.eval .itself outs' ()).1 →
    ∀ name ∈ e.reads, outs name = outs' name
  | .result name, h => by
      rw [eval, eval] at h
      replace h : outs name = outs' name := h
      simpa [reads] using h
  | .unary _ operand, h => by
      rw [eval, eval] at h
      exact outs_eq_of_eval_eq operand (CExpr.unary.inj h).2
  | .binary _ left right, h => by
      rw [eval, eval] at h
      obtain ⟨-, hLeft, hRight⟩ := CExpr.binary.inj h
      exact List.forall_mem_append.mpr
        ⟨outs_eq_of_eval_eq left hLeft, outs_eq_of_eval_eq right hRight⟩
  | .field receiver _, h => by
      rw [eval, eval] at h
      exact outs_eq_of_eval_eq receiver (CExpr.field.inj h).1
  | .subscript receiver index, h => by
      rw [eval, eval] at h
      obtain ⟨hReceiver, hIndex⟩ := CExpr.subscript.inj h
      exact List.forall_mem_append.mpr
        ⟨outs_eq_of_eval_eq receiver hReceiver, outs_eq_of_eval_eq index hIndex⟩
  | .call callee args, h => by
      rw [eval, eval] at h
      obtain ⟨hCallee, hArgs⟩ := CExpr.call.inj h
      exact List.forall_mem_append.mpr
        ⟨outs_eq_of_eval_eq callee hCallee, outs_eq_of_evalAll_eq args hArgs⟩
  | .toInterface operand, h => by
      rw [eval, eval] at h
      exact outs_eq_of_eval_eq operand (CExpr.toInterface.inj h)
  | .cast _ operand, h => by
      rw [eval, eval] at h
      exact outs_eq_of_eval_eq operand (CExpr.cast.inj h).2
  | .byteCount operand, h => by
      rw [eval, eval] at h
      exact outs_eq_of_eval_eq operand (CExpr.byteCount.inj h)
  | .elementCount operand _, h => by
      rw [eval, eval] at h
      exact outs_eq_of_eval_eq operand (CExpr.elementCount.inj h).1
  | .int _, _ | .nil, _ | .string _, _ | .localVar _, _ | .param _, _ | .global _, _
  | .dispatch _, _ | .addressOf _, _ => by simp [reads]

theorem outs_eq_of_evalAll_eq : (es : List CExpr) →
    (evalAll .itself outs es ()).1 = (evalAll .itself outs' es ()).1 →
    ∀ name ∈ readsAll es, outs name = outs' name
  | [], _ => by simp [readsAll]
  | e :: rest, h => by
      rw [evalAll, evalAll] at h
      obtain ⟨hFirst, hRest⟩ := List.cons.inj h
      exact List.forall_mem_append.mpr
        ⟨outs_eq_of_eval_eq e hFirst, outs_eq_of_evalAll_eq rest hRest⟩

end

end CExpr

/-- Where fragments mean themselves the order matters as soon as an output was overwritten. -/
theorem noneOverwritten_of_itself {outs : String → CExpr} (hNames : (results.map (·.1)).Nodup)
    (h : (setInOrder .itself results outs ()).1 = (setFrom .itself .result results outs ()).1) :
    NoneOverwritten results ∧
      ∀ result ∈ results, ∀ name ∈ result.2.reads, outs name = .result name := by
  induction results generalizing outs with
  | nil => exact ⟨.nil, by simp⟩
  | cons result rest ih =>
      obtain ⟨name, e⟩ := result
      obtain ⟨hNew, hNodup⟩ := List.nodup_cons.mp hNames
      have hValue : (e.eval .itself outs ()).1 = (e.eval .itself .result ()).1 := by
        have hName := congrFun h name
        rw [setInOrder, setFrom, setInOrder_of_not_mem hNew, setFrom_of_not_mem hNew,
          Function.update_self, Function.update_self] at hName
        exact hName
      have hReads := CExpr.outs_eq_of_eval_eq e hValue
      rw [setInOrder, setFrom, hValue, CExpr.eval_itself] at h
      obtain ⟨hRest, hLater⟩ := ih hNodup h
      have hKept {later : String × CExpr} (hMem : later ∈ rest) (hRead : name ∈ later.2.reads) :
          e = .result name := by
        have hSame := hLater later hMem name hRead
        rwa [Function.update_self] at hSame
      refine ⟨List.pairwise_cons.mpr ⟨fun later hMem => ?_, hRest⟩,
        List.forall_mem_cons.mpr ⟨hReads, fun later hMem other hOther => ?_⟩⟩
      · by_cases hRead : name ∈ later.2.reads
        · exact .inr (hKept hMem hRead)
        · exact .inl hRead
      · by_cases hOtherName : other = name
        · subst hOtherName
          apply hReads
          rw [hKept hMem hOther]
          exact List.mem_cons_self
        · have hSame := hLater later hMem other hOther
          rwa [Function.update_of_ne hOtherName] at hSame

/-- Setting outputs in order is setting them from the start just if no fragment reads an output
that was overwritten. -/
theorem setsFromStart_iff (hNames : (results.map (·.1)).Nodup) :
    SetsFromStart results ↔ NoneOverwritten results := by
  constructor
  · intro h
    exact (noneOverwritten_of_itself hNames (congrArg Prod.fst (h .itself .result ()))).1
  · exact NoneOverwritten.setsFromStart

end GoToC
