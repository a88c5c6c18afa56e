import GoToC.Proofs.C.Labels
import GoToC.Proofs.Routine.ScopedStmt

/-!
# What loops and jumps are written as

A loop takes its number from the serial numbers of the compilation, before anything in its rounds
is compiled, and a jump takes the number of the loop that is compiled around it. So the C
statements of a routine have the loops and jumps of its source, nested in the same way; every jump
leads to the innermost loop around it, and the numbers of loops ascend.
-/

namespace GoToC

variable {after routine middle : Routine} {number : Nat} {body stmts test : List CStmt}
  {cond : Option Operand} {kind : JumpKind} {extent : Extent} {limits : Limits} {env : Env}
  {post : Option (RoutineM Unit)} {key : Option String} {arms : List (List Operand × RoutineM Unit)}
  {outlines : List (List (Outline JumpKind))}

open CStmt

/-- The numbers of the loops among statements were taken one after another. -/
structure Counted (first last : Nat) (stmts : List CStmt) : Prop where
  ascending : (loops stmts).Pairwise (· < ·)
  bounds : ∀ number ∈ loops stmts, first < number ∧ number ≤ last
  le : first ≤ last

/-- Statements that an outline is written as, inside of a loop if there is one. -/
structure Outlined (loop : Option Nat) (first last : Nat) (outline : List (Outline JumpKind))
    (stmts : List CStmt) : Prop where
  outline : outlineAll stmts = outline
  targets : TargetsAll loop stmts
  counted : Counted first last stmts

namespace Counted

variable {first second last : Nat} {stmts others : List CStmt} {stmt : CStmt}

theorem append (h : Counted first second stmts) (h' : Counted second last others) :
    Counted first last (stmts ++ others) where
  ascending := by
    rw [loops_append, List.pairwise_append]
    refine ⟨h.ascending, h'.ascending, fun number hNumber other hOther => ?_⟩
    exact Nat.lt_of_le_of_lt (h.bounds number hNumber).2 (h'.bounds other hOther).1
  bounds number hNumber := by
    rw [loops_append, List.mem_append] at hNumber
    rcases hNumber with hNumber | hNumber
    · exact ⟨(h.bounds number hNumber).1, Nat.le_trans (h.bounds number hNumber).2 h'.le⟩
    · exact ⟨Nat.lt_of_le_of_lt h.le (h'.bounds number hNumber).1, (h'.bounds number hNumber).2⟩
  le := Nat.le_trans h.le h'.le

theorem of_no_loops (h : loops stmts = []) (hLe : first ≤ last) : Counted first last stmts := by
  refine ⟨?_, ?_, hLe⟩ <;> simp [h]

/-- A statement that is no loop counts what it holds. -/
theorem holder (h : Counted first last stmts) (hInside : stmt.inside = insideAll stmts)
    (hNumber : stmt.loopNumber? = none) : Counted first last [stmt] := by
  have hLoops : loops [stmt] = loops stmts := by
    rw [loops, insideAll, insideAll, List.append_nil, hInside, List.filterMap_cons_none hNumber]
    rfl
  exact ⟨hLoops ▸ h.ascending, hLoops ▸ h.bounds, h.le⟩

/-- A loop takes its number before those that it holds. -/
theorem loop (h : Counted number last stmts) (hFirst : first < number)
    (hInside : stmt.inside = insideAll stmts) (hNumber : stmt.loopNumber? = some number) :
    Counted first last [stmt] := by
  have hLoops : loops [stmt] = number :: loops stmts := by
    rw [loops, insideAll, insideAll, List.append_nil, hInside, List.filterMap_cons_some hNumber]
    rfl
  refine ⟨?_, fun inner hInner => ?_, Nat.le_trans (Nat.le_of_lt hFirst) h.le⟩
  · rw [hLoops, List.pairwise_cons]
    exact ⟨fun inner hInner => (h.bounds inner hInner).1, h.ascending⟩
  · rw [hLoops, List.mem_cons] at hInner
    rcases hInner with rfl | hInner
    · exact ⟨hFirst, h.le⟩
    · exact ⟨Nat.lt_trans hFirst (h.bounds inner hInner).1, (h.bounds inner hInner).2⟩

end Counted

namespace Outlined

variable {loop : Option Nat} {first second third last number : Nat}
  {outline outline' : List (Outline JumpKind)} {stmts stmts' : List CStmt}

theorem append (h : Outlined loop first second outline stmts)
    (h' : Outlined loop second last outline' stmts') :
    Outlined loop first last (outline ++ outline') (stmts ++ stmts') where
  outline := by rw [outlineAll_append, h.outline, h'.outline]
  targets := targetsAll_append.mpr ⟨h.targets, h'.targets⟩
  counted := h.counted.append h'.counted

/-- Statements with neither loops nor jumps. -/
theorem flat (hFlat : ∀ stmt ∈ stmts, stmt.isFlat = true) (hLe : first ≤ last) :
    Outlined loop first last [] stmts := by
  suffices outlineAll stmts = [] ∧ TargetsAll loop stmts ∧ loops stmts = [] from
    ⟨this.1, this.2.1, .of_no_loops this.2.2 hLe⟩
  induction stmts with
  | nil => exact ⟨rfl, trivial, rfl⟩
  | cons stmt rest ih =>
      obtain ⟨hOutline, hTargets, hLoops⟩ := ih fun other hOther => hFlat other (.tail stmt hOther)
      have hStmt := hFlat stmt List.mem_cons_self
      have hSelf : stmt.outline = [] ∧ stmt.Targets loop ∧ loops [stmt] = [] := by
        cases stmt with
        | jump | ifElse | block | loop | rangeLoop | switch | arm => cases hStmt
        | _ => exact ⟨rfl, trivial, rfl⟩
      refine ⟨by rw [outlineAll, hSelf.1, hOutline, List.nil_append], ⟨hSelf.2.1, hTargets⟩, ?_⟩
      rw [← List.singleton_append, loops_append, hSelf.2.2, hLoops, List.nil_append]

theorem jump (hLoop : loop = some number) :
    Outlined loop first first [.jump kind] [.jump kind number] :=
  ⟨rfl, ⟨hLoop, trivial⟩, .of_no_loops rfl (Nat.le_refl first)⟩

theorem block (h : Outlined loop first last outline stmts) :
    Outlined loop first last outline [.block stmts] where
  outline := (List.append_nil _).trans h.outline
  targets := ⟨h.targets, trivial⟩
  counted := h.counted.holder rfl rfl

theorem arm (h : Outlined loop first last outline stmts) (tests : List CExpr) :
    Outlined loop first last outline [.arm tests stmts] where
  outline := (List.append_nil _).trans h.outline
  targets := ⟨h.targets, trivial⟩
  counted := h.counted.holder rfl rfl

theorem ifElse {elseBody : Option (List CStmt)} (h : Outlined loop first second outline stmts)
    (h' : Outlined loop second last outline' (elseBody.getD [])) (cond : CExpr) :
    Outlined loop first last (outline ++ outline') [.ifElse cond stmts elseBody] where
  outline := by
    rw [outlineAll, outlineAll, List.append_nil, CStmt.outline, outlineElse_eq, h.outline,
      h'.outline]
  targets := ⟨⟨h.targets, targetsElse_iff.mpr h'.targets⟩, trivial⟩
  counted := (h.counted.append h'.counted).holder
    (by rw [inside, insideAll_append, insideElse_eq]) rfl

theorem switch (h : Outlined loop first second outline stmts)
    (h' : Outlined loop second last outline' stmts') (subject : CExpr) :
    Outlined loop first last (outline ++ outline') [.switch subject stmts stmts'] where
  outline := by
    rw [outlineAll, outlineAll, List.append_nil, CStmt.outline, h.outline, h'.outline]
  targets := ⟨⟨h.targets, h'.targets⟩, trivial⟩
  counted := (h.counted.append h'.counted).holder (by rw [inside, insideAll_append]) rfl

theorem loop_of_parts {post : List CStmt} (hFirst : first < number)
    (hTest : Outlined loop number second [] test)
    (hBody : Outlined (some number) second third outline body)
    (hPost : Outlined loop third last outline' post) (cond : Option CExpr) :
    Outlined loop first last [.loop outline outline'] [.loop number test cond body post] where
  outline := by
    rw [outlineAll, outlineAll, List.append_nil, CStmt.outline, hTest.outline, hBody.outline,
      hPost.outline, List.nil_append]
  targets := ⟨⟨hTest.targets, hBody.targets, hPost.targets⟩, trivial⟩
  counted := ((hTest.counted.append hBody.counted).append hPost.counted).loop hFirst
    (by rw [inside, insideAll_append, insideAll_append]) rfl

theorem rangeLoop_of_parts {fetch : List CStmt} (hFirst : first < number)
    (hFetch : Outlined loop number second [] fetch)
    (hBody : Outlined (some number) second last outline body) (index limit : String) :
    Outlined loop first last [.loop outline []] [.rangeLoop number index limit fetch body] where
  outline := by
    rw [outlineAll, outlineAll, List.append_nil, CStmt.outline, hFetch.outline, hBody.outline,
      List.nil_append]
  targets := ⟨⟨hFetch.targets, hBody.targets⟩, trivial⟩
  counted := (hFetch.counted.append hBody.counted).loop hFirst
    (by rw [inside, insideAll_append]) rfl

end Outlined

/-! ## Labels that tell loops apart -/

theorem JumpKind.label_inj {kind' : JumpKind} {number' : Nat}
    (h : kind.label number = kind'.label number') : kind = kind' ∧ number = number' := by
  have hChars := congrArg String.toList h
  cases kind with
  | leave =>
      cases kind' with
      | leave =>
          have hSame :
              ("Break_" ++ toString number).toList = ("Break_" ++ toString number').toList :=
            hChars
          simp only [String.toList_append, List.append_cancel_left_eq] at hSame
          exact ⟨rfl, LocalName.toString_injective (String.toList_injective hSame)⟩
      | again =>
          have hOther :
              ("Break_" ++ toString number).toList = ("Cont_" ++ toString number').toList :=
            hChars
          simp [String.toList_append] at hOther
  | again =>
      cases kind' with
      | leave =>
          have hOther :
              ("Cont_" ++ toString number).toList = ("Break_" ++ toString number').toList :=
            hChars
          simp [String.toList_append] at hOther
      | again =>
          have hSame : ("Cont_" ++ toString number).toList = ("Cont_" ++ toString number').toList :=
            hChars
          simp only [String.toList_append, List.append_cancel_left_eq] at hSame
          exact ⟨rfl, LocalName.toString_injective (String.toList_injective hSame)⟩

theorem mem_labelsOf {label : String} :
    label ∈ labelsOf number ↔ ∃ kind : JumpKind, label = kind.label number := by
  constructor
  · intro h
    rcases List.mem_cons.mp h with rfl | h
    · exact ⟨.again, rfl⟩
    · exact ⟨.leave, List.mem_singleton.mp h⟩
  · rintro ⟨kind, rfl⟩
    cases kind with
    | again => exact List.mem_cons_self
    | leave => exact .tail _ List.mem_cons_self

/-- Loops with different numbers define different labels. -/
theorem nodup_flatMap_labelsOf {numbers : List Nat} (h : numbers.Nodup) :
    (numbers.flatMap labelsOf).Nodup := by
  rw [List.nodup_flatMap]
  refine ⟨fun number _ => ?_, h.imp fun hDiffer label hLabel hOther => hDiffer ?_⟩
  · rw [labelsOf, List.nodup_cons, List.mem_singleton]
    refine ⟨fun hSame => ?_, List.nodup_singleton _⟩
    cases (JumpKind.label_inj hSame).1
  · obtain ⟨kind, rfl⟩ := mem_labelsOf.mp hLabel
    obtain ⟨kind', hSame⟩ := mem_labelsOf.mp hOther
    exact (JumpKind.label_inj hSame).2

/-- The statements of a routine with the loops and jumps of a source: every jump leads to the
innermost loop around it, which has its label in one place. -/
structure JumpsLike (source : List Stmt) (body : List CStmt) : Prop where
  outline : outlineAll body = Outline.mapAll Prod.fst (outlinesOf source)
  targets : TargetsAll none body
  labelled : ∀ label ∈ gotos body, (labels body).count label = 1

theorem Outlined.jumpsLike {source : List Stmt} {first last : Nat}
    (h : Outlined none first last (Outline.mapAll Prod.fst (outlinesOf source)) body) :
    JumpsLike source body where
  outline := h.outline
  targets := h.targets
  labelled label hLabel := by
    have hDistinct : (loops body).Nodup := h.counted.ascending.imp Nat.ne_of_lt
    refine List.count_eq_one_of_mem (nodup_flatMap_labelsOf hDistinct) ?_
    obtain ⟨⟨kind, number⟩, hEntry, rfl⟩ := List.mem_map.mp hLabel
    have hNumber := (TargetsAll.lead body h.targets _ hEntry).resolve_left nofun
    exact List.mem_flatMap.mpr ⟨number, hNumber, mem_labelsOf.mpr ⟨kind, rfl⟩⟩

/-! ## Runs that write flat statements -/

/-- Only flat statements are written, after what was written before. -/
def Routine.Appends (routine after : Routine) : Prop :=
  (∃ stmts, after.body.toList = routine.body.toList ++ stmts ∧
    ∀ stmt ∈ stmts, stmt.isFlat = true) ∧ routine.supply.serial ≤ after.supply.serial

namespace Routine.Appends

variable {routine middle after : Routine}

theorem trans (h : routine.Appends middle) (h' : middle.Appends after) : routine.Appends after := by
  obtain ⟨⟨stmts, hStmts, hFlat⟩, hSerial⟩ := h
  obtain ⟨⟨others, hOthers, hFlat'⟩, hSerial'⟩ := h'
  refine ⟨⟨stmts ++ others, by rw [hOthers, hStmts, List.append_assoc], fun stmt hStmt => ?_⟩,
    Nat.le_trans hSerial hSerial'⟩
  exact (List.mem_append.mp hStmt).elim (hFlat stmt) (hFlat' stmt)

end Routine.Appends

theorem Composed.appended_flat {α : Type} {action : RoutineM α}
    (h : Composed extent limits action) (hExtent : extent.nests = false) {value : α}
    (hRun : action.exec env routine = (.ok value, after)) : routine.Appends after :=
  ⟨(h.writes hExtent hRun).2, (h.advances hRun).serial⟩

/-! ## Runs that write an outline -/

/-- An outline is written after what was written before. -/
def Routine.Lays (loop : Option Nat) (outline : List (Outline JumpKind)) (routine after : Routine) :
    Prop :=
  ∃ stmts, after.body.toList = routine.body.toList ++ stmts ∧
    Outlined loop routine.supply.serial after.supply.serial outline stmts

/-- An action that writes an outline whenever it succeeds. -/
def RoutineM.Lays {α : Type} (action : RoutineM α) (outline : List (Outline JumpKind)) : Prop :=
  ∀ env routine value after, action.exec env routine = (.ok value, after) →
    routine.Lays env.loop outline after

theorem Routine.Appends.lays (h : routine.Appends after) (loop : Option Nat) :
    routine.Lays loop [] after := by
  obtain ⟨⟨stmts, hStmts, hFlat⟩, hSerial⟩ := h
  exact ⟨stmts, hStmts, .flat hFlat hSerial⟩

theorem Routine.Lays.trans {loop : Option Nat} {outline outline' : List (Outline JumpKind)}
    (h : routine.Lays loop outline middle) (h' : middle.Lays loop outline' after) :
    routine.Lays loop (outline ++ outline') after := by
  obtain ⟨stmts, hStmts, hOutlined⟩ := h
  obtain ⟨others, hOthers, hOutlined'⟩ := h'
  exact ⟨stmts ++ others, by rw [hOthers, hStmts, List.append_assoc], hOutlined.append hOutlined'⟩

namespace RoutineM.Lays

variable {α β : Type} {outline outline' : List (Outline JumpKind)} {env : Env}
  {routine after : Routine}

theorem of_composed {action : RoutineM α} (h : Composed extent limits action)
    (hExtent : extent.nests = false) : action.Lays [] :=
  fun env _ _ _ hRun => (h.appended_flat hExtent hRun).lays env.loop

theorem pure (value : α) : (pure value : RoutineM α).Lays [] :=
  of_composed (Composed.pure value : Composed .expr .any _) rfl

theorem bind {action : RoutineM α} {next : α → RoutineM β} (h : action.Lays outline)
    (hNext : ∀ value, (next value).Lays outline') :
    (action >>= next).Lays (outline ++ outline') := by
  intro env routine value after hRun
  obtain ⟨first, middle, hFirst, hRest⟩ := bind_eq_ok.mp hRun
  exact (h env routine first middle hFirst).trans (hNext first env middle value after hRest)

/-- What only writes flat statements comes before an outline. -/
theorem skip {action : RoutineM α} {next : α → RoutineM β} (h : action.Lays [])
    (hNext : ∀ value, (next value).Lays outline) : (action >>= next).Lays outline :=
  .bind h hNext

theorem inScope {action : RoutineM α} (h : action.Lays outline) :
    (RoutineM.inScope action).Lays outline := by
  intro env routine value after hRun
  obtain ⟨inner, hInner, rfl⟩ := inScope_eq_ok.mp hRun
  have hLays := h env _ value inner hInner
  exact hLays

/-- What is captured is an outline of its own. -/
theorem captured {action : RoutineM α} (h : action.Lays outline) {value : α}
    (hRun : (capture action).exec env routine = (.ok (value, stmts), after)) :
    after.body = routine.body ∧
      Outlined env.loop routine.supply.serial after.supply.serial outline stmts := by
  obtain ⟨inner, hInner, rfl, rfl⟩ := capture_eq_ok.mp hRun
  obtain ⟨stmts, hStmts, hOutlined⟩ := h env _ value inner hInner
  refine ⟨rfl, ?_⟩
  rw [hStmts]
  exact hOutlined

/-- A block of its own. -/
theorem block {action : RoutineM Unit} (h : action.Lays outline)
    (hRun : (StmtRule.block action).exec env routine = (.ok stmts, after)) :
    after.body = routine.body ∧
      Outlined env.loop routine.supply.serial after.supply.serial outline stmts := by
  obtain ⟨⟨_, found⟩, middle, hCapture, hDone⟩ := bind_eq_ok.mp hRun
  cases hDone
  exact h.inScope.captured hCapture

theorem optBlock {action : Option (RoutineM Unit)} (h : ∀ inner ∈ action, inner.Lays outline)
    (hNone : action = none → outline = []) {body : Option (List CStmt)}
    (hRun : (StmtRule.optBlock action).exec env routine = (.ok body, after)) :
    after.body = routine.body ∧
      Outlined env.loop routine.supply.serial after.supply.serial outline (body.getD []) := by
  cases action with
  | none =>
      cases hRun
      rw [hNone rfl]
      exact ⟨rfl, .flat (by simp) (Nat.le_refl _)⟩
  | some inner =>
      obtain ⟨stmts, hBlock, rfl⟩ := map_eq_ok.mp hRun
      exact (h inner rfl).block hBlock

/-- A statement that is written after parts of it were kept back. -/
theorem emitted {stmt : CStmt} (hBody : middle.body = routine.body)
    (h : Outlined env.loop routine.supply.serial middle.supply.serial outline [stmt])
    (hRun : (emit stmt).exec env middle = (.ok (), after)) :
    routine.Lays env.loop outline after := by
  cases hRun
  exact ⟨[stmt], by rw [Array.toList_push, hBody], h⟩

/-! ## Statements of all forms -/

theorem jump (kind : JumpKind) (span : Span) : (StmtRule.jump kind span).Lays [.jump kind] := by
  intro env routine value after hRun
  obtain ⟨found, middle, hRead, hRun⟩ := bind_eq_ok.mp hRun
  cases hRead
  split at hRun
  · next number hLoop => exact emitted rfl (.jump hLoop) hRun
  · cases hRun

theorem loopTest (h : ∀ operand ∈ cond, operand.Composed .expr .any) {value : Option CExpr}
    (hRun : (StmtRule.loopTest cond).exec env routine = (.ok (test, value), after)) :
    after.body = routine.body ∧
      Outlined env.loop routine.supply.serial after.supply.serial [] test := by
  cases cond with
  | none =>
      cases hRun
      exact ⟨rfl, .flat (by simp) (Nat.le_refl _)⟩
  | some operand =>
      obtain ⟨⟨found, stmts⟩, middle, hCapture, hDone⟩ := bind_eq_ok.mp hRun
      cases hDone
      exact (of_composed (Composed.value (h operand rfl)) rfl).captured hCapture

theorem loop {body : RoutineM Unit} (hCond : ∀ operand ∈ cond, operand.Composed .expr .any)
    (hBody : body.Lays outline) (hPost : (post.getD (Pure.pure ())).Lays outline') :
    (StmtRule.loop cond post body).Lays [.loop outline outline'] := by
  intro env routine value after hRun
  unfold StmtRule.loop at hRun
  simp only [bind_eq_ok] at hRun
  obtain ⟨number, first, hNumber, ⟨test, found⟩, second, hTest, stmts, third, hRounds,
    ⟨_, others⟩, fourth, hBetween, hEmit⟩ := hRun
  cases hNumber
  obtain ⟨hSecond, hTest⟩ := loopTest hCond hTest
  obtain ⟨hThird, hRounds⟩ := hBody.block hRounds
  obtain ⟨hFourth, hBetween⟩ := hPost.captured hBetween
  refine emitted ?_ (.loop_of_parts (Nat.lt_succ_self _) hTest hRounds hBetween found) hEmit
  rw [hFourth, hThird, hSecond]

theorem forLoop {init : Option (RoutineM Unit)} {body : RoutineM Unit}
    {outline'' : List (Outline JumpKind)} (hInit : (init.getD (Pure.pure ())).Lays outline'')
    (hCond : ∀ operand ∈ cond, operand.Composed .expr .any) (hBody : body.Lays outline)
    (hPost : (post.getD (Pure.pure ())).Lays outline') :
    (StmtRule.forLoop init cond post body).Lays (outline'' ++ [.loop outline outline']) :=
  .inScope (.bind hInit fun _ => .loop hCond hBody hPost)

/-- The statements that set the variables of a round hold no others. -/
theorem isFlat_rangeFetch {source index : String} {elem value : Option String} :
    ∀ stmt ∈ StmtRule.rangeFetch source index elem key value, stmt.isFlat = true := by
  intro stmt hStmt
  rcases List.mem_append.mp hStmt with hStmt | hStmt
  · obtain ⟨name, -, rfl⟩ := List.mem_map.mp hStmt
    rfl
  · obtain ⟨name, -, rfl⟩ := List.mem_map.mp hStmt
    cases elem <;> rfl

theorem rangeLoop {value : Option String} {collection : Operand} {body : RoutineM Unit}
    (span : Span) (hCollection : collection.Composed .expr .any) (hBody : body.Lays outline) :
    (StmtRule.rangeLoop key value collection body span).Lays [.loop outline []] := by
  refine .inScope fun env routine result after hRun => ?_
  simp only [bind_eq_ok] at hRun
  obtain ⟨source, first, hSource, ⟨elemType, elem⟩, second, hElement, number, third, hNumber,
    copy, fourth, hCopy, index, fifth, hIndex, limit, sixth, hLimit, _, seventh, hSeventh,
    _, eighth, hEighth, _, ninth, hNinth, keyName, tenth, hKey, valueName, eleventh, hValue,
    stmts, twelfth, hRounds, hEmit⟩ := hRun
  have hElements : Composed .expr .any (StmtRule.rangeElement source collection.span) :=
    .rangeElement _ _ trivial
  have hBefore := ((Composed.value hCollection).appended_flat rfl hSource).trans
    (hElements.appended_flat rfl hElement)
  cases hNumber
  have hTemp (type : Ty) : Composed .expr .any (RoutineM.temp type span) := .temp _ _ trivial
  have hName (name : Option String) (type : Ty) :
      Composed .simple .any (StmtRule.rangeLocal name type span) :=
    .rangeLocal _ _ (fun _ _ => trivial) trivial
  have hEmitted {stmt : CStmt} {before after : Routine} (hFlat : stmt.isFlat = true)
      (hRun : (emit stmt).exec env before = (.ok (), after)) : before.Appends after :=
    (Composed.emit stmt (.inr hFlat) : Composed .expr .any _).appended_flat rfl hRun
  obtain ⟨⟨flats, hFlats, hFlat⟩, hSerial⟩ := ((hTemp _).appended_flat rfl hCopy).trans <|
    ((hTemp _).appended_flat rfl hIndex).trans <| ((hTemp _).appended_flat rfl hLimit).trans <|
    (hEmitted rfl hSeventh).trans <| (hEmitted rfl hEighth).trans <|
    (hEmitted rfl hNinth).trans <| ((hName _ _).appended_flat rfl hKey).trans <|
    (hName _ _).appended_flat rfl hValue
  obtain ⟨hTwelfth, hRounds⟩ := hBody.block hRounds
  cases hEmit
  have hFetch : ∀ stmt ∈ StmtRule.rangeFetch copy index elem keyName valueName,
      stmt.isFlat = true := isFlat_rangeFetch
  -- The number is taken before the statements that come ahead of the loop are written.
  refine (hBefore.lays env.loop).trans ⟨flats ++ [_], ?_, .append (.flat hFlat (Nat.le_refl _))
    (.rangeLoop_of_parts (Nat.lt_succ_self _) (.flat hFetch hSerial) hRounds index limit)⟩
  rw [Array.toList_push, hTwelfth, hFlats, List.append_assoc]

theorem ifElse {cond : Operand} {thenBody : RoutineM Unit} {elseBody : Option (RoutineM Unit)}
    (hCond : cond.Composed .expr .any) (hThen : thenBody.Lays outline)
    (hElse : ∀ inner ∈ elseBody, inner.Lays outline') (hNone : elseBody = none → outline' = []) :
    (StmtRule.ifElse cond thenBody elseBody).Lays (outline ++ outline') := by
  intro env routine result after hRun
  unfold StmtRule.ifElse at hRun
  simp only [bind_eq_ok] at hRun
  obtain ⟨value, first, hValue, stmts, second, hStmts, others, third, hOthers, hEmit⟩ := hRun
  obtain ⟨hSecond, hStmts⟩ := hThen.block hStmts
  obtain ⟨hThird, hOthers⟩ := optBlock hElse hNone hOthers
  have hBefore := (of_composed (Composed.value hCond) rfl) env routine value first hValue
  exact hBefore.trans (emitted (hThird.trans hSecond) (.ifElse hStmts hOthers value.c) hEmit)

/-- The arms of a switch, once what they stand for is compiled. -/
theorem switchArms {tests : List (List CExpr)} (hCount : tests.length = arms.length)
    (h : List.Forall₂ (fun arm outline => RoutineM.Lays arm.2 outline) arms outlines)
    (hRun : (StmtRule.switchArms tests arms).exec env routine = (.ok stmts, after)) :
    after.body = routine.body ∧
      Outlined env.loop routine.supply.serial after.supply.serial outlines.flatten stmts := by
  induction h generalizing tests routine stmts with
  | nil =>
      cases List.length_eq_zero_iff.mp hCount
      cases hRun
      exact ⟨rfl, .flat (by simp) (Nat.le_refl _)⟩
  | @cons arm outline rest outlines hArm _ ih =>
      cases tests with
      | nil => cases hCount
      | cons first others =>
          simp only [StmtRule.switchArms, bind_eq_ok] at hRun
          obtain ⟨body, middle, hBody, found, last, hRest, hDone⟩ := hRun
          cases hDone
          obtain ⟨hMiddle, hBody⟩ := hArm.block hBody
          obtain ⟨hAfter, hRest⟩ := ih (Nat.succ.inj hCount) hRest
          exact ⟨hAfter.trans hMiddle, (hBody.arm first).append hRest⟩

theorem switch {subject : Option Operand} {fallback : Option (RoutineM Unit)}
    (hSubject : ∀ operand ∈ subject, operand.Composed .expr .any)
    (hTests : ∀ arm ∈ arms, ∀ operand ∈ arm.1, operand.Composed .expr .any)
    (hArms : List.Forall₂ (fun arm outline => RoutineM.Lays arm.2 outline) arms outlines)
    (hFallback : ∀ inner ∈ fallback, inner.Lays outline')
    (hNone : fallback = none → outline' = []) :
    (StmtRule.switch subject arms fallback).Lays (outlines.flatten ++ outline') := by
  have hRest (c : CExpr) : (do
      let tests ← StmtRule.switchTests arms
      let arms ← StmtRule.switchArms tests arms
      let fallback ← StmtRule.optBlock fallback
      emit (.switch c arms (fallback.getD []))).Lays (outlines.flatten ++ outline') := by
    intro env routine result after hRun
    simp only [bind_eq_ok] at hRun
    obtain ⟨tests, first, hFound, stmts, second, hStmts, others, third, hOthers, hEmit⟩ := hRun
    have hLength := StmtRule.switchTests_length_of_gives ⟨env, routine, first, hFound⟩
    obtain ⟨hSecond, hStmts⟩ := switchArms hLength hArms hStmts
    obtain ⟨hThird, hOthers⟩ := optBlock hFallback hNone hOthers
    have hBefore := of_composed (.switchTests hTests) rfl env routine tests first hFound
    exact hBefore.trans (emitted (hThird.trans hSecond) (.switch hStmts hOthers c) hEmit)
  unfold StmtRule.switch
  split
  · next operand =>
      exact .skip (of_composed (.value (hSubject operand rfl)) rfl) fun _ =>
        .skip (.pure _) fun _ => hRest _
  · exact .skip (.pure _) fun _ => hRest _

end RoutineM.Lays

/-! ## Statements of a source -/

open RoutineM Outline

theorem caseTests_composed (cases : List (SwitchCase Stmt)) :
    ∀ arm ∈ compileCases cases, ∀ operand ∈ arm.1,
      operand.Composed .expr .any := by
  induction cases with
  | nil => simp [compileCases]
  | cons case rest ih =>
      intro arm hArm
      rw [compileCases] at hArm
      rcases List.mem_cons.mp hArm with rfl | hArm
      · rw [compileCase]
        exact operands_composed .expr case.tests
      · exact ih arm hArm

/-- The outlines of the arms of a switch. -/
def armOutlines (cases : List (SwitchCase Stmt)) : List (List (Outline JumpKind)) :=
  cases.map fun case => mapAll Prod.fst (outlinesOf case.body)

theorem flatten_armOutlines (cases : List (SwitchCase Stmt)) :
    (armOutlines cases).flatten = mapAll Prod.fst (caseOutlines cases) := by
  induction cases with
  | nil => rfl
  | cons case rest ih =>
      rw [caseOutlines, mapAll_append, ← ih]
      rfl

mutual

/-- A statement is written with the loops and jumps that it has. -/
theorem compileStmt_lays : (stmt : Stmt) → (compileStmt stmt).Lays (mapAll Prod.fst stmt.outline)
  | .assign span op targets values => by
      rw [compileStmt]
      exact .of_composed (.assign span (fun _ _ _ => trivial) (operands_composed .simple targets)
        (operands_composed .simple values) trivial : Composed .simple .any _) rfl
  | .var span name type => by
      rw [compileStmt]
      exact .of_composed (.declare name span trivial (operand_composed .simple type) trivial :
        Composed .simple .any _) rfl
  | .ret span values => by
      rw [compileStmt]
      exact .of_composed (.ret span (operands_composed .simple values) trivial :
        Composed .simple .any _) rfl
  | .breakLoop span _ => by
      rw [compileStmt]
      exact .jump .leave span
  | .continueLoop span _ => by
      rw [compileStmt]
      exact .jump .again span
  | .whileLoop _ cond body => by
      rw [compileStmt]
      exact .loop (optOperand_composed .expr cond) (compileStmts_lays body) (.pure ())
  | .forLoop _ init cond post body => by
      rw [compileStmt, Stmt.outline, mapAll_append]
      exact .forLoop (compileOptStmt_lays init) (optOperand_composed .expr cond)
        (compileStmts_lays body) (compileOptStmt_lays post)
  | .rangeLoop span key value collection body => by
      rw [compileStmt]
      exact .rangeLoop span (operand_composed .expr collection) (compileStmts_lays body)
  | .ifElse _ cond thenBody elseBody => by
      rw [compileStmt, Stmt.outline, mapAll_append]
      exact .ifElse (operand_composed .expr cond) (compileStmts_lays thenBody)
        (compileOptStmts_lays elseBody).1 (compileOptStmts_lays elseBody).2
  | .switch _ subject cases fallback => by
      rw [compileStmt, Stmt.outline, mapAll_append, ← flatten_armOutlines]
      exact .switch (optOperand_composed .expr subject) (caseTests_composed cases)
        (compileCases_lay cases) (compileOptStmts_lays fallback).1 (compileOptStmts_lays fallback).2
  | .block _ body => by
      rw [compileStmt]
      intro env routine result after hRun
      obtain ⟨stmts, middle, hBlock, hEmit⟩ := bind_eq_ok.mp hRun
      obtain ⟨hMiddle, hStmts⟩ := (compileStmts_lays body).block hBlock
      exact Lays.emitted hMiddle hStmts.block hEmit

theorem compileStmts_lays : (body : List Stmt) →
    (compileStmts body).Lays (mapAll Prod.fst (outlinesOf body))
  | [] => by
      rw [compileStmts]
      exact .pure ()
  | stmt :: rest => by
      rw [compileStmts, outlinesOf, mapAll_append]
      exact .bind (compileStmt_lays stmt) fun _ => compileStmts_lays rest

theorem compileOptStmt_lays : (stmt : Option Stmt) →
    ((compileOptStmt stmt).getD (pure ())).Lays (mapAll Prod.fst (optOutline stmt))
  | none => by
      rw [compileOptStmt]
      exact .pure ()
  | some stmt => by
      rw [compileOptStmt, optOutline]
      exact compileStmt_lays stmt

theorem compileOptStmts_lays : (body : Option (List Stmt)) →
    (∀ inner ∈ compileOptStmts body, inner.Lays (mapAll Prod.fst (optOutlinesOf body))) ∧
      (compileOptStmts body = none → mapAll Prod.fst (optOutlinesOf body) = [])
  | none => by
      rw [compileOptStmts]
      exact ⟨by simp, fun _ => rfl⟩
  | some body => by
      rw [compileOptStmts, optOutlinesOf]
      refine ⟨fun inner hInner => ?_, nofun⟩
      rw [← Option.some.inj hInner]
      exact compileStmts_lays body

theorem compileCases_lay : (cases : List (SwitchCase Stmt)) →
    List.Forall₂ (fun arm outline => RoutineM.Lays arm.2 outline) (compileCases cases)
      (armOutlines cases)
  | [] => by
      rw [compileCases]
      exact .nil
  | ⟨_, body, _⟩ :: rest => by
      rw [compileCases, compileCase]
      exact .cons (compileStmts_lays body) (compileCases_lay rest)

end

/-- The body of a function is written with the loops and jumps that it has, and with no loop
around them. -/
theorem compileBody_lays {func : FuncType Ty} {body : List Stmt} {span : Span} {supply : Supply}
    (hLoop : env.loop = none)
    (hRun : (compileBody func body span).exec env (.start supply) = (.ok (), after)) :
    Outlined none supply.serial after.supply.serial (mapAll Prod.fst (outlinesOf body))
      after.body.toList := by
  obtain ⟨result, middle, hEnter, hRest⟩ := compileBody_eq_ok.mp hRun
  have hEntered : Composed .simple .any (enterFunc func span) :=
    enterFunc_composed func span (fun _ _ => trivial) trivial
  obtain ⟨stmts, hStmts, hOutlined⟩ := ((hEntered.appended_flat rfl hEnter).lays none).trans <|
    hLoop ▸ (compileStmts_lays body).inScope _ middle () after hRest
  have hAfter : after.body.toList = stmts := hStmts
  rw [hAfter]
  exact hOutlined

end GoToC
