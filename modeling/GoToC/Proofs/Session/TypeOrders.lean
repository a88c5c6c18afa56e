import GoToC.Proofs.Session.TypeTwins

/-!
# All types of a module in two orders

The steps of one session are taken in pairs with the steps of the other one that build the same
types. Each pair has a ledger of its own, of what was made between the numbers that the two steps
took. As no number is taken twice, all these ledgers fit together in the end.
-/

namespace GoToC

variable {handle : Handle} {bound : Nat} {c d : NamedType}

/-! ## Pairs of steps -/

/-- Two steps that build the same type, and what they have made. -/
structure TypePair where
  left : TypeStep
  right : TypeStep
  ledger : Ledger

section Pairs

variable {early : Prop} {job job' : Job} {ledger : Ledger} {start start' session session' : Session}
  {steps steps' : List TypeStep} {word : String → Prop}

/-- How the two steps of a pair see types. -/
def TypePair.pairing (early : Prop) (job job' : Job) (start start' : Session)
    (steps steps' : List TypeStep) (pair : TypePair) : Pairing :=
  .midway early job start start' pair.left.before pair.right.before
    (job.Stands start steps pair.left.index) (job'.Stands start' steps' pair.right.index)

/-- What is entered for a struct or an interface that takes the name of its declaration. -/
structure TypePair.Named (early : Prop) (job job' : Job) (start start' : Session)
    (steps steps' : List TypeStep) (pair : TypePair) (a b : NamedType) : Prop where
  left : pair.left.type = a.toTy
  right : pair.right.type = b.toTy
  types : ∃ tag, Operand.NamedTypes (pair.pairing early job job' start start' steps steps')
    pair.ledger tag pair.left.decl.name pair.left.decl.name job.package job.package a b

/-- The steps build the same declaration and came to the same. -/
structure TypePair.Good (early : Prop) (job job' : Job) (ledger : Ledger) (start start' : Session)
    (steps steps' : List TypeStep) (pair : TypePair) : Prop where
  left : pair.left ∈ steps
  name : pair.right.decl.name = pair.left.decl.name
  grows : ledger.Grows job.package pair.left.before.supply.serial pair.right.before.supply.serial
    pair.ledger
  valid : pair.ledger.Valid (pair.pairing early job job' start start' steps steps')
    pair.left.routine.supply.serial pair.right.routine.supply.serial
  made : Midway pair.ledger start.program.types start'.program.types
      (job.Stands start steps pair.left.index) (job'.Stands start' steps' pair.right.index)
      pair.left.type pair.right.type ∨
    ∃ a b, pair.Named early job job' start start' steps steps' a b

theorem TypePair.Named.mono {pair : TypePair} {more' : List TypeStep} {a b : NamedType}
    (h : pair.Named early job job' start start' steps steps' a b) (hSub : steps' ⊆ more') :
    pair.Named early job job' start start' steps more' a b := by
  obtain ⟨tag, hTypes⟩ := h.types
  refine ⟨h.left, h.right, tag, { hTypes with members := ?_ }⟩
  refine hTypes.members.imp fun _ _ => .imp fun _ _ => .imp fun _ _ hMidway => ?_
  exact Midway.imp hMidway (le_refl _) (fun _ _ => id) fun _ _ hOwn =>
    hOwn.mono hSub (Nat.le_refl _)

/-- More steps that are taken later change nothing. -/
theorem TypePair.Good.mono {pair : TypePair} {more' : List TypeStep}
    (h : pair.Good early job job' ledger start start' steps steps') (hSub : steps' ⊆ more') :
    pair.Good early job job' ledger start start' steps more' where
  left := h.left
  name := h.name
  grows := h.grows
  valid := h.valid.imp fun _ _ hMidway =>
    Midway.imp hMidway (le_refl _) (fun _ _ => id) fun _ _ hOwn => hOwn.mono hSub (Nat.le_refl _)
  made := by
    rcases h.made with hMidway | ⟨a, b, hNamed⟩
    · exact .inl (hMidway.imp (le_refl _) (fun _ _ => id) fun _ _ hOwn =>
        hOwn.mono hSub (Nat.le_refl _))
    · exact .inr ⟨a, b, hNamed.mono hSub⟩

namespace Job.Poised

/-- The handle of a type that was not built is not bound. -/
theorem unbound_right (h : job.Poised early job' ledger start start')
    (hRun' : job'.TypeRun start' steps' session') {name : String} {handle' : Handle}
    (hHandle : job.handle? start name = some handle)
    (hHandle' : job'.handle? session' name = some handle')
    (hNew : ∀ step ∈ steps', step.decl.name ≠ name) :
    session'.program.types.target? handle' = none := by
  obtain ⟨after, hAfter, hOwn⟩ := exists_global_of_handle? hHandle'
  have hGlobal := hRun'.global? name
  rw [hAfter] at hGlobal
  cases hBefore : start'.program.global? job'.id name with
  | none =>
      rw [hBefore] at hGlobal
      cases hGlobal
  | some before =>
      rw [hBefore] at hGlobal
      have hName := (Program.Has.of_global? hBefore).2
      have hNone : after.value = none := by
        cases hGlobal with
        | some hBuilt =>
            rcases hBuilt.value with ⟨hSame, -⟩ | ⟨step, hStep, hStepName, -⟩
            · exact hSame.trans (h.untyped_right hHandle hBefore)
            · exact absurd (hStepName.trans hName) (hNew step hStep)
      exact (hRun'.tidy h.twin.right).pending job'.id after handle'
        (Program.Has.of_global? hAfter).1 hNone hOwn

/-- The second session builds what the first one has built. -/
theorem buildType (h : job.Poised early job' ledger start start')
    (hRun : job.TypeRun start steps session) (hRun' : job'.TypeRun start' steps' session')
    {step : TypeStep} (hStep : step ∈ steps) {decl' : TypeDecl}
    (hBare : step.decl.bare = decl'.bare)
    (hType : step.decl.type.IsType word) (hNew : ∀ step ∈ steps', step.decl.name ≠ decl'.name) :
    Runs (fun _ failure => failure.Excused early) session' (SessionM.buildType job' decl')
      fun entry after => ∃ pair : TypePair, pair.left = step ∧ pair.right.decl = decl' ∧
        pair.Good early job job' ledger start start' steps (pair.right :: steps') ∧
          entry = (pair.right.type, decl'.span) ∧
            job'.TypeRun start' (pair.right :: steps') after := by
  obtain ⟨hName, hTypes⟩ : step.decl.name = decl'.name ∧ step.decl.type.bare = decl'.type.bare := by
    simpa [TypeDecl.bare] using hBare
  obtain ⟨earlier, hSub, hIndex, hEarlier, hTaken⟩ := hRun.earlier hStep
  have hHandle := hRun.handle_eq hStep
  rw [hName] at hHandle
  obtain ⟨handle', hHandle'⟩ := h.exists_handle hHandle
  rw [← hRun'.handle?] at hHandle'
  have hUnbound := h.unbound_right hRun' hHandle hHandle' hNew
  let p : Pairing := .midway early job start start' step.before session'
    (job.Stands start steps step.index) (job'.Stands start' steps' steps'.length)
  have hEnv : (job.env step.before).Twin p ledger (job'.env session') :=
    h.env hEarlier hRun' (fun _ _ hOwn => hOwn.mono hSub (Nat.le_of_eq hIndex)) fun _ _ hOwn => hOwn
  have hStart : ledger.Valid p start.supply.serial start'.supply.serial :=
    h.twin.valid.imp fun _ _ => Midway.built
  have hValid := hStart.mono hEarlier.serial_le hRun'.serial_le
  have hRoutine :
      (Routine.start step.before.supply).Twin p ledger (Routine.start session'.supply) :=
    ⟨.cons .nil .nil, rfl, rfl, hValid⟩
  have hOutcome := compileNamedType_retraces hType hTypes step.decl.name hEnv hRoutine hTaken.run
  rw [Runs, buildType_exec hHandle' hUnbound steps'.length, ← hName]
  cases hExec : (compileNamedType decl'.type step.decl.name).exec (job'.env session')
      (Routine.start session'.supply) with
  | mk result routine' =>
      rw [hExec] at hOutcome
      cases hOutcome with
      | failed hExcused => exact hExcused
      | @ok type' _ grown hGrows _ _ hAfter hMade =>
          let other : TypeStep := ⟨decl', steps'.length, session', handle', type', routine'⟩
          let pair : TypePair := ⟨step, other, grown⟩
          have hGood : pair.Good early job job' ledger start start' steps steps' := by
            refine ⟨hStep, hName.symm, hGrows, hAfter.valid, ?_⟩
            rcases hMade with hMidway | ⟨a, b, tag, ha, hb, hTypes⟩
            · exact .inl hMidway
            · exact .inr ⟨a, b, ha, hb, tag, hTypes⟩
          have hTaken' : other.Taken job' := ⟨hHandle', hUnbound, hName ▸ hExec⟩
          exact ⟨pair, rfl, rfl, hGood.mono (List.subset_cons_self _ _), rfl,
            .cons hRun' rfl hTaken'⟩

/-- The second session builds all types that the first one has built. -/
theorem buildAll (h : job.Poised early job' ledger start start')
    (hRun : job.TypeRun start steps session) {decls' : List TypeDecl}
    (hBare : ∀ decl' ∈ decls', ∃ step ∈ steps, step.decl.bare = decl'.bare)
    (hTypes : ∀ step ∈ steps, step.decl.type.IsType word)
    (hDistinct : (decls'.map (·.name)).Nodup) :
    Runs (fun _ failure => failure.Excused early) start' (decls'.mapM (SessionM.buildType job'))
      fun built after => ∃ pairs : List TypePair, job'.TypeRun start' (pairs.map (·.right)) after ∧
        (∀ pair ∈ pairs, pair.Good early job job' ledger start start' steps (pairs.map (·.right))) ∧
          (pairs.map (·.right.decl)).reverse = decls' ∧
            built = pairs.reverse.map fun pair => (pair.right.type, pair.right.decl.span) := by
  refine (Runs.mapM (fun rest done after => ∃ pairs : List TypePair,
    job'.TypeRun start' (pairs.map (·.right)) after ∧
      (∀ pair ∈ pairs, pair.Good early job job' ledger start start' steps (pairs.map (·.right))) ∧
        (pairs.map (·.right.decl)).reverse ++ rest = decls' ∧
          done = pairs.reverse.map fun pair => (pair.right.type, pair.right.decl.span))
    ⟨[], .nil, by simp, rfl, rfl⟩ ?_).mono fun built after hAfter => ?_
  · rintro decl' rest done before ⟨pairs, hRun', hGood, hDecls, rfl⟩
    obtain ⟨step, hStep, hSame⟩ := hBare decl' (by rw [← hDecls]; simp)
    have hNew : ∀ step ∈ pairs.map (·.right), step.decl.name ≠ decl'.name := by
      intro other hOther hName
      obtain ⟨pair, hPair, rfl⟩ := List.mem_map.mp hOther
      rw [← hDecls, List.map_append, List.nodup_append] at hDistinct
      refine hDistinct.2.2 pair.right.decl.name ?_ decl'.name (by simp) hName
      simp only [List.map_reverse, List.mem_reverse, List.map_map]
      exact List.mem_map_of_mem hPair
    refine (h.buildType hRun hRun' hStep hSame (hTypes step hStep) hNew).mono
      fun entry after hAfter => ?_
    obtain ⟨pair, -, rfl, hOwn, rfl, hLast⟩ := hAfter
    refine ⟨pair :: pairs, hLast, fun other hOther => ?_, ?_, ?_⟩
    · rcases List.mem_cons.mp hOther with rfl | hOther
      · exact hOwn
      · exact (hGood other hOther).mono (List.subset_cons_self _ _)
    · rw [← hDecls]
      simp
    · simp
  · simpa using hAfter

end Job.Poised

/-! ## What handles lead to -/

/-- The parts of a shape can be inspected, going down no more than the given number of levels. -/
def TypeStore.PartsValid (store : TypeStore) (levels : Nat) : Ty → Prop
  | .pointer inner => store.validateWithin levels inner = .ok ()
  | .slice elem => store.validateWithin levels elem = .ok ()
  | .map key value =>
      store.validateWithin levels key = .ok () ∧ store.validateWithin levels value = .ok ()
  | _ => True

theorem TypeStore.exists_of_validateWithin {store : TypeStore} {levels : Nat} {type : Ty}
    (h : store.validateWithin levels type = .ok ()) :
    ∃ fewer shape, levels = fewer + 1 ∧ store.resolve type = .ok shape ∧
      store.PartsValid fewer shape := by
  cases levels with
  | zero => cases h
  | succ fewer =>
      rw [validateWithin] at h
      cases hShape : store.resolve type with
      | error cause =>
          rw [hShape] at h
          cases h
      | ok shape =>
          rw [hShape] at h
          refine ⟨fewer, shape, rfl, rfl, ?_⟩
          cases shape with
          | pointer inner => exact h
          | slice elem => exact h
          | map key value =>
              have hParts : (store.validateWithin fewer key >>= fun _ =>
                store.validateWithin fewer value) = .ok () := h
              obtain ⟨_, hKey, hValue⟩ := exceptBind_eq_ok hParts
              exact ⟨hKey, hValue⟩
          | _ => trivial

/-- Everything that two sessions have made once all types are built. -/
def TypePair.entries (early : Prop) (job job' : Job) (ledger : Ledger) (start start' : Session)
    (steps : List TypeStep) (pairs : List TypePair) : Ledger where
  twins a b := ledger.twins a b ∨ ∃ pair ∈ pairs, pair.ledger.twins a b ∨
    pair.Named early job job' start start' steps (pairs.map (·.right)) a b

/-- Two sessions that have built the same types, and those of the first one passed the check. -/
structure Job.Matched (early : Prop) (job job' : Job) (ledger : Ledger) (start start' : Session)
    (steps : List TypeStep) (pairs : List TypePair) (after after' : Session) : Prop where
  poised : job.Poised early job' ledger start start'
  left : job.TypeRun start steps after
  right : job'.TypeRun start' (pairs.map (·.right)) after'
  good : ∀ pair ∈ pairs, pair.Good early job job' ledger start start' steps (pairs.map (·.right))
  complete : ∀ step ∈ steps, ∃ pair ∈ pairs, pair.left = step
  covers : ∀ global handle, start.program.Has job.id global → global.handle = some handle →
    ∃ step ∈ steps, step.decl.name = global.name
  plain : ∀ step ∈ steps, ¬ Reserved step.decl.name
  valid : ∀ step ∈ steps, after.program.types.validate step.type = .ok ()

namespace Job.Matched

variable {pairs : List TypePair} {after after' : Session} {pair other : TypePair} {name : String}
  {a b : Ty}

theorem ledger_le_entries :
    ledger ≤ TypePair.entries early job job' ledger start start' steps pairs := fun _ _ => .inl

theorem le_entries (hPair : pair ∈ pairs) :
    pair.ledger ≤ TypePair.entries early job job' ledger start start' steps pairs :=
  fun _ _ hTwins => .inr ⟨pair, hPair, .inl hTwins⟩

variable (h : job.Matched early job' ledger start start' steps pairs after after')

include h

theorem exists_step (hHandle : job.handle? start name = some handle) :
    ∃ step ∈ steps, step.decl.name = name := by
  obtain ⟨global, hGlobal, hOwn⟩ := exists_global_of_handle? hHandle
  obtain ⟨hHas, rfl⟩ := Program.Has.of_global? hGlobal
  exact h.covers global handle hHas hOwn

theorem eq_of_right (hPair : pair ∈ pairs) (hOther : other ∈ pairs)
    (hSame : pair.right = other.right) : pair = other :=
  List.inj_on_of_nodup_map h.right.nodup hPair hOther hSame

theorem eq_of_name (hPair : pair ∈ pairs) (hOther : other ∈ pairs)
    (hName : pair.left.decl.name = other.left.decl.name) : pair = other := by
  refine h.eq_of_right hPair hOther (h.right.eq_of_name (List.mem_map_of_mem hPair)
    (List.mem_map_of_mem hOther) ?_)
  rw [(h.good pair hPair).name, (h.good other hOther).name, hName]

theorem right_handle (hPair : pair ∈ pairs) :
    job'.handle? start' pair.left.decl.name = some pair.right.handle := by
  rw [← (h.good pair hPair).name]
  exact h.right.handle_eq (List.mem_map_of_mem hPair)

/-- What a name stands for in the second session leads to the type of that name. -/
theorem alike_right {entries : Ledger} (hPair : pair ∈ pairs)
    (hAlike : Alike entries after.program.types after'.program.types a pair.right.type)
    (hOwn : job'.Stands start' (pairs.map (·.right)) bound pair.left.decl.name b) :
    Alike entries after.program.types after'.program.types a b := by
  rcases hOwn with ⟨handle, hHandle, rfl⟩ | ⟨step, hStep, -, hName, rfl⟩
  · rw [h.right_handle hPair] at hHandle
    rw [← Option.some.inj hHandle]
    exact .right (h.right.target? (List.mem_map_of_mem hPair)) hAlike
  · obtain ⟨found, hFound, rfl⟩ := List.mem_map.mp hStep
    rw [(h.good found hFound).name] at hName
    rwa [h.eq_of_name hFound hPair hName]

/-- The two types of a pair, once those that they are made of are alike. -/
theorem alike_of_made (hPair : pair ∈ pairs) (hMidway : Midway
      (TypePair.entries early job job' ledger start start' steps pairs) start.program.types
        start'.program.types (job.Stands start steps pair.left.index)
          (job'.Stands start' (pairs.map (·.right)) pairs.length) pair.left.type pair.right.type →
      Alike (TypePair.entries early job job' ledger start start' steps pairs) after.program.types
        after'.program.types pair.left.type pair.right.type) :
    Alike (TypePair.entries early job job' ledger start start' steps pairs) after.program.types
      after'.program.types pair.left.type pair.right.type := by
  rcases (h.good pair hPair).made with hMade | ⟨a, b, hNamed⟩
  · have hIndex := h.right.index_lt (List.mem_map_of_mem hPair)
    rw [List.length_map] at hIndex
    exact hMidway (hMade.imp (le_entries hPair) (fun _ _ hOwn => hOwn) fun _ _ hOwn =>
      hOwn.mono (List.Subset.refl _) (Nat.le_of_lt hIndex))
  · obtain ⟨tag, hTypes⟩ := hNamed.types
    have hEntry : (TypePair.entries early job job' ledger start start' steps pairs).twins a b :=
      .inr ⟨pair, hPair, .inr hNamed⟩
    rw [hNamed.left, hNamed.right]
    exact @Operand.alike_toTy (after.pairing after' early) _ a b hEntry
      (hTypes.tag.1.trans hTypes.tag.2.symm)

/-- Types that are told by names are alike if the first one can be inspected. The induction is on
the levels that the inspection goes down, then on the handles that it follows, then on the number
of types that were built before: a name leads to its type through a handle, or to one that was
built before. -/
theorem alike_of_midway (levels hops bound : Nat) {from_ shape : Ty}
    (hMidway : Midway (TypePair.entries early job job' ledger start start' steps pairs)
      start.program.types start'.program.types (job.Stands start steps bound)
        (job'.Stands start' (pairs.map (·.right)) pairs.length) a b)
    (hFollow : after.program.types.follow from_ hops a = .ok shape)
    (hParts : after.program.types.PartsValid levels shape) :
    Alike (TypePair.entries early job job' ledger start start' steps pairs) after.program.types
      after'.program.types a b := by
  induction levels using Nat.strongRecOn generalizing hops bound from_ shape a b with
  | ind levels ihLevels =>
  induction hops generalizing bound a b with
  | zero => cases hFollow
  | succ hops ihHops =>
  induction bound using Nat.strongRecOn generalizing a b with
  | ind bound ihBound =>
      have hPart {part part' : Ty} (hMidway : Midway
            (TypePair.entries early job job' ledger start start' steps pairs) start.program.types
              start'.program.types (job.Stands start steps bound)
                (job'.Stands start' (pairs.map (·.right)) pairs.length) part part')
          (hValid : after.program.types.validateWithin levels part = .ok ()) :
          Alike (TypePair.entries early job job' ledger start start' steps pairs)
            after.program.types after'.program.types part part' := by
        obtain ⟨fewer, found, hLevels, hFound, hRest⟩ := TypeStore.exists_of_validateWithin hValid
        exact ihLevels fewer (by omega) TypeStore.maxHops bound hMidway hFound hRest
      cases hMidway with
      | built hAlike => exact hAlike.mono (le_refl _) h.left.extends' h.right.extends'
      | own ha hb =>
          rcases ha with ⟨handle, hHandle, rfl⟩ | ⟨step, hStep, hIndex, rfl, rfl⟩
          · obtain ⟨step, hStep, rfl⟩ := h.exists_step hHandle
            obtain ⟨pair, hPair, rfl⟩ := h.complete step hStep
            rw [h.left.handle_eq hStep] at hHandle
            cases hHandle
            have hTarget := h.left.target? hStep
            rw [TypeStore.follow, hTarget] at hFollow
            have hTypes := h.alike_of_made hPair fun hMade =>
              ihHops pair.left.index hMade hFollow
            exact h.alike_right hPair (.left hTarget hTypes) hb
          · obtain ⟨pair, hPair, rfl⟩ := h.complete step hStep
            have hTypes := h.alike_of_made hPair fun hMade =>
              ihBound pair.left.index hIndex hMade hFollow
            exact h.alike_right hPair hTypes hb
      | pointer hInner =>
          cases hFollow
          exact .pointer (hPart hInner hParts)
      | slice hElem =>
          cases hFollow
          exact .slice (hPart hElem hParts)
      | map hKey hValue =>
          cases hFollow
          exact .map (hPart hKey hParts.1) (hPart hValue hParts.2)

/-- The two types of a pair are alike. -/
theorem alike_pair (hPair : pair ∈ pairs) :
    Alike (TypePair.entries early job job' ledger start start' steps pairs) after.program.types
      after'.program.types pair.left.type pair.right.type := by
  obtain ⟨levels, shape, -, hShape, hParts⟩ :=
    TypeStore.exists_of_validateWithin (h.valid pair.left (h.good pair hPair).left)
  exact h.alike_of_made hPair fun hMade => h.alike_of_midway levels TypeStore.maxHops
    pair.left.index hMade hShape hParts

/-- Whatever is told by names is alike. -/
theorem alike_of_told {bound' : Nat} (hMidway : Midway
      (TypePair.entries early job job' ledger start start' steps pairs) start.program.types
        start'.program.types (job.Stands start steps bound)
          (job'.Stands start' (pairs.map (·.right)) bound') a b) :
    Alike (TypePair.entries early job job' ledger start start' steps pairs) after.program.types
      after'.program.types a b := by
  induction hMidway with
  | built hAlike => exact hAlike.mono (le_refl _) h.left.extends' h.right.extends'
  | own ha hb =>
      rcases ha with ⟨handle, hHandle, rfl⟩ | ⟨step, hStep, -, rfl, rfl⟩
      · obtain ⟨step, hStep, rfl⟩ := h.exists_step hHandle
        obtain ⟨pair, hPair, rfl⟩ := h.complete step hStep
        rw [h.left.handle_eq hStep] at hHandle
        cases hHandle
        exact h.alike_right hPair (.left (h.left.target? hStep) (h.alike_pair hPair)) hb
      · obtain ⟨pair, hPair, rfl⟩ := h.complete step hStep
        exact h.alike_right hPair (h.alike_pair hPair) hb
  | pointer _ ih => exact .pointer ih
  | slice _ ih => exact .slice ih
  | map _ _ ihKey ihValue => exact .map ihKey ihValue

/-! ### Entries -/

/-- What a pair has entered was made between the numbers that its steps took. -/
theorem invented (hPair : pair ∈ pairs) {a b : NamedType} (hTwins : pair.ledger.twins a b)
    (hNew : ¬ ledger.twins a b) : a.package = job.package ∧ ∃ n n', a.Invented n ∧ b.Invented n' ∧
      (pair.left.before.supply.serial < n ∧ n ≤ pair.left.routine.supply.serial) ∧
        pair.right.before.supply.serial < n' ∧ n' ≤ pair.right.routine.supply.serial := by
  have hGood := h.good pair hPair
  rcases hGood.grows.fresh a b hTwins with hOld | ⟨hPackage, n, n', ha, hb, hn, hn'⟩
  · exact absurd hOld hNew
  · refine ⟨hPackage, n, n', ha, hb, ?_⟩
    rcases hGood.valid.name a b hTwins with ⟨-, hPlain⟩ | ⟨m, m', ha', hb', hm, hm'⟩
    · exact absurd ha.reserved hPlain
    · rw [ha'.unique ha rfl] at hm
      rw [hb'.unique hb rfl] at hm'
      exact ⟨⟨hn, hm⟩, hn', hm'⟩

theorem entry_package {a b : NamedType}
    (hTwins : (TypePair.entries early job job' ledger start start' steps pairs).twins a b) :
    a.package = b.package := by
  rcases hTwins with hOld | ⟨pair, hPair, hTwins | hNamed⟩
  · exact h.poised.twin.valid.package a b hOld
  · exact (h.good pair hPair).valid.package a b hTwins
  · obtain ⟨tag, hTypes⟩ := hNamed.types
    exact hTypes.package.1.trans hTypes.package.2.symm

/-- What is new in the ledger belongs to the module. -/
theorem new_package {a b : NamedType}
    (hTwins : (TypePair.entries early job job' ledger start start' steps pairs).twins a b)
    (hNew : ¬ ledger.twins a b) : a.package = job.package := by
  obtain ⟨pair, hPair, hTwins | hNamed⟩ := hTwins.resolve_left hNew
  · exact (h.invented hPair hTwins hNew).1
  · obtain ⟨tag, hTypes⟩ := hNamed.types
    exact hTypes.package.1

/-- An invented name is not that of a declaration. -/
theorem invented_ne_named (hPair : pair ∈ pairs) (hOther : other ∈ pairs) {a b : NamedType}
    (hTwins : pair.ledger.twins a b) (hNew : ¬ ledger.twins a b)
    (hNamed : other.Named early job job' start start' steps (pairs.map (·.right)) c d) :
    a.name ≠ c.name ∧ b.name ≠ d.name := by
  obtain ⟨-, n, n', ha, hb, -⟩ := h.invented hPair hTwins hNew
  obtain ⟨tag, hTypes⟩ := hNamed.types
  have hPlain := h.plain other.left (h.good other hOther).left
  constructor
  · intro hName
    rw [← hTypes.name.1, ← hName] at hPlain
    exact hPlain ha.reserved
  · intro hName
    rw [← hTypes.name.2, ← hName] at hPlain
    exact hPlain hb.reserved

/-- No title belongs to two entries: titles from before have another package, invented names
differ in their numbers, and no declaration has a name like those that are invented. -/
theorem entry_unique {a b : NamedType}
    (hFirst : (TypePair.entries early job job' ledger start start' steps pairs).twins a b)
    (hSecond : (TypePair.entries early job job' ledger start start' steps pairs).twins c d)
    (hTitle : a.title = c.title ∨ b.title = d.title) : a = c ∧ b = d := by
  have hSamePackage : a.package = c.package := by
    rcases hTitle with hTitle | hTitle
    · exact congrArg (fun title : String × String × String => title.2.1) hTitle
    · rw [h.entry_package hFirst, h.entry_package hSecond]
      exact congrArg (fun title : String × String × String => title.2.1) hTitle
  have hSameName : a.name = c.name ∨ b.name = d.name :=
    hTitle.imp (congrArg fun title : String × String × String => title.2.2)
      (congrArg fun title : String × String × String => title.2.2)
  by_cases hOld : ledger.twins a b <;> by_cases hOld' : ledger.twins c d
  · rcases hTitle with hTitle | hTitle
    · exact h.poised.twin.valid.left a b c d hOld hOld' hTitle
    · exact h.poised.twin.valid.right a b c d hOld hOld' hTitle
  · exact absurd (hSamePackage.trans (h.new_package hSecond hOld')) (h.poised.fresh a b hOld)
  · exact absurd (hSamePackage.symm.trans (h.new_package hFirst hOld)) (h.poised.fresh c d hOld')
  · obtain ⟨pair, hPair, hTwins | hNamed⟩ := hFirst.resolve_left hOld <;>
      obtain ⟨other, hOther, hTwins' | hNamed'⟩ := hSecond.resolve_left hOld'
    · obtain ⟨-, n, n', ha, hb, ⟨hn, hLast⟩, hn', hLast'⟩ := h.invented hPair hTwins hOld
      obtain ⟨-, m, m', hc, hd, ⟨hm, hEnd⟩, hm', hEnd'⟩ := h.invented hOther hTwins' hOld'
      have hSame : pair = other := by
        rcases hTitle with hTitle | hTitle
        · obtain rfl := ha.unique hc hTitle
          refine h.eq_of_name hPair hOther (congrArg (fun step : TypeStep => step.decl.name) ?_)
          exact h.left.eq_of_serial (h.good pair hPair).left (h.good other hOther).left hn hLast hm
            hEnd
        · obtain rfl := hb.unique hd hTitle
          refine h.eq_of_right hPair hOther ?_
          exact h.right.eq_of_serial (List.mem_map_of_mem hPair) (List.mem_map_of_mem hOther) hn'
            hLast' hm' hEnd'
      subst hSame
      rcases hTitle with hTitle | hTitle
      · exact (h.good pair hPair).valid.left a b c d hTwins hTwins' hTitle
      · exact (h.good pair hPair).valid.right a b c d hTwins hTwins' hTitle
    · obtain ⟨hLeft, hRight⟩ := h.invented_ne_named hPair hOther hTwins hOld hNamed'
      exact (hSameName.elim hLeft hRight).elim
    · obtain ⟨hLeft, hRight⟩ := h.invented_ne_named hOther hPair hTwins' hOld' hNamed
      exact (hSameName.elim (fun hName => hLeft hName.symm) fun hName => hRight hName.symm).elim
    · obtain ⟨tag, hTypes⟩ := hNamed.types
      obtain ⟨tag', hTypes'⟩ := hNamed'.types
      have hSame : pair = other := by
        refine h.eq_of_name hPair hOther ?_
        rcases hSameName with hName | hName
        · rw [← hTypes.name.1, ← hTypes'.name.1, hName]
        · rw [← hTypes.name.2, ← hTypes'.name.2, hName]
      subst hSame
      exact ⟨NamedType.toTy_injective (hNamed.left.symm.trans hNamed'.left),
        NamedType.toTy_injective (hNamed.right.symm.trans hNamed'.right)⟩

/-- The entries fit together. -/
theorem entries_valid : (TypePair.entries early job job' ledger start start' steps pairs).Valid
      (after.pairing after' early) after.supply.serial after'.supply.serial where
  left _ _ _ _ hFirst hSecond hTitle := h.entry_unique hFirst hSecond (.inl hTitle)
  right _ _ _ _ hFirst hSecond hTitle := h.entry_unique hFirst hSecond (.inr hTitle)
  tag a b hTwins := by
    rcases hTwins with hOld | ⟨pair, hPair, hTwins | hNamed⟩
    · exact h.poised.twin.valid.tag a b hOld
    · exact (h.good pair hPair).valid.tag a b hTwins
    · obtain ⟨tag, hTypes⟩ := hNamed.types
      exact hTypes.tag.1.trans hTypes.tag.2.symm
  package _ _ hTwins := h.entry_package hTwins
  name a b hTwins := by
    rcases hTwins with hOld | ⟨pair, hPair, hTwins | hNamed⟩
    · exact (h.poised.twin.valid.mono h.left.serial_le h.right.serial_le).name a b hOld
    · have hValid := (h.good pair hPair).valid.mono (h.left.step_serial_le (h.good pair hPair).left)
        (h.right.step_serial_le (List.mem_map_of_mem hPair))
      exact hValid.name a b hTwins
    · obtain ⟨tag, hTypes⟩ := hNamed.types
      refine .inl ⟨hTypes.name.1.trans hTypes.name.2.symm, ?_⟩
      rw [hTypes.name.1]
      exact h.plain pair.left (h.good pair hPair).left
  members a b hTwins := by
    have hTold {pair : TypePair} (hPair : pair ∈ pairs) (x y : Ty)
        (hAlike : (pair.pairing early job job' start start' steps (pairs.map (·.right))).MemberAlike
          pair.ledger x y) : (after.pairing after' early).MemberAlike
            (TypePair.entries early job job' ledger start start' steps pairs) x y :=
      hAlike.imp fun _ _ hMidway => h.alike_of_told
        (Midway.imp hMidway (le_entries hPair) (fun _ _ hOwn => hOwn) fun _ _ hOwn => hOwn)
    rcases hTwins with hOld | ⟨pair, hPair, hTwins | hNamed⟩
    · have hMono (x y : Ty) (hAlike : (start.pairing start' early).MemberAlike ledger x y) :
          (after.pairing after' early).MemberAlike
            (TypePair.entries early job job' ledger start start' steps pairs) x y :=
        hAlike.imp fun _ _ hBefore =>
          Alike.mono hBefore ledger_le_entries h.left.extends' h.right.extends'
      exact (h.poised.twin.valid.members a b hOld).imp fun _ _ => .imp hMono
    · exact ((h.good pair hPair).valid.members a b hTwins).imp fun _ _ => .imp (hTold hPair)
    · obtain ⟨tag, hTypes⟩ := hNamed.types
      exact hTypes.members.imp fun _ _ => .imp (hTold hPair)

/-! ### Sessions -/

theorem within : ledger.Within job.package
    (TypePair.entries early job job' ledger start start' steps pairs) := by
  refine ⟨ledger_le_entries, fun a b hTwins => ?_⟩
  by_cases hOld : ledger.twins a b
  · exact .inl hOld
  · exact .inr (h.new_package hTwins hOld)

theorem imp_alike (x y : Ty) (hAlike : (start.pairing start' early).alike ledger x y) :
    (after.pairing after' early).alike
      (TypePair.entries early job job' ledger start start' steps pairs) x y :=
  Alike.mono hAlike ledger_le_entries h.left.extends' h.right.extends'

/-- A global of the module in both sessions. -/
theorem global (name : String) : Option.Rel (Global.Twin (after.pairing after' early)
      (TypePair.entries early job job' ledger start start' steps pairs))
    (after.program.global? job.id name) (after'.program.global? job.id name) := by
  have hBuilt := h.left.global? name
  have hBuilt' := h.right.global? name
  have hBefore := h.poised.twin.global? job.id name
  rw [← h.poised.id] at hBuilt'
  refine optionRel_of_isSome ((optionRel_isSome hBuilt).symm.trans
    ((optionRel_isSome hBefore).trans (optionRel_isSome hBuilt')))
      fun global global' hOwn hOwn' => ?_
  rw [hOwn] at hBuilt
  rw [hOwn'] at hBuilt'
  cases hStart : start.program.global? job.id name with
  | none =>
      rw [hStart] at hBuilt
      cases hBuilt
  | some before =>
      cases hStart' : start'.program.global? job.id name with
      | none =>
          rw [hStart'] at hBuilt'
          cases hBuilt'
      | some before' =>
          rw [hStart] at hBuilt hBefore
          rw [hStart'] at hBuilt' hBefore
          cases hBuilt with
          | some hBuilt =>
          cases hBuilt' with
          | some hBuilt' =>
          cases hBefore with
          | some hTwin =>
          have hName := (Program.Has.of_global? hStart).2
          have hName' := (Program.Has.of_global? hStart').2
          refine ⟨hBuilt.kind.trans (hTwin.kind.trans hBuilt'.kind.symm), ?_,
            by rw [hBuilt.handle, hBuilt'.handle, hTwin.handle]⟩
          rcases hBuilt.value with ⟨hSame, hNone⟩ | ⟨step, hStep, hStepName, hValue⟩
          · rcases hBuilt'.value with ⟨hSame', -⟩ | ⟨step', hStep', hStepName', -⟩
            · rw [hSame, hSame']
              exact optionRel_imp (fun _ _ => .imp h.imp_alike) hTwin.value
            · obtain ⟨pair, hPair, rfl⟩ := List.mem_map.mp hStep'
              refine absurd ?_ (hNone pair.left (h.good pair hPair).left)
              rw [hName, ← hName', ← hStepName', (h.good pair hPair).name]
          · obtain ⟨pair, hPair, rfl⟩ := h.complete step hStep
            rcases hBuilt'.value with ⟨-, hNone'⟩ | ⟨step', hStep', hStepName', hValue'⟩
            · refine absurd ?_ (hNone' pair.right (List.mem_map_of_mem hPair))
              rw [(h.good pair hPair).name, hStepName, hName, hName']
            · obtain ⟨other, hOther, rfl⟩ := List.mem_map.mp hStep'
              have hSame : other = pair := by
                refine h.eq_of_name hOther hPair ?_
                rw [← (h.good other hOther).name, hStepName', hName', hStepName, hName]
              subst hSame
              rw [hValue, hValue']
              exact .some (h.alike_pair hPair)

theorem module : Option.Rel (Module.Twin (after.pairing after' early)
      (TypePair.entries early job job' ledger start start' steps pairs))
    (after.program.module? job.id) (after'.program.module? job.id) := by
  have hBefore := h.poised.twin.modules job.id
  have hOwn := h.left.touches.own
  have hOwn' := h.right.touches.own
  have hMethods := h.left.moduleMethods
  have hMethods' := h.right.moduleMethods
  rw [← h.poised.id] at hOwn' hMethods'
  have hSome : (after.program.module? job.id).isSome = (after'.program.module? job.id).isSome := by
    have hLeft := congrArg Option.isSome hOwn
    have hRight := congrArg Option.isSome hOwn'
    simp only [Option.isSome_map] at hLeft hRight
    rw [hLeft, hRight, optionRel_isSome hBefore]
  refine optionRel_of_isSome hSome fun module module' hModule hModule' => ?_
  rw [hModule] at hOwn hMethods
  rw [hModule'] at hOwn' hMethods'
  obtain ⟨before, hStart, hSame⟩ := Option.map_eq_some_iff.mp hOwn.symm
  obtain ⟨before', hStart', hSame'⟩ := Option.map_eq_some_iff.mp hOwn'.symm
  rw [hStart] at hBefore hMethods
  rw [hStart'] at hBefore hMethods'
  obtain ⟨hName, -⟩ := Prod.mk.inj hSame
  obtain ⟨hName', -⟩ := Prod.mk.inj hSame'
  have hMethods : module.methods = before.methods := Option.some.inj hMethods
  have hMethods' : module'.methods = before'.methods := Option.some.inj hMethods'
  cases hBefore with
  | some hTwin =>
      refine ⟨hName.symm.trans (hTwin.name.trans hName'), fun name => ?_, ?_⟩
      · have hGlobal := h.global name
        rw [Program.global?, hModule, Program.global?, hModule'] at hGlobal
        exact hGlobal
      · rw [hMethods, hMethods', ← hName]
        exact hTwin.methods.imp fun _ _ => .imp h.imp_alike ledger_le_entries

/-- The sessions are alike once all types are built. -/
theorem twin : after.Twin early
    (TypePair.entries early job job' ledger start start' steps pairs) after' where
  left := h.left.tidy h.poised.twin.left
  right := h.right.tidy h.poised.twin.right
  builtin := h.left.touches.builtin.trans (h.poised.twin.builtin.trans h.right.touches.builtin.symm)
  modules id := by
    by_cases hId : id = job.id
    · rw [hId]
      exact h.module
    · rw [h.left.touches.others id hId, h.right.touches.others id (h.poised.id ▸ hId)]
      exact optionRel_imp (fun _ _ => .imp h.imp_alike ledger_le_entries) (h.poised.twin.modules id)
  methods := by
    rw [h.left.methods, h.right.methods]
    exact h.poised.twin.methods.imp fun _ _ => .imp h.imp_alike ledger_le_entries
  valid := h.entries_valid
  packages a b hTwins := by
    rw [Session.Knows, h.left.touches.find?]
    by_cases hOld : ledger.twins a b
    · exact h.poised.twin.packages a b hOld
    · rw [h.new_package hTwins hOld]
      obtain ⟨module, hModule, hName, -⟩ := h.poised.module
      exact Program.find?_ne_none hModule hName

theorem abreast : job.Abreast early job'
    (TypePair.entries early job job' ledger start start' steps pairs) after after' where
  twin := h.twin
  id := h.poised.id
  package := h.poised.package
  typed global hHas hNone := by
    obtain ⟨before, hBefore, hName, hSame, hLeft⟩ := h.left.has hHas
    cases hHandle : global.handle with
    | none => rfl
    | some handle =>
        obtain ⟨step, hStep, hStepName⟩ := h.covers before handle hBefore (hSame.trans hHandle)
        exact absurd (hStepName.trans hName) (hLeft hNone step hStep)
  module := by
    obtain ⟨module, hModule, hName, -⟩ := h.poised.module
    have hOwn := h.left.touches.own
    rw [hModule] at hOwn
    obtain ⟨module', hModule', hSame⟩ := Option.map_eq_some_iff.mp hOwn
    exact ⟨module', hModule', (congrArg Prod.fst hSame).trans hName⟩

end Job.Matched

/-! ## The pass over all types -/

namespace Job.Poised

variable (h : job.Poised early job' ledger start start')

include h

theorem exists_type_handle {decl : TypeDecl} (hDecl : decl ∈ job.file.types) :
    ∃ handle, job.handle? start decl.name = some handle := by
  obtain ⟨module, hModule, -, hFile, hEntered⟩ := h.module
  have hName : decl.name ∈ job.file.names .type := List.mem_map_of_mem hDecl
  obtain ⟨found, hFound, hKind, hSame⟩ := Declaration.exists_ofFile_iff.mpr hName
  rw [← hFile] at hFound
  obtain ⟨global, -, hGet, hDeclares⟩ := hEntered.exists_global hFound
  obtain ⟨handle, hHandle⟩ := Option.isSome_iff_exists.mp (hDeclares.handle.mpr hKind)
  refine ⟨handle, Option.bind_eq_some_iff.mpr ⟨global, ?_, hHandle⟩⟩
  rw [Program.global?, hModule, ← hSame]
  exact hGet

theorem exists_type {global : Global} (hHas : start.program.Has job.id global)
    (hHandle : global.handle = some handle) : ∃ decl ∈ job.file.types, decl.name = global.name := by
  obtain ⟨module, hModule, -, hFile, hEntered⟩ := h.module
  obtain ⟨found, hFound, hMem⟩ := hHas
  obtain rfl := Option.some.inj (hModule.symm.trans hFound)
  obtain ⟨decl, hDecl, hDeclares⟩ := hEntered.exists_decl hMem
  have hKind : decl.kind = .type := hDeclares.handle.mp (by rw [hHandle]; rfl)
  rw [hFile] at hDecl
  have hName : decl.name ∈ job.file.names .type :=
    Declaration.exists_ofFile_iff.mp ⟨decl, hDecl, hKind, rfl⟩
  rw [hDeclares.name]
  exact List.mem_map.mp hName

/-- The types of a module may be declared in any order. -/
theorem buildTypes (hSame : (job.file.types.map TypeDecl.bare).Perm
    (job'.file.types.map TypeDecl.bare)) (hTypes : ∀ decl ∈ job.file.types, decl.type.IsType word)
    (hPlain : ∀ decl ∈ job.file.types, ¬ Reserved decl.name) :
    Reruns early start start' (SessionM.buildTypes job) (SessionM.buildTypes job')
      fun _ _ after after' => ∃ ledger', ledger.Within job.package ledger' ∧
        job.Abreast early job' ledger' after after' := by
  intro done after hRun
  obtain ⟨built, middle, hBuilt, hChecked⟩ := SessionM.bind_eq_ok.mp hRun
  obtain ⟨steps, hSteps, hDecls, rfl⟩ := exists_typeRun (fun _ hDecl => h.exists_type_handle hDecl)
    hBuilt
  have hMem (decl : TypeDecl) : decl ∈ job.file.types ↔ ∃ step ∈ steps, step.decl = decl := by
    rw [← hDecls, List.mem_reverse, List.mem_map]
  have hCheck := @checkTypes_runs middle job True
    (steps.reverse.map fun step => (step.type, step.decl.span))
  rw [Runs, hChecked] at hCheck
  obtain ⟨rfl, hValid⟩ := hCheck
  have hBare (decl' : TypeDecl) (hDecl' : decl' ∈ job'.file.types) :
      ∃ step ∈ steps, step.decl.bare = decl'.bare := by
    obtain ⟨decl, hDecl, hForm⟩ := List.mem_map.mp (hSame.mem_iff.mpr (List.mem_map_of_mem hDecl'))
    obtain ⟨step, hStep, rfl⟩ := (hMem decl).mp hDecl
    exact ⟨step, hStep, hForm⟩
  have hNames : (job.file.types.map (·.name)).Perm (job'.file.types.map (·.name)) := by
    have hBareNames := hSame.map (·.name)
    rw [List.map_map, List.map_map] at hBareNames
    exact hBareNames
  have hDistinct : (job'.file.types.map (·.name)).Nodup := by
    obtain ⟨module, -, -, hFile, hEntered⟩ := h.module
    exact hNames.nodup_iff.mp (Declaration.nodup_names (hFile ▸ hEntered.distinct) .type)
  refine (h.buildAll hSteps hBare (fun step hStep =>
    hTypes step.decl ((hMem _).mpr ⟨step, hStep, rfl⟩)) hDistinct).bind
      fun built' after' hBuilt' => ?_
  obtain ⟨pairs, hRight, hGood, hDecls', rfl⟩ := hBuilt'
  have hMatched : job.Matched early job' ledger start start' steps pairs after after' := by
    refine ⟨h, hSteps, hRight, hGood, fun step hStep => ?_, fun global handle hHas hHandle => ?_,
      fun step hStep => hPlain step.decl ((hMem _).mpr ⟨step, hStep, rfl⟩), fun step hStep => ?_⟩
    · have hName : step.decl.name ∈ job'.file.types.map (·.name) :=
        hNames.mem_iff.mp (List.mem_map_of_mem ((hMem _).mpr ⟨step, hStep, rfl⟩))
      rw [← hDecls'] at hName
      simp only [List.map_reverse, List.map_map, List.mem_reverse, List.mem_map,
        Function.comp_apply] at hName
      obtain ⟨pair, hPair, hPairName⟩ := hName
      rw [(hGood pair hPair).name] at hPairName
      exact ⟨pair, hPair, hSteps.eq_of_name (hGood pair hPair).left hStep hPairName⟩
    · obtain ⟨decl, hDecl, hName⟩ := h.exists_type hHas hHandle
      obtain ⟨step, hStep, rfl⟩ := (hMem decl).mp hDecl
      exact ⟨step, hStep, hName⟩
    · exact hValid (step.type, step.decl.span) (List.mem_map.mpr ⟨step, by simpa using hStep, rfl⟩)
  refine (Runs.forM_mem (fun last => last = after') rfl ?_).mono fun _ last hLast => ?_
  · rintro ⟨type, span⟩ hEntry before rfl
    obtain ⟨pair, hPair, hOwn⟩ := List.mem_map.mp hEntry
    cases hOwn
    rw [List.mem_reverse] at hPair
    have hLeft := hMatched.valid pair.left (hGood pair hPair).left
    refine Runs.get.bind fun found _ hFound => ?_
    obtain ⟨rfl, rfl⟩ := hFound
    rcases (hMatched.alike_pair hPair).validate hLeft with hOk | ⟨name, hDeep⟩
    · rw [hOk]
      exact .pure rfl
    · rw [hDeep]
      exact .fail (.inl ⟨name, rfl⟩)
  · rw [hLast]
    exact ⟨_, hMatched.within, hMatched.abreast⟩

end Job.Poised

end Pairs

end GoToC
