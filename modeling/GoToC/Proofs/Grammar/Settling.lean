import GoToC.Grammar.Type

/-!
# How parameters are settled

The parameters of a list stand one for each of its entries, in their order. Where no entry has a
name all are types. Otherwise an entry that stands alone is a name that waits until the next entry
with a name of its own brings the type, and settling fails just if there is something else than a
name or if no such entry comes.
-/

namespace GoToC.Grammar.Entry

/-- The type of an entry or, for a lone one, what stands there. -/
def expr : Entry → Expr
  | named _ _ type => type
  | lone e => e

/-- The name that an entry gives to its parameter where parameters have names. -/
def name? : Entry → Option (String × Span)
  | named name span _ => some (name, span)
  | lone (.ident span name) => some (name, span)
  | lone _ => none

/-- The type of an entry that has a name. -/
def named? : Entry → Option Expr
  | named _ _ type => some type
  | lone _ => none

/-- What each entry gives where parameters have names: its name, and the type of the first one from
it on that has a name of its own. -/
def given : List Entry → List (Option (String × Span) × Option Expr)
  | [] => []
  | entry :: rest => (entry.name?, (entry :: rest).findSome? named?) :: given rest

/-- The type of the next entry with a name behind a place. -/
def NextType (entries : List Entry) (place : Nat) (type : Expr) : Prop :=
  ∃ between name span behind, entries.drop (place + 1) = between ++ named name span type :: behind ∧
      ∀ entry ∈ between, entry.isNamed = false

/-- How the parameters of a list come from its entries. -/
structure Settled (entries : List Entry) (params : List (Param Expr)) : Prop where
  length_eq : params.length = entries.length
  unnamed : (∀ entry ∈ entries, entry.isNamed = false) →
    params = entries.map fun entry => ⟨"", entry.expr, entry.expr.span⟩
  own : ∀ (place : Nat) (name : String) (span : Span) (type : Expr),
    entries[place]? = some (.named name span type) → params[place]? = some ⟨name, type, span⟩
  grouped : (∃ entry ∈ entries, entry.isNamed = true) → ∀ (place : Nat) (expr : Expr),
    entries[place]? = some (.lone expr) → ∃ name span type, expr = .ident span name ∧
      NextType entries place type ∧ params[place]? = some ⟨name, type, span⟩

/-- Why parameters with names cannot be settled. -/
inductive Unsettled (entries : List Entry) : Prop where
  | notName (place : Nat) (expr : Expr) (hPlace : entries[place]? = some (.lone expr))
      (hExpr : ∀ span name, expr ≠ .ident span name)
  | noType (place : Nat) (span : Span) (name : String)
      (hPlace : entries[place]? = some (.lone (.ident span name)))
      (hBehind : ∀ entry ∈ entries.drop (place + 1), entry.isNamed = false)

variable {entries rest : List Entry} {pending : List (String × Span)}
  {params : List (Param Expr)} {place : Nat} {name : String} {span : Span}

/-! ## One entry after another -/

theorem asName_eq_ok {e : Expr} : asName e = .ok (name, span) ↔ e = .ident span name := by
  constructor
  · intro hName
    cases e with
    | ident whole text =>
        cases hName
        rfl
    | _ => cases hName
  · rintro rfl
    rfl

/-- A lone entry is a name that waits. -/
theorem settleNamed_lone {e : Expr} (h : settleNamed pending (lone e :: rest) = .ok params) :
    ∃ name span, e = .ident span name ∧
      settleNamed (pending ++ [(name, span)]) rest = .ok params := by
  rw [settleNamed] at h
  cases hName : asName e with
  | error cause =>
      rw [hName] at h
      cases h
  | ok found =>
      rw [hName] at h
      exact ⟨found.1, found.2, asName_eq_ok.mp hName, h⟩

/-- An entry with a name gives its type to the names that wait. -/
theorem settleNamed_named {type : Expr}
    (h : settleNamed pending (named name span type :: rest) = .ok params) :
    ∃ others, settleNamed [] rest = .ok others ∧
      params = pending.map (fun waiting => ⟨waiting.1, type, waiting.2⟩) ++
        ⟨name, type, span⟩ :: others := by
  rw [settleNamed] at h
  cases hOthers : settleNamed [] rest with
  | error cause =>
      rw [hOthers] at h
      cases h
  | ok others =>
      rw [hOthers] at h
      cases h
      exact ⟨others, rfl, rfl⟩

/-- Names that wait come first and take the first type, and each entry gives one parameter. -/
theorem settleNamed_given (h : settleNamed pending entries = .ok params) :
    params.map (fun param => (some (param.name, param.span), some param.type)) =
      pending.map (fun waiting => (some waiting, entries.findSome? named?)) ++ given entries := by
  -- on the entries; a lone one only adds to the names that wait, so these are general
  induction entries generalizing pending params with
  | nil =>
      cases pending with
      | nil =>
          cases h
          rfl
      | cons waiting others => cases h
  | cons entry rest ih =>
      cases entry with
      | lone e =>
          obtain ⟨name, span, rfl, hRest⟩ := settleNamed_lone h
          simpa [given, name?, named?, List.findSome?_cons] using ih hRest
      | named name span type =>
          obtain ⟨others, hOthers, rfl⟩ := settleNamed_named h
          simpa [given, name?, named?, List.findSome?_cons, Function.comp_def] using ih hOthers

theorem given_getElem? (entries : List Entry) (place : Nat) :
    (given entries)[place]? = entries[place]?.map fun entry =>
      (entry.name?, (entries.drop place).findSome? named?) := by
  induction entries generalizing place with
  | nil => rfl
  | cons entry rest ih =>
      cases place with
      | zero => rfl
      | succ place => simpa [given] using ih place

/-- A parameter with a name has that of its entry and the first type from its entry on. -/
theorem settleNamed_getElem? (h : settleNamed [] entries = .ok params) {entry : Entry}
    (hEntry : entries[place]? = some entry) :
    ∃ name span type, entry.name? = some (name, span) ∧
      (entries.drop place).findSome? named? = some type ∧
      params[place]? = some ⟨name, type, span⟩ := by
  have hGiven := congrArg (·[place]?) (settleNamed_given h)
  simp only [List.map_nil, List.nil_append, List.getElem?_map, given_getElem?, hEntry,
    Option.map_some] at hGiven
  obtain ⟨param, hParam, hGiven⟩ := Option.map_eq_some_iff.mp hGiven
  obtain ⟨hName, hType⟩ := Prod.mk.inj hGiven
  exact ⟨param.name, param.span, param.type, hName.symm, hType.symm, hParam⟩

theorem length_settleNamed (h : settleNamed [] entries = .ok params) :
    params.length = entries.length := by
  have hLength (entries : List Entry) : (given entries).length = entries.length := by
    induction entries with
    | nil => rfl
    | cons entry rest ih => simp [given, ih]
  simpa [hLength] using congrArg List.length (settleNamed_given h)

/-! ## Settled parameters -/

theorem named?_eq_none {entry : Entry} : entry.named? = none ↔ entry.isNamed = false := by
  cases entry <;> simp [named?, isNamed]

/-- The first type from a lone entry on is that of the next entry with a name. -/
theorem nextType_of_findSome {expr type : Expr} (hPlace : entries[place]? = some (.lone expr))
    (hFound : (entries.drop place).findSome? named? = some type) : NextType entries place type := by
  obtain ⟨hLess, hEntry⟩ := List.getElem?_eq_some_iff.mp hPlace
  rw [List.drop_eq_getElem_cons hLess, hEntry, List.findSome?_cons] at hFound
  obtain ⟨between, entry, behind, hSplit, hType, hLone⟩ := List.findSome?_eq_some_iff.mp hFound
  cases entry with
  | lone e => cases hType
  | named name span own =>
      cases hType
      exact ⟨between, name, span, behind, hSplit,
        fun other hOther => named?_eq_none.mp (hLone other hOther)⟩

theorem settle_settled (h : settle entries = .ok params) : Settled entries params := by
  unfold settle at h
  split at h
  · next hAny =>
      obtain ⟨entry, hEntry, hNamed⟩ := List.any_eq_true.mp hAny
      refine ⟨length_settleNamed h, fun hNone => ?_, fun place name span type hPlace => ?_,
        fun _ place expr hPlace => ?_⟩
      · rw [hNone entry hEntry] at hNamed
        cases hNamed
      · obtain ⟨_, _, _, hName, hType, hParam⟩ := settleNamed_getElem? h hPlace
        obtain ⟨hLess, hEntry⟩ := List.getElem?_eq_some_iff.mp hPlace
        rw [List.drop_eq_getElem_cons hLess, hEntry] at hType
        cases hName
        cases hType
        exact hParam
      · obtain ⟨name, span, type, hName, hType, hParam⟩ := settleNamed_getElem? h hPlace
        refine ⟨name, span, type, ?_, nextType_of_findSome hPlace hType, hParam⟩
        cases expr <;> cases hName
        rfl
  · next hAny =>
      cases h
      have hNone : ∀ entry ∈ entries, entry.isNamed = false := by simpa using hAny
      refine ⟨List.length_map _, fun _ => List.map_congr_left fun entry hEntry => ?_,
        fun place name span type hPlace => ?_, fun hSome => ?_⟩
      · cases entry with
        | named name span type => cases hNone _ hEntry
        | lone e => rfl
      · cases hNone _ (List.mem_of_getElem? hPlace)
      · obtain ⟨entry, hEntry, hNamed⟩ := hSome
        rw [hNone entry hEntry] at hNamed
        cases hNamed

/-- A parameter has the name of an entry, if any, and what stands in an entry for its type. -/
theorem Settled.made (h : Settled entries params) {param : Param Expr} (hParam : param ∈ params) :
    (∃ source ∈ entries, param.type = source.expr) ∧
      ((∀ entry ∈ entries, entry.isNamed = false) ∧ param.name = "" ∨
        ∃ entry ∈ entries, entry.name? = some (param.name, param.span)) := by
  by_cases hSome : ∃ entry ∈ entries, entry.isNamed = true
  · obtain ⟨place, hPlace⟩ := List.getElem?_of_mem hParam
    obtain ⟨entry, hEntry⟩ : ∃ entry, entries[place]? = some entry := by
      have hLess := (List.getElem?_eq_some_iff.mp hPlace).1
      exact ⟨_, List.getElem?_eq_getElem (h.length_eq ▸ hLess)⟩
    have hMem := List.mem_of_getElem? hEntry
    cases entry with
    | named name span type =>
        rw [h.own place name span type hEntry] at hPlace
        cases hPlace
        exact ⟨⟨_, hMem, rfl⟩, .inr ⟨_, hMem, rfl⟩⟩
    | lone expr =>
        obtain ⟨name, span, type, rfl, hNext, hOwn⟩ := h.grouped hSome place expr hEntry
        obtain ⟨between, owner, place', behind, hSplit, -⟩ := hNext
        rw [hOwn] at hPlace
        cases hPlace
        refine ⟨⟨.named owner place' type, ?_, rfl⟩, .inr ⟨_, hMem, rfl⟩⟩
        exact List.mem_of_mem_drop (hSplit ▸ List.mem_append_right between List.mem_cons_self)
  · have hNone : ∀ entry ∈ entries, entry.isNamed = false := by simpa using hSome
    rw [h.unnamed hNone] at hParam
    obtain ⟨entry, hEntry, rfl⟩ := List.mem_map.mp hParam
    exact ⟨⟨entry, hEntry, rfl⟩, .inl ⟨hNone, rfl⟩⟩

/-- What stands in the last entry is the type of the last parameter, unless it is a name. -/
theorem Settled.last {init : List Entry} {entry : Entry} (h : Settled (init ++ [entry]) params)
    (hExpr : ∀ span name, entry.expr ≠ .ident span name) :
    ∃ before name whole, params = before ++ [⟨name, entry.expr, whole⟩] := by
  have hPlace : (init ++ [entry])[init.length]? = some entry := by simp
  obtain ⟨name, whole, hParam⟩ : ∃ name whole,
      params[init.length]? = some ⟨name, entry.expr, whole⟩ := by
    cases entry with
    | named name span type => exact ⟨name, span, h.own _ _ _ _ hPlace⟩
    | lone e =>
        have hNone : ∀ other ∈ init ++ [lone e], other.isNamed = false := by
          intro other hOther
          rw [← Bool.not_eq_true]
          intro hNamed
          obtain ⟨name, span, -, hIdent, -⟩ := h.grouped ⟨other, hOther, hNamed⟩ _ e hPlace
          exact hExpr span name hIdent
        exact ⟨"", e.span, by rw [h.unnamed hNone, List.getElem?_map, hPlace]; rfl⟩
  have hLast : params.getLast? = some ⟨name, entry.expr, whole⟩ := by
    rw [List.getLast?_eq_getElem?, h.length_eq, List.length_append, List.length_singleton,
      Nat.add_sub_cancel, hParam]
  obtain ⟨before, hParams⟩ := List.getLast?_eq_some_iff.mp hLast
  exact ⟨before, name, whole, hParams⟩

/-! ## Failing -/

theorem unsettled_lone {expr : Expr} : Unsettled (.lone expr :: rest) ↔
      (∀ span name, expr ≠ .ident span name) ∨ (∀ entry ∈ rest, entry.isNamed = false) ∨
        Unsettled rest := by
  constructor
  · rintro (⟨_ | place, e, hPlace, hExpr⟩ | ⟨_ | place, span, name, hPlace, hBehind⟩)
    · cases hPlace
      exact .inl hExpr
    · exact .inr (.inr (.notName place e hPlace hExpr))
    · exact .inr (.inl hBehind)
    · exact .inr (.inr (.noType place span name hPlace hBehind))
  · rintro (hExpr | hBehind | hRest)
    · exact .notName 0 expr rfl hExpr
    · by_cases hName : ∃ span name, expr = .ident span name
      · obtain ⟨span, name, rfl⟩ := hName
        exact .noType 0 span name rfl hBehind
      · exact .notName 0 expr rfl fun span name hExpr => hName ⟨span, name, hExpr⟩
    · cases hRest with
      | notName place e hPlace hExpr => exact .notName (place + 1) e hPlace hExpr
      | noType place span name hPlace hBehind =>
          exact .noType (place + 1) span name hPlace hBehind

theorem unsettled_named {type : Expr} :
    Unsettled (.named name span type :: rest) ↔ Unsettled rest := by
  constructor
  · rintro (⟨_ | place, e, hPlace, hExpr⟩ | ⟨_ | place, span, name, hPlace, hBehind⟩)
    · cases hPlace
    · exact .notName place e hPlace hExpr
    · cases hPlace
    · exact .noType place span name hPlace hBehind
  · rintro (⟨place, e, hPlace, hExpr⟩ | ⟨place, span, name, hPlace, hBehind⟩)
    · exact .notName (place + 1) e hPlace hExpr
    · exact .noType (place + 1) span name hPlace hBehind

/-- Names that wait are settled by any entry with a name. -/
theorem settleNamed_error_iff : (∃ cause, settleNamed pending entries = .error cause) ↔
      (pending ≠ [] ∧ ∀ entry ∈ entries, entry.isNamed = false) ∨ Unsettled entries := by
  induction entries generalizing pending with
  | nil =>
      have hNone : ¬ Unsettled [] := by
        rintro (⟨_, _, hPlace, _⟩ | ⟨_, _, _, hPlace, _⟩) <;> cases hPlace
      cases pending with
      | nil => simp [settleNamed, hNone]
      | cons waiting others => simp [settleNamed]
  | cons entry rest ih =>
      cases entry with
      | lone e =>
          rw [settleNamed, unsettled_lone]
          cases hName : asName e with
          | error cause =>
              have hExpr : ∀ span name, e ≠ .ident span name := by
                intro span name hIdent
                rw [asName_eq_ok.mpr hIdent] at hName
                cases hName
              exact iff_of_true ⟨cause, rfl⟩ (.inr (.inl hExpr))
          | ok found =>
              have hIdent := asName_eq_ok.mp hName
              refine ih.trans ⟨?_, ?_⟩
              · rintro (⟨-, hNone⟩ | hRest)
                · exact .inr (.inr (.inl hNone))
                · exact .inr (.inr (.inr hRest))
              · rintro (⟨-, hNone⟩ | hExpr | hNone | hRest)
                · exact .inl ⟨by simp, (List.forall_mem_cons.mp hNone).2⟩
                · exact absurd hIdent (hExpr _ _)
                · exact .inl ⟨by simp, hNone⟩
                · exact .inr hRest
      | named name span type =>
          have hNamed : ¬ ∀ entry ∈ named name span type :: rest, entry.isNamed = false := by
            intro hNone
            cases hNone _ List.mem_cons_self
          have hRest : (∃ cause, settleNamed [] rest = .error cause) ↔ Unsettled rest := by
            simpa using @ih []
          rw [settleNamed, unsettled_named, or_iff_right fun hBoth => hNamed hBoth.2, ← hRest]
          cases settleNamed [] rest with
          | error cause => exact iff_of_true ⟨cause, rfl⟩ ⟨cause, rfl⟩
          | ok others => exact iff_of_false (by rintro ⟨_, h⟩; cases h) (by rintro ⟨_, h⟩; cases h)

theorem settle_error_iff : (∃ cause, settle entries = .error cause) ↔
      (∃ entry ∈ entries, entry.isNamed = true) ∧ Unsettled entries := by
  unfold settle
  split
  · next hAny =>
      rw [settleNamed_error_iff]
      simp [List.any_eq_true.mp hAny]
  · next hAny =>
      have hNone : ¬ ∃ entry ∈ entries, entry.isNamed = true := fun hSome =>
        hAny (List.any_eq_true.mpr hSome)
      simp [hNone]

end GoToC.Grammar.Entry
