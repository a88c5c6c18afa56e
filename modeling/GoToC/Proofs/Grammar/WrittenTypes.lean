import GoToC.Proofs.Grammar.Ahead
import GoToC.Proofs.Tree.Bare
import GoToC.Proofs.Tree.Written

/-!
# Reading written types

The rules for types read a tree of theirs back from the tokens that it is written with, and
stop right behind these. Only steps may be lacking.
-/

namespace GoToC

variable {params : List (Param Expr)} {kind : TokenKind} {param : Param Expr}
  {allowVariadic variadic : Bool} {entries : List Entry} {kinds : List TokenKind}

variable {follow : Token} {later : List Token} {c : Cursor} {rest : List TokenKind} {fuel : Nat}

/-- A type starts like one. -/
theorem Expr.TypeBuilt.written_cons {e : Expr} (h : e.TypeBuilt) :
    ∃ kind kinds, e.written = kind :: kinds ∧ Grammar.startsType kind = true := by
  cases e with
  | dot span receiver member =>
      cases receiver with
      | ident => exact ⟨_, _, rfl, rfl⟩
      | _ => simp [TypeBuilt] at h
  | ident => exact ⟨_, _, rfl, rfl⟩
  | pointerType => exact ⟨_, _, rfl, rfl⟩
  | sliceType => exact ⟨_, _, rfl, rfl⟩
  | mapType => exact ⟨_, _, rfl, rfl⟩
  | structType => exact ⟨_, _, rfl, rfl⟩
  | interfaceType => exact ⟨_, _, rfl, rfl⟩
  | _ => simp [TypeBuilt] at h

namespace Grammar

namespace Entry

/-- The parameter that an entry is to become. -/
def Denotes (param : Param Expr) : Entry → Prop
  | named name _ type => name = param.name ∧ name ≠ "" ∧ type.bare = param.type.bare
  | lone e => param.name = "" ∧ e.bare = param.type.bare

theorem settleNamed_denotes (h : List.Forall₂ Denotes params entries)
    (hNames : ∀ param ∈ params, param.name ≠ "") :
    ∃ settled, settleNamed [] entries = .ok settled ∧ bareParams settled = bareParams params := by
  induction h with
  | nil => exact ⟨[], rfl, rfl⟩
  | @cons param entry params entries hEntry _ ih =>
      obtain ⟨hName, hRest⟩ := List.forall_mem_cons.mp hNames
      obtain ⟨settled, hSettled, hBare⟩ := ih hRest
      cases entry with
      | lone e => exact absurd hEntry.1 hName
      | named name span type =>
          refine ⟨⟨name, type, span⟩ :: settled, ?_, ?_⟩
          · rw [settleNamed, hSettled]
            rfl
          · rw [bareParams, bareParams, hBare, bareParam, bareParam, hEntry.1, hEntry.2.2]

theorem unnamedParam_denotes (h : List.Forall₂ Denotes params entries)
    (hNames : ∀ param ∈ params, param.name = "") :
    entries.any isNamed = false ∧ bareParams (entries.map unnamedParam) = bareParams params := by
  induction h with
  | nil => exact ⟨rfl, rfl⟩
  | @cons param entry params entries hEntry _ ih =>
      obtain ⟨hName, hRest⟩ := List.forall_mem_cons.mp hNames
      obtain ⟨hNamed, hBare⟩ := ih hRest
      cases entry with
      | named name span type => exact absurd (hEntry.1.trans hName) hEntry.2.1
      | lone e =>
          refine ⟨by simpa [isNamed] using hNamed, ?_⟩
          rw [List.map_cons, bareParams, bareParams, hBare, unnamedParam, bareParam, bareParam,
            hEntry.1, hEntry.2]

/-- Entries of a list that has names throughout or nowhere become its parameters. -/
theorem settle_denotes (h : List.Forall₂ Denotes params entries) (hNames : NamedAlike params) :
    ∃ settled, settle entries = .ok settled ∧ bareParams settled = bareParams params := by
  have hUnnamed (hNone : ∀ param ∈ params, param.name = "") :
      ∃ settled, settle entries = .ok settled ∧ bareParams settled = bareParams params := by
    obtain ⟨hNamed, hBare⟩ := unnamedParam_denotes h hNone
    refine ⟨entries.map unnamedParam, ?_, hBare⟩
    rw [settle, if_neg (by simp [hNamed])]
  rcases hNames with hAll | hNone
  · cases h with
    | nil => exact hUnnamed (by simp)
    | @cons param entry params entries hEntry hEntries =>
        obtain ⟨settled, hSettled, hBare⟩ := settleNamed_denotes (.cons hEntry hEntries) hAll
        refine ⟨settled, ?_, hBare⟩
        have hNamed : entry.isNamed = true := by
          cases entry with
          | named => rfl
          | lone e => exact absurd hEntry.1 (hAll param List.mem_cons_self)
        rw [settle, if_pos (by simp [hNamed]), hSettled]
  · exact hUnnamed hNone

end Entry

/-- A tree was read back, up to the tokens `rest`. -/
def Regained (follow : Token) (later : List Token) (rest : List TokenKind) (e e' : Expr)
    (c : Cursor) : Prop :=
  e'.bare = e.bare ∧ c.Ahead follow later rest

/-- A name where it does not go on. -/
theorem parseType_ident {name : String} {span : Span}
    (h : c.Ahead follow later (.ident name :: rest))
    (hRest : rest.headD follow.kind ≠ .punct .dot) :
    Gives (· = .exhausted) c (parseType fuel) (Regained follow later rest (.ident span name)) := by
  cases fuel with
  | zero => exact .exhausted
  | succ fuel =>
      rw [parseType]
      refine .span_bind (.kind_bind ?_)
      rw [h.kind_eq, List.headD_cons]
      refine .advance h (by simp) fun _ c1 h1 => .node_bind ?_
      refine .eatSign_false (by rwa [h1.kind_eq]) ?_
      exact .pure ⟨rfl, h1⟩

/-- A type is read back where it does not go on as the name of a module. -/
def RegainsType (follow : Token) (later : List Token) (e : Expr) : Prop :=
  ∀ {fuel : Nat} {c : Cursor} {rest : List TokenKind}, c.Ahead follow later (e.written ++ rest) →
    rest.headD follow.kind ≠ .punct .dot →
    Gives (· = .exhausted) c (parseType fuel) (Regained follow later rest e)

def RegainsSpread (follow : Token) (later : List Token) (e : Expr) : Prop :=
  ∀ {fuel : Nat} {c : Cursor} {rest : List TokenKind},
    c.Ahead follow later (e.spreadWritten ++ rest) → rest.headD follow.kind ≠ .punct .dot →
    Gives (· = .exhausted) c (parseVariadic fuel true) (Regained follow later rest e)

/-! ## Parameters -/

/-- An entry of a parameter list ends in front of a comma or the closing parenthesis. -/
def EndsEntry (kind : TokenKind) : Prop := kind = .punct .comma ∨ kind = .punct .rparen

theorem EndsEntry.ne_dot (h : EndsEntry kind) : kind ≠ .punct .dot := by
  rcases h with rfl | rfl <;> simp

/-- What a parameter is read as. -/
def EntryRegained (follow : Token) (later : List Token) (rest : List TokenKind)
    (param : Param Expr) (variadic : Bool) (found : Entry × Bool) (c : Cursor) : Prop :=
  found.1.Denotes param ∧ found.2 = variadic ∧ c.Ahead follow later rest

/-- A name in front of a type, or of three dots with one. -/
theorem parseEntry_named (hName : param.name ≠ "")
    (h : c.Ahead follow later (nameWritten param.name ++ kind :: kinds))
    (hKind : startsType kind = true ∨ kind = .punct .ellipsis)
    (hPlain : startsType kind = true → ∀ {fuel c}, c.Ahead follow later (kind :: kinds) →
      Gives (· = .exhausted) c (parseType fuel) (Regained follow later rest param.type))
    (hSpread : kind = .punct .ellipsis → ∀ {fuel c}, c.Ahead follow later (kind :: kinds) →
      Gives (· = .exhausted) c (parseVariadic fuel allowVariadic)
        (Regained follow later rest param.type)) :
    Gives (· = .exhausted) c (parseEntry fuel allowVariadic)
      (EntryRegained follow later rest param (kind = .punct .ellipsis)) := by
  have hNext : kind ≠ .punct .dot ∧ endsEntry kind = false := by
    rcases hKind with hKind | rfl
    · unfold startsType at hKind
      split at hKind <;> simp_all [endsEntry]
    · simp [endsEntry]
  rw [nameWritten, if_neg hName, List.singleton_append] at h
  cases fuel with
  | zero => exact .exhausted
  | succ fuel =>
      rw [parseEntry]
      refine .checkSign_false (by simp [h.kind_eq]) ?_
      have hFirst : Gives (· = .exhausted) c (parseType fuel)
          (Regained follow later (kind :: kinds) (.ident .nowhere param.name)) :=
        parseType_ident h hNext.1
      refine hFirst.bind fun first c1 h1 => ?_
      obtain ⟨span, rfl⟩ : ∃ span, first = .ident span param.name := by
        have hFirst := h1.1
        cases first <;> simp_all [Expr.bare]
      refine .kind_bind ?_
      rw [h1.2.kind_eq, List.headD_cons, hNext.2]
      by_cases hDots : kind = .punct .ellipsis
      · refine .checkSign_true (by rw [h1.2.kind_eq, List.headD_cons, hDots]) ?_
        refine (hSpread hDots h1.2).bind fun type c2 h2 => .pure ⟨⟨rfl, hName, h2.1⟩, ?_, h2.2⟩
        simp [hDots]
      · have hStarts := hKind.resolve_right hDots
        refine .checkSign_false (by rwa [h1.2.kind_eq, List.headD_cons]) ?_
        refine (hPlain hStarts h1.2).bind fun type c2 h2 => .pure ⟨⟨rfl, hName, h2.1⟩, ?_, h2.2⟩
        simp [hDots]

theorem startsType_ne_ellipsis (h : startsType kind = true) : kind ≠ .punct .ellipsis := by
  rintro rfl
  simp [startsType] at h

theorem parseEntry_plain (hBuilt : param.type.TypeBuilt)
    (hType : RegainsType follow later param.type)
    (h : c.Ahead follow later (nameWritten param.name ++ (param.type.written ++ rest)))
    (hRest : EndsEntry (rest.headD follow.kind)) :
    Gives (· = .exhausted) c (parseEntry fuel allowVariadic)
      (EntryRegained follow later rest param false) := by
  obtain ⟨kind, kinds, hWritten, hKind⟩ := hBuilt.written_cons
  have hDots := startsType_ne_ellipsis hKind
  by_cases hName : param.name = ""
  · rw [nameWritten, if_pos hName, List.nil_append] at h
    cases fuel with
    | zero => exact .exhausted
    | succ fuel =>
        rw [parseEntry]
        refine .checkSign_false ?_ ?_
        · rwa [h.kind_eq, hWritten, List.cons_append, List.headD_cons]
        refine (hType h hRest.ne_dot).bind fun first c1 h1 => .kind_bind ?_
        have hEnds : endsEntry c1.kind = true := by
          rw [h1.2.kind_eq]
          rcases hRest with hRest | hRest <;> rw [hRest] <;> rfl
        rw [hEnds]
        exact .pure ⟨⟨hName, h1.1⟩, rfl, h1.2⟩
  · rw [hWritten, List.cons_append] at h
    have hEntry : Gives (· = .exhausted) c (parseEntry fuel allowVariadic)
        (EntryRegained follow later rest param (kind = .punct .ellipsis)) := by
      refine parseEntry_named hName h (.inl hKind) (fun _ _ _ hAhead => ?_)
        fun hFalse => absurd hFalse hDots
      rw [← List.cons_append, ← hWritten] at hAhead
      exact hType hAhead hRest.ne_dot
    simpa [hDots] using hEntry

theorem parseEntry_spread (hSlice : ∃ span elem, param.type = .sliceType span elem)
    (hType : RegainsSpread follow later param.type)
    (h : c.Ahead follow later (nameWritten param.name ++ (param.type.spreadWritten ++ rest)))
    (hRest : EndsEntry (rest.headD follow.kind)) :
    Gives (· = .exhausted) c (parseEntry fuel true)
      (EntryRegained follow later rest param true) := by
  obtain ⟨kinds, hWritten⟩ : ∃ kinds, param.type.spreadWritten = .punct .ellipsis :: kinds := by
    obtain ⟨span, elem, hType⟩ := hSlice
    exact ⟨elem.written, by rw [hType, Expr.spreadWritten]⟩
  by_cases hName : param.name = ""
  · rw [nameWritten, if_pos hName, List.nil_append] at h
    cases fuel with
    | zero => exact .exhausted
    | succ fuel =>
        rw [parseEntry]
        refine .checkSign_true (by rw [h.kind_eq, hWritten, List.cons_append, List.headD_cons]) ?_
        exact (hType h hRest.ne_dot).bind fun type c1 h1 => .pure ⟨⟨hName, h1.1⟩, rfl, h1.2⟩
  · rw [hWritten, List.cons_append] at h
    have hEntry : Gives (· = .exhausted) c (parseEntry fuel true)
        (EntryRegained follow later rest param (TokenKind.punct .ellipsis = .punct .ellipsis)) := by
      refine parseEntry_named hName h (.inr rfl)
        (fun hFalse => absurd rfl (startsType_ne_ellipsis hFalse)) fun _ _ _ hAhead => ?_
      rw [← List.cons_append, ← hWritten] at hAhead
      exact hType hAhead hRest.ne_dot
    simpa using hEntry

theorem commaBefore_ends {α : Type} (others : List α) (hKinds : others = [] → kinds = []) :
    EndsEntry ((commaBefore others ++ (kinds ++ .punct .rparen :: rest)).headD follow.kind) := by
  cases others with
  | nil =>
      rw [hKinds rfl]
      exact .inr rfl
  | cons first others => exact .inl rfl

/-- An entry starts with a name or as a type does, or with three dots. -/
theorem headD_entry (name : String) (kinds : List TokenKind) (default : TokenKind)
    (hKind : startsType kind = true ∨ kind = .punct .ellipsis) :
    (nameWritten name ++ kind :: kinds).headD default ≠ .newline ∧
      (nameWritten name ++ kind :: kinds).headD default ≠ .punct .rparen := by
  by_cases hName : name = ""
  · rw [nameWritten, if_pos hName, List.nil_append, List.headD_cons]
    rcases hKind with hKind | rfl
    · constructor <;> rintro rfl <;> simp [startsType] at hKind
    · simp
  · simp [nameWritten, hName]

/-- Entries of a parameter list, read up to and with its closing parenthesis. -/
def EntriesRegained (follow : Token) (later : List Token) (rest : List TokenKind)
    (params : List (Param Expr)) (variadic : Bool) (found : List Entry × Bool) (c : Cursor) :
    Prop :=
  List.Forall₂ Entry.Denotes params found.1 ∧ found.2 = variadic ∧ c.Ahead follow later rest

/-- The entries are read one after the other. -/
theorem parseEntries_cons {others : List (Param Expr)} (isVariadic : Bool)
    (hKind : c.kind ≠ .newline ∧ c.kind ≠ .punct .rparen)
    (hEntry : ∀ {fuel}, Gives (· = .exhausted) c (parseEntry fuel allowVariadic)
      (EntryRegained follow later
        (commaBefore others ++ (paramsWritten variadic others ++ .punct .rparen :: rest)) param
        isVariadic)) (hLast : others = [] → isVariadic = variadic)
    (hOthers : others ≠ [] → isVariadic = false ∧ ∀ {fuel c'}, c'.Ahead follow later
        (paramsWritten variadic others ++ .punct .rparen :: rest) →
      Gives (· = .exhausted) c' (parseEntries fuel allowVariadic false)
        (EntriesRegained follow later rest others variadic)) :
    Gives (· = .exhausted) c (parseEntries fuel allowVariadic false)
      (EntriesRegained follow later rest (param :: others) variadic) := by
  cases fuel with
  | zero => exact .exhausted
  | succ fuel =>
      rw [parseEntries]
      refine .skipNewlines hKind.1 (.eatSign_false hKind.2 ?_)
      rw [if_neg (by simp), if_neg (by simp)]
      refine hEntry.bind fun found c1 h1 => ?_
      obtain ⟨entry, found⟩ := found
      obtain ⟨hDenotes, rfl, hAhead⟩ := h1
      cases others with
      | nil =>
          replace hAhead : c1.Ahead follow later (.punct .rparen :: rest) := hAhead
          have hKind : c1.kind = .punct .rparen := hAhead.kind_eq
          refine .skipNewlines (by simp [hKind]) ?_
          refine .eatSign_false (by simp [hKind]) ?_
          refine .skipNewlines (by simp [hKind]) ?_
          exact .expectSign hAhead fun _ c2 h2 => .pure ⟨.cons hDenotes .nil, hLast rfl, h2⟩
      | cons next others =>
          obtain ⟨rfl, hNext⟩ := hOthers (by simp)
          refine .skipNewlines (by simp [hAhead.kind_eq, commaBefore]) ?_
          refine .eatSign_true hAhead fun c2 h2 => ?_
          exact (hNext h2).bind fun found c3 h3 => .pure ⟨.cons hDenotes h3.1, h3.2⟩

/-- The parameters of a list whose entries are read back. -/
theorem parseParams_written (hNames : NamedAlike params)
    (h : c.Ahead follow later (.punct .lparen :: kinds))
    (hEntries : ∀ {fuel c}, c.Ahead follow later kinds →
      Gives (· = .exhausted) c (parseEntries fuel allowVariadic false)
        (EntriesRegained follow later rest params variadic)) :
    Gives (· = .exhausted) c (parseParams fuel allowVariadic) fun found c' =>
      bareParams found.1 = bareParams params ∧ found.2 = variadic ∧ c'.Ahead follow later rest := by
  cases fuel with
  | zero => exact .exhausted
  | succ fuel =>
      rw [parseParams]
      refine .expectSign h fun _ c1 h1 => (hEntries h1).bind fun found c2 h2 => ?_
      obtain ⟨settled, hSettled, hBare⟩ := Entry.settle_denotes h2.1 hNames
      obtain ⟨entries, found⟩ := found
      dsimp only at hSettled ⊢
      rw [hSettled]
      exact .pure ⟨hBare, h2.2⟩

/-! ## Types and signatures -/

mutual

theorem parseType_written : (e : Expr) → e.TypeBuilt → ∀ {fuel : Nat} {c : Cursor}
    {rest : List TokenKind}, c.Ahead follow later (e.written ++ rest) →
    rest.headD follow.kind ≠ .punct .dot →
    Gives (· = .exhausted) c (parseType fuel) (Regained follow later rest e)
  | .ident span name, _, fuel, c, rest, h, hRest => parseType_ident h hRest
  | .dot span (.ident nameSpan name) member, _, fuel, c, rest, h, _ => by
      cases fuel with
      | zero => exact .exhausted
      | succ fuel =>
          rw [parseType]
          refine .span_bind (.kind_bind ?_)
          rw [h.kind_eq]
          refine .advance h (by simp) fun _ c1 h1 => .node_bind ?_
          refine .eatSign_true h1 fun c2 h2 => ?_
          exact .expectIdent h2 fun _ c3 h3 => .node ⟨rfl, h3⟩
  | .pointerType span inner, hBuilt, fuel, c, rest, h, hRest => by
      rw [Expr.TypeBuilt] at hBuilt
      rw [Expr.written, List.cons_append] at h
      cases fuel with
      | zero => exact .exhausted
      | succ fuel =>
          rw [parseType]
          refine .span_bind (.kind_bind ?_)
          rw [h.kind_eq]
          refine .advance h (by simp) fun _ c1 h1 => ?_
          refine (parseType_written inner hBuilt h1 hRest).bind fun inner' c2 h2 => .node ⟨?_, h2.2⟩
          rw [Expr.bare, Expr.bare, h2.1]
  | .sliceType span elem, hBuilt, fuel, c, rest, h, hRest => by
      rw [Expr.TypeBuilt] at hBuilt
      rw [Expr.written, List.cons_append] at h
      cases fuel with
      | zero => exact .exhausted
      | succ fuel =>
          rw [parseType]
          refine .span_bind (.kind_bind ?_)
          rw [h.kind_eq]
          refine .advance h (by simp) fun _ c1 h1 => ?_
          refine .expectSign h1 fun _ c2 h2 => ?_
          refine (parseType_written elem hBuilt h2 hRest).bind fun elem' c3 h3 => .node ⟨?_, h3.2⟩
          rw [Expr.bare, Expr.bare, h3.1]
  | .mapType span key value, hBuilt, fuel, c, rest, h, hRest => by
      rw [Expr.TypeBuilt] at hBuilt
      rw [Expr.written, List.cons_append, List.cons_append, List.append_assoc] at h
      cases fuel with
      | zero => exact .exhausted
      | succ fuel =>
          rw [parseType]
          refine .span_bind (.kind_bind ?_)
          rw [h.kind_eq]
          refine .advance h (by simp) fun _ c1 h1 => ?_
          refine .expectSign h1 fun _ c2 h2 => ?_
          refine (parseType_written key hBuilt.1 h2 (by simp)).bind fun key' c3 h3 => ?_
          refine .expectSign h3.2 fun _ c4 h4 => ?_
          refine (parseType_written value hBuilt.2 h4 hRest).bind fun value' c5 h5 =>
            .node ⟨?_, h5.2⟩
          rw [Expr.bare, Expr.bare, h3.1, h5.1]
  | .structType span fields, hBuilt, fuel, c, rest, h, _ => by
      rw [Expr.TypeBuilt] at hBuilt
      rw [Expr.written, List.cons_append, List.cons_append, List.append_assoc] at h
      cases fuel with
      | zero => exact .exhausted
      | succ fuel =>
          rw [parseType]
          refine .span_bind (.kind_bind ?_)
          rw [h.kind_eq]
          refine .advance h (by simp) fun _ c1 h1 => ?_
          refine .expectSign h1 fun _ c2 h2 => ?_
          refine (parseFields_written fields hBuilt (.inl rfl) h2).bind fun fields' c3 h3 => ?_
          refine .expectSign h3.2 fun _ c4 h4 => .node ⟨?_, h4⟩
          rw [Expr.bare, Expr.bare, h3.1]
  | .interfaceType span specs, hBuilt, fuel, c, rest, h, _ => by
      rw [Expr.TypeBuilt] at hBuilt
      rw [Expr.written, List.cons_append, List.cons_append, List.append_assoc] at h
      cases fuel with
      | zero => exact .exhausted
      | succ fuel =>
          rw [parseType]
          refine .span_bind (.kind_bind ?_)
          rw [h.kind_eq]
          refine .advance h (by simp) fun _ c1 h1 => ?_
          refine .expectSign h1 fun _ c2 h2 => ?_
          refine (parseMethodSpecs_written specs hBuilt (.inl rfl) h2).bind fun specs' c3 h3 => ?_
          refine .expectSign h3.2 fun _ c4 h4 => .node ⟨?_, h4⟩
          rw [Expr.bare, Expr.bare, h3.1]

theorem parseFields_written : (fields : List (Param Expr)) → ParamsBuilt fields → ∀ {fuel : Nat}
    {c : Cursor} {before rest : List TokenKind}, before = [] ∨ before = [.punct .semicolon] →
    c.Ahead follow later (before ++ (fieldsWritten fields ++ .punct .rbrace :: rest)) →
    Gives (· = .exhausted) c (parseFields fuel) fun fields' c' =>
      bareParams fields' = bareParams fields ∧ c'.Ahead follow later (.punct .rbrace :: rest)
  | [], _, fuel, c, before, rest, hBefore, h => by
      cases fuel with
      | zero => exact .exhausted
      | succ fuel =>
          rw [parseFields]
          refine .skipTerminators hBefore h (by simp [fieldsWritten]) fun c1 h1 => ?_
          exact .checkSign_true h1.kind_eq (.pure ⟨rfl, h1⟩)
  | ⟨name, type, span⟩ :: others, hBuilt, fuel, c, before, rest, hBefore, h => by
      rw [ParamsBuilt] at hBuilt
      rw [fieldsWritten, List.cons_append, List.append_assoc] at h
      cases fuel with
      | zero => exact .exhausted
      | succ fuel =>
          rw [parseFields]
          refine .skipTerminators hBefore h (by simp) fun c1 h1 => ?_
          refine .checkSign_false (by simp [h1.kind_eq]) ?_
          refine .expectIdent h1 fun _ c2 h2 => ?_
          refine (parseType_written type hBuilt.1 h2 (by simp)).bind fun type' c3 h3 => ?_
          refine .expectTerminator h3.2.kind_eq ?_
          refine (parseFields_written others hBuilt.2 (.inr rfl) h3.2).bind fun others' c4 h4 =>
            .pure ⟨?_, h4.2⟩
          rw [bareParams, bareParams, bareParam, bareParam, h3.1, h4.1]

theorem parseMethodSpecs_written : (specs : List (MethodSpec Expr)) → SpecsBuilt specs →
    ∀ {fuel : Nat} {c : Cursor} {before rest : List TokenKind},
    before = [] ∨ before = [.punct .semicolon] →
    c.Ahead follow later (before ++ (specsWritten specs ++ .punct .rbrace :: rest)) →
    Gives (· = .exhausted) c (parseMethodSpecs fuel) fun specs' c' =>
      bareSpecs specs' = bareSpecs specs ∧ c'.Ahead follow later (.punct .rbrace :: rest)
  | [], _, fuel, c, before, rest, hBefore, h => by
      cases fuel with
      | zero => exact .exhausted
      | succ fuel =>
          rw [parseMethodSpecs]
          refine .skipTerminators hBefore h (by simp [specsWritten]) fun c1 h1 => ?_
          exact .checkSign_true h1.kind_eq (.pure ⟨rfl, h1⟩)
  | ⟨name, signature, span⟩ :: others, hBuilt, fuel, c, before, rest, hBefore, h => by
      rw [SpecsBuilt] at hBuilt
      rw [specsWritten, List.cons_append, List.append_assoc] at h
      cases fuel with
      | zero => exact .exhausted
      | succ fuel =>
          rw [parseMethodSpecs]
          refine .skipTerminators hBefore h (by simp) fun c1 h1 => ?_
          refine .checkSign_false (by simp [h1.kind_eq]) ?_
          refine .expectIdent h1 fun _ c2 h2 => ?_
          refine (parseSignature_written signature hBuilt.1 h2).bind fun signature' c3 h3 => ?_
          refine .previousSpan_bind (.expectTerminator h3.2.kind_eq ?_)
          refine (parseMethodSpecs_written others hBuilt.2 (.inr rfl) h3.2).bind
            fun others' c4 h4 => .pure ⟨?_, h4.2⟩
          rw [bareSpecs, bareSpecs, h3.1, h4.1]

theorem parseSignature_written : (signature : Signature Expr) → SignatureBuilt signature →
    ∀ {fuel : Nat} {c : Cursor} {rest : List TokenKind},
    c.Ahead follow later (signatureWritten signature ++ .punct .semicolon :: rest) →
    Gives (· = .exhausted) c (parseSignature fuel) fun signature' c' =>
      bareSignature signature' = bareSignature signature ∧
        c'.Ahead follow later (.punct .semicolon :: rest)
  | ⟨variadic, inputs, outputs⟩, hBuilt, fuel, c, rest, h => by
      rw [SignatureBuilt] at hBuilt
      obtain ⟨hInputs, hOutputs, hInputNames, hOutputNames, hVariadic⟩ := hBuilt
      rw [signatureWritten, List.cons_append, List.append_assoc, List.cons_append] at h
      cases fuel with
      | zero => exact .exhausted
      | succ fuel =>
          rw [parseSignature]
          refine (parseParams_written hInputNames h
            (parseEntries_written inputs hInputs fun hLast => ⟨rfl, hVariadic hLast⟩)).bind
            fun found c1 h1 => ?_
          obtain ⟨inputs', _⟩ := found
          obtain ⟨hBare, rfl, h1⟩ := h1
          cases hParens : needParens outputs with
          | true =>
              rw [hParens, enclosed, if_pos rfl, List.cons_append, List.append_assoc] at h1
              refine .checkSign_true h1.kind_eq ?_
              refine (parseParams_written hOutputNames h1
                (parseEntries_written outputs hOutputs (by simp))).bind fun found c2 h2 =>
                .pure ⟨?_, h2.2.2⟩
              rw [bareSignature, bareSignature, hBare, h2.1]
          | false =>
              rw [hParens, enclosed, if_neg (by simp)] at h1
              match outputs with
              | [] =>
                  have hKind : c1.kind = .punct .semicolon := h1.kind_eq
                  refine .checkSign_false (by simp [hKind]) (.kind_bind ?_)
                  rw [hKind]
                  exact .pure ⟨by rw [bareSignature, bareSignature, hBare], h1⟩
              | [⟨name, type, span⟩] =>
                  have hName : name = "" := by simpa [needParens] using hParens
                  subst hName
                  rw [ParamsBuilt] at hOutputs
                  have hAhead : c1.Ahead follow later
                      (type.written ++ .punct .semicolon :: rest) := by
                    simpa [paramsWritten, nameWritten, commaBefore] using h1
                  obtain ⟨kind, kinds, hWritten, hKind⟩ := hOutputs.1.written_cons
                  have hFirst : c1.kind = kind := by
                    rw [hAhead.kind_eq, hWritten, List.cons_append, List.headD_cons]
                  refine .checkSign_false ?_ (.kind_bind ?_)
                  · rw [hFirst]
                    rintro rfl
                    simp [startsType] at hKind
                  rw [hFirst, if_pos hKind]
                  refine (parseType_written type hOutputs.1 hAhead (by simp)).bind
                    fun type' c2 h2 => .pure ⟨?_, h2.2⟩
                  rw [bareSignature, bareSignature, hBare, bareParams, bareParams, bareParams,
                    bareParam, bareParam, h2.1]
                  rfl

theorem parseEntries_written : (params : List (Param Expr)) → ParamsBuilt params →
    ∀ {variadic allowVariadic : Bool} {fuel : Nat} {c : Cursor} {rest : List TokenKind},
    (variadic = true → allowVariadic = true ∧ EndsInSlice params) →
    c.Ahead follow later (paramsWritten variadic params ++ .punct .rparen :: rest) →
    Gives (· = .exhausted) c (parseEntries fuel allowVariadic false)
      (EntriesRegained follow later rest params variadic)
  | [], _, variadic, allowVariadic, fuel, c, rest, hVariadic, h => by
      have hPlain : variadic = false := by
        by_contra hVariadicly
        obtain ⟨-, init, _, _, _, _, hEmpty⟩ := hVariadic (by simpa using hVariadicly)
        simp at hEmpty
      subst hPlain
      cases fuel with
      | zero => exact .exhausted
      | succ fuel =>
          rw [parseEntries]
          refine .skipNewlines (by simp [h.kind_eq, paramsWritten]) ?_
          exact .eatSign_true h fun c1 h1 => .pure ⟨.nil, rfl, h1⟩
  | ⟨name, type, span⟩ :: others, hBuilt, variadic, allowVariadic, fuel, c, rest, hVariadic, h => by
      rw [ParamsBuilt] at hBuilt
      have hEnds : EndsEntry ((commaBefore others ++
          (paramsWritten variadic others ++ .punct .rparen :: rest)).headD follow.kind) :=
        commaBefore_ends others fun hLast => by rw [hLast, paramsWritten]
      by_cases hSpread : (variadic && others.isEmpty) = true
      · rw [paramsWritten, if_pos hSpread, List.append_assoc, List.append_assoc,
          List.append_assoc] at h
        rw [Bool.and_eq_true, List.isEmpty_iff] at hSpread
        obtain ⟨rfl, rfl⟩ := hSpread
        obtain ⟨rfl, hSlice⟩ := hVariadic rfl
        have hType := hSlice.of_singleton
        obtain ⟨kinds, hWritten⟩ : ∃ kinds, type.spreadWritten = .punct .ellipsis :: kinds := by
          obtain ⟨_, elem, rfl⟩ := hType
          exact ⟨_, rfl⟩
        refine parseEntries_cons true ?_ ?_ (fun _ => rfl) (fun hOthers => absurd rfl hOthers)
        · rw [h.kind_eq, hWritten]
          exact headD_entry name _ _ (.inr rfl)
        · exact parseEntry_spread hType (parseVariadic_written type hBuilt.1 hType) h hEnds
      · rw [paramsWritten, if_neg hSpread, List.append_assoc, List.append_assoc,
          List.append_assoc] at h
        obtain ⟨kind, kinds, hWritten, hStarts⟩ := hBuilt.1.written_cons
        refine parseEntries_cons false ?_ ?_ ?_ ?_
        · rw [h.kind_eq, hWritten]
          exact headD_entry name _ _ (.inl hStarts)
        · exact parseEntry_plain hBuilt.1 (parseType_written type hBuilt.1) h hEnds
        · rintro rfl
          simpa using hSpread
        · refine fun hOthers => ⟨rfl, fun hAhead => ?_⟩
          refine parseEntries_written others hBuilt.2 (fun hLast => ?_) hAhead
          exact ⟨(hVariadic hLast).1, (hVariadic hLast).2.of_cons hOthers⟩

theorem parseVariadic_written : (e : Expr) → e.TypeBuilt →
    (∃ span elem, e = .sliceType span elem) → RegainsSpread follow later e
  | .sliceType span elem, hBuilt, _, fuel, c, rest, h, hRest => by
      rw [Expr.TypeBuilt] at hBuilt
      rw [Expr.spreadWritten, List.cons_append] at h
      cases fuel with
      | zero => exact .exhausted
      | succ fuel =>
          rw [parseVariadic]
          refine .expectSign h fun _ c1 h1 => ?_
          rw [if_neg (by simp)]
          refine (parseType_written elem hBuilt h1 hRest).bind fun elem' c2 h2 => .node ⟨?_, h2.2⟩
          rw [Expr.bare, Expr.bare, h2.1]

end

end Grammar

end GoToC
