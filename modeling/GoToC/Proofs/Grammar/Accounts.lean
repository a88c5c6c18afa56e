import GoToC.Proofs.Grammar.Noted
import GoToC.Proofs.Grammar.ReadingOrder

/-!
# Statements that are read and kept

Every statement that is read inside a function is found again in the file, once and in its place,
unless it was read in a default of a switch that has another default behind it: of all defaults of a
switch only the last one is kept. The notes of a parser account for what is in hand before and
after it, and all rules only pass such accounts on; the one for arms loses a default.
-/

namespace GoToC

variable {stmt : Stmt} {stmts : List Stmt} {make : Span → Stmt}

open Grammar

/-! ## Statements in order -/

/-- What is in one part of a statement is in the order of the text. -/
def Stmt.InOrder (stmt : Stmt) : Prop :=
  ∀ part ∈ stmt.parts, part.Pairwise fun a b => a.span.Precedes b.span

/-- A statement with nothing inside. -/
structure Stmt.IsLeaf (stmt : Stmt) : Prop where
  inner : stmt.inner = []
  parts : stmt.parts = []

theorem Stmt.IsLeaf.inOrder (h : stmt.IsLeaf) : stmt.InOrder := by
  rw [InOrder, h.parts]
  exact List.forall_mem_nil _

theorem Grammar.Simple.isLeaf_toStmt (simple : Simple) (span : Span) :
    (simple.toStmt span).IsLeaf :=
  ⟨rfl, rfl⟩

theorem allOf_append (stmts others : List Stmt) :
    allOf (stmts ++ others) = allOf stmts ++ allOf others := by
  induction stmts with
  | nil => rfl
  | cons stmt rest ih => simp [allOf, ih]

theorem allOf_leaves (h : ∀ stmt ∈ stmts, stmt.IsLeaf) : allOf stmts = stmts := by
  induction stmts with
  | nil => rfl
  | cons stmt rest ih =>
      rw [allOf, (h stmt List.mem_cons_self).inner, ih fun other hOther => h other (.tail _ hOther)]
      rfl

theorem optAll_eq (stmt : Option Stmt) : optAll stmt = allOf stmt.toList := by
  cases stmt with
  | none => rfl
  | some stmt => simp [optAll, allOf]

theorem optAllOf_eq (body : Option (List Stmt)) : optAllOf body = allOf (body.getD []) := by
  cases body with
  | none => rfl
  | some body => rfl

/-! ## Defaults that are read

Each default of a switch is read with a word of its own. It is the default of the statement that is
made of the switch, or the statements of it are noted as replaced: the notes hold no more of both
than there are such words.
-/

def Token.isDefault (token : Token) : Bool := token.kind == .keyword .default

/-- A switch that has a default. -/
def Stmt.hasDefault : Stmt → Bool
  | .switch _ _ _ (some _) => true
  | _ => false

/-- A switch holds two lists of statements, and all other statements one or none. -/
theorem Stmt.hasDefault_of_parts {part : List Stmt} (h : stmt.parts = [part]) :
    stmt.hasDefault = false := by
  unfold Stmt.hasDefault
  split
  · cases h
  · rfl

theorem Stmt.IsLeaf.hasDefault_eq (h : stmt.IsLeaf) : stmt.hasDefault = false := by
  have hParts := h.parts
  unfold Stmt.hasDefault
  split
  · cases hParts
  · rfl

namespace Grammar

/-- The defaults that are noted: those of statements that were read, and those that were
replaced. -/
def Notes.defaults (notes : Notes) : Nat :=
  notes.replaced.length + notes.made.countP (·.hasDefault)

namespace Notes

variable {notes : Notes} {stmt : Stmt}

@[simp] theorem defaults_append (notes more : Notes) :
    (notes ++ more).defaults = notes.defaults + more.defaults := by
  show (notes.replaced ++ more.replaced).length + (notes.made ++ more.made).countP _ = _
  rw [List.length_append, List.countP_append, defaults, defaults]
  omega

theorem defaults_add (h : stmt.hasDefault = false) :
    (notes.add stmt).defaults = notes.defaults := by
  simp [add, defaults, h]

/-- A statement holds a default more if it is a switch with one. -/
theorem defaults_add_switch (span : Span) (subject : Option Expr) (arms : Arms) :
    (notes.add (.switch span subject arms.cases arms.fallback)).defaults =
      arms.fallback.toList.length + notes.defaults := by
  cases hFallback : arms.fallback with
  | none => simp [add, defaults, Stmt.hasDefault]
  | some body =>
      simp only [add, defaults, Stmt.hasDefault, List.countP_append, List.countP_singleton,
        if_true, Option.toList_some, List.length_singleton]
      omega

theorem defaults_replace (notes : Notes) (fallback : Option (List Stmt)) :
    (notes.replace fallback).defaults = notes.defaults + fallback.toList.length := by
  simp only [replace, defaults, List.length_append]
  omega

theorem defaults_leaves (h : ∀ stmt ∈ stmts, stmt.IsLeaf) : (⟨stmts, []⟩ : Notes).defaults = 0 := by
  show 0 + stmts.countP (·.hasDefault) = 0
  rw [Nat.zero_add, List.countP_eq_zero]
  intro stmt hStmt
  rw [(h stmt hStmt).hasDefault_eq]
  exact Bool.false_ne_true

end Notes

end Grammar

/-- The words for a default that are still to be read. -/
def Cursor.defaults (c : Cursor) : Nat := (c.current :: c.rest).countP Token.isDefault

/-- A cursor is not behind another one, which has read what the first one has. -/
abbrev Cursor.Onto (c c' : Cursor) : Prop :=
  c.span.start ≤ c'.span.start ∧ c'.defaults ≤ c.defaults

theorem Cursor.Passes.defaults {c c' : Cursor} {read : List Token} (h : c.Passes read c') :
    c'.defaults + read.countP Token.isDefault = c.defaults := by
  rw [Cursor.defaults, Cursor.defaults, h.tokens, List.countP_append, Nat.add_comm]

/-- Statements one after another between two cursors. -/
def Cursor.LaysStmts (c : Cursor) (stmts : List Stmt) (c' : Cursor) : Prop :=
  c.Lays (stmts.map fun stmt => ("", stmt.span)) c' ∧ c'.defaults ≤ c.defaults

namespace Cursor.LaysStmts

variable {c c' c'' : Cursor} {stmts others : List Stmt}

theorem onto (h : c.LaysStmts stmts c') : c.Onto c' := ⟨h.1.forward, h.2⟩

theorem nil (h : c.Onto c') : c.LaysStmts [] c' := ⟨Lays.nil h.1, h.2⟩

theorem append (h : c.LaysStmts stmts c') (h' : c'.LaysStmts others c'') :
    c.LaysStmts (stmts ++ others) c'' := by
  rw [LaysStmts, List.map_append]
  exact ⟨h.1.append h'.1, h'.2.trans h.2⟩

theorem pairwise (h : c.LaysStmts stmts c') : stmts.Pairwise fun a b => a.span.Precedes b.span := by
  have hApart := h.1.apart
  rwa [List.pairwise_map] at hApart

theorem inside (h : c.LaysStmts stmts c') (hStmt : stmt ∈ stmts) :
    c.span.start ≤ stmt.span.start ∧ stmt.span.start < stmt.span.stop ∧
      stmt.span.stop ≤ c'.span.start :=
  h.1.inside ("", stmt.span) (List.mem_map_of_mem hStmt)

end Cursor.LaysStmts

/-! ## Accounts -/

/-- Between two cursors, the statements in hand before and those that were read are those in hand
after and those that were lost with a default. The statements that were read start at different
places between the cursors and are in order. -/
structure Accounts (c c' : Cursor) (had now : List Stmt) (notes : Notes) : Prop where
  forward : c.span.start ≤ c'.span.start
  kept : (now ++ notes.replaced.flatMap allOf).Perm (had ++ notes.made)
  inside : ∀ stmt ∈ notes.made, c.span.start ≤ stmt.span.start ∧ stmt.span.start < c'.span.start
  distinct : (notes.made.map (·.span.start)).Nodup
  inOrder : ∀ stmt ∈ notes.made, stmt.InOrder

namespace Accounts

variable {c c1 c' c'' : Cursor} {had mid now other : List Stmt} {notes more : Notes}

theorem perm_swap (first second third : List Stmt) :
    (first ++ second ++ third).Perm (first ++ third ++ second) := by
  rw [List.append_assoc, List.append_assoc]
  exact List.perm_append_comm.append_left first

/-- Nothing is read that counts. -/
theorem none (had : List Stmt) (h : c.span.start ≤ c'.span.start) : Accounts c c' had had .none :=
  ⟨h, by simp [Notes.none], by simp [Notes.none], .nil, by simp [Notes.none]⟩

theorem widen (h : Accounts c1 c' had now notes) (hBefore : c.span.start ≤ c1.span.start)
    (hAfter : c'.span.start ≤ c''.span.start) : Accounts c c'' had now notes where
  forward := by
    have := h.forward
    omega
  kept := h.kept
  inside stmt hStmt := by
    have := h.inside stmt hStmt
    omega
  distinct := h.distinct
  inOrder := h.inOrder

/-- One account after another. -/
theorem trans (h : Accounts c c1 had mid notes) (h' : Accounts c1 c' mid now more) :
    Accounts c c' had now (notes ++ more) where
  forward := h.forward.trans h'.forward
  kept := by
    have hLost : (notes ++ more).replaced.flatMap allOf =
        notes.replaced.flatMap allOf ++ more.replaced.flatMap allOf := List.flatMap_append
    rw [hLost, ← List.append_assoc]
    calc (now ++ notes.replaced.flatMap allOf ++ more.replaced.flatMap allOf).Perm
          (now ++ more.replaced.flatMap allOf ++ notes.replaced.flatMap allOf) := perm_swap _ _ _
      List.Perm _ (mid ++ more.made ++ notes.replaced.flatMap allOf) := h'.kept.append_right _
      List.Perm _ (mid ++ notes.replaced.flatMap allOf ++ more.made) := perm_swap _ _ _
      List.Perm _ (had ++ notes.made ++ more.made) := h.kept.append_right _
      _ = had ++ (notes.made ++ more.made) := List.append_assoc _ _ _
  inside stmt hStmt := by
    have hForth := h.forward
    have hOn := h'.forward
    rcases List.mem_append.mp hStmt with hStmt | hStmt
    · have := h.inside stmt hStmt
      omega
    · have := h'.inside stmt hStmt
      omega
  distinct := by
    rw [show (notes ++ more).made = notes.made ++ more.made from rfl, List.map_append]
    refine List.nodup_append.mpr ⟨h.distinct, h'.distinct, ?_⟩
    rintro start hStart start' hStart' rfl
    obtain ⟨stmt, hStmt, hAt⟩ := List.mem_map.mp hStart
    obtain ⟨stmt', hStmt', hAt'⟩ := List.mem_map.mp hStart'
    have := h.inside stmt hStmt
    have := h'.inside stmt' hStmt'
    omega
  inOrder stmt hStmt := (List.mem_append.mp hStmt).elim (h.inOrder stmt) (h'.inOrder stmt)

/-- What is in hand beside stays in hand. -/
theorem beside (h : Accounts c c' had now notes) (other : List Stmt) :
    Accounts c c' (had ++ other) (now ++ other) notes where
  forward := h.forward
  kept :=
    calc (now ++ other ++ notes.replaced.flatMap allOf).Perm
          (now ++ notes.replaced.flatMap allOf ++ other) := perm_swap _ _ _
      List.Perm _ (had ++ notes.made ++ other) := h.kept.append_right _
      List.Perm _ (had ++ other ++ notes.made) := perm_swap _ _ _
  inside := h.inside
  distinct := h.distinct
  inOrder := h.inOrder

/-- The order of what is in hand does not matter. -/
theorem perm (h : Accounts c c' had now notes) {had' now' : List Stmt} (hHad : had.Perm had')
    (hNow : now'.Perm now) : Accounts c c' had' now' notes where
  forward := h.forward
  kept := (hNow.append_right _).trans (h.kept.trans (hHad.append_right _))
  inside := h.inside
  distinct := h.distinct
  inOrder := h.inOrder

/-- Statements are read first, and others behind them. -/
theorem append (h : Accounts c c1 [] now notes) (h' : Accounts c1 c' had other more) :
    Accounts c c' had (now ++ other) (notes ++ more) :=
  (h.beside had).trans ((h'.beside now).perm List.perm_append_comm List.perm_append_comm)

/-- Statements with nothing inside. -/
theorem leaves (h : c.LaysStmts stmts c') (hLeaf : ∀ stmt ∈ stmts, stmt.IsLeaf) :
    Accounts c c' [] (allOf stmts) ⟨stmts, []⟩ where
  forward := h.1.forward
  kept := by simp [allOf_leaves hLeaf]
  inside stmt hStmt := by
    have := h.inside hStmt
    omega
  distinct := by
    have hApart : stmts.Pairwise fun a b => a.span.start ≠ b.span.start := by
      refine h.pairwise.imp_of_mem fun {a b} ha hb hPrecedes hSame => ?_
      have := h.inside ha
      unfold Span.Precedes at hPrecedes
      omega
    exact List.pairwise_map.mpr hApart
  inOrder stmt hStmt := (hLeaf stmt hStmt).inOrder

/-- A statement is read to its end; it starts before all that is inside. -/
theorem add (h : Accounts c1 c' [] stmt.inner notes) (hInner : c.span.start < c1.span.start)
    (hLays : c.LaysStmts [stmt] c') (hStart : stmt.span.start ≤ c.span.start)
    (hOrder : stmt.InOrder) :
    Accounts c c' [] (stmt :: stmt.inner) (notes.add stmt) where
  forward := hLays.1.forward
  kept := (h.kept.cons stmt).trans (List.perm_append_singleton stmt notes.made).symm
  inside other hOther := by
    have hWhole := hLays.inside List.mem_cons_self
    rcases List.mem_append.mp hOther with hOther | hOther
    · have := h.inside other hOther
      omega
    · rw [List.mem_singleton.mp hOther]
      omega
  distinct := by
    show ((notes.made ++ [stmt]).map (·.span.start)).Nodup
    rw [List.map_append, List.map_singleton, ← List.concat_eq_append]
    refine List.Nodup.concat (fun hMem => ?_) h.distinct
    obtain ⟨other, hOther, hSame⟩ := List.mem_map.mp hMem
    have := h.inside other hOther
    omega
  inOrder other hOther := by
    rcases List.mem_append.mp hOther with hOther | hOther
    · exact h.inOrder other hOther
    · exact List.mem_singleton.mp hOther ▸ hOrder

/-- A default takes the place of the one before, whose statements are lost. -/
theorem replace {body : List Stmt} (h : Accounts c c' [] (allOf body) notes)
    (fallback : Option (List Stmt)) :
    Accounts c c' (optAllOf fallback) (optAllOf (some body)) (notes.replace fallback) where
  forward := h.forward
  kept := by
    have hLost : (notes.replace fallback).replaced.flatMap allOf =
        notes.replaced.flatMap allOf ++ optAllOf fallback := by
      rw [Notes.replace, List.flatMap_append]
      cases fallback with
      | none => rfl
      | some earlier => simp [optAllOf]
    rw [hLost, ← List.append_assoc]
    exact (h.kept.append_right _).trans List.perm_append_comm
  inside := h.inside
  distinct := h.distinct
  inOrder := h.inOrder

end Accounts

namespace Grammar

variable {α β : Type} {c : Cursor}

/-! ## Rules with notes -/

/-- Notes do not matter to the tokens that are passed. -/
theorem Advances.of_fst {must : α → Prop} {parser : Parser (α × Notes)}
    (h : Advances must c (Prod.fst <$> parser)) :
    Advances (fun found => must found.1) c parser := by
  intro hc count value after hRun
  apply h hc count value.1 after
  rw [map_apply, hRun]
  rfl

theorem Advances.pure {must : α → Prop} {value : α} (h : ¬ must value) :
    Advances must c (pure value) := by
  intro _ count found after hRun
  cases hRun
  exact ⟨[], .refl c, fun hMust => absurd hMust h⟩

theorem Advances.map {must : β → Prop} {f : α → β} {parser : Parser α}
    (h : Advances (fun value => must (f value)) c parser) : Advances must c (f <$> parser) := by
  intro hc count result after hRun
  rw [map_apply] at hRun
  cases hFirst : parser ⟨c, count⟩ with
  | error failure => simp [hFirst, Except.map] at hRun
  | ok found =>
      rw [hFirst] at hRun
      cases hRun
      exact h hc count found.1 found.2 hFirst

namespace Leads

variable {parser : Parser α} {good : α → Cursor → Prop} {good' : β → Cursor → Prop}

theorem span_bind {next : Span → Parser β} (h : Leads c (next c.span) good') :
    Leads c (span >>= next) good' := h

theorem previousSpan_bind {next : Span → Parser β} (h : Leads c (next c.previous) good') :
    Leads c (previousSpan >>= next) good' := h

theorem check_bind {wanted : TokenKind} {next : Bool → Parser β}
    (h : Leads c (next (c.check wanted)) good') : Leads c (check wanted >>= next) good' := h

theorem onto {must : α → Prop} (h : Advances must c parser) :
    Leads c parser fun _ c' => c.Onto c' := by
  intro hc count value after hRun
  obtain ⟨read, hRead, -⟩ := h hc.ends count value after hRun
  have hDefaults := hRead.defaults
  exact ⟨⟨read, hRead⟩, hRead.forward hc, by omega⟩

/-- A part that only passes tokens, in one of two ways. -/
theorem either {first second : Parser α} {next : α → Parser β} {p : Prop} [Decidable p]
    (hFirst : Moves c first) (hSecond : Moves c second)
    (hNext : ∀ value c', c.Onto c' → Leads c' (next value) good') :
    Leads c (if p then first >>= next else second >>= next) good' := by
  split
  · exact (Leads.onto hFirst).bind hNext
  · exact (Leads.onto hSecond).bind hNext

theorem of_consumes_lt (h : Consumes c parser) :
    Leads c parser fun _ c' => c.span.start < c'.span.start ∧ c'.defaults ≤ c.defaults := by
  intro hc count value after hRun
  obtain ⟨read, hRead, hSome⟩ := h hc.ends count value after hRun
  refine ⟨⟨read, hRead⟩, ?_⟩
  have := hRead.between hc (hRead.head_mem (hSome trivial))
  have := hRead.defaults
  omega

/-- The word for a default is read. -/
theorem advance_default (h : c.kind = .keyword .default) : Leads c Grammar.advance fun _ c' =>
      c.span.start < c'.span.start ∧ c'.defaults + 1 ≤ c.defaults := by
  intro hc count value after hRun
  cases hRun
  have hRead := Cursor.Passes.next hc.ends (by rw [h]; rfl)
  have hDefault : c.current.isDefault = true := beq_iff_eq.mpr h
  have hDefaults := hRead.defaults
  rw [List.countP_singleton, if_pos hDefault] at hDefaults
  have hBetween : _ ∧ c.span.start < c.span.stop ∧ c.span.stop ≤ c.next.span.start :=
    hRead.between hc List.mem_cons_self
  refine ⟨⟨_, hRead⟩, ?_⟩
  show c.span.start < c.next.span.start ∧ c.next.defaults + 1 ≤ c.defaults
  omega

/-- What runs from the first to the last of the tokens that are passed is laid there, whatever
else is shown. -/
theorem laying (hConsumes : Consumes c parser) (h : Leads c parser fun value c' =>
      c.Lays [("", c.span.merge c'.previous)] c' ∧ c'.defaults ≤ c.defaults → good value c') :
    Leads c parser good := by
  intro hc count value after hRun
  obtain ⟨read, hRead, hSome⟩ := hConsumes hc.ends count value after hRun
  have hDefaults := hRead.defaults
  exact (h hc count value after hRun).imp_right fun hGood =>
    hGood ⟨hRead.lays hc (hSome trivial) "", by omega⟩

theorem and_gives {known : α → Cursor → Prop} (h : Leads c parser good)
    (hKnown : Gives (fun _ => True) c parser known) :
    Leads c parser fun value c' => good value c' ∧ known value c' := by
  intro hc count value after hRun
  obtain ⟨hRead, hGood⟩ := h hc count value after hRun
  have hGives := hKnown count
  rw [hRun] at hGives
  exact ⟨hRead, hGood, hGives⟩

end Leads

theorem expectWord_leads (word : Keyword) : Leads c (expectWord word) fun span c' =>
    (c.span.start < c'.span.start ∧ c'.defaults ≤ c.defaults) ∧ span = c.span :=
  (Leads.of_consumes_lt (Advances.expectWord word)).and_gives (expectWord_gives word)

/-- A statement that is no conditional, loop, switch or block has nothing inside. -/
theorem parseStmt_leaf (fuel : Nat) (hIf : c.kind ≠ .keyword .if) (hFor : c.kind ≠ .keyword .for)
    (hSwitch : c.kind ≠ .keyword .switch) (hBrace : c.kind ≠ .punct .lbrace) :
    Gives (fun _ => True) c (parseStmt fuel) fun stmt c' =>
      stmt.span = c.span.merge c'.previous ∧ stmt.IsLeaf := by
  cases fuel with
  | zero => exact .throw trivial
  | succ fuel =>
      have hFinish {make : Span → Stmt} (hSpan : ∀ whole, (make whole).span = whole)
          (hLeaf : ∀ whole, (make whole).IsLeaf) (c1 : Cursor) : Gives (fun _ => True) c1 (do
            let whole ← (do return c.span.merge (← previousSpan))
            return make whole) fun stmt c' =>
              stmt.span = c.span.merge c'.previous ∧ stmt.IsLeaf := by
        have hWhole : Gives (fun _ => True) c1 (do return c.span.merge (← previousSpan))
            fun whole c' => whole = c.span.merge c'.previous := .previousSpan_bind (.pure rfl)
        exact hWhole.bind fun whole c' hSame => .pure ⟨(hSpan whole).trans hSame, hLeaf whole⟩
      rw [parseStmt]
      apply Gives.span_bind
      apply Gives.kind_bind
      split
      · next hKind => exact absurd hKind hIf
      · next hKind => exact absurd hKind hFor
      · next hKind => exact absurd hKind hSwitch
      · refine .advance_bind (.kind_bind ?_)
        split
        · rw [pure_bind]
          exact hFinish (fun _ => rfl) (fun _ => ⟨rfl, rfl⟩) _
        · exact Gives.any.bind fun values c1 _ => hFinish (fun _ => rfl) (fun _ => ⟨rfl, rfl⟩) c1
      · exact .advance_bind (Gives.any.bind fun label c1 _ =>
          hFinish (fun _ => rfl) (fun _ => ⟨rfl, rfl⟩) c1)
      · exact .advance_bind (Gives.any.bind fun label c1 _ =>
          hFinish (fun _ => rfl) (fun _ => ⟨rfl, rfl⟩) c1)
      · exact .advance_bind (Gives.any.bind fun name c1 _ => Gives.any.bind fun type c2 _ =>
          hFinish (fun _ => rfl) (fun _ => ⟨rfl, rfl⟩) c2)
      · next hKind => exact absurd hKind hBrace
      · exact Gives.any.bind fun simple c1 _ =>
          hFinish (fun _ => rfl) (fun _ => simple.isLeaf_toStmt _) c1

/-- A simple statement would be laid where it was read. -/
theorem parseSimple_lays (fuel : Nat) (c : Cursor) : Leads c (parseSimple fuel) fun simple c' =>
    c.LaysStmts [simple.toStmt (c.span.merge c'.previous)] c' :=
  .laying (parseSimple_advances fuel c)
    ((Leads.of_advances (parseSimple_advances fuel c)).mono fun _ _ _ hLays => hLays)

/-- Statements that were read between two cursors and are kept with all that is inside. -/
structure Yields (c c' : Cursor) (stmts : List Stmt) (notes : Notes) : Prop where
  laid : c.LaysStmts stmts c'
  accounts : Accounts c c' [] (allOf stmts) notes
  counts : notes.defaults + c'.defaults ≤ c.defaults

/-- A statement whose insides were read between two cursors, but for its span. -/
def Opens (c c' : Cursor) (make : Span → Stmt) (notes : Notes) : Prop :=
  ∀ whole, (make whole).span = whole ∧ (make whole).InOrder ∧
    Accounts c c' [] (make whole).inner notes ∧
      (notes.add (make whole)).defaults + c'.defaults ≤ c.defaults

namespace Yields

variable {c1 c' c'' : Cursor} {stmts others : List Stmt} {notes more : Notes}

theorem nil (h : c.Onto c') : Yields c c' [] .none :=
  ⟨.nil h, .none [] h.1, by simpa [Notes.none, Notes.defaults] using h.2⟩

theorem widen (h : Yields c1 c' stmts notes) (hBefore : c.Onto c1) (hAfter : c'.Onto c'') :
    Yields c c'' stmts notes where
  laid := by
    have hLaid := (Cursor.LaysStmts.nil hBefore).append (h.laid.append (.nil hAfter))
    rwa [List.append_nil] at hLaid
  accounts := h.accounts.widen hBefore.1 hAfter.1
  counts := by
    have := h.counts
    omega

theorem append (h : Yields c c1 stmts notes) (h' : Yields c1 c' others more) :
    Yields c c' (stmts ++ others) (notes ++ more) where
  laid := h.laid.append h'.laid
  accounts := by
    rw [allOf_append]
    exact h.accounts.append h'.accounts
  counts := by
    have := h.counts
    have := h'.counts
    rw [Notes.defaults_append]
    omega

theorem leaves (h : c.LaysStmts stmts c') (hLeaf : ∀ stmt ∈ stmts, stmt.IsLeaf) :
    Yields c c' stmts ⟨stmts, []⟩ :=
  ⟨h, .leaves h hLeaf, by simpa [Notes.defaults_leaves hLeaf] using h.2⟩

/-- A statement that holds statements in one list. -/
theorem opens (h : Yields c c' stmts notes) (hSpan : ∀ whole, (make whole).span = whole)
    (hParts : ∀ whole, (make whole).parts = [stmts])
    (hInner : ∀ whole, (make whole).inner = allOf stmts) : Opens c c' make notes := by
  intro whole
  refine ⟨hSpan whole, fun part hPart => ?_, hInner whole ▸ h.accounts, ?_⟩
  · rw [hParts] at hPart
    exact List.mem_singleton.mp hPart ▸ h.laid.pairwise
  · rw [Notes.defaults_add (Stmt.hasDefault_of_parts (hParts whole))]
    exact h.counts

/-- The span of a statement runs from its first token to its last one. -/
theorem finish (h : Opens c1 c' make notes)
    (hInner : c.span.start < c1.span.start ∧ c1.defaults ≤ c.defaults)
    (hLays : c.Lays [("", c.span.merge c'.previous)] c' ∧ c'.defaults ≤ c.defaults) :
    Yields c c' [make (c.span.merge c'.previous)]
      (notes.add (make (c.span.merge c'.previous))) := by
  obtain ⟨hSpan, hOrder, hAccounts, hCounts⟩ := h (c.span.merge c'.previous)
  have hLaid : c.LaysStmts [make (c.span.merge c'.previous)] c' := by
    rw [Cursor.LaysStmts, List.map_singleton, hSpan]
    exact hLays
  have hStart : (make (c.span.merge c'.previous)).span.start ≤ c.span.start := by
    rw [hSpan]
    exact Nat.min_le_left _ _
  refine ⟨hLaid, ?_, hCounts.trans hInner.2⟩
  rw [allOf, allOf, List.append_nil]
  exact hAccounts.add hInner.1 hLaid hStart hOrder

end Yields

mutual

theorem noteBlock_yields : (fuel : Nat) → (c : Cursor) → Leads c (noteBlock fuel) fun body c' =>
    ∃ c1, (c.span.start < c1.span.start ∧ c1.defaults ≤ c.defaults) ∧ Yields c1 c' body.1 body.2
  | 0, _ => .exhausted
  | fuel + 1, c => by
      rw [noteBlock]
      apply (Leads.of_consumes_lt (Advances.expectSign .lbrace)).bind
      intro _ c1 hOpen
      apply (noteStmts_yields fuel [.punct .rbrace] c1).bind
      intro body c2 hBody
      apply (Leads.onto (Advances.expectSign .rbrace)).bind
      intro _ c3 hClose
      exact .pure fun _ => ⟨c1, hOpen, hBody.widen (by omega) hClose⟩

theorem noteStmts_yields : (fuel : Nat) → (ends : List TokenKind) → (c : Cursor) →
    Leads c (noteStmts fuel ends) fun body c' => Yields c c' body.1 body.2
  | 0, _, _ => .exhausted
  | fuel + 1, ends, c => by
      rw [noteStmts]
      apply (Leads.onto Advances.skipTerminators).bind
      intro _ c1 hSkip
      apply Leads.kind_bind
      split
      · exact .pure fun _ => .nil hSkip
      · apply Leads.stopIf
        apply (noteStmt_yields fuel c1).bind
        intro first c2 hFirst
        apply (Leads.onto Advances.expectTerminator).bind
        intro _ c3 hEnd
        apply (noteStmts_yields fuel ends c3).bind
        intro others c4 hOthers
        exact .pure fun _ => (hFirst.widen hSkip hEnd).append hOthers

theorem noteStmt_yields : (fuel : Nat) → (c : Cursor) →
    Leads c (noteStmt fuel) fun stmt c' => Yields c c' [stmt.1] stmt.2
  | 0, _ => .exhausted
  | fuel + 1, c => by
      have hConsumes : Consumes c (noteStmt (fuel + 1)) :=
        .of_fst (by rw [noteStmt_fst]; exact parseStmt_advances (fuel + 1) c)
      refine .laying hConsumes ?_
      rw [noteStmt]
      apply Leads.span_bind
      apply Leads.kind_bind
      split
      · exact (noteIf_yields fuel c).mono fun _ _ h _ => h
      · apply (noteFor_opens fuel c).bind
        rintro loop c1 ⟨c0, hInner, hOpens⟩
        exact .previousSpan_bind (.pure fun _ hLays => .finish hOpens hInner hLays)
      · apply (noteSwitch_opens fuel c).bind
        rintro choice c1 ⟨c0, hInner, hOpens⟩
        exact .previousSpan_bind (.pure fun _ hLays => .finish hOpens hInner hLays)
      · apply (noteBlock_yields fuel c).bind
        rintro body c1 ⟨c0, hInner, hBody⟩
        have hOpens : Opens c0 c1 (fun whole => .block whole body.1) body.2 :=
          hBody.opens (fun _ => rfl) (fun _ => rfl) fun _ => rfl
        exact .previousSpan_bind (.pure fun _ hLays => .finish hOpens hInner hLays)
      · next hIf hFor hSwitch hBrace =>
          apply ((Leads.of_consumes_lt (parseStmt_advances (fuel + 1) c)).and_gives
            (parseStmt_leaf (fuel + 1) hIf hFor hSwitch hBrace)).bind
          rintro stmt c1 ⟨-, hSpan, hLeaf⟩
          refine .pure fun _ hLays => ?_
          have hLaid : c.LaysStmts [stmt] c1 := by
            rw [Cursor.LaysStmts, List.map_singleton, hSpan]
            exact hLays
          exact .leaves hLaid fun other hOther => List.mem_singleton.mp hOther ▸ hLeaf

theorem noteIf_yields : (fuel : Nat) → (c : Cursor) →
    Leads c (noteIf fuel) fun stmt c' => Yields c c' [stmt.1] stmt.2
  | 0, _ => .exhausted
  | fuel + 1, c => by
      have hConsumes : Consumes c (noteIf (fuel + 1)) :=
        .of_fst (by rw [noteIf_fst]; exact parseIf_advances (fuel + 1) c)
      refine .laying hConsumes ?_
      rw [noteIf]
      apply (expectWord_leads .if).bind
      rintro _ c1 ⟨hWord, rfl⟩
      apply (Leads.onto (parseExpr_advances fuel c1)).bind
      intro cond c2 hCond
      apply (noteBlock_yields fuel c2).bind
      rintro thenBody c3 ⟨c0, hInner, hThen⟩
      apply (noteElse_yields fuel c3).bind
      intro elseBody c4 hElse
      refine .previousSpan_bind (.pure fun _ hLays => ?_)
      have hBoth := hThen.append hElse
      have hOpens : Opens c0 c4 (fun whole => .ifElse whole cond thenBody.1 elseBody.1)
          (thenBody.2 ++ elseBody.2) := hBoth.opens (fun _ => rfl) (fun _ => rfl) fun _ => by
        rw [Stmt.inner, optAllOf_eq, allOf_append]
      exact .finish hOpens (by omega) hLays

theorem noteElse_yields : (fuel : Nat) → (c : Cursor) →
    Leads c (noteElse fuel) fun body c' => Yields c c' (body.1.getD []) body.2
  | 0, _ => .exhausted
  | fuel + 1, c => by
      rw [noteElse]
      apply Leads.check_bind
      split
      · next hCheck =>
          have hKind : c.kind = .keyword .else := beq_iff_eq.mp hCheck
          apply (Leads.onto (Advances.advance (by rw [hKind]; rfl))).bind
          intro _ c1 hElse
          apply Leads.check_bind
          split
          · apply (noteIf_yields fuel c1).bind
            intro nested c2 hNested
            exact .pure fun _ => hNested.widen hElse (by omega)
          · apply (noteBlock_yields fuel c1).bind
            rintro body c2 ⟨c0, hInner, hBody⟩
            exact .pure fun _ => hBody.widen (by omega) (by omega)
      · exact .pure fun _ => .nil (by omega)

theorem noteFor_opens : (fuel : Nat) → (c : Cursor) → Leads c (noteFor fuel) fun loop c' =>
    ∃ c1, (c.span.start < c1.span.start ∧ c1.defaults ≤ c.defaults) ∧ Opens c1 c' loop.1 loop.2
  | 0, _ => .exhausted
  | fuel + 1, c => by
      rw [noteFor]
      apply (expectWord_leads .for).bind
      rintro _ c1 ⟨hWord, -⟩
      apply Leads.cursor_bind
      split
      · apply (Leads.onto parseRangeNames_advances).bind
        intro names c2 hNames
        apply (Leads.onto (Advances.expectWord .range)).bind
        intro _ c3 hRange
        apply (Leads.onto (parseExpr_advances fuel c3)).bind
        intro collection c4 hExpr
        apply (noteBlock_yields fuel c4).bind
        rintro body c5 ⟨c0, hInner, hBody⟩
        exact .pure fun _ => ⟨c0, by omega, hBody.opens (fun _ => rfl) (fun _ => rfl) fun _ => rfl⟩
      · apply Leads.checkSign_bind
        split
        · apply (noteBlock_yields fuel c1).bind
          rintro body c2 ⟨c0, hInner, hBody⟩
          exact .pure fun _ =>
            ⟨c0, by omega, hBody.opens (fun _ => rfl) (fun _ => rfl) fun _ => rfl⟩
        · apply Leads.checkSign_bind
          split
          · exact (noteForClauses_opens fuel none c1 c1 (.nil (by omega))
              (List.forall_mem_nil _)).mono fun _ _ h => ⟨c1, hWord, h⟩
          · apply Leads.span_bind
            apply (parseSimple_lays fuel c1).bind
            intro simple c2 hLays
            apply Leads.checkSign_bind
            split
            · split
              · exact .unexpected
              · apply (noteBlock_yields fuel c2).bind
                rintro body c3 ⟨c0, hInner, hBody⟩
                have hOnto := hLays.onto
                exact .pure fun _ =>
                  ⟨c0, by omega, hBody.opens (fun _ => rfl) (fun _ => rfl) fun _ => rfl⟩
            · apply Leads.previousSpan_bind
              exact (noteForClauses_opens fuel (some (simple.toStmt (c1.span.merge c2.previous)))
                c1 c2 hLays fun stmt hStmt =>
                  List.mem_singleton.mp hStmt ▸ simple.isLeaf_toStmt _).mono
                  fun _ _ h => ⟨c1, hWord, h⟩

theorem noteForClauses_opens : (fuel : Nat) → (init : Option Stmt) → (c0 c : Cursor) →
    c0.LaysStmts init.toList c → (∀ stmt ∈ init.toList, stmt.IsLeaf) →
    Leads c (noteForClauses fuel init) fun loop c' => Opens c0 c' loop.1 loop.2
  | 0, _, _, _, _, _ => .exhausted
  | fuel + 1, init, c0, c, hInit, hLeaf => by
      rw [noteForClauses]
      have hBody (cond : Option Expr) (post : Option Stmt) (c4 : Cursor)
          (hHead : c0.LaysStmts (init.toList ++ post.toList) c4)
          (hLeaves : ∀ stmt ∈ init.toList ++ post.toList, stmt.IsLeaf) : Leads c4 (do
            let body ← noteBlock fuel
            return (fun whole => Stmt.forLoop whole init cond post body.1,
              ⟨init.toList ++ post.toList, []⟩ ++ body.2))
            fun loop c' => Opens c0 c' loop.1 loop.2 := by
        apply (noteBlock_yields fuel c4).bind
        rintro body c5 ⟨c1, hInner, hBody⟩
        have hBody : Yields c4 c5 body.1 body.2 := hBody.widen (by omega) (by omega)
        have hAll := (Yields.leaves hHead hLeaves).append hBody
        refine .pure fun _ => hAll.opens (fun _ => rfl) (fun _ => rfl) fun _ => ?_
        rw [Stmt.inner, optAll_eq, optAll_eq, allOf_append, allOf_append]
      apply (Leads.onto (Advances.expectSign .semicolon)).bind
      intro _ c1 hFirst
      apply Leads.checkSign_bind
      apply Leads.either (.pure id) (.map (parseExpr_advances fuel c1).weaken)
      intro cond c2 hCond
      apply (Leads.onto (Advances.expectSign .semicolon)).bind
      intro _ c3 hSecond
      have hInit3 := hInit.append (@Cursor.LaysStmts.nil c c3 (by omega))
      apply Leads.checkSign_bind
      split
      · exact hBody cond none c3 hInit3 (by simpa using hLeaf)
      · apply Leads.span_bind
        apply (parseSimple_lays fuel c3).bind
        intro simple c4 hSimple
        apply Leads.previousSpan_bind
        refine hBody cond (some _) c4 ?_ fun stmt hStmt => ?_
        · rw [List.append_nil] at hInit3
          exact hInit3.append hSimple
        · rcases List.mem_append.mp hStmt with hStmt | hStmt
          · exact hLeaf stmt hStmt
          · exact List.mem_singleton.mp hStmt ▸ simple.isLeaf_toStmt _

theorem noteSwitch_opens : (fuel : Nat) → (c : Cursor) → Leads c (noteSwitch fuel) fun choice c' =>
    ∃ c1, (c.span.start < c1.span.start ∧ c1.defaults ≤ c.defaults) ∧ Opens c1 c' choice.1 choice.2
  | 0, _ => .exhausted
  | fuel + 1, c => by
      rw [noteSwitch]
      apply (expectWord_leads .switch).bind
      rintro _ c1 ⟨hWord, -⟩
      apply Leads.checkSign_bind
      apply Leads.either (.pure id) (.map (parseExpr_advances fuel c1).weaken)
      intro subject c2 hSubject
      apply (Leads.onto (Advances.expectSign .lbrace)).bind
      intro _ c3 hOpen
      apply (noteArms_yields fuel none c3 .nil).bind
      rintro arms c4 ⟨hLaid, hFallback, hAccounts, hCounts⟩
      apply (Leads.onto (Advances.expectSign .rbrace)).bind
      intro _ c5 hClose
      refine .pure fun _ => ⟨c3, by omega, fun whole => ⟨rfl, fun part hPart => ?_, ?_, ?_⟩⟩
      · rcases List.mem_pair.mp hPart with rfl | rfl
        · exact hLaid.pairwise
        · exact hFallback
      · exact hAccounts.widen (Nat.le_refl _) hClose.1
      · rw [Notes.defaults_add_switch]
        simp only [Option.toList_none, List.length_nil] at hCounts ⊢
        omega

/-- A default that was read takes the place of one that was read before. -/
theorem noteArms_yields : (fuel : Nat) → (fallback : Option (List Stmt)) → (c : Cursor) →
    ((fallback.getD []).Pairwise fun a b => a.span.Precedes b.span) →
    Leads c (noteArms fuel fallback) fun arms c' =>
      c.LaysStmts (arms.1.cases.flatMap (·.body)) c' ∧
      ((arms.1.fallback.getD []).Pairwise fun a b => a.span.Precedes b.span) ∧
      Accounts c c' (optAllOf fallback) (casesAll arms.1.cases ++ optAllOf arms.1.fallback) arms.2 ∧
      arms.2.defaults + arms.1.fallback.toList.length + c'.defaults ≤
        c.defaults + fallback.toList.length
  | 0, _, _, _ => .exhausted
  | fuel + 1, fallback, c, hFallback => by
      rw [noteArms]
      apply (Leads.onto Advances.skipTerminators).bind
      intro _ c1 hSkip
      apply Leads.kind_bind
      split
      · refine .pure fun _ => ⟨.nil hSkip, hFallback, .none _ hSkip.1, ?_⟩
        have hNone : Notes.none.defaults = 0 := rfl
        dsimp only
        omega
      · apply (expectWord_leads .case).bind
        rintro _ c2 ⟨hWord, -⟩
        apply (Leads.onto (parseExprs_advances fuel c2)).bind
        intro tests c3 hTests
        apply (Leads.onto (Advances.expectSign .colon)).bind
        intro _ c4 hColon
        apply (noteStmts_yields fuel armEnds c4).bind
        intro body c5 hBody
        apply Leads.previousSpan_bind
        apply (noteArms_yields fuel fallback c5 hFallback).bind
        rintro others c6 ⟨hLaid, hLast, hAccounts, hCounts⟩
        have hArm : Yields c c5 body.1 body.2 := hBody.widen (by omega) (by omega)
        refine .pure fun _ => ⟨hArm.laid.append hLaid, hLast, ?_, ?_⟩
        · rw [casesAll, List.append_assoc]
          exact hArm.accounts.append hAccounts
        · have := hArm.counts
          rw [Notes.defaults_append]
          dsimp only
          omega
      · next hKind =>
          apply (Leads.advance_default hKind).bind
          intro _ c2 hWord
          apply (Leads.onto (Advances.expectSign .colon)).bind
          intro _ c3 hColon
          apply (noteStmts_yields fuel armEnds c3).bind
          intro body c4 hBody
          apply (noteArms_yields fuel (some body.1) c4 hBody.laid.pairwise).bind
          rintro others c5 ⟨hLaid, hLast, hAccounts, hCounts⟩
          have hArm : Yields c c4 body.1 body.2 := hBody.widen (by omega) (by omega)
          refine .pure fun _ => ⟨(Cursor.LaysStmts.nil hArm.laid.onto).append hLaid, hLast,
            (hArm.accounts.replace fallback).trans hAccounts, ?_⟩
          have := hBody.counts
          rw [Notes.defaults_append, Notes.defaults_replace]
          simp only [Option.toList_some, List.length_singleton] at hCounts ⊢
          omega
      · exact .unexpected

end

end Grammar

end GoToC
