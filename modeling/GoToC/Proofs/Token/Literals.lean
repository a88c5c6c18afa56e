import GoToC.Proofs.Token.Patterns
import Mathlib.Algebra.Group.Nat.Even
import Mathlib.Data.List.DropRight
import Mathlib.Data.Nat.Digits.Defs

/-!
# Values of literals

An integer literal stands for the number that its digits denote, unless it begins with a zero and
goes on or the number is too large. The text of a quoted literal is decoded unless a backslash in
it has nothing behind it, or octal digits that name no byte; a backslash that is marked by another
one is a character like any other.
-/

namespace GoToC.Literal

/-! ## Integers -/

/-- The digits of an integer literal, without the underscores between them. -/
def digitsOf (text : List Char) : List Char := text.filter Char.isDigit

/-- The number that a row of digits denotes, of which the last one counts the ones. -/
def decimalValue (digits : List Char) : Nat := Nat.ofDigits 10 (digits.reverse.map digitValue)

/-- A single digit, or digits that neither begin with a zero nor denote more than the largest
signed integer of 64 bits. -/
def Fits (text : List Char) : Prop :=
  (digitsOf text).length = 1 ∨ text.head? ≠ some '0' ∧ decimalValue (digitsOf text) ≤ 2 ^ 63 - 1

/-- A zero, and at least one more digit. -/
def LeadsWithZero (text : List Char) : Prop :=
  text.head? = some '0' ∧ 1 < (digitsOf text).length

/-- What becomes of an integer literal. -/
structure IntegerRead (text : List Char) : Prop where
  value : ∀ n, Lexeme.kind? text .int = some (.int n) ↔ Fits text ∧ n = decimalValue (digitsOf text)
  octal : Lexeme.kind? text .int = some (.error .octalLiteral) ↔ LeadsWithZero text
  overflow : Lexeme.kind? text .int = some (.error .integerOverflow) ↔
    ¬ Fits text ∧ ¬ LeadsWithZero text

theorem decimalValue_concat (digits : List Char) (c : Char) :
    decimalValue (digits ++ [c]) = 10 * decimalValue digits + digitValue c := by
  simp [decimalValue, Nat.ofDigits_cons, Nat.add_comm]

theorem decimal_eq (digits : List Char) : decimal digits = decimalValue digits := by
  induction digits using List.reverseRecOn with
  | nil => rfl
  | append_singleton digits c ih =>
      rw [decimalValue_concat, ← ih, decimal, List.foldl_append]
      rfl

theorem digitValue_le {c : Char} (h : c.isDigit = true) : digitValue c ≤ 9 := by
  have hCode : c.toNat ≤ 57 := (Char.isDigit_iff_toNat.mp h).2
  unfold digitValue
  omega

/-- In an integer literal all that is no underscore is a digit. -/
theorem filter_eq_digitsOf {text : List Char} (h : ∀ c ∈ text, Lexeme.isIntPart c = true) :
    text.filter (· != '_') = digitsOf text := by
  apply List.filter_congr
  intro c hc
  by_cases hLine : c = '_'
  · subst hLine
    decide
  · have hDigit : c.isDigit = true := by simpa [Lexeme.isIntPart, hLine] using h c hc
    simp [hLine, hDigit]

section

variable {c : Char} {rest : List Char}

theorem digitsOf_cons (hFirst : c.isDigit = true) : digitsOf (c :: rest) = c :: digitsOf rest := by
  simp [digitsOf, hFirst]

/-- A literal that begins with a zero is not read as a number if there is another digit. -/
theorem integer_cons (hFirst : c.isDigit = true) (hRest : ∀ d ∈ rest, Lexeme.isIntPart d = true) :
    integer (c :: rest) =
      if c = '0' ∧ digitsOf rest ≠ [] then .error .octalLiteral
      else if decimalValue (c :: digitsOf rest) ≤ maxInt then
        .ok (decimalValue (c :: digitsOf rest))
      else .error .integerOverflow := by
  have hParts : ∀ d ∈ c :: rest, Lexeme.isIntPart d = true :=
    List.forall_mem_cons.mpr ⟨by simp [Lexeme.isIntPart, hFirst], hRest⟩
  unfold integer
  rw [filter_eq_digitsOf hParts, digitsOf_cons hFirst, ← decimal_eq]
  by_cases hLead : c = '0' ∧ digitsOf rest ≠ []
  · obtain ⟨rfl, hMore⟩ := hLead
    obtain ⟨d, others, hMore⟩ := List.exists_cons_of_ne_nil hMore
    rw [hMore, if_pos ⟨rfl, List.cons_ne_nil d others⟩]
    rfl
  · rw [if_neg hLead]
    split
    · next d others hBoth =>
        obtain ⟨rfl, hMore⟩ := List.cons.inj hBoth
        exact absurd ⟨rfl, fun hNone => by simp [hNone] at hMore⟩ hLead
    · rfl

theorem leadsWithZero_cons (hFirst : c.isDigit = true) :
    LeadsWithZero (c :: rest) ↔ c = '0' ∧ digitsOf rest ≠ [] := by
  rw [LeadsWithZero, digitsOf_cons hFirst, List.head?_cons, Option.some.injEq, List.length_cons,
    Nat.lt_add_left_iff_pos, List.length_pos_iff]

/-- A single digit is never too large. -/
theorem fits_cons (hFirst : c.isDigit = true) : Fits (c :: rest) ↔
    ¬ (c = '0' ∧ digitsOf rest ≠ []) ∧ decimalValue (c :: digitsOf rest) ≤ maxInt := by
  rw [Fits, digitsOf_cons hFirst, List.head?_cons]
  by_cases hOne : digitsOf rest = []
  · have hValue : decimalValue [c] ≤ maxInt := by
      have hDigit := digitValue_le hFirst
      have hSame : decimalValue [c] = digitValue c := by simp [decimalValue]
      rw [hSame]
      exact Nat.le_trans hDigit (by decide)
    simp [hOne, hValue]
  · simp [hOne, maxInt]

end

theorem integer_cases {text : List Char} (h : text ∈ Pattern.int.language) :
    (LeadsWithZero text ∧ ¬ Fits text ∧ integer text = .error .octalLiteral) ∨
      (¬ LeadsWithZero text ∧ Fits text ∧ integer text = .ok (decimalValue (digitsOf text))) ∨
      (¬ LeadsWithZero text ∧ ¬ Fits text ∧ integer text = .error .integerOverflow) := by
  obtain ⟨_, ⟨c, rfl, hFirst⟩, rest, hRest, rfl⟩ := h
  simp only [List.singleton_append]
  rw [leadsWithZero_cons hFirst, fits_cons hFirst, digitsOf_cons hFirst,
    integer_cons hFirst (mem_kstar_oneOf.mp hRest)]
  by_cases hLead : c = '0' ∧ digitsOf rest ≠ []
  · exact .inl ⟨hLead, fun h => h.1 hLead, if_pos hLead⟩
  · rw [if_neg hLead]
    by_cases hSmall : decimalValue (c :: digitsOf rest) ≤ maxInt
    · exact .inr (.inl ⟨hLead, ⟨hLead, hSmall⟩, if_pos hSmall⟩)
    · exact .inr (.inr ⟨hLead, fun h => hSmall h.2, if_neg hSmall⟩)

theorem integerRead {text : List Char} (h : text ∈ Pattern.int.language) : IntegerRead text := by
  have hKind : Lexeme.kind? text .int = some (Lexeme.literalKind .int (integer text)) := rfl
  rcases integer_cases h with ⟨hZero, hFits, hRead⟩ | ⟨hZero, hFits, hRead⟩ | ⟨hZero, hFits, hRead⟩
  all_goals rw [hRead, Lexeme.literalKind] at hKind
  · exact ⟨by simp [hKind, hFits], by simp [hKind, hZero], by simp [hKind, hZero]⟩
  · exact ⟨by simp [hKind, hFits, eq_comm], by simp [hKind, hZero], by simp [hKind, hFits]⟩
  · exact ⟨by simp [hKind, hFits], by simp [hKind, hZero], by simp [hKind, hZero, hFits]⟩

/-! ## Escapes -/

/-- What may not stand behind a backslash. -/
inductive Faulty : List Char → Prop where
  /-- Nothing stands there. -/
  | last : Faulty []
  /-- An octal digit stands there, and not two more behind it. -/
  | short {a rest} (ha : isOctal a = true)
      (hShort : ∀ b c later, rest = b :: c :: later → ¬ (isOctal b = true ∧ isOctal c = true)) :
      Faulty (a :: rest)
  /-- Three octal digits of a number that is too large for a byte. -/
  | large {a b c later} (ha : isOctal a = true) (hb : isOctal b = true)
      (hc : isOctal c = true)
      (hLarge : 255 < Nat.ofDigits 8 [digitValue c, digitValue b, digitValue a]) :
      Faulty (a :: b :: c :: later)

/-- Directly before what stands behind these characters there is an even number of backslashes,
which mark each other in pairs. -/
def Unmarked (front : List Char) : Prop := Even (front.rtakeWhile (· == backslash)).length

/-- Some backslash that is not marked itself has something behind it that may not stand there. -/
def HasFaultyEscape (body : List Char) : Prop :=
  ∃ front rest, body = front ++ backslash :: rest ∧ Unmarked front ∧ Faulty rest

/-- What stands behind a character is marked just if that character is an unmarked backslash. -/
theorem unmarked_concat (front : List Char) (c : Char) :
    Unmarked (front ++ [c]) ↔ (c = backslash → ¬ Unmarked front) := by
  unfold Unmarked
  rw [List.rtakeWhile_concat]
  by_cases hc : c = backslash
  · simp [hc, Nat.even_add_one]
  · simp [hc]

theorem unmarked_cons {c : Char} (hc : c ≠ backslash) (front : List Char) :
    Unmarked (c :: front) ↔ Unmarked front := by
  induction front using List.reverseRecOn with
  | nil => simp [Unmarked, List.rtakeWhile, hc]
  | append_singleton front d ih => rw [← List.cons_append, unmarked_concat, unmarked_concat, ih]

/-- A backslash marks the character behind it, and nothing further on. -/
theorem unmarked_pair (d : Char) (front : List Char) :
    Unmarked (backslash :: d :: front) ↔ Unmarked front := by
  induction front using List.reverseRecOn with
  | nil => by_cases hd : d = backslash <;> simp [Unmarked, List.rtakeWhile, hd]
  | append_singleton front c ih =>
      rw [← List.cons_append, ← List.cons_append, unmarked_concat, unmarked_concat, ih]

theorem not_hasFaultyEscape_nil : ¬ HasFaultyEscape [] := by
  rintro ⟨front, rest, hBody, -⟩
  simp at hBody

theorem hasFaultyEscape_plain {c : Char} (hc : c ≠ backslash) (rest : List Char) :
    HasFaultyEscape (c :: rest) ↔ HasFaultyEscape rest := by
  constructor
  · rintro ⟨front, later, hBody, hFront, hLater⟩
    cases front with
    | nil => exact absurd (List.cons.inj hBody).1 hc
    | cons d front =>
        obtain ⟨rfl, hRest⟩ := List.cons.inj hBody
        exact ⟨front, later, hRest, (unmarked_cons hc front).mp hFront, hLater⟩
  · rintro ⟨front, later, rfl, hFront, hLater⟩
    exact ⟨c :: front, later, rfl, (unmarked_cons hc front).mpr hFront, hLater⟩

theorem hasFaultyEscape_last : HasFaultyEscape [backslash] :=
  ⟨[], [], rfl, Even.zero, .last⟩

/-- At a backslash there is a fault, or there is one behind the character that it marks. -/
theorem hasFaultyEscape_pair (d : Char) (rest : List Char) :
    HasFaultyEscape (backslash :: d :: rest) ↔ Faulty (d :: rest) ∨ HasFaultyEscape rest := by
  constructor
  · rintro ⟨front, later, hBody, hFront, hLater⟩
    rcases front with _ | ⟨a, _ | ⟨b, front⟩⟩
    · obtain ⟨-, rfl⟩ := List.cons.inj hBody
      exact .inl hLater
    · obtain ⟨rfl, -⟩ := List.cons.inj hBody
      simp [Unmarked, List.rtakeWhile] at hFront
    · simp only [List.cons_append, List.cons.injEq] at hBody
      obtain ⟨rfl, rfl, hRest⟩ := hBody
      exact .inr ⟨front, later, hRest, (unmarked_pair _ front).mp hFront, hLater⟩
  · rintro (hFaulty | ⟨front, later, rfl, hFront, hLater⟩)
    · exact ⟨[], d :: rest, rfl, Even.zero, hFaulty⟩
    · exact ⟨backslash :: d :: front, later, rfl, (unmarked_pair d front).mpr hFront, hLater⟩

theorem not_faulty_cons {d : Char} (hd : isOctal d = false) (rest : List Char) :
    ¬ Faulty (d :: rest) := by
  intro h
  cases h <;> simp_all

theorem octalEscape_eq_none_iff {a : Char} (ha : isOctal a = true) (b c : Char)
    (later : List Char) : octalEscape a b c = none ↔ Faulty (a :: b :: c :: later) := by
  have hValue : Nat.ofDigits 8 [digitValue c, digitValue b, digitValue a] =
      64 * digitValue a + 8 * digitValue b + digitValue c := by
    simp [Nat.ofDigits_cons]
    omega
  simp only [octalEscape, ite_eq_right_iff, reduceCtorEq, imp_false, Bool.and_eq_true,
    decide_eq_true_eq]
  constructor
  · intro h
    by_cases hBoth : isOctal b = true ∧ isOctal c = true
    · have hLarge := Nat.lt_of_not_le fun hSmall => h ⟨hBoth, hSmall⟩
      exact .large ha hBoth.1 hBoth.2 (hValue ▸ hLarge)
    · refine .short ha fun b' c' later' hSame => ?_
      obtain ⟨rfl, rfl, -⟩ := by simpa using hSame
      exact hBoth
  · rintro h ⟨hBoth, hSmall⟩
    cases h with
    | short _ hShort => exact hShort b c later rfl hBoth
    | large _ _ _ hLarge =>
        rw [hValue] at hLarge
        omega

theorem isOctal_of_octalEscape {a b c decoded : Char} (h : octalEscape a b c = some decoded) :
    isOctal b = true ∧ isOctal c = true := by
  simp only [octalEscape, Option.ite_none_right_eq_some, Bool.and_eq_true] at h
  exact h.1.1

theorem ne_backslash {c : Char} (h : isOctal c = true) : c ≠ backslash := by
  rintro rfl
  simp [isOctal, backslash] at h

/-- Text is decoded just if there is no fault in it. -/
theorem unescape_eq_none_iff (body : List Char) : unescape body = none ↔ HasFaultyEscape body := by
  fun_induction unescape body with
  | case1 => simp [not_hasFaultyEscape_nil]
  | case2 => simp [hasFaultyEscape_last]
  | case3 a ha b c rest ih =>
      -- no backslash is among octal digits, so the fault is behind all three
      rw [hasFaultyEscape_pair, ← octalEscape_eq_none_iff ha b c rest]
      cases hDecoded : octalEscape a b c with
      | none => simp
      | some decoded =>
          obtain ⟨hb, hc⟩ := isOctal_of_octalEscape hDecoded
          rw [hasFaultyEscape_plain (ne_backslash hb),
            hasFaultyEscape_plain (ne_backslash hc), ← ih]
          simp
  | case4 a rest ha hShort =>
      have hFaulty : Faulty (a :: rest) :=
        .short ha fun b c later hSame => (hShort b c later hSame).elim
      simp [hasFaultyEscape_pair, hFaulty]
  | case5 d rest hd ih =>
      rw [hasFaultyEscape_pair, ← ih]
      simp [not_faulty_cons (by simpa using hd)]
  | case6 c rest hc ih =>
      rw [hasFaultyEscape_plain hc, ← ih]
      simp

/-- An integer literal is a number, or it is refused for its zero or for its size; a quoted text is
decoded unless one of its escapes is at fault. -/
theorem literals_decoded {text : List Char} (hText : text ∈ Pattern.int.language)
    (body : List Char) :
    IntegerRead text ∧ (unescape body = none ↔ HasFaultyEscape body) :=
  ⟨integerRead hText, unescape_eq_none_iff body⟩

/-- The literal `1_000`, and a text in which a third backslash has two octal digits behind it. -/
theorem literals_decoded_thousand : ['1', '_', '0', '0', '0'] ∈ Pattern.int.language ∧
      Lexeme.kind? ['1', '_', '0', '0', '0'] .int = some (.int 1000) ∧
      HasFaultyEscape [backslash, backslash, backslash, '1', '0'] := by
  have hText : ['1', '_', '0', '0', '0'] ∈ Pattern.int.language :=
    cons_mem_oneOf_mul_kstar.mpr ⟨rfl, List.all_eq_true.mp rfl⟩
  obtain ⟨hInteger, hEscape⟩ := literals_decoded hText [backslash, backslash, backslash, '1', '0']
  have hFits : Fits ['1', '_', '0', '0', '0'] := .inr (by decide)
  exact ⟨hText, (hInteger.value 1000).mpr ⟨hFits, by decide⟩, hEscape.mp (by decide)⟩

end GoToC.Literal
