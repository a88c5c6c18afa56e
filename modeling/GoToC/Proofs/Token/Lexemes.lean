import GoToC.Token.Lexer

/-!
# Parts of lexemes

No character is of two of the classes that lexemes start with. Keywords and signs are told by
their spellings, of several signs at the front of a text the longest is taken, and inside quotes
a text is read unit by unit.
-/

namespace GoToC

variable {c : Char} {test : Char → Bool} {best : Option Punct} {sign found : Punct}
  {run : List Char} {signs : List Punct}

theorem byteLength_cons (c : Char) (text : List Char) :
    byteLength (c :: text) = c.utf8Size + byteLength text := rfl

theorem byteLength_append (a b : List Char) :
    byteLength (a ++ b) = byteLength a + byteLength b := by
  induction a with
  | nil => simp [byteLength]
  | cons c rest ih => simp [byteLength_cons, ih, Nat.add_assoc]

theorem byteLength_toList (text : String) : byteLength text.toList = text.utf8ByteSize := by
  have h (cs : List Char) : byteLength cs = (String.ofList cs).utf8ByteSize := by
    induction cs with
    | nil => rfl
    | cons c rest ih => simp [byteLength_cons, ih, String.ofList_cons]
  rw [h, String.ofList_toList]

/-! ## Spellings -/

/-- A keyword is found by its spelling. -/
theorem Keyword.find?_chars (word : Keyword) :
    Keyword.all.find? (·.chars == word.chars) = some word := by
  cases word <;> decide

theorem Keyword.chars_injective : Function.Injective Keyword.chars := by
  intro a b h
  have hFound := find?_chars a
  rw [h, find?_chars] at hFound
  exact (Option.some.inj hFound).symm

theorem Punct.find?_chars (sign : Punct) : Punct.all.find? (·.chars == sign.chars) = some sign := by
  cases sign <;> decide

theorem Punct.chars_injective : Function.Injective Punct.chars := by
  intro a b h
  have hFound := find?_chars a
  rw [h, find?_chars] at hFound
  exact (Option.some.inj hFound).symm

theorem Punct.mem_all (sign : Punct) : sign ∈ Punct.all := by
  cases sign <;> decide

/-! ## Classes of characters -/

theorem isWordPart_of_isWordStart (h : Lexeme.isWordStart c = true) :
    Lexeme.isWordPart c = true := by
  simp only [Lexeme.isWordStart, Lexeme.isWordPart, Char.isAlphanum, Bool.or_eq_true] at h ⊢
  rcases h with h | h
  · exact .inl (.inl h)
  · exact .inr h

namespace Lexeme

theorem eq_of_isBlank (h : isBlank c = true) : c = ' ' ∨ c = '\t' ∨ c = '\r' := by
  simpa [isBlank, or_assoc] using h

/-- A blank is none of the characters that a test refuses blanks for. -/
theorem isBlank_eq_false (h : test c = true)
    (hBlanks : test ' ' = false ∧ test '\t' = false ∧ test '\r' = false) : isBlank c = false := by
  rw [Bool.eq_false_iff]
  intro hBlank
  rcases eq_of_isBlank hBlank with rfl | rfl | rfl <;> simp_all

theorem isWordStart_of_isDigit (h : c.isDigit = true) : isWordStart c = false := by
  have hUnderscore : c ≠ '_' := by
    rintro rfl
    simp at h
  simp only [Char.isDigit, Bool.and_eq_true, decide_eq_true_eq, UInt32.le_iff_toNat_le] at h
  have hNine : '9'.val.toNat = 57 := rfl
  have hUpper : ¬ (c.val ≥ 'A'.val ∧ c.val ≤ 'Z'.val) := fun hRange => by
    have hFirst : 65 ≤ c.val.toNat := UInt32.le_iff_toNat_le.mp hRange.1
    omega
  have hLower : ¬ 'a'.val ≤ c.val := fun hRange => by
    have hFirst : 97 ≤ c.val.toNat := UInt32.le_iff_toNat_le.mp hRange
    omega
  have hNotUpper : c.isUpper = false := decide_eq_false hUpper
  have hNotLower : c.isLower = false := by
    show (decide ('a'.val ≤ c.val) && _) = false
    rw [decide_eq_false hLower, Bool.false_and]
  have hNotAlpha : c.isAlpha = false := by
    show (c.isUpper || c.isLower) = false
    rw [hNotUpper, hNotLower, Bool.or_false]
  rw [isWordStart, hNotAlpha, Bool.false_or, beq_eq_false_iff_ne]
  exact hUnderscore

/-! ## Runs of characters -/

theorem length_le_takeWhile {text : List Char} (h : run <+: text)
    (hRun : ∀ c ∈ run, test c = true) : run.length ≤ (text.takeWhile test).length := by
  obtain ⟨rest, rfl⟩ := h
  rw [List.takeWhile_append_of_pos hRun]
  simp

/-- A run ends where a character does not belong to it. -/
theorem takeWhile_run {rest : List Char} (hRun : ∀ c ∈ run, test c = true)
    (hRest : ∀ c ∈ rest.head?, test c = false) : (run ++ rest).takeWhile test = run := by
  rw [List.takeWhile_append_of_pos hRun]
  cases rest with
  | nil => simp
  | cons c rest => simp [hRest c rfl]

/-! ## Signs -/

section Signs

variable {text : List Char}

theorem longerSign_mem (hBest : ∀ other ∈ best, other.chars <+: text)
    (h : longerSign text best sign = some found) : found.chars <+: text := by
  unfold longerSign at h
  split at h
  · next hPrefix =>
      rw [List.isPrefixOf_iff_prefix] at hPrefix
      cases best with
      | none => simp_all
      | some other =>
          dsimp only at h
          split at h <;> simp_all
  · exact hBest found h

/-- A longer sign is at least as long as the one before and as any other at the front. -/
theorem longerSign_length (best : Option Punct) (sign : Punct) :
    (∀ other ∈ best, ∃ found ∈ longerSign text best sign, other.chars.length ≤ found.chars.length) ∧
    (sign.chars <+: text → ∃ found ∈ longerSign text best sign,
      sign.chars.length ≤ found.chars.length) := by
  unfold longerSign
  rw [← List.isPrefixOf_iff_prefix]
  cases best with
  | none => by_cases hPrefix : sign.chars.isPrefixOf text = true <;> simp [hPrefix]
  | some other =>
      by_cases hPrefix : sign.chars.isPrefixOf text = true
      · by_cases hLonger : other.chars.length < sign.chars.length
        · simp [hPrefix, hLonger]
          omega
        · simp [hPrefix, hLonger]
          omega
      · simp [hPrefix]

theorem foldl_longerSign_mem (hBest : ∀ other ∈ best, other.chars <+: text)
    (h : signs.foldl (longerSign text) best = some found) : found.chars <+: text := by
  induction signs generalizing best with
  | nil => exact hBest found h
  | cons sign rest ih =>
      exact ih (fun other hOther => longerSign_mem hBest hOther) h

theorem foldl_longerSign_length (hPrefix : sign.chars <+: text)
    (h : sign ∈ signs ∨ ∃ other ∈ best, sign.chars.length ≤ other.chars.length) :
    ∃ found ∈ signs.foldl (longerSign text) best, sign.chars.length ≤ found.chars.length := by
  induction signs generalizing best with
  | nil => simpa using h
  | cons next rest ih =>
      apply ih
      rcases h with h | ⟨other, hOther, hLength⟩
      · rcases List.mem_cons.mp h with rfl | h
        · exact .inr ((longerSign_length best sign).2 hPrefix)
        · exact .inl h
      · obtain ⟨found, hFound, hLonger⟩ : ∃ found ∈ longerSign text best next,
            other.chars.length ≤ found.chars.length := (longerSign_length best next).1 other hOther
        exact .inr ⟨found, hFound, by omega⟩

theorem longestSign_prefix_text (h : longestSign text = some found) : found.chars <+: text :=
  foldl_longerSign_mem (by simp) h

/-- Every sign at the front of a text is at most as long as the one that is taken. -/
theorem longestSign_length (h : sign.chars <+: text) :
    ∃ found, longestSign text = some found ∧ sign.chars.length ≤ found.chars.length :=
  foldl_longerSign_length h (.inl sign.mem_all)

end Signs

/-! ## Quoted text -/

variable {quote : Char}

/-- A character that stands for itself between quotes. -/
def isPlain (quote c : Char) : Bool := c != quote && c != Literal.backslash && c != '\n'

theorem quotedUnits_escaped {d : Char} (h : d ≠ '\n') (text : List Char) :
    quotedUnits quote (Literal.backslash :: d :: text) =
      Literal.backslash :: d :: quotedUnits quote text := by
  simp [quotedUnits, h]

theorem quotedUnits_plain (h : isPlain quote c = true) (text : List Char) :
    quotedUnits quote (c :: text) = c :: quotedUnits quote text := by
  simp only [isPlain, Bool.and_eq_true, bne_iff_ne] at h
  rw [quotedUnits.eq_def]
  simp [h]

theorem quotedUnits_quote (h : quote ≠ Literal.backslash) (text : List Char) :
    quotedUnits quote (quote :: text) = [] := by
  rw [quotedUnits.eq_def]
  simp [h]

theorem quotedUnits_prefix_text (text : List Char) : quotedUnits quote text <+: text := by
  fun_induction quotedUnits quote text with
  | case4 d rest h ih => simpa using ih
  | case6 c rest hBackslash h ih => simpa using ih
  | _ => exact List.nil_prefix

theorem newline_notMem_quotedUnits (text : List Char) : '\n' ∉ quotedUnits quote text := by
  fun_induction quotedUnits quote text with
  | case4 d rest h ih =>
      have hBackslash : Literal.backslash ≠ '\n' := by decide
      simp [ih, Ne.symm h, hBackslash.symm]
  | case6 c rest hBackslash h ih =>
      have hNewline : c ≠ '\n' := by
        rintro rfl
        simp at h
      simp [ih, hNewline.symm]
  | _ => simp

end Lexeme

end GoToC
