import Mathlib.Data.List.DropRight
import GoToC.Source.Lines
import GoToC.Proofs.C.Literals

/-!
# Positions in a source text

A text is a row of bytes that line feeds cut into lines. The index of a text counts lines and
columns as the bytes do: an offset is in the line whose number is the number of line feeds
before it, and its column tells how far it is from the start of that line. What an excerpt
shows of the line are its bytes up to the carriage returns at its end.
-/

namespace GoToC

variable {line : List Char} {byte : UInt8} {c : Char}

open CText

def lineFeed : UInt8 := 0x0A

def carriageReturn : UInt8 := 0x0D

/-- The bytes of a text in UTF-8. -/
def sourceBytes (text : String) : List UInt8 := text.toUTF8.data.toList

/-- The line around an offset: it holds no line feed, and next to it are line feeds or the
ends of the text. -/
structure LineAround (bytes : List UInt8) (offset : Nat) (before line after : List UInt8) :
    Prop where
  cut : bytes = before ++ line ++ after
  begins : before = [] ∨ ∃ earlier, before = earlier ++ [lineFeed]
  unbroken : lineFeed ∉ line
  ends : after = [] ∨ ∃ later, after = lineFeed :: later
  reached : before.length ≤ offset
  inside : offset ≤ before.length + line.length

/-- What is left of a line without the carriage returns at its end. -/
structure Stripped (line shown : List UInt8) : Prop where
  returns : ∃ count, line = shown ++ List.replicate count carriageReturn
  bare : shown.getLast? ≠ some carriageReturn

/-! ## Bytes of characters -/

/-- A byte below 128 stands for itself only. -/
theorem toNat_eq_of_mem_utf8EncodeChar (ascii : byte.toNat < 128)
    (h : byte ∈ String.utf8EncodeChar c) : c.toNat = byte.toNat := by
  simp only [String.utf8EncodeChar] at h
  show c.val.toNat = byte.toNat
  split at h
  · simp only [List.mem_singleton] at h
    subst h
    simp only [UInt8.toNat_ofNat']
    omega
  · -- every byte of a longer code has its highest bit set
    split at h
    · simp only [List.mem_cons, List.not_mem_nil, or_false] at h
      rcases h with rfl | rfl <;> simp only [UInt8.toNat_ofNat'] at ascii <;> omega
    · split at h
      · simp only [List.mem_cons, List.not_mem_nil, or_false] at h
        rcases h with rfl | rfl | rfl <;> simp only [UInt8.toNat_ofNat'] at ascii <;> omega
      · simp only [List.mem_cons, List.not_mem_nil, or_false] at h
        rcases h with rfl | rfl | rfl | rfl <;> simp only [UInt8.toNat_ofNat'] at ascii <;> omega

theorem eq_of_mem_utf8EncodeChar {d : Char} (ascii : byte.toNat < 128)
    (hByte : d.toNat = byte.toNat) (h : byte ∈ String.utf8EncodeChar c) : c = d :=
  Char.toNat_inj.mp ((toNat_eq_of_mem_utf8EncodeChar ascii h).trans hByte.symm)

theorem lineFeed_notMem_utf8Bytes (h : '\n' ∉ line) : lineFeed ∉ utf8Bytes line := by
  intro hMem
  obtain ⟨c, hc, hByte⟩ := List.mem_flatMap.mp hMem
  rw [eq_of_mem_utf8EncodeChar (d := '\n') (by decide) rfl hByte] at hc
  exact h hc

theorem utf8Bytes_append (text later : List Char) :
    utf8Bytes (text ++ later) = utf8Bytes text ++ utf8Bytes later := List.flatMap_append

theorem length_utf8Bytes (text : List Char) : (utf8Bytes text).length = byteLength text := by
  induction text with
  | nil => rfl
  | cons c rest ih =>
      rw [utf8Bytes, List.flatMap_cons, List.length_append, String.length_utf8EncodeChar,
        ← utf8Bytes, ih]
      rfl

/-- Dropping the carriage returns at the end of a line leaves the bytes of it without them. -/
theorem stripped_utf8Bytes (line : List Char) :
    Stripped (utf8Bytes line) (utf8Bytes (line.rdropWhile (· == '\r'))) := by
  induction line using List.reverseRecOn with
  | nil => exact ⟨⟨0, rfl⟩, by simp [utf8Bytes]⟩
  | append_singleton line c ih =>
      by_cases hc : c = '\r'
      · obtain ⟨count, hCount⟩ := ih.returns
        subst hc
        rw [List.rdropWhile_concat_pos _ _ _ (by decide)]
        refine ⟨⟨count + 1, ?_⟩, ih.bare⟩
        rw [utf8Bytes_append, hCount, List.replicate_succ', List.append_assoc]
        rfl
      · rw [List.rdropWhile_concat_neg _ _ _ (by simpa using hc)]
        refine ⟨⟨0, by simp⟩, fun hLast => hc ?_⟩
        rw [utf8Bytes_append, utf8Bytes, utf8Bytes, List.flatMap_singleton,
          List.getLast?_append_of_ne_nil _ String.utf8EncodeChar_ne_nil] at hLast
        exact eq_of_mem_utf8EncodeChar (by decide) rfl (List.mem_of_getLast? hLast)

/-! ## Lines and the line feeds between them -/

theorem splitLinesAux_ne_nil (line rest : List Char) : splitLinesAux line rest ≠ [] := by
  induction rest generalizing line with
  | nil => simp [splitLinesAux]
  | cons c rest ih =>
      rw [splitLinesAux]
      split
      · simp
      · exact ih _

theorem newline_notMem_splitLinesAux (h : '\n' ∉ line) (rest : List Char) :
    ∀ cut ∈ splitLinesAux line rest, '\n' ∉ cut := by
  induction rest generalizing line with
  | nil => simpa [splitLinesAux] using h
  | cons c rest ih =>
      rw [splitLinesAux]
      split
      · simpa using ⟨h, @ih [] (by simp)⟩
      · next hc => exact ih (by simpa [h] using fun hSame => hc hSame.symm)

theorem intercalate_splitLinesAux (line rest : List Char) :
    ['\n'].intercalate (splitLinesAux line rest) = line.reverse ++ rest := by
  induction rest generalizing line with
  | nil => simp [splitLinesAux]
  | cons c rest ih =>
      rw [splitLinesAux]
      split
      · next hc =>
          obtain ⟨next, more, hMore⟩ := List.exists_cons_of_ne_nil (splitLinesAux_ne_nil [] rest)
          rw [hMore, List.intercalate_cons_cons, ← hMore, ih, hc]
          simp
      · rw [ih]
        simp

/-- The bytes of lines with line feeds between them. -/
def joinedBytes (lines : List (List Char)) : List UInt8 := utf8Bytes (['\n'].intercalate lines)

theorem joinedBytes_single (line : List Char) : joinedBytes [line] = utf8Bytes line := by
  rw [joinedBytes, List.intercalate_singleton]

theorem joinedBytes_cons (line next : List Char) (rest : List (List Char)) :
    joinedBytes (line :: next :: rest) =
      utf8Bytes line ++ lineFeed :: joinedBytes (next :: rest) := by
  rw [joinedBytes, List.intercalate_cons_cons, utf8Bytes_append, utf8Bytes_append,
    List.append_assoc]
  rfl

theorem joinedBytes_splitLines (text : String) :
    joinedBytes (splitLines text.toList) = sourceBytes text := by
  rw [joinedBytes, splitLines, intercalate_splitLinesAux, List.reverse_nil, List.nil_append,
    utf8Bytes_toList, sourceBytes]

theorem count_joinedBytes {rest : List (List Char)} (h : ∀ cut ∈ line :: rest, '\n' ∉ cut) :
    (joinedBytes (line :: rest)).count lineFeed = rest.length := by
  induction rest generalizing line with
  | nil =>
      rw [joinedBytes_single]
      exact List.count_eq_zero.mpr (lineFeed_notMem_utf8Bytes (h line (by simp)))
  | cons next rest ih =>
      have hLine := List.count_eq_zero.mpr (lineFeed_notMem_utf8Bytes (h line (by simp)))
      rw [joinedBytes_cons, List.count_append, hLine, List.count_cons_self,
        ih (List.forall_mem_cons.mp h).2, List.length_cons, Nat.zero_add]

/-! ## The line around an offset -/

namespace LineAround

variable {bytes before line after shown : List UInt8} {offset : Nat}

theorem length (h : LineAround bytes offset before line after) :
    bytes.length = before.length + line.length + after.length := by
  rw [h.cut, List.length_append, List.length_append]

/-- The line feeds before an offset are those before its line. -/
theorem count_take (h : LineAround bytes offset before line after) :
    (bytes.take offset).count lineFeed = before.count lineFeed := by
  have hReached := h.reached
  have hInside := h.inside
  have hTake : bytes.take offset = before ++ line.take (offset - before.length) := by
    rw [h.cut, List.take_append_of_le_length (by simpa using hInside), List.take_append,
      List.take_of_length_le hReached]
  have hLine : (line.take (offset - before.length)).count lineFeed = 0 :=
    List.count_eq_zero.mpr fun hMem => h.unbroken (List.mem_of_mem_take hMem)
  rw [hTake, List.count_append, hLine, Nat.add_zero]

/-- The bytes of a line from an offset on are those of the text, as far as they are shown. -/
theorem getElem?_shown (h : LineAround bytes offset before line after)
    (hShown : Stripped line shown) : shown[offset - before.length]? =
      if offset < before.length + shown.length then bytes[offset]? else none := by
  have hReached := h.reached
  obtain ⟨count, hCount⟩ := hShown.returns
  split
  · next hLt =>
      rw [h.cut, hCount, List.append_assoc, List.append_assoc, List.getElem?_append_right hReached,
        List.getElem?_append_left (by omega)]
  · exact List.getElem?_eq_none (by omega)

end LineAround

namespace LineIndex

theorem place_map (start : Nat) (lines : List (List Char)) :
    (place start lines).map Prod.snd = lines := by
  induction lines generalizing start with
  | nil => rfl
  | cons line lines ih => rw [place, List.map_cons, ih]

/-- What the search gives for an offset when it starts in a line with lines behind it: the
start of the line around the offset, and the number of that line. -/
structure Finds (bytes : List UInt8) (offset passed : Nat) (lines : List (List Char))
    (found : Nat × Nat) (before : List UInt8) (line : List Char) (after : List UInt8) : Prop where
  around : LineAround bytes offset before (utf8Bytes line) after
  start : found.2 = before.length
  number : found.1 = 1 + before.count lineFeed
  line : ∃ index, lines[index]? = some line ∧ before.count lineFeed = passed + index

theorem find_finds {bytes before : List UInt8} {line : List Char} {rest : List (List Char)}
    {offset passed : Nat} (hBytes : bytes = before ++ joinedBytes (line :: rest))
    (hBegins : before = [] ∨ ∃ earlier, before = earlier ++ [lineFeed])
    (hLines : ∀ cut ∈ line :: rest, '\n' ∉ cut) (hPassed : before.count lineFeed = passed)
    (hReached : before.length ≤ offset) (hOffset : offset ≤ bytes.length) :
    ∃ before' line' after', Finds bytes offset passed (line :: rest)
      (find offset (1 + passed) before.length (place (before.length + byteLength line + 1) rest))
      before' line' after' := by
  have hUnbroken := lineFeed_notMem_utf8Bytes (hLines line (by simp))
  induction rest generalizing line before passed with
  | nil =>
      rw [joinedBytes_single] at hBytes
      refine ⟨before, line, [], ⟨by simpa using hBytes, hBegins, hUnbroken, .inl rfl, hReached, ?_⟩,
        rfl, by rw [hPassed]; rfl, 0, rfl, hPassed⟩
      simpa [hBytes] using hOffset
  | cons next rest ih =>
      rw [joinedBytes_cons] at hBytes
      rw [place, find]
      split
      · next hNext =>
          -- the next line starts at or before the offset, right behind a line feed
          have hLength : (before ++ utf8Bytes line ++ [lineFeed]).length =
              before.length + byteLength line + 1 := by
            simp only [List.length_append, length_utf8Bytes, List.length_singleton]
          have hCount : (before ++ utf8Bytes line ++ [lineFeed]).count lineFeed = passed + 1 := by
            simp only [List.count_append, hPassed, List.count_eq_zero.mpr hUnbroken, Nat.add_zero,
              List.count_singleton_self]
          obtain ⟨before', line', after', found⟩ :=
            @ih (before ++ utf8Bytes line ++ [lineFeed]) next (passed + 1)
            (by simpa using hBytes) (.inr ⟨_, rfl⟩)
            (List.forall_mem_cons.mp hLines).2 hCount
            (by rw [hLength]; exact hNext) (lineFeed_notMem_utf8Bytes (hLines next (by simp)))
          rw [hLength, ← Nat.add_assoc] at found
          obtain ⟨index, hIndex, hNumber⟩ := found.line
          exact ⟨before', line', after', found.around, found.start, found.number, index + 1,
            by simpa using hIndex, by omega⟩
      · next hNext =>
          refine ⟨before, line, lineFeed :: joinedBytes (next :: rest),
            ⟨by simpa using hBytes, hBegins, hUnbroken, .inr ⟨_, rfl⟩, hReached, ?_⟩,
            rfl, by rw [hPassed], 0, rfl, hPassed⟩
          rw [length_utf8Bytes]
          omega

theorem text_eq {index : LineIndex} {number : Nat}
    (h : (index.lines.map Prod.snd)[number - 1]? = some line) :
    index.text number = line.rdropWhile (· == '\r') := by
  rw [List.getElem?_map, Option.map_eq_some_iff] at h
  obtain ⟨entry, hEntry, rfl⟩ := h
  rw [text, hEntry]
  rfl

/-! ## The index of a text -/

/-- What the index of a text tells about an offset, whose line is cut out of the bytes of the
text: its position and what is shown of its line. -/
structure Locates (index : LineIndex) (bytes : List UInt8) (offset : Nat)
    (before line after : List UInt8) : Prop where
  around : LineAround bytes offset before line after
  /-- The line is counted by the line feeds before the offset. -/
  number : (index.position offset).1 = 1 + (bytes.take offset).count lineFeed
  /-- The column is counted from the byte behind the last of them. -/
  column : (index.position offset).2 = 1 + (offset - before.length)
  /-- That byte is what the search finds, so that nothing is taken from a smaller number. -/
  start : (find offset 1 0 (index.lines.drop 1)).2 = before.length
  shown : Stripped line (utf8Bytes (index.text (index.position offset).1))
  /-- In the excerpt, the byte of the text stands at the column, unless it was stripped. -/
  byte : (utf8Bytes (index.text (index.position offset).1))[(index.position offset).2 - 1]? =
    if offset < before.length + (utf8Bytes (index.text (index.position offset).1)).length then
      bytes[offset]? else none
  /-- Positions in a text of that size are numbers of 32 bits. -/
  fits : bytes.length < 2 ^ 32 - 1 →
    (index.position offset).1 < 2 ^ 32 ∧ (index.position offset).2 < 2 ^ 32

/-- The index of a text counts its lines, and it locates every offset up to the end of the
text by the line around it. -/
theorem ofText_locates (text : String) :
    (ofText text).count = 1 + (sourceBytes text).count lineFeed ∧
    ∀ offset ≤ (sourceBytes text).length, ∃ before line after,
      (ofText text).Locates (sourceBytes text) offset before line after := by
  obtain ⟨first, rest, hLines⟩ :=
    List.exists_cons_of_ne_nil (splitLinesAux_ne_nil [] text.toList)
  have hBytes : sourceBytes text = joinedBytes (first :: rest) := by
    rw [← joinedBytes_splitLines, splitLines, hLines]
  have hUnbroken : ∀ cut ∈ first :: rest, '\n' ∉ cut := by
    rw [← hLines]
    exact newline_notMem_splitLinesAux (by simp) _
  have hIndex : ofText text = ⟨(0, first) :: place (byteLength first + 1) rest⟩ := by
    rw [ofText, splitLines, hLines, place, Nat.zero_add]
  have hPlaced : ((ofText text).lines.map Prod.snd) = first :: rest := by
    rw [ofText, place_map, splitLines, hLines]
  refine ⟨?_, fun offset hOffset => ?_⟩
  · rw [count, ← List.length_map (f := Prod.snd), hPlaced, hBytes, count_joinedBytes hUnbroken,
      List.length_cons, Nat.add_comm]
  · obtain ⟨before, line, after, found⟩ := @find_finds (sourceBytes text) [] first rest offset 0
      (by simpa using hBytes) (.inl rfl) hUnbroken rfl (Nat.zero_le offset) hOffset
    simp only [List.length_nil, Nat.zero_add] at found
    have hSearch : (ofText text).lines.drop 1 = place (byteLength first + 1) rest := by
      rw [hIndex]
      rfl
    rw [← hSearch] at found
    have hNumber : ((ofText text).position offset).1 = 1 + before.count lineFeed := found.number
    have hColumn : ((ofText text).position offset).2 = 1 + (offset - before.length) := by
      rw [← found.start, Nat.add_comm]
      rfl
    have hText : (ofText text).text ((ofText text).position offset).1 =
        line.rdropWhile (· == '\r') := by
      obtain ⟨index, hLine, hCount⟩ := found.line
      apply text_eq
      rw [hPlaced, hNumber, Nat.add_sub_cancel_left, hCount, Nat.zero_add]
      exact hLine
    refine ⟨before, utf8Bytes line, after, found.around, ?_, hColumn, found.start, ?_, ?_, ?_⟩
    · rw [hNumber, found.around.count_take]
    · rw [hText]
      exact stripped_utf8Bytes line
    · rw [hColumn, Nat.add_sub_cancel_left, hText]
      exact found.around.getElem?_shown (stripped_utf8Bytes line)
    · intro hSize
      have hCount := List.count_le_length (a := lineFeed) (l := before)
      have hReached := found.around.reached
      rw [hNumber, hColumn]
      omega

/-- In two lines, of which the first ends with a carriage return, the last letter stands in the
first column of the second line, and the carriage return is not shown. -/
theorem ofText_locates_returns : (ofText "a\r\nb").count = 2 ∧ (ofText "a\r\nb").text 1 = ['a'] ∧
    ((ofText "a\r\nb").position 3 = (2, 1) ∧ 2 < 2 ^ 32 ∧ 1 < 2 ^ 32) ∧
    ∃ before line after, (ofText "a\r\nb").Locates (sourceBytes "a\r\nb") 3 before line after := by
  obtain ⟨hCount, hLocates⟩ := ofText_locates "a\r\nb"
  obtain ⟨before, line, after, locates⟩ := hLocates 3 (by decide +kernel)
  have hPosition : (ofText "a\r\nb").position 3 = (2, 1) := by decide
  have hFits := locates.fits (by decide +kernel)
  rw [hPosition] at hFits
  exact ⟨hCount.trans (by decide +kernel), by decide, ⟨hPosition, hFits⟩, before, line,
    after, locates⟩

/-! ## Searching the starts -/

section Search

variable {starts : List Nat} {offset line : Nat}

/-- The last of some starts that is not behind an offset. -/
structure LastStart (starts : List Nat) (offset line : Nat) : Prop where
  reached : ∃ start, starts[line]? = some start ∧ start ≤ offset
  later : ∀ other start, starts[other]? = some start → line < other → offset < start

theorem LastStart.unique {line' : Nat} (h : LastStart starts offset line)
    (h' : LastStart starts offset line') : line = line' := by
  obtain ⟨start, hStart, hLe⟩ := h.reached
  obtain ⟨start', hStart', hLe'⟩ := h'.reached
  rcases Nat.lt_trichotomy line line' with hLess | hSame | hLess
  · exact absurd (h.later line' start' hStart' hLess) (Nat.not_lt.mpr hLe')
  · exact hSame
  · exact absurd (h'.later line start hStart hLess) (Nat.not_lt.mpr hLe)

theorem lt_of_ascending (h : starts.Pairwise (· < ·)) {i j first second : Nat}
    (hFirst : starts[i]? = some first) (hSecond : starts[j]? = some second) (hLess : i < j) :
    first < second := by
  obtain ⟨hi, rfl⟩ := List.getElem?_eq_some_iff.mp hFirst
  obtain ⟨hj, rfl⟩ := List.getElem?_eq_some_iff.mp hSecond
  exact List.pairwise_iff_getElem.mp h i j hi hj hLess

/-- What is left out of a search is before the offset or behind it. -/
theorem search_lastStart {lo hi first : Nat} (hAscending : starts.Pairwise (· < ·))
    (hFirst : starts[0]? = some first) (hReached : first ≤ offset) (hLo : lo ≤ starts.length)
    (hHi : hi ≤ starts.length) (hOut : ∀ line start, starts[line]? = some start →
      (line < lo → start < offset) ∧ (hi ≤ line → offset < start)) :
    LastStart starts offset (lineOf (search starts offset lo hi)) := by
  have hValue {line : Nat} (hLine : line < starts.length) :
      starts[line]? = some (starts.getD line 0) := by
    rw [List.getD_eq_getElem?_getD, List.getElem?_eq_getElem hLine, Option.getD_some]
  induction lo, hi using search.induct starts offset with
  | case1 lo hi hLess middle hBefore ih =>
      have hMiddle : starts[middle]? = some _ := hValue (by omega)
      rw [search, if_pos hLess]
      dsimp only
      rw [hBefore]
      refine ih (by omega) hHi fun line start hStart =>
        ⟨fun hLine => ?_, (hOut line start hStart).2⟩
      rcases Nat.lt_or_eq_of_le (Nat.le_of_lt_succ hLine) with hLine | rfl
      · exact (lt_of_ascending hAscending hStart hMiddle hLine).trans (Nat.compare_eq_lt.mp hBefore)
      · rw [Option.some.inj (hStart.symm.trans hMiddle)]
        exact Nat.compare_eq_lt.mp hBefore
  | case2 lo hi hLess middle hSame =>
      have hMiddle : starts[middle]? = some _ := hValue (by omega)
      rw [search, if_pos hLess]
      dsimp only
      rw [hSame]
      rw [Nat.compare_eq_eq] at hSame
      exact ⟨⟨_, hMiddle, hSame.le⟩, fun other start hStart hLater =>
        hSame ▸ lt_of_ascending hAscending hMiddle hStart hLater⟩
  | case3 lo hi hLess middle hBehind ih =>
      have hMiddle : starts[middle]? = some _ := hValue (by omega)
      rw [search, if_pos hLess]
      dsimp only
      rw [hBehind]
      refine ih hLo (by omega) fun line start hStart =>
        ⟨(hOut line start hStart).1, fun hLine => ?_⟩
      rw [Nat.compare_eq_gt] at hBehind
      rcases Nat.lt_or_eq_of_le hLine with hLine | rfl
      · exact hBehind.trans (lt_of_ascending hAscending hMiddle hStart hLine)
      · rwa [Option.some.inj (hStart.symm.trans hMiddle)]
  | case4 lo hi hDone =>
      -- the first start is not behind the offset, so the search has passed it
      have hPassed : 0 < lo := by
        by_contra hNone
        exact absurd ((hOut 0 first hFirst).2 (by omega)) (Nat.not_lt.mpr hReached)
      have hLast : starts[lo - 1]? = some _ := hValue (by omega)
      rw [search, if_neg hDone]
      exact ⟨⟨_, hLast, ((hOut _ _ hLast).1 (by omega)).le⟩, fun other start hStart hLater =>
        (hOut other start hStart).2 (by simp only [lineOf] at hLater; omega)⟩

/-- Going through the lines one by one comes to the last start that is not behind the offset. -/
theorem find_lastStart {lines : List (Nat × List Char)} {number start : Nat}
    (hAscending : (start :: lines.map (·.1)).Pairwise (· < ·)) (hReached : start ≤ offset) :
    ∃ line, LastStart (start :: lines.map (·.1)) offset line ∧
      find offset number start lines = (number + line, (start :: lines.map (·.1)).getD line 0) := by
  induction lines generalizing number start with
  | nil =>
      refine ⟨0, ⟨⟨start, rfl, hReached⟩, fun other _ hOther hLater => ?_⟩, rfl⟩
      obtain ⟨later, rfl⟩ := Nat.exists_eq_succ_of_ne_zero (Nat.ne_of_gt hLater)
      cases hOther
  | cons next lines ih =>
      rw [find]
      split
      · next hNext =>
          obtain ⟨line, hLast, hFind⟩ := @ih (number + 1) next.1 hAscending.of_cons hNext
          refine ⟨line + 1, ⟨hLast.reached, fun other start hStart hLater => ?_⟩, ?_⟩
          · obtain ⟨later, rfl⟩ := Nat.exists_eq_succ_of_ne_zero
              (Nat.ne_of_gt (Nat.zero_lt_of_lt hLater))
            exact hLast.later later start hStart (Nat.lt_of_succ_lt_succ hLater)
          · rw [hFind, Nat.add_assoc, Nat.add_comm 1 line]
            rfl
      · next hNext =>
          refine ⟨0, ⟨⟨start, rfl, hReached⟩, fun other later hLater hLess => ?_⟩, rfl⟩
          have hFirst : next.1 ≤ later := by
            rcases Nat.lt_or_eq_of_le (Nat.succ_le_of_lt hLess) with hLess | rfl
            · exact (@lt_of_ascending _ hAscending 1 _ _ _ rfl hLater hLess).le
            · exact (Option.some.inj hLater).le
          omega

theorem ascending_place (start : Nat) (lines : List (List Char)) :
    ((place start lines).map (·.1)).Pairwise (· < ·) ∧
      ∀ first ∈ (place start lines).map (·.1), start ≤ first := by
  induction lines generalizing start with
  | nil => simp [place]
  | cons line lines ih =>
      obtain ⟨hAscending, hLater⟩ := ih (start + byteLength line + 1)
      rw [place, List.map_cons]
      refine ⟨.cons (fun first hFirst => ?_) hAscending,
        List.forall_mem_cons.mpr ⟨Nat.le_refl _, ?_⟩⟩
      · exact Nat.lt_of_lt_of_le (Nat.lt_succ_of_le (Nat.le_add_right _ _)) (hLater first hFirst)
      · exact fun first hFirst => Nat.le_trans (by omega) (hLater first hFirst)

/-- Searching the starts of a text comes to the same line and column as going through them. -/
theorem searchPosition_eq (text : String) (offset : Nat) :
    (ofText text).searchPosition offset = (ofText text).position offset := by
  obtain ⟨first, rest, hLines⟩ :=
    List.exists_cons_of_ne_nil (splitLinesAux_ne_nil [] text.toList)
  have hIndex : (ofText text).lines = (0, first) :: place (byteLength first + 1) rest := by
    rw [ofText, splitLines, hLines, place, Nat.zero_add]
  have hStarts : (ofText text).starts = 0 :: ((ofText text).lines.drop 1).map (·.1) := by
    rw [starts, hIndex]
    rfl
  have hAscending : (ofText text).starts.Pairwise (· < ·) := (ascending_place 0 _).1
  have hCount : (ofText text).count = (ofText text).starts.length := (List.length_map _).symm
  have hSearch : LastStart (ofText text).starts offset
      (lineOf (search (ofText text).starts offset 0 (ofText text).count)) := by
    have hFirst : (ofText text).starts[0]? = some 0 := by rw [hStarts]; rfl
    refine search_lastStart hAscending hFirst (Nat.zero_le _)
      (Nat.zero_le _) hCount.le fun line start hStart => ⟨nofun, fun hLine => ?_⟩
    rw [List.getElem?_eq_none (hCount ▸ hLine)] at hStart
    cases hStart
  rw [hStarts] at hAscending
  obtain ⟨line, hFound, hFind⟩ := @find_lastStart offset _ 1 0 hAscending (Nat.zero_le offset)
  rw [← hStarts] at hFound hFind
  rw [searchPosition, position, hFind, hSearch.unique hFound, Nat.add_comm 1 line]

end Search

end LineIndex

end GoToC
