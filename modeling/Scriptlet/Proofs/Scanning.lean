import Scriptlet.Proofs.Lexemes
import Scriptlet.Token.Scanner

/-!
# One step of the scanner

What a scanner does when it is asked for the next token, read in both directions.  A token that it
hands out is a `;` for a gap with a line feed, or comes from a well-formed lexeme that stands behind
the gap (`Scanner.token_cases`); in both cases it takes up some text, so that a scanner cannot go on
forever.  And where a well-formed lexeme stands behind a gap without a line feed, its token is what
the scanner hands out (`Scanner.next_of_lexeme`).
-/

namespace Scriptlet

open Scriptlet.Text

/-- A blank at the front belongs to the gap. -/
theorem gap_of_isBlank {c : Char} (h : isBlank c = true) (rest : List Char) :
    gap false (c :: rest) = c :: gap false rest ∧
    afterGap false (c :: rest) = afterGap false rest := by
  have hslash : ∀ more, c = '/' → rest = '/' :: more → False := by
    rintro more rfl rfl
    cases h
  rw [gap.eq_4 c rest hslash, afterGap.eq_4 c rest hslash, h]
  exact ⟨rfl, rfl⟩

/-! ## No gap begins at a lexeme -/

namespace Lexeme

/-- No gap begins with a character that is no blank, unless it is the first of two slashes. -/
theorem gap_cons_eq_nil {c : Char} {text : List Char} (hc : isBlank c = false)
    (hslash : c = '/' → startsWith (· == '/') text = false) :
    gap false (c :: text) = [] ∧ afterGap false (c :: text) = c :: text := by
  have hcomment : ∀ more, c = '/' → text = '/' :: more → False := by
    rintro more rfl rfl
    cases hslash rfl
  rw [gap.eq_4 c text hcomment, afterGap.eq_4 c text hcomment, hc]
  exact ⟨rfl, rfl⟩

theorem isBlank_eq_false_of_startsName {c : Char} (h : startsName c = true) :
    isBlank c = false ∧ c ≠ '/' := by
  have hcodes : ∀ n ∈ List.range' 97 26, blanks.has n = false ∧ n ≠ 47 := by decide
  have hbounds : 97 ≤ c.toNat ∧ c.toNat ≤ 122 := by
    simpa [startsName, Char.le_def, UInt32.le_iff_toNat_le] using h
  obtain ⟨hblank, hne⟩ := hcodes c.toNat (List.mem_range'_1.mpr ⟨hbounds.1, by omega⟩)
  exact ⟨hblank, fun hslash => hne (by rw [hslash]; rfl)⟩

theorem isBlank_eq_false_of_isDigit {c : Char} (h : c.isDigit = true) :
    isBlank c = false ∧ c ≠ '/' := by
  refine ⟨Bool.eq_false_iff.mpr fun hblank => ?_, fun hslash => ?_⟩
  · rw [isDigit_eq_false_of_isBlank hblank] at h
    cases h
  · rw [hslash] at h
    cases h

/-- No gap begins at a lexeme: it begins with no blank, and with a slash only if it is one. -/
theorem spelling_head {l : Lexeme} (h : l.WellFormed) : ∃ c text, l.spelling = c :: text ∧
    isBlank c = false ∧ (c = '/' → text = []) := by
  have hfixed : ∀ l ∈ fixed, (l.spelling.head?.any fun c => !isBlank c &&
      (c != '/' || l.spelling.tail.isEmpty)) = true := by decide
  have hmem : ∀ l ∈ fixed, ∃ c text, l.spelling = c :: text ∧ isBlank c = false ∧
      (c = '/' → text = []) := by
    intro l hl
    have hcheck := hfixed l hl
    cases hspelling : l.spelling with
    | nil => rw [hspelling] at hcheck; cases hcheck
    | cons c text =>
      refine ⟨c, text, rfl, ?_⟩
      simpa [hspelling, or_iff_not_imp_left] using hcheck
  cases l with
  | mark m => exact hmem _ (mark_mem_fixed m)
  | bool b => exact hmem _ (bool_mem_fixed b)
  | name text =>
    obtain ⟨first, others, rfl, hfirst, _⟩ := h.shape
    obtain ⟨hblank, hne⟩ := isBlank_eq_false_of_startsName hfirst
    exact ⟨first, others, rfl, hblank, fun hslash => absurd hslash hne⟩
  | string inner => exact ⟨'"', inner ++ ['"'], rfl, by decide, fun hslash => by cases hslash⟩
  | int negative digits =>
    cases negative with
    | true => exact ⟨'-', digits, rfl, by decide, fun hslash => by cases hslash⟩
    | false =>
      obtain ⟨d, others, rfl⟩ := List.exists_cons_of_ne_nil h.1
      obtain ⟨hblank, hne⟩ := isBlank_eq_false_of_isDigit (h.2 d List.mem_cons_self)
      exact ⟨d, others, rfl, hblank, fun hslash => absurd hslash hne⟩

/-- No gap begins at a lexeme that no slash follows. -/
theorem gap_spelling_of_startsWith {l : Lexeme} (h : l.WellFormed) {rest : List Char}
    (hrest : startsWith (· == '/') rest = false) :
    gap false (l.spelling ++ rest) = [] ∧
    afterGap false (l.spelling ++ rest) = l.spelling ++ rest := by
  obtain ⟨c, text, hspelling, hblank, hslash⟩ := spelling_head h
  rw [hspelling, List.cons_append]
  refine gap_cons_eq_nil hblank fun hc => ?_
  rw [hslash hc, List.nil_append]
  exact hrest

theorem gap_spelling {l : Lexeme} (h : l.WellFormed) {rest : List Char} (hrest : AtGap rest) :
    gap false (l.spelling ++ rest) = [] ∧
    afterGap false (l.spelling ++ rest) = l.spelling ++ rest := by
  refine gap_spelling_of_startsWith h (hrest.startsWith_eq_false fun d hd => ?_)
  rw [beq_eq_false_iff_ne]
  rintro rfl
  cases hd

end Lexeme

/-! ## Where tokens come from -/

namespace Scanner

variable {s left : Scanner} {span : Span}

/-- Where no line feed counts, the gap is skipped. -/
theorem next_of_not_lineEnds (h : (s.lineEnds && (gap false s.rest).contains '\n') = false) :
    s.next = (s.past (gap false s.rest) (afterGap false s.rest)).nextLexeme := by
  simp only [next, h, Bool.false_eq_true, if_false]

theorem nextLexeme_token (h : s.nextLexeme = (.token span, left)) :
    ∃ lexeme, Lexeme.read? s.rest = some (lexeme, left.rest) ∧ lexeme.token = .ok span.token := by
  rw [nextLexeme] at h
  split at h
  · exact absurd h (by simp)
  · split at h
    · exact absurd h (by simp [fail])
    · rename_i lexeme rest hread
      split at h
      · rename_i token htoken
        rw [take, Prod.mk.injEq, Scanned.token.injEq] at h
        obtain ⟨rfl, rfl⟩ := h
        exact ⟨lexeme, hread, htoken⟩
      · exact absurd h (by simp [fail])
      · exact absurd h (by simp)

/-- Where a token comes from. -/
theorem token_cases (h : s.next = (.token span, left)) :
    (span.token = .mark .semicolon ∧ '\n' ∈ gap false s.rest ∧
      left.rest = afterGap false s.rest) ∨
    ∃ lexeme, Lexeme.read? (afterGap false s.rest) = some (lexeme, left.rest) ∧
      lexeme.token = .ok span.token := by
  cases hline : s.lineEnds && (gap false s.rest).contains '\n' with
  | true =>
    simp only [next, hline, if_true, take, Prod.mk.injEq, Scanned.token.injEq] at h
    obtain ⟨rfl, rfl⟩ := h
    rw [Bool.and_eq_true, List.contains_iff_mem] at hline
    exact Or.inl ⟨rfl, hline.2, rfl⟩
  | false =>
    rw [next_of_not_lineEnds hline] at h
    exact Or.inr (nextLexeme_token h)

theorem length_afterGap_add (text : List Char) :
    (gap false text).length + (afterGap false text).length = text.length := by
  rw [← List.length_append, gap_append_afterGap]

/-- A token takes up some text. -/
theorem length_lt_of_token (h : s.next = (.token span, left)) :
    left.rest.length < s.rest.length := by
  have hgap := length_afterGap_add s.rest
  rcases token_cases h with ⟨_, hline, hrest⟩ | ⟨lexeme, hread, _⟩
  · have hpos := List.length_pos_of_mem hline
    rw [hrest]
    omega
  · obtain ⟨hwell, happend⟩ := Lexeme.read?_sound hread
    have hpos := List.length_pos_of_ne_nil (Lexeme.spelling_ne_nil hwell)
    have hlength := congrArg List.length happend
    rw [List.length_append] at hlength
    omega

/-- A scanner at its end stays there. -/
theorem next_of_finished (h : s.next = (.finished, left)) : left.next = (.finished, left) := by
  cases hline : s.lineEnds && (gap false s.rest).contains '\n' with
  | true =>
    simp only [next, hline, if_true, take, Prod.mk.injEq] at h
    exact absurd h.1 (by simp)
  | false =>
    rw [next_of_not_lineEnds hline, nextLexeme] at h
    split at h
    · rename_i hempty
      rw [Prod.mk.injEq] at h
      have hrest : left.rest = [] := by
        rw [← h.2]
        simpa using hempty
      cases left
      subst hrest
      simp [next, gap, afterGap, nextLexeme, past, utf8Length]
    · split at h
      · exact absurd h (by simp [fail])
      · split at h
        · exact absurd h (by simp [take])
        · exact absurd h (by simp [fail])
        · exact absurd h (by simp)

/-! ## Text that is put together from lexemes -/

theorem lineEnds_and_eq_false (hline : '\n' ∉ gap false s.rest) :
    (s.lineEnds && (gap false s.rest).contains '\n') = false := by
  rw [Bool.and_eq_false_iff, ← Bool.not_eq_true ((gap false s.rest).contains '\n'),
    List.contains_iff_mem]
  exact Or.inr hline

/-- The token of a lexeme that is read behind a gap that does not count is handed out. -/
theorem next_of_read_of_not_lineEnds {lexeme : Lexeme} {token : Token} {rest : List Char}
    (hline : (s.lineEnds && (gap false s.rest).contains '\n') = false)
    (hread : Lexeme.read? (afterGap false s.rest) = some (lexeme, rest))
    (htoken : lexeme.token = .ok token) :
    ∃ span after, s.next = (.token span, after) ∧ span.token = token ∧ after.rest = rest ∧
      after.lineEnds = token.endsStatement := by
  obtain ⟨hwell, happend⟩ := Lexeme.read?_sound hread
  have hne : (afterGap false s.rest).isEmpty = false := by
    rw [List.isEmpty_eq_false_iff, ← happend, ne_eq, List.append_eq_nil_iff]
    exact fun hnil => Lexeme.spelling_ne_nil hwell hnil.1
  rw [next_of_not_lineEnds hline, nextLexeme]
  simp only [past, hne, Bool.false_eq_true, if_false, hread, htoken, take]
  exact ⟨_, _, rfl, rfl, rfl, rfl⟩

/-- So it is behind a gap without a line feed. -/
theorem next_of_read {lexeme : Lexeme} {token : Token} {rest : List Char}
    (hline : '\n' ∉ gap false s.rest)
    (hread : Lexeme.read? (afterGap false s.rest) = some (lexeme, rest))
    (htoken : lexeme.token = .ok token) :
    ∃ span after, s.next = (.token span, after) ∧ span.token = token ∧ after.rest = rest := by
  obtain ⟨span, after, hnext, htoken, hrest, -⟩ :=
    next_of_read_of_not_lineEnds (lineEnds_and_eq_false hline) hread htoken
  exact ⟨span, after, hnext, htoken, hrest⟩

/-- The token of a well-formed lexeme behind a gap that is no `;` is handed out. -/
theorem next_of_lexeme {lexeme : Lexeme} {token : Token} {rest : List Char}
    (hline : '\n' ∉ gap false s.rest) (hfront : afterGap false s.rest = lexeme.spelling ++ rest)
    (hwell : lexeme.WellFormed) (hrest : Lexeme.AtGap rest) (htoken : lexeme.token = .ok token) :
    ∃ span after, s.next = (.token span, after) ∧ span.token = token ∧ after.rest = rest :=
  next_of_read hline (hfront ▸ Lexeme.read?_spelling hwell hrest) htoken

/-- Where nothing but a gap without a line feed is left, the scanner is at its end. -/
theorem next_of_nil (hline : '\n' ∉ gap false s.rest) (hfront : afterGap false s.rest = []) :
    ∃ after, s.next = (.finished, after) := by
  rw [next_of_not_lineEnds (lineEnds_and_eq_false hline), nextLexeme]
  simp only [past, hfront, List.isEmpty_nil, if_true]
  exact ⟨_, rfl⟩

end Scanner
end Scriptlet
