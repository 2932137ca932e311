import Scriptlet.Proofs.Spans

/-!
# Layout

How a text is laid out, in blanks and comments between its lexemes, decides where its tokens stand
and nothing else, with one exception: a gap that holds a line feed is a `;` of its own, if the
lexeme before it can end a statement.

## Laid out text

A gap is a run of blanks and comments.  Within a text every comment has its line feed behind it; the
last gap may end in a comment without one.  A `Piece` is a lexeme with the gap behind it, and a
`Layout` a first gap and pieces.  Neighbouring lexemes are kept apart by gaps that are not empty,
and a gap begins with a blank, because two slashes directly behind a lexeme could be taken for a
part of it.

## Reading it

`Layout.spans` says, without reference to the scanner, what is to come out.  The scanner is led
through the pieces from gap to gap.  Its flag `lineEnds` always tells what the last token was; a `;`
that it makes of a gap clears the flag, and therefore comes once and does not come again.
-/

namespace Scriptlet

open Scriptlet.Text

/-! ## Gaps -/

/-- A run of blanks and comments, where every comment ends with a line feed. -/
inductive ClosedGap : List Char → Prop
  | nil : ClosedGap []
  | blank {c : Char} {more : List Char} : isBlank c = true → ClosedGap more → ClosedGap (c :: more)
  | comment {text more : List Char} : '\n' ∉ text → ClosedGap more →
    ClosedGap ('/' :: '/' :: text ++ '\n' :: more)

/-- A gap at the end of a text, which the last comment may reach. -/
inductive LastGap : List Char → Prop
  | closed {g : List Char} : ClosedGap g → LastGap g
  | comment {g text : List Char} : ClosedGap g → '\n' ∉ text → LastGap (g ++ '/' :: '/' :: text)

/-- A comment lasts up to its line feed. -/
theorem gap_comment {text : List Char} (h : '\n' ∉ text) (rest : List Char) :
    gap true (text ++ '\n' :: rest) = text ++ '\n' :: gap false rest ∧
    afterGap true (text ++ '\n' :: rest) = afterGap false rest := by
  induction text with
  | nil => exact ⟨rfl, rfl⟩
  | cons c text ih =>
    rw [List.mem_cons, not_or] at h
    have hc : (c != '\n') = true := bne_iff_ne.mpr (Ne.symm h.1)
    obtain ⟨hgap, hafter⟩ := ih h.2
    rw [List.cons_append, gap, afterGap, hc, hgap, hafter]
    exact ⟨rfl, rfl⟩

/-- Without a line feed it lasts to the end. -/
theorem gap_openComment {text : List Char} (h : '\n' ∉ text) :
    gap true text = text ∧ afterGap true text = [] := by
  induction text with
  | nil => exact ⟨rfl, rfl⟩
  | cons c text ih =>
    rw [List.mem_cons, not_or] at h
    have hc : (c != '\n') = true := bne_iff_ne.mpr (Ne.symm h.1)
    obtain ⟨hgap, hafter⟩ := ih h.2
    rw [gap, afterGap, hc, hgap, hafter]
    exact ⟨rfl, rfl⟩

/-- A closed gap is skipped as a whole, whatever follows it. -/
theorem ClosedGap.gap_append {g : List Char} (h : ClosedGap g) (rest : List Char) :
    gap false (g ++ rest) = g ++ gap false rest ∧
    afterGap false (g ++ rest) = afterGap false rest := by
  induction h with
  | nil => exact ⟨rfl, rfl⟩
  | blank hc _ ih =>
    obtain ⟨hgap, hafter⟩ := gap_of_isBlank hc (_ ++ rest)
    rw [List.cons_append, hgap, hafter, ih.1, ih.2]
    exact ⟨rfl, rfl⟩
  | @comment text more htext _ ih =>
    have hshape : '/' :: '/' :: text ++ '\n' :: more ++ rest =
        '/' :: '/' :: (text ++ '\n' :: (more ++ rest)) := by simp
    obtain ⟨hgap, hafter⟩ := gap_comment htext (more ++ rest)
    rw [hshape, gap, afterGap, hgap, hafter, ih.1, ih.2]
    simp

theorem LastGap.gap_eq {g : List Char} (h : LastGap g) :
    gap false g = g ∧ afterGap false g = [] := by
  cases h with
  | closed hg =>
    obtain ⟨hgap, hafter⟩ := hg.gap_append []
    rw [List.append_nil] at hgap hafter
    rw [hgap, hafter]
    exact ⟨List.append_nil _, rfl⟩
  | comment hg htext =>
    obtain ⟨hgap, hafter⟩ := hg.gap_append ('/' :: '/' :: _)
    obtain ⟨hopen, hend⟩ := gap_openComment htext
    rw [hgap, hafter, gap, afterGap, hopen, hend]
    exact ⟨rfl, rfl⟩

/-! ## Pieces -/

/-- A lexeme that spells a token, and the gap behind it. -/
structure Piece where
  lexeme : Lexeme
  token : Token
  gap : List Char
  wellFormed : lexeme.WellFormed
  token_eq : lexeme.token = .ok token
  /-- The gap is empty or begins with a blank. -/
  atGap : Lexeme.AtGap gap

namespace Piece

/-- The text of some pieces. -/
def text (pieces : List Piece) : List Char :=
  pieces.flatMap fun piece => piece.lexeme.spelling ++ piece.gap

/-- The kinds of tokens that can end a statement. -/
def statementEnds : List Token.Kind :=
  [.mark .closeParen, .mark .closeBrace, .int, .string, .name]

/-- The spans of some pieces, the first of which starts at an offset. -/
def spansFrom : (start : Nat) → List Piece → List Span
  | _, [] => []
  | start, piece :: pieces =>
    let stop := start + utf8Length piece.lexeme.spelling
    let next := stop + utf8Length piece.gap
    ⟨start, piece.token, stop⟩ ::
      ((if '\n' ∈ piece.gap ∧ piece.token.kind ∈ statementEnds
        then [⟨stop, .mark .semicolon, next⟩] else []) ++ spansFrom next pieces)

/-- A gap may stand before some pieces: theirs keep the lexemes apart, and only the very last gap
may end in a comment. -/
inductive Laid : List Char → List Piece → Prop
  | last {g : List Char} : LastGap g → Laid g []
  | piece {g : List Char} {piece : Piece} {pieces : List Piece} : ClosedGap g →
    Laid piece.gap pieces → (piece.gap = [] → pieces = []) → Laid g (piece :: pieces)

end Piece

/-- A laid out text. -/
structure Layout where
  /-- The gap before the first lexeme. -/
  lead : List Char
  pieces : List Piece
  laid : Piece.Laid lead pieces

namespace Layout

/-- The text. -/
def source (layout : Layout) : String :=
  String.ofList (layout.lead ++ Piece.text layout.pieces)

/-- The tokens of the text, with their places. -/
def spans (layout : Layout) : List Span :=
  Piece.spansFrom (utf8Length layout.lead) layout.pieces

end Layout

/-! ## The scanner in a laid out text -/

theorem Token.endsStatement_iff (token : Token) :
    token.endsStatement = true ↔ token.kind ∈ Piece.statementEnds := by
  cases token with
  | mark m => cases m <;> decide
  | bool b => cases b <;> decide
  | string text => simp [endsStatement, kind, Piece.statementEnds]
  | int n => simp [endsStatement, kind, Piece.statementEnds]
  | name text => simp [endsStatement, kind, Piece.statementEnds]

namespace Scanner

variable {s : Scanner}

/-- A gap that counts as a line end is a `;`. -/
theorem next_of_lineEnds {g rest : List Char} (hgap : gap false s.rest = g)
    (hafter : afterGap false s.rest = rest) (hline : s.lineEnds = true) (hfeed : '\n' ∈ g) :
    s.next = (.token ⟨s.bytePos, .mark .semicolon, s.bytePos + utf8Length g⟩,
      { s.past g rest with lineEnds := false }) := by
  have hcontains : g.contains '\n' = true := List.contains_iff_mem.mpr hfeed
  simp only [next, hgap, hafter, hline, hcontains, Bool.and_true, if_true, take]
  rfl

/-- A lexeme behind a gap that does not count is a token. -/
theorem next_of_spelling {g rest : List Char} {lexeme : Lexeme} {token : Token}
    (hgap : gap false s.rest = g) (hafter : afterGap false s.rest = lexeme.spelling ++ rest)
    (hline : ¬(s.lineEnds = true ∧ '\n' ∈ g)) (hwell : lexeme.WellFormed)
    (hrest : Lexeme.AtGap rest) (htoken : lexeme.token = .ok token) :
    s.next = (.token ⟨s.bytePos + utf8Length g, token,
        s.bytePos + utf8Length g + utf8Length lexeme.spelling⟩,
      { (s.past g (lexeme.spelling ++ rest)).past lexeme.spelling rest with
        lineEnds := token.endsStatement }) := by
  have hnot : (s.lineEnds && (gap false s.rest).contains '\n') = false := by
    rw [Bool.eq_false_iff, ne_eq, Bool.and_eq_true, List.contains_iff_mem, hgap]
    exact hline
  have hne : (lexeme.spelling ++ rest).isEmpty = false := by
    rw [List.isEmpty_eq_false_iff, ne_eq, List.append_eq_nil_iff]
    exact fun hnil => Lexeme.spelling_ne_nil hwell hnil.1
  rw [next_of_not_lineEnds hnot, nextLexeme, hgap, hafter]
  simp only [past, hne, Bool.false_eq_true, if_false, Lexeme.read?_spelling hwell hrest, htoken,
    take]

/-- Behind the last gap, unless it counts, the scanner is at its end. -/
theorem next_of_lastGap {g : List Char} (hgap : gap false s.rest = g)
    (hafter : afterGap false s.rest = []) (hline : ¬(s.lineEnds = true ∧ '\n' ∈ g)) :
    s.next = (.finished, s.past g []) := by
  have hnot : (s.lineEnds && (gap false s.rest).contains '\n') = false := by
    rw [Bool.eq_false_iff, ne_eq, Bool.and_eq_true, List.contains_iff_mem, hgap]
    exact hline
  rw [next_of_not_lineEnds hnot, nextLexeme, hgap, hafter]
  rfl

end Scanner

namespace Piece

/-- The `;` that a gap is, at an offset, behind a token that ends a statement or does not. -/
def lineEnd (ends : Bool) (start : Nat) (g : List Char) : List Span :=
  if ends = true ∧ '\n' ∈ g then [⟨start, .mark .semicolon, start + utf8Length g⟩] else []

theorem spansFrom_cons (start : Nat) (piece : Piece) (pieces : List Piece) :
    spansFrom start (piece :: pieces) =
      ⟨start, piece.token, start + utf8Length piece.lexeme.spelling⟩ ::
        (lineEnd piece.token.endsStatement (start + utf8Length piece.lexeme.spelling) piece.gap ++
          spansFrom (start + utf8Length piece.lexeme.spelling + utf8Length piece.gap) pieces) := by
  simp only [spansFrom, lineEnd, Token.endsStatement_iff, and_comm]

/-- What follows a lexeme begins with its gap. -/
theorem atGap_append {piece : Piece} {pieces : List Piece} (h : piece.gap = [] → pieces = []) :
    Lexeme.AtGap (piece.gap ++ text pieces) := by
  have hgap := piece.atGap
  cases hg : piece.gap with
  | nil =>
    rw [h hg]
    exact rfl
  | cons c g =>
    rw [hg] at hgap
    exact hgap

/-- The scanner at a lexeme, with a gap before it that does not count. -/
theorem hands_cons {s : Scanner} {g rest : List Char} {piece : Piece} {spans : List Span}
    (hgap : Scriptlet.gap false s.rest = g)
    (hafter : afterGap false s.rest = piece.lexeme.spelling ++ rest)
    (hline : ¬(s.lineEnds = true ∧ '\n' ∈ g)) (hrest : Lexeme.AtGap rest)
    (hnext : ∀ after : Scanner, after.rest = rest →
      after.bytePos = s.bytePos + utf8Length g + utf8Length piece.lexeme.spelling →
      after.lineEnds = piece.token.endsStatement → (Feed.scanner after).Hands spans none) :
    (Feed.scanner s).Hands (⟨s.bytePos + utf8Length g, piece.token,
      s.bytePos + utf8Length g + utf8Length piece.lexeme.spelling⟩ :: spans) none := by
  have hscan := Scanner.next_of_spelling hgap hafter hline piece.wellFormed hrest piece.token_eq
  exact .token (Feed.next_scanner hscan) (hnext _ rfl rfl rfl)

/-- From a gap on, the scanner hands out a `;` if the gap counts, and then the pieces. -/
theorem Laid.hands {g : List Char} {pieces : List Piece} (h : Laid g pieces) {s : Scanner}
    (hs : s.rest = g ++ text pieces) :
    (Feed.scanner s).Hands (lineEnd s.lineEnds s.bytePos g ++
      spansFrom (s.bytePos + utf8Length g) pieces) none := by
  induction h generalizing s with
  | @last g hlast =>
    obtain ⟨hgap, hafter⟩ := hlast.gap_eq
    rw [text, List.flatMap_nil, List.append_nil] at hs
    rw [← hs] at hgap hafter
    rw [spansFrom, List.append_nil, lineEnd]
    by_cases hline : s.lineEnds = true ∧ '\n' ∈ g
    · rw [if_pos hline, ← hs]
      refine .token (Feed.next_scanner (Scanner.next_of_lineEnds hgap hafter hline.1 ?_)) ?_
      · rw [hs]
        exact hline.2
      · exact .finished (Feed.next_scanner (Scanner.next_of_lastGap rfl rfl (by simp)))
    · rw [if_neg hline]
      refine .finished (Feed.next_scanner (Scanner.next_of_lastGap hgap hafter ?_))
      rw [hs]
      exact hline
  | @piece g piece pieces hclosed _ hlast ih =>
    have hatGap := atGap_append hlast
    have hfront : text (piece :: pieces) =
        piece.lexeme.spelling ++ (piece.gap ++ text pieces) := by
      rw [text, List.flatMap_cons, List.append_assoc]
      rfl
    obtain ⟨hnone, hstart⟩ := Lexeme.gap_spelling piece.wellFormed hatGap
    obtain ⟨hgap, hafter⟩ := hclosed.gap_append (text (piece :: pieces))
    rw [hfront, hnone, List.append_nil, ← hfront, ← hs] at hgap
    rw [hfront, hstart, ← hfront, ← hs, hfront] at hafter
    have hnext : ∀ after : Scanner, after.rest = piece.gap ++ text pieces →
        after.bytePos = s.bytePos + utf8Length g + utf8Length piece.lexeme.spelling →
        after.lineEnds = piece.token.endsStatement →
        (Feed.scanner after).Hands (lineEnd piece.token.endsStatement
            (s.bytePos + utf8Length g + utf8Length piece.lexeme.spelling) piece.gap ++
          spansFrom (s.bytePos + utf8Length g + utf8Length piece.lexeme.spelling +
            utf8Length piece.gap) pieces) none := by
      intro after hrest hpos hends
      rw [← hpos, ← hends]
      exact ih hrest
    rw [spansFrom_cons, lineEnd]
    by_cases hline : s.lineEnds = true ∧ '\n' ∈ g
    · -- the `;` clears the flag, so that the lexeme is next
      rw [if_pos hline]
      have hscan := Scanner.next_of_lineEnds hgap hafter hline.1 hline.2
      exact .token (Feed.next_scanner hscan)
        (hands_cons (g := []) hnone hstart (by simp) hatGap hnext)
    · rw [if_neg hline]
      exact hands_cons hgap hafter hline hatGap hnext

/-- What of a piece the tokens depend on: its token, and whether a line feed follows. -/
def shape (piece : Piece) : Token × Bool :=
  (piece.token, piece.gap.contains '\n')

/-- The tokens of pieces of given shapes. -/
def tokens : List (Token × Bool) → List Token
  | [] => []
  | (token, breaks) :: shapes =>
    token :: ((if breaks && token.endsStatement then [.mark .semicolon] else []) ++ tokens shapes)

theorem map_token_spansFrom (start : Nat) (pieces : List Piece) :
    (spansFrom start pieces).map Span.token = tokens (pieces.map shape) := by
  induction pieces generalizing start with
  | nil => rfl
  | cons piece pieces ih =>
    rw [spansFrom_cons, List.map_cons, List.map_cons, List.map_append, ih, shape, tokens, lineEnd]
    congr 2
    by_cases hends : piece.token.endsStatement = true <;> by_cases hfeed : '\n' ∈ piece.gap <;>
      simp [hends, hfeed]

end Piece

/-- **Layout.**  The scanner makes of a laid out text exactly the tokens of its lexemes, in order
and each with its own place, and a `;` for every gap that holds a line feed behind a token that can
end a statement, as long as that gap.  There is no other token and no error.  Therefore two texts
with the same tokens in them, whose gaps have line feeds at the same places, are the same sequence
of tokens. -/
theorem drain_layout_eq_spans (layout : Layout) :
    (Scanner.ofSource layout.source).drain = .ok (layout.spans.map .token) ∧
    ∀ other : Layout, other.pieces.map Piece.shape = layout.pieces.map Piece.shape →
      other.spans.map Span.token = layout.spans.map Span.token := by
  refine ⟨?_, fun other hshape => ?_⟩
  · have hrest : (Scanner.ofSource layout.source).rest =
        layout.lead ++ Piece.text layout.pieces := by
      rw [Scanner.ofSource, Layout.source, String.toList_ofList]
    have hhands := layout.laid.hands hrest
    have hstart : Piece.lineEnd (Scanner.ofSource layout.source).lineEnds
        (Scanner.ofSource layout.source).bytePos layout.lead = [] :=
      if_neg (by simp [Scanner.ofSource])
    rw [hstart, List.nil_append] at hhands
    have hpos : (Scanner.ofSource layout.source).bytePos + utf8Length layout.lead =
        utf8Length layout.lead := Nat.zero_add _
    rw [hpos] at hhands
    exact Scanner.drain_of_hands hhands
  · rw [Layout.spans, Layout.spans, Piece.map_token_spansFrom, Piece.map_token_spansFrom, hshape]

/-- The name `x` with a gap behind it. -/
def xPiece (g : List Char) (h : Lexeme.AtGap g) : Piece :=
  ⟨.name ['x'], .name "x", g, ⟨⟨'x', [], rfl, rfl, by simp⟩, by decide⟩, rfl, h⟩

/-- The mark `:=` with a gap behind it. -/
def definePiece (g : List Char) (h : Lexeme.AtGap g) : Piece :=
  ⟨.mark .define, .mark .define, g, trivial, rfl, h⟩

/-- The integer `-5` with a gap behind it. -/
def fivePiece (g : List Char) (h : Lexeme.AtGap g) : Piece :=
  ⟨.int true ['5'], .int (-5), g, ⟨by simp, List.forall_mem_singleton.mpr rfl⟩, rfl, h⟩

/-- A text on two lines, with a comment at the end of each. -/
def notedLayout : Layout where
  lead := []
  pieces := [xPiece [' ', '/', '/', 'n', '\n'] rfl, definePiece [' '] rfl,
    fivePiece ['\n', '/', '/'] rfl]
  laid := .piece .nil (.piece (.blank rfl (@ClosedGap.comment ['n'] [] (by decide) .nil))
    (.piece (.blank rfl .nil) (.last (@LastGap.comment ['\n'] [] (.blank rfl .nil) (by simp)))
      nofun) nofun) nofun

/-- The same on more lines, without comments except before the text. -/
def airyLayout : Layout where
  lead := ['/', '/', '\n', ' ']
  pieces := [xPiece ['\t', '\n', '\n'] rfl, definePiece ['\r'] rfl, fivePiece ['\n'] rfl]
  laid := .piece (@ClosedGap.comment [] [' '] (by simp) (.blank rfl .nil))
    (.piece (.blank rfl (.blank rfl (.blank rfl .nil))) (.piece (.blank rfl .nil)
      (.last (.closed (.blank rfl .nil))) nofun) nofun) nofun

theorem notedLayout_and_airyLayout_same_tokens :
    ((Scanner.ofSource notedLayout.source).drain = .ok (notedLayout.spans.map .token) ∧
      notedLayout.spans = [⟨0, .name "x", 1⟩, ⟨1, .mark .semicolon, 6⟩, ⟨6, .mark .define, 8⟩,
        ⟨9, .int (-5), 11⟩, ⟨11, .mark .semicolon, 14⟩]) ∧
    airyLayout.pieces.map Piece.shape = notedLayout.pieces.map Piece.shape ∧
      airyLayout.spans.map Span.token = notedLayout.spans.map Span.token := by
  have hshape : airyLayout.pieces.map Piece.shape = notedLayout.pieces.map Piece.shape := by decide
  obtain ⟨hdrain, hsame⟩ := drain_layout_eq_spans notedLayout
  exact ⟨⟨hdrain, by decide⟩, hshape, hsame airyLayout hshape⟩

end Scriptlet
