import Scriptlet.Proofs.LongestLexeme
import Scriptlet.Proofs.ScanningAhead
import Scriptlet.Proofs.StatementEnds
import Scriptlet.Proofs.Unambiguous

/-!
# Lines as statements

A body can have its statements on lines of their own, without semicolons between them.  It is the
scanner that makes this so: behind a token that a statement may end with it takes a gap with a line
feed for a `;`.  The scanner knows the last token and not the grammar, so whether its list of such
tokens is the right one has to be proved: `line_break_separates_statements` says that it is, with
one exception.  A statement may end with a bool, and the scanner does not expect it to; a line
behind a bool goes on with the next.

## A text in a longer text

The two statements are given as texts of their own, and are then scanned inside a body.  A scanner
in the longer text does the same steps as one in the shorter, as long as what is put behind begins
with a blank.  Three things could go wrong there.  A lexeme could be read further, and is not,
because no lexeme that ends at a blank is shorter than it would be without it
(`Lexeme.read?_append`).  A gap could reach further, which it does only where it reaches the end of
the shorter text (`gap_append`).  And a gap with a line feed could become a `;` in one text and not
in the other: this is the second field of `Scanner.Ahead`.  The gap at the end of a text is
different in the longer one, and `Scanner.Passes` therefore leaves it out.

## What comes out

If there is a `;` between them, the tokens of two statements in braces derive the two statements
(`derives_pair`), so that this is what is read.  If there is none, the tokens in the braces have no
semicolon but in further braces, and if anything is read it is one statement
(`Parser.result_body_of_depthAfter`).
-/

namespace Scriptlet

open Scriptlet.Text Grammar

/-! ## A text before a gap -/

section Gaps

variable {text left rest : List Char} {l : Lexeme}

theorem atGap_cons {c : Char} (h : isBlank c = true) (rest : List Char) :
    Lexeme.AtGap (c :: rest) := by
  rw [Lexeme.AtGap, Lexeme.startsWith, h]
  rfl

/-- The gap before something that is not yet the end goes no further when a text is longer. -/
theorem gap_append {inComment : Bool} (hrest : Lexeme.AtGap rest)
    (h : afterGap inComment text ≠ []) :
    gap inComment (text ++ rest) = gap inComment text ∧
      afterGap inComment (text ++ rest) = afterGap inComment text ++ rest := by
  fun_induction gap inComment text with
  | case1 => exact absurd rfl h
  | case2 c text ih =>
    rw [afterGap] at h
    obtain ⟨hgap, hafter⟩ := ih h
    rw [List.cons_append, gap, afterGap, afterGap, hgap, hafter]
    exact ⟨rfl, rfl⟩
  | case3 text ih =>
    rw [afterGap] at h
    obtain ⟨hgap, hafter⟩ := ih h
    rw [List.cons_append, List.cons_append, gap, afterGap, afterGap, hgap, hafter]
    exact ⟨rfl, rfl⟩
  | case4 c text hslash blank ih =>
    obtain ⟨hcons, hskip⟩ := gap_of_isBlank blank text
    obtain ⟨hcons', hskip'⟩ := gap_of_isBlank blank (text ++ rest)
    rw [hskip] at h
    obtain ⟨hgap, hafter⟩ := ih h
    rw [List.cons_append, hcons', hskip', hskip, hgap, hafter]
    exact ⟨rfl, rfl⟩
  | case5 c text hslash solid =>
    have hblank : isBlank c = false := by simpa using solid
    have hself : afterGap false (c :: text) = c :: text := by
      rw [afterGap.eq_4 c text hslash, if_neg solid]
    have hcomment : c = '/' → Lexeme.startsWith (· == '/') (text ++ rest) = false := by
      rintro rfl
      cases text with
      | nil =>
        refine hrest.startsWith_eq_false fun d hd => ?_
        rw [beq_eq_false_iff_ne]
        rintro rfl
        cases hd
      | cons d text =>
        rw [List.cons_append, Lexeme.startsWith, beq_eq_false_iff_ne]
        rintro rfl
        exact hslash text rfl rfl
    rw [hself]
    exact Lexeme.gap_cons_eq_nil hblank hcomment

namespace Lexeme

/-- A name is not read where its word goes on. -/
theorem startsWith_isWord_of_read? {name : List Char} (h : read? text = some (.name name, left)) :
    startsWith isWord left = false := by
  obtain ⟨hwell, rfl⟩ := read?_sound h
  cases left with
  | nil => rfl
  | cons c left =>
    rw [startsWith, Bool.eq_false_iff]
    intro hc
    obtain ⟨first, others, rfl, hfirst, hothers⟩ := hwell.shape
    have hlonger := (longest_of_read? h).longest (.name (first :: others ++ [c]))
      ⟨first, others ++ [c], rfl, hfirst, by simpa [or_imp, forall_and] using ⟨hothers, hc⟩⟩
      ⟨left, by simp [spelling]⟩
    exact absurd hlonger (by simp [spelling])

/-- An integer is not read where its digits go on. -/
theorem startsWith_isDigit_of_read? {negative : Bool} {digits : List Char}
    (h : read? text = some (.int negative digits, left)) :
    startsWith Char.isDigit left = false := by
  obtain ⟨⟨hne, hdigits⟩, rfl⟩ := read?_sound h
  cases left with
  | nil => rfl
  | cons d left =>
    rw [startsWith, Bool.eq_false_iff]
    intro hd
    have hlonger := (longest_of_read? h).longest (.int negative (digits ++ [d]))
      ⟨by simp, by simpa [or_imp, forall_and] using ⟨hdigits, hd⟩⟩
      ⟨left, by cases negative <;> simp [spelling]⟩
    exact absurd hlonger (by cases negative <;> simp [spelling])

/-- A fixed lexeme is read as one. -/
theorem readFixed?_of_read? (hl : l ∈ fixed) (h : read? text = some (l, left)) :
    readFixed? text = some (l, left) := by
  rw [read?, Option.or_eq_some_iff, Option.or_eq_some_iff, Option.or_eq_some_iff] at h
  obtain hfixed | ⟨-, hname | ⟨-, hstring | ⟨-, hint⟩⟩⟩ := h
  · exact hfixed
  · cases text with
    | nil => simp [readName?] at hname
    | cons c text =>
      obtain ⟨-, rfl, -⟩ : _ ∧ Lexeme.name (c :: text.takeWhile isWord) = l ∧ _ := by
        simpa [readName?] using hname
      simp [fixed] at hl
  · rw [readString?.eq_def] at hstring
    split at hstring
    · split at hstring
      · cases hstring
      · cases hstring
        simp [fixed] at hl
    · cases hstring
  · rw [readInt?.eq_def] at hint
    split at hint
    · obtain ⟨digits, rfl, -⟩ := wellFormed_of_readDigits? hint
      simp [fixed] at hl
    · obtain ⟨digits, rfl, -⟩ := wellFormed_of_readDigits? hint
      simp [fixed] at hl

/-- What is read off a text is read off a longer one, if that goes on with a gap. -/
theorem read?_append (hrest : AtGap rest) (h : read? text = some (l, left)) :
    read? (text ++ rest) = some (l, left ++ rest) := by
  have hbehind : ∀ {p : Char → Bool}, (∀ c, isBlank c = true → p c = false) →
      startsWith p left = false → startsWith p (left ++ rest) = false := by
    intro p hp hleft
    cases left with
    | nil => exact hrest.startsWith_eq_false hp
    | cons c left => exact hleft
  have hfixed : l ∈ fixed → read? (text ++ rest) = some (l, left ++ rest) := by
    intro hl
    rw [read?, readFixed?_append hrest, readFixed?_of_read? hl h]
    rfl
  obtain ⟨hwell, happend⟩ := read?_sound h
  cases l with
  | mark m => exact hfixed (mark_mem_fixed m)
  | bool b => exact hfixed (bool_mem_fixed b)
  | name name =>
    rw [← happend, List.append_assoc]
    exact read?_name hwell
      (hbehind (fun c => isWord_eq_false_of_isBlank) (startsWith_isWord_of_read? h))
  | string inner =>
    rw [← happend, List.append_assoc]
    exact read?_string hwell _
  | int negative digits =>
    rw [← happend, List.append_assoc]
    exact read?_int hwell
      (hbehind (fun c => isDigit_eq_false_of_isBlank) (startsWith_isDigit_of_read? h))

end Lexeme

end Gaps

/-! ## A scanner in a longer text -/

namespace Scanner

variable {s s' mid left after : Scanner} {span : Span} {spans : List Span} {ts more : List Token}
  {text rest : List Char}

/-- The scanner `s'` is before what `s` is before, with more text behind it. -/
structure Ahead (rest : List Char) (s s' : Scanner) : Prop where
  front : afterGap false s'.rest = afterGap false s.rest ++ rest
  /-- The gap counts for both or for none. -/
  line : (s'.lineEnds && (gap false s'.rest).contains '\n') =
    (s.lineEnds && (gap false s.rest).contains '\n')

/-- A scanner that stands in a longer text. -/
theorem ahead_of_rest_eq (hrest : Lexeme.AtGap rest) (hfilled : afterGap false s.rest ≠ [])
    (h : s'.rest = s.rest ++ rest) (hline : s'.lineEnds = s.lineEnds) : Ahead rest s s' := by
  obtain ⟨hgap, hafter⟩ := gap_append hrest hfilled
  exact ⟨by rw [h, hafter], by rw [h, hgap, hline]⟩

/-- A scanner before a gap and a text, where no line ends, is ahead of one before the text. -/
theorem ahead_of_closedGap {g : List Char} (hg : ClosedGap g) (hrest : Lexeme.AtGap rest)
    (hfilled : afterGap false s.rest ≠ []) (h : s'.rest = g ++ (s.rest ++ rest))
    (hline : s.lineEnds = false) (hline' : s'.lineEnds = false) : Ahead rest s s' := by
  refine ⟨?_, by rw [hline, hline', Bool.false_and, Bool.false_and]⟩
  rw [h, (hg.gap_append _).2, (gap_append hrest hfilled).2]

/-- What a token leaves behind. -/
theorem after_of_token (h : s.next = (.token span, after)) :
    after.bytePos = span.stop ∧ after.lineEnds = span.token.endsStatement := by
  have hstep := step_next s
  rw [h] at hstep
  cases hstep <;> exact ⟨rfl, rfl⟩

/-- Where a token starts that is not a gap. -/
theorem start_of_token (h : s.next = (.token span, after)) (hline : s.lineEnds = false) :
    span.start = s.bytePos + utf8Length (gap false s.rest) := by
  have hstep := step_next s
  rw [h] at hstep
  cases hstep with
  | lineEnd hends =>
    rw [hline] at hends
    cases hends
  | token => rfl

/-- A step in a longer text. -/
theorem Ahead.next (h : Ahead rest s s') (hrest : Lexeme.AtGap rest)
    (hnext : s.next = (.token span, after)) :
    ∃ span' after', s'.next = (.token span', after') ∧ span'.token = span.token ∧
      after'.rest = after.rest ++ rest ∧ after'.lineEnds = after.lineEnds := by
  cases hflag : s.lineEnds && (gap false s.rest).contains '\n' with
  | true =>
    have hflag' := h.line.trans hflag
    rw [Bool.and_eq_true, List.contains_iff_mem] at hflag hflag'
    rw [next_of_lineEnds rfl rfl hflag.1 hflag.2, Prod.mk.injEq, Scanned.token.injEq] at hnext
    obtain ⟨rfl, rfl⟩ := hnext
    exact ⟨_, _, next_of_lineEnds rfl rfl hflag'.1 hflag'.2, rfl, h.front, rfl⟩
  | false =>
    have hends := (after_of_token hnext).2
    rw [next_of_not_lineEnds hflag] at hnext
    obtain ⟨lexeme, hread, htoken⟩ := nextLexeme_token hnext
    have hread' : Lexeme.read? (afterGap false s'.rest) = some (lexeme, after.rest ++ rest) := by
      rw [h.front]
      exact Lexeme.read?_append hrest hread
    obtain ⟨span', after', hnext', htoken', hafter, hends'⟩ :=
      next_of_read_of_not_lineEnds (h.line.trans hflag) hread' htoken
    exact ⟨span', after', hnext', htoken', hafter, hends'.trans hends.symm⟩

/-- A scanner hands out tokens, none of them made of the gap at the end of the text. -/
inductive Passes : Scanner → List Token → Scanner → Prop
  | stop {s : Scanner} : Passes s [] s
  | token {s mid left : Scanner} {span : Span} {ts : List Token} :
    s.next = (.token span, mid) → afterGap false s.rest ≠ [] → Passes mid ts left →
    Passes s (span.token :: ts) left

/-- What is handed out in a longer text: the same tokens, and then those behind them. -/
theorem Passes.yields (h : Passes s ts left) (hfilled : ts ≠ []) (hrest : Lexeme.AtGap rest)
    (hahead : Ahead rest s s')
    (hmore : ∀ left' : Scanner, left'.rest = left.rest ++ rest → left'.lineEnds = left.lineEnds →
      (Feed.scanner left').Yields more none) :
    (Feed.scanner s').Yields (ts ++ more) none := by
  induction h generalizing s' with
  | stop => exact absurd rfl hfilled
  | token hnext _ hpasses ih =>
    obtain ⟨span', after', hnext', htoken, hafter, hline⟩ := hahead.next hrest hnext
    rw [← htoken]
    refine .token (Feed.next_scanner hnext') ?_
    cases hpasses with
    | stop => exact hmore after' hafter hline
    | token hnext hgap hpasses =>
      exact ih (List.cons_ne_nil _ _) (ahead_of_rest_eq hrest hgap hafter hline) hmore

theorem afterGap_ne_nil_of_token (h : s.next = (.token span, after))
    (hother : span.token ≠ .mark .semicolon ∨ after.rest ≠ []) : afterGap false s.rest ≠ [] := by
  obtain ⟨hsemicolon, -, hafter⟩ | ⟨lexeme, hread, -⟩ := token_cases h
  · exact hafter ▸ hother.resolve_left (not_not_intro hsemicolon)
  · intro hnil
    rw [hnil] at hread
    cases hread

/-- A scanner that hands out spans, the last of them not a semicolon, passes all their tokens. -/
theorem exists_passes (hs : StandsIn text s) (h : (Feed.scanner s).Hands spans none)
    (hlast : ∀ span ∈ spans.getLast?, span.token ≠ .mark .semicolon) :
    ∃ left, Passes s (spans.map Span.token) left ∧ StandsIn text left ∧
      left.bytePos = Span.lastStop s.bytePos spans ∧
      ∀ span ∈ spans.getLast?, left.lineEnds = span.token.endsStatement := by
  induction spans generalizing s with
  | nil => exact ⟨s, .stop, hs, rfl, nofun⟩
  | cons span spans ih =>
    cases h with
    | token hnext hleft =>
      rw [Feed.next, Prod.mk.injEq] at hnext
      obtain ⟨hscanned, rfl⟩ := hnext
      have hnext : s.next = (.token span, s.next.2) := Prod.ext hscanned rfl
      obtain ⟨hstop, hends⟩ := after_of_token hnext
      rw [Span.lastStop_cons, ← hstop]
      cases spans with
      | nil =>
        have hother := hlast span (by simp)
        refine ⟨s.next.2, .token hnext (afterGap_ne_nil_of_token hnext (Or.inl hother)) .stop,
          hs.next, rfl, fun span' hspan' => ?_⟩
        obtain rfl : span = span' := by simpa using hspan'
        exact hends
      | cons span' spans =>
        rw [List.getLast?_cons_cons] at hlast ⊢
        obtain ⟨left, hpasses, hleft'⟩ := ih hs.next hleft hlast
        refine ⟨left, .token hnext (afterGap_ne_nil_of_token hnext (Or.inr ?_)) hpasses, hleft'⟩
        cases hleft with
        | token hnext' _ =>
          exact List.ne_nil_of_length_pos (Nat.zero_lt_of_lt (Feed.size_lt_of_token hnext'))

end Scanner

/-! ## The text of a statement -/

/-- The text is scanned to a statement, from its first character to its last. -/
structure StatementText (text : String) (spans : List Span) (tree : Expr) : Prop where
  scanned : (Scanner.ofSource text).drain = .ok (spans.map .token)
  /-- It begins with a token. -/
  starts : spans.head?.map Span.start = some 0
  /-- It ends with a token. -/
  stops : spans.getLast?.map Span.stop = some text.utf8ByteSize
  derives : Derives .statement (spans.map Span.token) tree

namespace StatementText

variable {text : String} {spans : List Span} {tree : Expr} {last : Span} {rest : List Char}
  {s : Scanner} {more : List Token}

theorem tokens_ne_nil (h : StatementText text spans tree) : spans.map Span.token ≠ [] := by
  obtain ⟨d⟩ := h.derives
  exact d.ne_nil rfl

theorem mayEnd_last (h : StatementText text spans tree) (hlast : last ∈ spans.getLast?) :
    last.token.mayEnd = true := by
  obtain ⟨d⟩ := h.derives
  refine d.endsWell rfl last.token ?_
  rw [List.getLast?_map]
  exact Option.mem_map_of_mem Span.token hlast

theorem hands (h : StatementText text spans tree) :
    (Feed.scanner (.ofSource text)).Hands spans none := by
  obtain ⟨spans', ending, hitems, hhands⟩ := Scanner.hands_of_drain h.scanned
  have hofSpans : Item.ofSpans spans none = spans.map .token := List.append_nil _
  obtain ⟨rfl, rfl⟩ := Item.ofSpans_inj (hofSpans.trans hitems)
  exact hhands

/-- A scanner goes through the whole text of a statement. -/
theorem exists_passes (h : StatementText text spans tree) (hlast : last ∈ spans.getLast?) :
    ∃ left, Scanner.Passes (.ofSource text) (spans.map Span.token) left ∧ left.rest = [] ∧
      left.lineEnds = last.token.endsStatement := by
  have hother : ∀ span ∈ spans.getLast?, span.token ≠ .mark .semicolon := by
    intro span hspan heq
    have hend := h.mayEnd_last hspan
    rw [heq] at hend
    cases hend
  obtain ⟨left, hpasses, ⟨before, htext, -, hbytes⟩, hstop, hends⟩ :=
    Scanner.exists_passes (Scanner.standsIn_ofSource text) h.hands hother
  refine ⟨left, hpasses, ?_, hends last hlast⟩
  have hsize : utf8Length before = utf8Length text.toList := by
    rw [← hbytes, hstop, Span.lastStop, h.stops, Option.getD_some, utf8Length_eq_utf8ByteSize,
      String.ofList_toList]
  rw [htext, utf8Length_append] at hsize
  by_contra hfilled
  have hpos := utf8Length_pos hfilled
  omega

theorem exists_next (h : StatementText text spans tree) : ∃ span after,
    (Scanner.ofSource text).next = (.token span, after) ∧ span.start = 0 := by
  have hstarts := h.starts
  cases h.hands with
  | finished => cases hstarts
  | @token _ _ span _ _ hnext _ =>
    rw [Feed.next, Prod.mk.injEq] at hnext
    exact ⟨span, _, Prod.ext hnext.1 rfl, Option.some_inj.mp hstarts⟩

/-- No gap stands before the text of a statement. -/
theorem afterGap_eq (h : StatementText text spans tree) :
    afterGap false text.toList = text.toList := by
  obtain ⟨span, after, hnext, hstart⟩ := h.exists_next
  have hgap : gap false text.toList = [] := by
    rw [Scanner.start_of_token hnext rfl] at hstart
    by_contra hfilled
    have hpos := utf8Length_pos hfilled
    exact absurd (Nat.add_eq_zero_iff.mp hstart).2 (Nat.ne_of_gt hpos)
  have happend := gap_append_afterGap false text.toList
  rwa [hgap, List.nil_append] at happend

theorem afterGap_ne_nil (h : StatementText text spans tree) :
    afterGap false text.toList ≠ [] := by
  obtain ⟨span, after, hnext, -⟩ := h.exists_next
  rw [h.afterGap_eq]
  exact List.ne_nil_of_length_pos (Nat.zero_lt_of_lt (Scanner.length_lt_of_token hnext))

end StatementText

/-! ## Two statements in braces -/

/-- Two texts in braces with something between them. -/
def bodyText (a between b : String) : String :=
  "\x7b " ++ a ++ between ++ b ++ " \x7d"

/-- A gap in which a line ends, and which no lexeme before it can run into. -/
structure LineBreak (text : String) : Prop where
  closed : ClosedGap text.toList
  atGap : Lexeme.AtGap text.toList
  feed : '\n' ∈ text.toList

/-- A line feed alone is one. -/
theorem lineBreak_lineFeed : LineBreak "\n" :=
  ⟨.blank rfl .nil, rfl, by decide⟩

theorem LineBreak.atGap_append {text : String} (h : LineBreak text) (rest : List Char) :
    Lexeme.AtGap (text.toList ++ rest) := by
  have hgap := h.atGap
  obtain ⟨c, more, htext⟩ := List.exists_cons_of_ne_nil (List.ne_nil_of_mem h.feed)
  rw [htext] at hgap ⊢
  exact hgap

theorem closedGap_space : ClosedGap [' '] := .blank rfl .nil

theorem toList_bodyText (a between b : String) : (bodyText a between b).toList =
    '\x7b' :: ' ' :: (a.toList ++ (between.toList ++ (b.toList ++ [' ', '\x7d']))) := by
  simp [bodyText]

/-- A mark before a blank or the end of the text, and behind a gap within a line. -/
theorem Scanner.next_of_mark {s : Scanner} (m : Mark) {g rest : List Char} (hg : ClosedGap g)
    (hline : '\n' ∉ g) (hrest : Lexeme.AtGap rest)
    (h : s.rest = g ++ ((Lexeme.mark m).spelling ++ rest)) :
    ∃ span after, s.next = (.token span, after) ∧ span.token = .mark m ∧ after.rest = rest ∧
      after.lineEnds = (Token.mark m).endsStatement := by
  have hwell := Lexeme.wellFormed_of_mem_fixed (Lexeme.mark_mem_fixed m)
  obtain ⟨hnone, hself⟩ := Lexeme.gap_spelling hwell hrest
  obtain ⟨hgap, hskip⟩ := hg.gap_append ((Lexeme.mark m).spelling ++ rest)
  rw [hnone, List.append_nil, ← h] at hgap
  rw [hself, ← h] at hskip
  exact ⟨_, _, next_of_spelling hgap hskip (fun hends => hline hends.2) hwell hrest rfl,
    rfl, rfl, rfl⟩

theorem yields_closeBrace {s : Scanner} (h : s.rest = [' ', '\x7d']) :
    (Feed.scanner s).Yields [.mark .closeBrace] none := by
  have hend : Lexeme.AtGap [] := rfl
  obtain ⟨span, after, hnext, htoken, hrest, -⟩ :=
    Scanner.next_of_mark .closeBrace closedGap_space (by decide) hend h
  rw [← htoken]
  exact .token (Feed.next_scanner hnext)
    (.finished (Feed.next_scanner (Scanner.next_of_rest_nil hrest)))

namespace StatementText

variable {a between b : String} {as bs : List Span} {A B : Expr} {last : Span} {s : Scanner}
  {more : List Token}

/-- A statement at the end of a body. -/
theorem yields_last (hb : StatementText b bs B)
    (hahead : Scanner.Ahead [' ', '\x7d'] (.ofSource b) s) :
    (Feed.scanner s).Yields (bs.map Span.token ++ [.mark .closeBrace]) none := by
  obtain ⟨last, hlast, -⟩ := Option.map_eq_some_iff.mp hb.stops
  obtain ⟨left, hpasses, hrest, -⟩ := hb.exists_passes hlast
  have hblank : Lexeme.AtGap [' ', '\x7d'] := atGap_cons rfl _
  refine hpasses.yields hb.tokens_ne_nil hblank hahead fun left' hleft' _ => yields_closeBrace ?_
  rw [hleft', hrest, List.nil_append]

/-- A statement at the beginning of a body. -/
theorem holds_first (ha : StatementText a as A) (hlast : last ∈ as.getLast?)
    (hbetween : Lexeme.AtGap (between.toList ++ (b.toList ++ [' ', '\x7d'])))
    (hmore : ∀ s : Scanner, s.rest = between.toList ++ (b.toList ++ [' ', '\x7d']) →
      s.lineEnds = last.token.endsStatement → (Feed.scanner s).Yields more none) :
    (Cursor.ofSource (bodyText a between b)).Holds
      (.mark .openBrace :: (as.map Span.token ++ more)) none := by
  obtain ⟨left, hpasses, hrest, hends⟩ := ha.exists_passes hlast
  have hsource : (Scanner.ofSource (bodyText a between b)).rest = [] ++
      ((Lexeme.mark .openBrace).spelling ++
        ' ' :: (a.toList ++ (between.toList ++ (b.toList ++ [' ', '\x7d'])))) :=
    toList_bodyText a between b
  obtain ⟨span, after, hnext, htoken, hafter, hline⟩ :=
    Scanner.next_of_mark .openBrace .nil List.not_mem_nil (atGap_cons (by decide) _) hsource
  rw [← htoken]
  refine ⟨_, .token (Feed.next_scanner hnext) ?_, rfl⟩
  refine hpasses.yields ha.tokens_ne_nil hbetween ?_ fun left' hleft' hline' => ?_
  · exact Scanner.ahead_of_closedGap closedGap_space hbetween ha.afterGap_ne_nil hafter rfl hline
  · rw [hrest, List.nil_append] at hleft'
    exact hmore left' hleft' (hline'.trans hends)

/-- With a semicolon between them, two statements are separated. -/
theorem holds_semicolon (ha : StatementText a as A) (hb : StatementText b bs B) :
    (Cursor.ofSource (bodyText a " ; " b)).Holds (.mark .openBrace :: (as.map Span.token ++
      .mark .semicolon :: (bs.map Span.token ++ [.mark .closeBrace]))) none := by
  obtain ⟨last, hlast, -⟩ := Option.map_eq_some_iff.mp ha.stops
  refine ha.holds_first hlast (atGap_cons (by decide) _) fun s hs _ => ?_
  obtain ⟨span, after, hnext, htoken, hafter, hline⟩ :=
    Scanner.next_of_mark .semicolon closedGap_space (by decide) (atGap_cons (by decide) _)
      (hs : s.rest = [' '] ++ ([';'] ++ ' ' :: (b.toList ++ [' ', '\x7d'])))
  rw [← htoken]
  refine .token (Feed.next_scanner hnext) (hb.yields_last ?_)
  exact Scanner.ahead_of_closedGap closedGap_space (atGap_cons rfl _) hb.afterGap_ne_nil hafter rfl
    hline

/-- With a line break between them they are separated too, if a line can end behind the first. -/
theorem holds_lineBreak (ha : StatementText a as A) (hb : StatementText b bs B)
    (hbetween : LineBreak between) (hlast : last ∈ as.getLast?)
    (hends : last.token.endsStatement = true) :
    (Cursor.ofSource (bodyText a between b)).Holds (.mark .openBrace :: (as.map Span.token ++
      .mark .semicolon :: (bs.map Span.token ++ [.mark .closeBrace]))) none := by
  refine ha.holds_first hlast (hbetween.atGap_append _) fun s hs hline => ?_
  have hblank : Lexeme.AtGap [' ', '\x7d'] := atGap_cons rfl _
  obtain ⟨hgap, hskip⟩ := hbetween.closed.gap_append (b.toList ++ [' ', '\x7d'])
  have hfront : afterGap false s.rest = b.toList ++ [' ', '\x7d'] := by
    rw [hs, hskip, (gap_append hblank hb.afterGap_ne_nil).2, hb.afterGap_eq]
  have hfeed : '\n' ∈ gap false s.rest := by
    rw [hs, hgap]
    exact List.mem_append_left _ hbetween.feed
  have hnext := Scanner.next_of_lineEnds rfl hfront (hline.trans hends) hfeed
  exact .token (Feed.next_scanner hnext)
    (hb.yields_last (Scanner.ahead_of_rest_eq hblank hb.afterGap_ne_nil rfl rfl))

/-- If none can, nothing comes between them. -/
theorem holds_joined (ha : StatementText a as A) (hb : StatementText b bs B)
    (hbetween : LineBreak between) (hlast : last ∈ as.getLast?)
    (hends : last.token.endsStatement = false) :
    (Cursor.ofSource (bodyText a between b)).Holds (.mark .openBrace ::
      ((as.map Span.token ++ bs.map Span.token) ++ [.mark .closeBrace])) none := by
  rw [List.append_assoc]
  refine ha.holds_first hlast (hbetween.atGap_append _) fun s hs hline => hb.yields_last ?_
  exact Scanner.ahead_of_closedGap hbetween.closed (atGap_cons rfl _) hb.afterGap_ne_nil hs rfl
    (hline.trans hends)

end StatementText

/-! ## What the bodies are read as -/

namespace Parser

variable {c : Cursor} {ts : List Token} {es : List Expr} {budget : Nat}

/-- A body is read unless it is found to be nested too deeply, which a large enough budget rules
out. -/
theorem result_body (h : c.Holds ts none) (hderives : Derives .body ts es) (budget : Nat) :
    ((∀ position, (body budget).result c ≠ .error (.nestedTooDeeply position)) →
      (body budget).result c = .ok es) ∧
    (10 * ts.length ≤ budget → (body budget).result c = .ok es) := by
  obtain ⟨d⟩ := hderives
  have hruns : ∀ deep, Enough deep (10 * ts.length) budget → (body budget).result c = .ok es ∨
      deep ∧ ∃ position, (body budget).result c = .error (.nestedTooDeeply position) := by
    intro deep hbudget
    have hgives := completes deep d budget hbudget []
    rw [List.append_nil] at hgives
    obtain ⟨c', hp, -⟩ | ⟨hdeep, position, c', hp⟩ := hgives h
    · exact Or.inl (result_eq_ok_iff.mpr ⟨c', hp⟩)
    · exact Or.inr ⟨hdeep, position, by rw [result, hp]⟩
  refine ⟨fun hdeep => ?_, fun hbudget => ?_⟩
  · refine (hruns True (Or.inr trivial)).resolve_right ?_
    rintro ⟨-, position, hfail⟩
    exact hdeep position hfail
  · exact (hruns False (Or.inl hbudget)).resolve_right And.left

/-- Without a semicolon in it, a body is one statement if it is read at all. -/
theorem result_body_of_depthAfter (hts : depthAfter 0 ts = some 0) (hfilled : ts ≠ [])
    (h : c.Holds (.mark .openBrace :: (ts ++ [.mark .closeBrace])) none) :
    (∃ e, (body budget).result c = .ok [e]) ∨
      (∃ cause position, (body budget).result c = .error (.grammar cause position)) ∨
      ∃ position, (body budget).result c = .error (.nestedTooDeeply position) := by
  cases hrun : body budget c with
  | ok es c' =>
    obtain ⟨rest, ⟨us, hsplit, ⟨d⟩⟩, -⟩ := (readsPhrases budget).body h hrun
    obtain ⟨e, rfl⟩ := d.exists_singleton hts hfilled hsplit.symm
    exact Or.inl ⟨e, result_eq_ok_iff.mpr ⟨c', hrun⟩⟩
  | error e c' =>
    have hresult : (body budget).result c = .error e := by rw [result, hrun]
    obtain ⟨places, stop, hfaces, -⟩ := h.exists_faces
    have hends := (ruleClosed_placed.rules budget).body hfaces
    rw [hrun] at hends
    cases hends with
    | wrong => exact Or.inr (Or.inl ⟨_, _, hresult⟩)
    | deep => exact Or.inr (Or.inr ⟨_, hresult⟩)
    | unreadable hending => cases hending

end Parser

/-- Two statements that a semicolon separates. -/
theorem derives_pair {ts us : List Token} {A B : Expr} (ha : Derives .statement ts A)
    (hb : Derives .statement us B) : Derives .body
      (.mark .openBrace :: (ts ++ .mark .semicolon :: (us ++ [.mark .closeBrace]))) [A, B] := by
  obtain ⟨da⟩ := ha
  obtain ⟨db⟩ := hb
  have dbody := Derivation.body 0 (.someStatements da (.nextStatement 0 db (.lastStatement 0)))
  simp only [semicolons, List.replicate_zero, List.append_nil, List.nil_append, List.append_assoc,
    Nat.zero_add] at dbody
  exact ⟨dbody⟩

namespace StatementText

variable {a between b : String} {as bs : List Span} {A B : Expr} {last : Span}

/-- What is read where the two statements are separated. -/
theorem result_pair (ha : StatementText a as A) (hb : StatementText b bs B) {c : Cursor}
    (h : c.Holds (.mark .openBrace :: (as.map Span.token ++
      .mark .semicolon :: (bs.map Span.token ++ [.mark .closeBrace]))) none) (budget : Nat) :
    ((∀ position, (Parser.body budget).result c ≠ .error (.nestedTooDeeply position)) →
      (Parser.body budget).result c = .ok [A, B]) ∧
    (10 * (as.length + bs.length + 3) ≤ budget →
      (Parser.body budget).result c = .ok [A, B]) := by
  obtain ⟨hread, henough⟩ := Parser.result_body h (derives_pair ha.derives hb.derives) budget
  refine ⟨hread, fun hbudget => henough ?_⟩
  simp only [List.length_cons, List.length_append, List.length_map, List.length_nil]
  omega

/-- What is read where they are not. -/
theorem result_joined (ha : StatementText a as A) (hb : StatementText b bs B)
    (hbetween : LineBreak between) (hlast : last ∈ as.getLast?) (hbool : last.token.kind = .bool)
    (budget : Nat) :
    let broken := (Parser.body budget).result (.ofSource (bodyText a between b))
    (∃ e, broken = .ok [e]) ∨ (∃ cause position, broken = .error (.grammar cause position)) ∨
      ∃ position, broken = .error (.nestedTooDeeply position) := by
  have hends := Token.endsStatement_of_kind_bool hbool
  refine Parser.result_body_of_depthAfter ?_ (List.append_ne_nil_of_left_ne_nil ha.tokens_ne_nil _)
    (ha.holds_joined hb hbetween hlast hends)
  obtain ⟨da⟩ := ha.derives
  obtain ⟨db⟩ := hb.derives
  rw [depthAfter_append_of_eq (da.depthAfter_eq 0 nofun)]
  exact db.depthAfter_eq 0 nofun

end StatementText

/-- **A line break separates statements where the scanner can see that one ends.**  Let two texts
begin and end with a token and each be one statement.  In braces with a semicolon between them they
are read as the two statements.  With a line break between them, such as a line feed, they are read
as the two statements if and only if the first does not end with a bool; if it does, they are read
as one statement or not at all.  In all this it is left aside that the nesting may be too deep,
which two statements that are separated never are for a budget that is large enough. -/
theorem line_break_separates_statements {a b between : String} {as bs : List Span} {A B : Expr}
    {last : Span} (ha : StatementText a as A) (hb : StatementText b bs B)
    (hbetween : LineBreak between) (hlast : last ∈ as.getLast?) (budget : Nat) :
    let separated := (Parser.body budget).result (.ofSource (bodyText a " ; " b))
    let broken := (Parser.body budget).result (.ofSource (bodyText a between b))
    ((∀ position, separated ≠ .error (.nestedTooDeeply position)) → separated = .ok [A, B]) ∧
    ((∀ position, broken ≠ .error (.nestedTooDeeply position)) →
      (broken = .ok [A, B] ↔ last.token.kind ≠ .bool)) ∧
    (last.token.kind = .bool → (∃ e, broken = .ok [e]) ∨
      (∃ cause position, broken = .error (.grammar cause position)) ∨
      ∃ position, broken = .error (.nestedTooDeeply position)) ∧
    (10 * (as.length + bs.length + 3) ≤ budget →
      separated = .ok [A, B] ∧ (last.token.kind ≠ .bool → broken = .ok [A, B])) := by
  intro separated broken
  obtain ⟨hseparated, hseparated'⟩ := ha.result_pair hb (ha.holds_semicolon hb) budget
  have hbroken (hbool : last.token.kind ≠ .bool) :=
    have hends := Token.endsStatement_of_mayEnd (ha.mayEnd_last hlast) hbool
    ha.result_pair hb (ha.holds_lineBreak hb hbetween hlast hends) budget
  have hjoined := fun hbool => ha.result_joined hb hbetween hlast hbool budget
  refine ⟨hseparated, fun hdeep => ⟨fun hread hbool => ?_, fun hbool => (hbroken hbool).1 hdeep⟩,
    hjoined, fun hbudget => ⟨hseparated' hbudget, fun hbool => (hbroken hbool).2 hbudget⟩⟩
  -- one statement is not two, and what is read is no error
  obtain ⟨e, he⟩ | ⟨cause, position, he⟩ | ⟨position, he⟩ := hjoined hbool
  · exact absurd (hread.symm.trans he) (by simp)
  · exact absurd (hread.symm.trans he) (by simp)
  · exact hdeep position he

/-- The tokens of a text that declares `x` to be what one token says. -/
def declaringSpans (value : Token) (stop : Nat) : List Span :=
  [⟨0, .name "x", 1⟩, ⟨2, .mark .define, 4⟩, ⟨5, value, stop⟩]

theorem statementText_name : StatementText "x := y" (declaringSpans (.name "y") 6)
    (.declare "x" (.name "y")) where
  scanned := by decide +kernel
  starts := rfl
  stops := by decide +kernel
  derives := (Derives.expr_of_primary ⟨.name "y"⟩).elim fun d => ⟨.declare "x" d⟩

theorem statementText_bool : StatementText "x := true" (declaringSpans (.bool true) 9)
    (.declare "x" (.lit (.bool true))) where
  scanned := by decide +kernel
  starts := rfl
  stops := by decide +kernel
  derives := (Derives.expr_of_primary ⟨.bool true⟩).elim fun d => ⟨.declare "x" d⟩

theorem statementText_int : StatementText "-1" [⟨0, .int (-1), 2⟩] (.lit (.int (-1))) where
  scanned := by decide +kernel
  starts := rfl
  stops := by decide +kernel
  derives := (Derives.expr_of_primary ⟨.int (-1)⟩).elim fun d => ⟨.expression d⟩

/-- Before the line `-1`, the line `x := y` ends and the line `x := true` goes on. -/
theorem declarations_before_negative_line :
    let named : Expr := .declare "x" (.name "y")
    let truth : Expr := .declare "x" (.lit (.bool true))
    let negative : Expr := .lit (.int (-1))
    (StatementText "x := y" (declaringSpans (.name "y") 6) named ∧
      StatementText "x := true" (declaringSpans (.bool true) 9) truth ∧
      StatementText "-1" [⟨0, .int (-1), 2⟩] negative ∧ LineBreak "\n") ∧
    (Parser.body 70).result (.ofSource (bodyText "x := y" "\n" "-1")) = .ok [named, negative] ∧
    (Parser.body 70).result (.ofSource (bodyText "x := true" "\n" "-1")) =
      .ok [.declare "x" (.binary .add (.lit (.bool true)) negative)] ∧
    (Parser.body 70).result (.ofSource (bodyText "x := true" "\n" "-1")) ≠
      .ok [truth, negative] := by
  intro named truth negative
  have hjoined : (Parser.body 70).result (.ofSource (bodyText "x := true" "\n" "-1")) =
      .ok [.declare "x" (.binary .add (.lit (.bool true)) negative)] := by decide +kernel
  obtain ⟨-, -, -, hname⟩ := line_break_separates_statements statementText_name statementText_int
    lineBreak_lineFeed rfl 70
  obtain ⟨-, hbool, -⟩ := line_break_separates_statements statementText_bool statementText_int
    lineBreak_lineFeed rfl 70
  refine ⟨⟨statementText_name, statementText_bool, statementText_int, lineBreak_lineFeed⟩,
    (hname (by decide)).2 (by decide), hjoined, fun hpair => ?_⟩
  exact (hbool (by simp [hjoined])).mp hpair rfl

end Scriptlet
