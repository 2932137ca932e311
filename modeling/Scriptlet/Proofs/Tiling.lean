import Scriptlet.Proofs.Layout

/-!
# The spans tile the source

A scanner counts characters and bytes as it goes, and whoever reports an error relies on the count:
a character that is lost or counted twice shifts every later place.  Here it is shown, for every
text, that the spans a scanner hands out lie side by side in it, each over a text that spells its
token, and that what lies between them is gaps.

## What the text is cut into

`Tiled` says how a text is cut up, without reference to the scanner: into gaps, the spellings of
tokens, and, if there is an error, an unscanned rest.  Every gap is the longest there is
(`LongestGap`), and behind a token that can end a statement a gap with a line feed is itself the
text of a `;`.  The spans are read off the pieces by adding up their lengths in UTF-8, so that they
are in order (`Tiled.ordered`), not empty and on the boundaries of characters (`Tiled.slice`).

## What the scanner does

`Scanner.Step` lists the five things that a scanner can do when it is asked once.  From this follow
the invariant of its place (`StandsIn`), which holds after any number of steps, and, by induction on
the text that is left, that being asked until the end it hands out the spans of a tiling
(`exists_sweeps`).  The only text in the way is an integer that is too long to be read, before which
the scanner stays.
-/

namespace Scriptlet

open Scriptlet.Text

/-! ## The longest gap -/

/-- A run of blanks and comments with the text behind it: no longer run begins at the same place. -/
structure LongestGap (g rest : List Char) : Prop where
  isGap : LastGap g
  longest : ∀ longer : List Char, longer <+: g ++ rest → LastGap longer → longer.length ≤ g.length

theorem LastGap.blank {c : Char} {g : List Char} (hc : isBlank c = true) (h : LastGap g) :
    LastGap (c :: g) := by
  cases h with
  | closed hg => exact .closed (.blank hc hg)
  | comment hg htext => exact .comment (.blank hc hg) htext

theorem LastGap.behindComment {text g : List Char} (htext : '\n' ∉ text) (h : LastGap g) :
    LastGap ('/' :: '/' :: text ++ '\n' :: g) := by
  cases h with
  | closed hg => exact .closed (.comment htext hg)
  | @comment g last hg hlast =>
    have hclosed : ClosedGap ('/' :: '/' :: text ++ '\n' :: g) := .comment htext hg
    simpa using LastGap.comment hclosed hlast

/-- What the skipping of a comment leaves: all of the text, or a line feed and a gap behind it. -/
def CommentRest (g : List Char) : Prop :=
  '\n' ∉ g ∨ ∃ text more, g = text ++ '\n' :: more ∧ '\n' ∉ text ∧ LastGap more

theorem CommentRest.lastGap {g : List Char} (h : CommentRest g) : LastGap ('/' :: '/' :: g) := by
  rcases h with hopen | ⟨text, more, rfl, htext, hmore⟩
  · exact .comment .nil hopen
  · exact hmore.behindComment htext

theorem CommentRest.cons {c : Char} {g : List Char} (hc : c ≠ '\n') (h : CommentRest g) :
    CommentRest (c :: g) := by
  rcases h with hopen | ⟨text, more, rfl, htext, hmore⟩
  · exact Or.inl (by simp [hopen, Ne.symm hc])
  · exact Or.inr ⟨c :: text, more, rfl, by simp [htext, Ne.symm hc], hmore⟩

/-- What is skipped is a gap, or inside a comment the rest of one. -/
theorem gap_shape (inComment : Bool) (text : List Char) :
    (inComment = true → CommentRest (gap inComment text)) ∧
    (inComment = false → LastGap (gap inComment text)) := by
  fun_induction gap inComment text with
  | case1 inComment => exact ⟨fun _ => Or.inl List.not_mem_nil, fun _ => .closed .nil⟩
  | case2 c text ih =>
    refine ⟨fun _ => ?_, Bool.noConfusion⟩
    by_cases hc : c = '\n'
    · subst hc
      exact Or.inr ⟨[], _, rfl, List.not_mem_nil, ih.2 rfl⟩
    · exact (ih.1 (bne_iff_ne.mpr hc)).cons hc
  | case3 text ih => exact ⟨Bool.noConfusion, fun _ => (ih.1 rfl).lastGap⟩
  | case4 c text _ hblank ih => exact ⟨Bool.noConfusion, fun _ => .blank hblank (ih.2 rfl)⟩
  | case5 c text _ hsolid => exact ⟨Bool.noConfusion, fun _ => .closed .nil⟩

/-- Text without a line feed is skipped inside a comment. -/
theorem gap_true_append {text : List Char} (h : '\n' ∉ text) (rest : List Char) :
    gap true (text ++ rest) = text ++ gap true rest := by
  induction text with
  | nil => rfl
  | cons c text ih =>
    rw [List.mem_cons, not_or] at h
    have hc : (c != '\n') = true := bne_iff_ne.mpr (Ne.symm h.1)
    rw [List.cons_append, gap, hc, ih h.2, List.cons_append]

/-- A gap at the front of a text is skipped. -/
theorem LastGap.length_le {g : List Char} (h : LastGap g) (rest : List Char) :
    g.length ≤ (gap false (g ++ rest)).length := by
  cases h with
  | closed hg =>
    rw [(hg.gap_append rest).1, List.length_append]
    exact Nat.le_add_right _ _
  | @comment g text hg htext =>
    rw [List.append_assoc, (hg.gap_append _).1, List.cons_append, List.cons_append, gap,
      gap_true_append htext]
    simp only [List.length_append, List.length_cons]
    omega

/-- What is skipped is the longest gap. -/
theorem longestGap_gap (text : List Char) : LongestGap (gap false text) (afterGap false text) := by
  refine ⟨(gap_shape false text).2 rfl, fun longer hfront hlonger => ?_⟩
  rw [gap_append_afterGap] at hfront
  obtain ⟨rest, rfl⟩ := hfront
  exact hlonger.length_le rest

/-! ## The text of a token -/

/-- The text spells the token: a mark or a bool as it is fixed, a name by itself, a string by a
quoted text that decodes to it, and an integer by decimal digits, perhaps with leading zeros. -/
def Token.SpelledBy (text : List Char) : Token → Prop
  | .mark m => text = m.text.toList
  | .bool b => text = if b then "true".toList else "false".toList
  | .name n => Lexeme.IsName text ∧ n = String.ofList text
  | .string value => ∃ inner, '"' ∉ inner ∧ text = '"' :: inner ++ ['"'] ∧
      value = String.ofList (Escape.decode inner)
  | .int n => ∃ negative digits, digits ≠ [] ∧ (∀ d ∈ digits, d.isDigit = true) ∧
      text = (if negative then '-' :: digits else digits) ∧ n = Decimal.signedValue negative digits

/-- A lexeme spells its token. -/
theorem Lexeme.spelledBy_token {lexeme : Lexeme} {token : Token} (hwell : lexeme.WellFormed)
    (htoken : lexeme.token = .ok token) : token.SpelledBy lexeme.spelling := by
  cases lexeme with
  | mark m =>
    cases htoken
    exact rfl
  | bool b =>
    cases htoken
    exact rfl
  | name text =>
    cases htoken
    exact ⟨hwell, rfl⟩
  | string inner =>
    cases htoken
    exact ⟨inner, hwell, rfl, rfl⟩
  | int negative digits =>
    simp only [Lexeme.token] at htoken
    split at htoken
    · cases htoken
    · split at htoken
      · cases htoken
        exact ⟨negative, digits, hwell.1, hwell.2, rfl, rfl⟩
      · cases htoken

/-! ## Bytes -/

theorem utf8Length_eq_utf8ByteSize (text : List Char) :
    utf8Length text = (String.ofList text).utf8ByteSize := by
  induction text with
  | nil => rfl
  | cons c text ih => simp [utf8Length, ih, String.ofList_cons]

theorem utf8Length_pos {text : List Char} (h : text ≠ []) : 0 < utf8Length text := by
  cases text with
  | nil => exact absurd rfl h
  | cons c text =>
    have hc := c.utf8Size_pos
    rw [utf8Length]
    omega

/-! ## Tilings -/

/-- How a text is cut up that begins at a byte offset: gaps between spellings, the gaps that are
themselves a `;`, and after an error the unscanned rest.  The flag tells whether the token before
the text can end a statement. -/
inductive Tiled : (ends : Bool) → (start : Nat) → List Char → List Span → Option LexError → Prop
  | finished {ends : Bool} {start : Nat} {g : List Char} :
    LongestGap g [] → Tiled ends start g [] none
  | error {ends : Bool} {start : Nat} {g rest : List Char} {cause : LexError.Cause} :
    LongestGap g rest → rest ≠ [] →
    Tiled ends start (g ++ rest) [] (some ⟨cause, start + utf8Length g⟩)
  | token {ends : Bool} {start : Nat} {g text rest : List Char} {token : Token} {spans : List Span}
      {ending : Option LexError} :
    LongestGap g (text ++ rest) → ¬(ends = true ∧ '\n' ∈ g) →
    text ≠ [] → token.SpelledBy text →
    Tiled token.endsStatement (start + utf8Length g + utf8Length text) rest spans ending →
    Tiled ends start (g ++ (text ++ rest))
      (⟨start + utf8Length g, token, start + utf8Length g + utf8Length text⟩ :: spans) ending
  | lineEnd {start : Nat} {g rest : List Char} {spans : List Span} {ending : Option LexError} :
    LongestGap g rest → '\n' ∈ g →
    Tiled false (start + utf8Length g) rest spans ending →
    Tiled true start (g ++ rest) (⟨start, .mark .semicolon, start + utf8Length g⟩ :: spans) ending

/-- What a scanner answers when it hands out an item. -/
def Item.scanned : Item → Scanned
  | .token span => .token span
  | .error e => .error e

/-- The items that some spans and perhaps an error behind them are. -/
def Item.ofSpans (spans : List Span) (ending : Option LexError) : List Item :=
  spans.map .token ++ ending.toList.map .error

namespace Tiled

variable {ends : Bool} {start : Nat} {text : List Char} {spans : List Span} {span : Span}
  {ending : Option LexError}

/-- The piece of a text that a span lies over: it spells the token, or it is a gap with a line feed
that stands for a `;`. -/
structure Slice (start : Nat) (text : List Char) (span : Span) (before piece after : List Char) :
    Prop where
  split : text = before ++ piece ++ after
  start_eq : span.start = start + utf8Length before
  stop_eq : span.stop = start + utf8Length before + utf8Length piece
  ne_nil : piece ≠ []
  spells : span.token.SpelledBy piece ∨
    span.token = .mark .semicolon ∧ '\n' ∈ piece ∧ LongestGap piece after

/-- A slice of the text behind `front` is a slice of the whole. -/
theorem Slice.behind {front before piece after : List Char}
    (h : Slice (start + utf8Length front) text span before piece after) :
    Slice start (front ++ text) span (front ++ before) piece after := by
  obtain ⟨rfl, hstart, hstop, hne, hspells⟩ := h
  refine ⟨by simp, ?_, ?_, hne, hspells⟩
  · rw [hstart, utf8Length_append]
    omega
  · rw [hstop, utf8Length_append]
    omega

/-- Every span of a tiling lies over a piece of the text. -/
theorem slice (h : Tiled ends start text spans ending) (hspan : span ∈ spans) :
    ∃ before piece after, Slice start text span before piece after := by
  induction h with
  | finished | error => exact absurd hspan List.not_mem_nil
  | @token _ start g piece rest _ _ _ _ _ hne hspells _ ih =>
    rcases List.mem_cons.mp hspan with rfl | hspan
    · exact ⟨g, piece, rest, by simp, rfl, rfl, hne, Or.inl hspells⟩
    · obtain ⟨before, inner, after, hslice⟩ := ih hspan
      rw [Nat.add_assoc, ← utf8Length_append] at hslice
      rw [← List.append_assoc]
      exact ⟨_, inner, after, hslice.behind⟩
  | @lineEnd start g rest _ _ hlongest hfeed _ ih =>
    rcases List.mem_cons.mp hspan with rfl | hspan
    · have hne : g ≠ [] := List.ne_nil_of_mem hfeed
      exact ⟨[], g, rest, rfl, rfl, rfl, hne, Or.inr ⟨rfl, hfeed, hlongest⟩⟩
    · obtain ⟨before, inner, after, hslice⟩ := ih hspan
      exact ⟨_, inner, after, hslice.behind⟩

theorem start_le (h : Tiled ends start text spans ending) (hspan : span ∈ spans) :
    start ≤ span.start := by
  obtain ⟨before, piece, after, hslice⟩ := h.slice hspan
  rw [hslice.start_eq]
  exact Nat.le_add_right _ _

/-- Every span begins where the ones before it have stopped, or later. -/
theorem ordered (h : Tiled ends start text spans ending) :
    spans.Pairwise fun earlier later => earlier.stop ≤ later.start := by
  induction h with
  | finished | error => exact .nil
  | token _ _ _ _ hrest ih => exact .cons (fun later hlater => hrest.start_le hlater) ih
  | lineEnd _ _ hrest ih => exact .cons (fun later hlater => hrest.start_le hlater) ih

/-- There are no more items than characters. -/
theorem length_le (h : Tiled ends start text spans ending) :
    (Item.ofSpans spans ending).length ≤ text.length := by
  induction h with
  | finished => exact Nat.zero_le _
  | error _ hne =>
    have hpos := List.length_pos_of_ne_nil hne
    simp only [Item.ofSpans, List.map_nil, List.nil_append, Option.toList_some, List.map_cons,
      List.length_singleton, List.length_append]
    omega
  | token _ _ hne _ _ ih =>
    have hpos := List.length_pos_of_ne_nil hne
    simp only [Item.ofSpans, List.map_cons, List.cons_append, List.length_cons,
      List.length_append] at ih ⊢
    omega
  | lineEnd _ hfeed _ ih =>
    have hpos := List.length_pos_of_mem hfeed
    simp only [Item.ofSpans, List.map_cons, List.cons_append, List.length_cons,
      List.length_append] at ih ⊢
    omega

end Tiled

/-! ## One step of the scanner -/

namespace Scanner

variable {s after : Scanner} {text rest : List Char} {spans : List Span}
  {ending : Option LexError}

/-- What a scanner can do when it is asked, with the gap before it and what is behind the gap. -/
inductive Step (s : Scanner) (g rest : List Char) : Scanned → Scanner → Prop
  | lineEnd : s.lineEnds = true → '\n' ∈ g →
    Step s g rest (.token ⟨s.bytePos, .mark .semicolon, s.bytePos + utf8Length g⟩)
      { s.past g rest with lineEnds := false }
  | finished : rest = [] → ¬(s.lineEnds = true ∧ '\n' ∈ g) →
    Step s g rest .finished (s.past g rest)
  | error {cause : LexError.Cause} : rest ≠ [] → ¬(s.lineEnds = true ∧ '\n' ∈ g) →
    Step s g rest (.error ⟨cause, s.bytePos + utf8Length g⟩) ((s.past g rest).past rest [])
  | overlong {negative : Bool} {digits left : List Char} :
    Lexeme.read? rest = some (.int negative digits, left) → Decimal.maxDigits < digits.length →
    Step s g rest (.overlong digits.length) (s.past g rest)
  | token {lexeme : Lexeme} {token : Token} {left : List Char} : lexeme.WellFormed →
    lexeme.token = .ok token → lexeme.spelling ++ left = rest →
    ¬(s.lineEnds = true ∧ '\n' ∈ g) →
    Step s g rest (.token ⟨s.bytePos + utf8Length g, token,
        s.bytePos + utf8Length g + utf8Length lexeme.spelling⟩)
      { (s.past g rest).past lexeme.spelling left with lineEnds := token.endsStatement }

theorem refused_of_overlong {lexeme : Lexeme} {count : Nat}
    (h : lexeme.token = .error (.overlong count)) :
    ∃ negative digits, lexeme = .int negative digits ∧ digits.length = count ∧
      Decimal.maxDigits < count := by
  cases lexeme with
  | int negative digits =>
    simp only [Lexeme.token] at h
    split at h
    · rename_i hlong
      cases h
      exact ⟨negative, digits, rfl, rfl, hlong⟩
    · split at h <;> cases h
  | _ => cases h

theorem step_next (s : Scanner) :
    Step s (gap false s.rest) (afterGap false s.rest) s.next.1 s.next.2 := by
  by_cases hline : s.lineEnds = true ∧ '\n' ∈ gap false s.rest
  · rw [next_of_lineEnds rfl rfl hline.1 hline.2]
    exact .lineEnd hline.1 hline.2
  · have hnot : (s.lineEnds && (gap false s.rest).contains '\n') = false := by
      rw [Bool.eq_false_iff, ne_eq, Bool.and_eq_true, List.contains_iff_mem]
      exact hline
    have hrest : (s.past (gap false s.rest) (afterGap false s.rest)).rest =
      afterGap false s.rest := rfl
    rw [next_of_not_lineEnds hnot, nextLexeme, hrest]
    cases hempty : (afterGap false s.rest).isEmpty with
    | true =>
      simp only [if_true]
      exact .finished (List.isEmpty_iff.mp hempty) hline
    | false =>
      have hne : afterGap false s.rest ≠ [] := List.isEmpty_eq_false_iff.mp hempty
      simp only [Bool.false_eq_true, if_false]
      cases hread : Lexeme.read? (afterGap false s.rest) with
      | none => exact .error hne hline
      | some found =>
        obtain ⟨lexeme, left⟩ := found
        obtain ⟨hwell, happend⟩ := Lexeme.read?_sound hread
        simp only
        cases htoken : lexeme.token with
        | ok token => exact .token hwell htoken happend hline
        | error refusal =>
          cases refusal with
          | outOfRange => exact .error hne hline
          | overlong count =>
            obtain ⟨negative, digits, rfl, rfl, hlong⟩ := refused_of_overlong htoken
            exact .overlong hread hlong

/-! ## Where the scanner stands -/

/-- The scanner stands somewhere in the text: it has the rest before it, and it has counted the
characters and the bytes behind it. -/
def StandsIn (text : List Char) (s : Scanner) : Prop :=
  ∃ before, text = before ++ s.rest ∧ s.pos = before.length ∧ s.bytePos = utf8Length before

theorem StandsIn.past {piece : List Char} (h : StandsIn text s) (hrest : s.rest = piece ++ rest) :
    StandsIn text (s.past piece rest) := by
  obtain ⟨before, htext, hpos, hbytes⟩ := h
  refine ⟨before ++ piece, ?_, ?_, ?_⟩
  · rw [htext, hrest, List.append_assoc]
    rfl
  · show s.pos + piece.length = _
    rw [hpos, List.length_append]
  · show s.bytePos + utf8Length piece = _
    rw [hbytes, utf8Length_append]

/-- A step leaves the scanner standing in the same text. -/
theorem StandsIn.next (h : StandsIn text s) : StandsIn text s.next.2 := by
  have hskipped : StandsIn text (s.past (gap false s.rest) (afterGap false s.rest)) :=
    h.past (gap_append_afterGap false s.rest).symm
  have hstep := step_next s
  generalize s.next.1 = scanned, s.next.2 = after at hstep
  cases hstep with
  | lineEnd => exact hskipped
  | finished => exact hskipped
  | error => exact hskipped.past (List.append_nil _).symm
  | overlong => exact hskipped
  | token _ _ happend => exact hskipped.past happend.symm

theorem StandsIn.bytePos_eq (h : StandsIn text s) :
    s.pos ≤ text.length ∧ s.bytePos = (String.ofList (text.take s.pos)).utf8ByteSize := by
  obtain ⟨before, rfl, hpos, hbytes⟩ := h
  rw [hpos, List.take_left, hbytes, utf8Length_eq_utf8ByteSize, List.length_append]
  exact ⟨Nat.le_add_right _ _, rfl⟩

/-- A scanner with nothing before it has counted the whole text. -/
theorem StandsIn.of_rest_nil (h : StandsIn text s) (hrest : s.rest = []) :
    s.pos = text.length ∧ s.bytePos = utf8Length text := by
  obtain ⟨before, rfl, hpos, hbytes⟩ := h
  rw [hrest, List.append_nil]
  exact ⟨hpos, hbytes⟩

/-! ## Step after step -/

/-- The scanner after it was asked so many times. -/
def asked : Scanner → Nat → Scanner
  | s, 0 => s
  | s, n + 1 => asked s.next.2 n

theorem StandsIn.asked (h : StandsIn text s) (n : Nat) : StandsIn text (s.asked n) := by
  induction n generalizing s with
  | zero => exact h
  | succ n ih => exact ih h.next

/-- No integer that the scanner comes upon is too long to be read. -/
def NoOverlong (s : Scanner) : Prop :=
  ∀ n negative digits left,
    Lexeme.read? (afterGap false (s.asked n).rest) = some (.int negative digits, left) →
    digits.length ≤ Decimal.maxDigits

theorem NoOverlong.next (h : NoOverlong s) : NoOverlong s.next.2 := fun n => h (n + 1)

/-- A short text holds no long integer. -/
theorem noOverlong_of_length_le (hs : StandsIn text s) (h : text.length ≤ Decimal.maxDigits) :
    NoOverlong s := by
  intro n negative digits left hread
  obtain ⟨before, htext, _⟩ := hs.asked n
  have happend := congrArg List.length (Lexeme.read?_sound hread).2
  have hdigits : digits.length ≤ (Lexeme.int negative digits).spelling.length := by
    cases negative <;> simp [Lexeme.spelling]
  have hlength := congrArg List.length htext
  have hgap := length_afterGap_add (s.asked n).rest
  rw [List.length_append] at happend hlength
  omega

theorem next_of_rest_nil (h : s.rest = []) : s.next = (.finished, s) := by
  cases s
  subst h
  simp [next, gap, afterGap, nextLexeme, past, utf8Length]

theorem asked_of_rest_nil (h : s.rest = []) (n : Nat) : s.asked n = s := by
  induction n with
  | zero => rfl
  | succ n ih => rw [asked, next_of_rest_nil h, ih]

/-- What comes of asking a scanner again and again: the items of a tiling of its text, one at each
step and each taking up some text, and after that nothing. -/
structure Sweeps (s : Scanner) (spans : List Span) (ending : Option LexError) : Prop where
  tiled : Tiled s.lineEnds s.bytePos s.rest spans ending
  drained : ∀ fuel, s.rest.length < fuel → s.drainUpTo fuel = .ok (Item.ofSpans spans ending)
  yields : ∀ n item, (Item.ofSpans spans ending)[n]? = some item →
    (s.asked n).next.1 = item.scanned ∧ (s.asked n).pos < (s.asked (n + 1)).pos
  ends : ∀ n, (Item.ofSpans spans ending).length ≤ n →
    (s.asked n).next.1 = .finished ∧ (s.asked (n + 1)).rest = []
  ends_of_error : ending ≠ none → (s.asked (Item.ofSpans spans ending).length).rest = []

/-- A token, and then what comes behind it. -/
theorem Sweeps.cons {span : Span} (hnext : s.next = (.token span, after))
    (hpos : s.pos < after.pos) (htiled : Tiled s.lineEnds s.bytePos s.rest (span :: spans) ending)
    (h : Sweeps after spans ending) : Sweeps s (span :: spans) ending := by
  have hasked : ∀ n, s.asked (n + 1) = after.asked n := fun n => by rw [asked, hnext]
  refine ⟨htiled, fun fuel hfuel => ?_, fun n item hitem => ?_, fun n hn => ?_, fun herror => ?_⟩
  · obtain ⟨fuel, rfl⟩ := Nat.exists_eq_succ_of_ne_zero (Nat.ne_zero_of_lt hfuel)
    have hshorter := length_lt_of_token hnext
    rw [drainUpTo, hnext]
    show (after.drainUpTo fuel).map (Item.token span :: ·) = _
    rw [h.drained fuel (by omega)]
    rfl
  · cases n with
    | zero =>
      obtain rfl : Item.token span = item := by simpa [Item.ofSpans] using hitem
      rw [hasked 0]
      exact ⟨congrArg Prod.fst hnext, hpos⟩
    | succ n =>
      rw [hasked n, hasked (n + 1)]
      exact h.yields n item (by simpa [Item.ofSpans] using hitem)
  · cases n with
    | zero => simp [Item.ofSpans] at hn
    | succ n =>
      rw [hasked n, hasked (n + 1)]
      exact h.ends n (by simpa [Item.ofSpans] using hn)
  · have hlength : (Item.ofSpans (span :: spans) ending).length =
        (Item.ofSpans spans ending).length + 1 := by simp [Item.ofSpans]
    rw [hlength, hasked]
    exact h.ends_of_error herror

/-- The end of the text, perhaps behind a gap. -/
theorem sweeps_of_finished (hnext : s.next = (.finished, after)) (hafter : after.rest = [])
    (htiled : Tiled s.lineEnds s.bytePos s.rest [] none) : Sweeps s [] none := by
  refine ⟨htiled, fun fuel hfuel => ?_, fun n item hitem => ?_, fun n _ => ?_, nofun⟩
  · obtain ⟨fuel, rfl⟩ := Nat.exists_eq_succ_of_ne_zero (Nat.ne_zero_of_lt hfuel)
    rw [drainUpTo, hnext]
    rfl
  · simp [Item.ofSpans] at hitem
  · cases n with
    | zero => rw [asked, asked, asked, hnext]; exact ⟨rfl, hafter⟩
    | succ n =>
      rw [asked, asked, hnext, asked_of_rest_nil hafter, asked_of_rest_nil hafter,
        next_of_rest_nil hafter]
      exact ⟨rfl, hafter⟩

/-- An error takes up the whole text. -/
theorem sweeps_of_error {e : LexError} (hnext : s.next = (.error e, after))
    (hafter : after.rest = []) (hpos : s.pos < after.pos)
    (htiled : Tiled s.lineEnds s.bytePos s.rest [] (some e)) : Sweeps s [] (some e) := by
  have hasked : ∀ n, s.asked (n + 1) = after := fun n => by
    rw [asked, hnext, asked_of_rest_nil hafter]
  refine ⟨htiled, fun fuel hfuel => ?_, fun n item hitem => ?_, fun n hn => ?_, fun _ => ?_⟩
  · obtain ⟨fuel, rfl⟩ := Nat.exists_eq_succ_of_ne_zero (Nat.ne_zero_of_lt hfuel)
    rw [drainUpTo, hnext]
    show (after.drainUpTo fuel).map (Item.error e :: ·) = _
    cases fuel with
    | zero => rfl
    | succ fuel => rw [drainUpTo, next_of_rest_nil hafter]; rfl
  · cases n with
    | zero =>
      obtain rfl : Item.error e = item := by simpa [Item.ofSpans] using hitem
      rw [hasked 0]
      exact ⟨congrArg Prod.fst hnext, hpos⟩
    | succ n => simp [Item.ofSpans] at hitem
  · cases n with
    | zero => simp [Item.ofSpans] at hn
    | succ n =>
      rw [hasked n, hasked (n + 1), next_of_rest_nil hafter]
      exact ⟨rfl, hafter⟩
  · exact (hasked 0).symm ▸ hafter

/-- A scanner that comes upon no overlong integer hands out a tiling of its text. -/
theorem exists_sweeps (hshort : NoOverlong s) : ∃ spans ending, Sweeps s spans ending := by
  induction hlength : s.rest.length using Nat.strongRecOn generalizing s with
  | ind length ih =>
    have hrest := gap_append_afterGap false s.rest
    have hlongest := longestGap_gap s.rest
    have hstep := step_next s
    have hih : ∀ {span : Span}, s.next.1 = .token span →
        ∃ spans ending, Sweeps s.next.2 spans ending := fun hspan =>
      ih _ (hlength ▸ length_lt_of_token (Prod.ext hspan rfl)) hshort.next rfl
    generalize hgap : gap false s.rest = g, hafter : afterGap false s.rest = rest,
      hscanned : s.next.1 = scanned, hleft : s.next.2 = left at hrest hlongest hstep hih
    have hnext : s.next = (scanned, left) := Prod.ext hscanned hleft
    cases hstep with
    | lineEnd hends hfeed =>
      obtain ⟨spans, ending, hsweeps⟩ := hih rfl
      refine ⟨_, ending, hsweeps.cons hnext ?_ ?_⟩
      · exact Nat.lt_add_of_pos_right (List.length_pos_of_mem hfeed)
      · rw [hends, ← hrest]
        exact .lineEnd hlongest hfeed hsweeps.tiled
    | finished hnil hline =>
      subst hnil
      refine ⟨[], none, sweeps_of_finished hnext rfl ?_⟩
      rw [← hrest, List.append_nil]
      exact .finished hlongest
    | error hne hline =>
      refine ⟨[], _, sweeps_of_error hnext rfl ?_ ?_⟩
      · have hpos := List.length_pos_of_ne_nil hne
        show s.pos < s.pos + g.length + rest.length
        omega
      · rw [← hrest]
        exact .error hlongest hne
    | overlong hread hlong => exact absurd (hshort 0 _ _ _ (hafter ▸ hread)) (Nat.not_le.mpr hlong)
    | @token lexeme token left hwell htoken happend hline =>
      obtain ⟨spans, ending, hsweeps⟩ := hih rfl
      have hne := Lexeme.spelling_ne_nil hwell
      refine ⟨_, ending, hsweeps.cons hnext ?_ ?_⟩
      · have hpos := List.length_pos_of_ne_nil hne
        show s.pos < s.pos + g.length + lexeme.spelling.length
        omega
      · rw [← hrest, ← happend]
        rw [← happend] at hlongest
        exact .token hlongest hline hne (Lexeme.spelledBy_token hwell htoken) hsweeps.tiled

end Scanner

/-! ## Source texts -/

/-- The spans of a source text, and perhaps an error behind them, tile it. -/
structure Tiling (source : String) (spans : List Span) (ending : Option LexError) : Prop where
  /-- The text is cut into gaps, the texts of the tokens, and after an error the rest. -/
  tiled : Tiled false 0 source.toList spans ending
  /-- No span is empty. -/
  nonempty : ∀ span ∈ spans, span.start < span.stop
  /-- No span begins before another one that comes earlier has stopped. -/
  ordered : spans.Pairwise fun earlier later => earlier.stop ≤ later.start
  /-- Each lies on boundaries of characters, over a text that spells its token or is its gap. -/
  slices : ∀ span ∈ spans, ∃ before piece after, source.toList = before ++ piece ++ after ∧
    span.start = (String.ofList before).utf8ByteSize ∧
    span.stop = (String.ofList (before ++ piece)).utf8ByteSize ∧
    (span.token.SpelledBy piece ∨
      span.token = .mark .semicolon ∧ '\n' ∈ piece ∧ LongestGap piece after)

/-- The way of a scanner through a source text that it makes some items of. -/
structure Course (source : String) (items : List Item) : Prop where
  /-- At every step the count of bytes is that of the characters counted. -/
  places : ∀ n, ((Scanner.ofSource source).asked n).pos ≤ source.length ∧
    ((Scanner.ofSource source).asked n).bytePos =
      (String.ofList (source.toList.take ((Scanner.ofSource source).asked n).pos)).utf8ByteSize
  /-- A step that hands out something moves on. -/
  yields : ∀ n item, items[n]? = some item →
    ((Scanner.ofSource source).asked n).next.1 = item.scanned ∧
    ((Scanner.ofSource source).asked n).pos < ((Scanner.ofSource source).asked (n + 1)).pos
  /-- After the items there is nothing more, and the whole text is counted. -/
  ends : ∀ n, items.length ≤ n →
    ((Scanner.ofSource source).asked n).next.1 = .finished ∧
    ((Scanner.ofSource source).asked (n + 1)).pos = source.length ∧
    ((Scanner.ofSource source).asked (n + 1)).bytePos = source.utf8ByteSize
  /-- After an error the scanner is at the end at once. -/
  ends_of_error : ∀ e, .error e ∈ items →
    ((Scanner.ofSource source).asked items.length).pos = source.length
  /-- There are no more items than characters. -/
  length_le : items.length ≤ source.length

theorem Scanner.standsIn_ofSource (source : String) :
    (Scanner.ofSource source).StandsIn source.toList :=
  ⟨[], rfl, rfl, rfl⟩

theorem Tiled.tiling {source : String} {spans : List Span} {ending : Option LexError}
    (h : Tiled false 0 source.toList spans ending) : Tiling source spans ending := by
  refine ⟨h, fun span hspan => ?_, h.ordered, fun span hspan => ?_⟩
  · obtain ⟨before, piece, after, hslice⟩ := h.slice hspan
    have hpos := utf8Length_pos hslice.ne_nil
    rw [hslice.start_eq, hslice.stop_eq]
    omega
  · obtain ⟨before, piece, after, hslice⟩ := h.slice hspan
    refine ⟨before, piece, after, hslice.split, ?_, ?_, hslice.spells⟩
    · rw [hslice.start_eq, Nat.zero_add, utf8Length_eq_utf8ByteSize]
    · rw [hslice.stop_eq, Nat.zero_add, ← utf8Length_append, utf8Length_eq_utf8ByteSize]

theorem Scanner.Sweeps.course {source : String} {spans : List Span} {ending : Option LexError}
    (h : (Scanner.ofSource source).Sweeps spans ending) :
    Course source (Item.ofSpans spans ending) := by
  have hstands := fun n => (Scanner.standsIn_ofSource source).asked n
  refine ⟨fun n => ?_, h.yields, fun n hn => ?_, fun e he => ?_, ?_⟩
  · rw [← String.length_toList]
    exact (hstands n).bytePos_eq
  · obtain ⟨hfinished, hrest⟩ := h.ends n hn
    obtain ⟨hpos, hbytes⟩ := (hstands (n + 1)).of_rest_nil hrest
    rw [hpos, hbytes, utf8Length_eq_utf8ByteSize, String.ofList_toList, String.length_toList]
    exact ⟨hfinished, rfl, rfl⟩
  · have herror : ending ≠ none := by
      rintro rfl
      simp [Item.ofSpans] at he
    rw [← String.length_toList]
    exact ((hstands _).of_rest_nil (h.ends_of_error herror)).1
  · rw [← String.length_toList]
    exact h.tiled.length_le

/-- **The spans tile the source.**  If no integer in a source text is too long to be read, the
scanner hands out some spans and then perhaps one error, and that is all.  The spans tile the text:
between them lie gaps, and behind them a gap or what the error gives up.  On its way the scanner
counts characters and bytes exactly, it moves on whenever it hands out something, and once it is at
its end it stays there. -/
theorem drain_tiles_source (source : String) (h : (Scanner.ofSource source).NoOverlong) :
    ∃ (spans : List Span) (ending : Option LexError),
      (Scanner.ofSource source).drain = .ok (Item.ofSpans spans ending) ∧
      Tiling source spans ending ∧ Course source (Item.ofSpans spans ending) := by
  obtain ⟨spans, ending, hsweeps⟩ := Scanner.exists_sweeps h
  exact ⟨spans, ending, hsweeps.drained _ (Nat.lt_succ_self _), hsweeps.tiled.tiling,
    hsweeps.course⟩

/-- A text with characters of more than one byte, a comment before a line feed, and a character
that spells nothing. -/
def strayText : String := "né := \"ü\\n\" // ñ\n-07 @x"

theorem strayText_is_tiled :
    (Scanner.ofSource strayText).NoOverlong ∧
    (Scanner.ofSource strayText).drain = .ok [.token ⟨0, .name "né", 3⟩,
      .token ⟨4, .mark .define, 6⟩, .token ⟨7, .string "ü\n", 13⟩,
      .token ⟨13, .mark .semicolon, 20⟩, .token ⟨20, .int (-7), 23⟩, .error ⟨.unrecognized, 24⟩] ∧
    ∃ (spans : List Span) (ending : Option LexError),
      (Scanner.ofSource strayText).drain = .ok (Item.ofSpans spans ending) ∧
      Tiling strayText spans ending ∧ Course strayText (Item.ofSpans spans ending) := by
  have hshort : (Scanner.ofSource strayText).NoOverlong :=
    Scanner.noOverlong_of_length_le (Scanner.standsIn_ofSource strayText) (by decide)
  exact ⟨hshort, by decide +kernel, drain_tiles_source strayText hshort⟩

end Scriptlet
