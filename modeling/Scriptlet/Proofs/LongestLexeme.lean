import Scriptlet.Proofs.Scanning

/-!
# The longest lexeme is read

`Lexeme.read?` compares no lengths.  It tries the fixed spellings in a certain order, then names,
strings and integers, and takes the first that fits, where a word has to end and a minus sign must
not stand before a digit.  Here it is shown that all this comes to one simple rule: of all lexemes
that stand at the front of a text, the longest is taken.

## What is compared

`Shaped` says what a lexeme looks like by itself.  None of the conditions on what follows are in it,
and a name may be spelled like one of the words.  So at the front of `iffy` there stand the word
`if` and the names `i`, `if`, `iff` and `iffy`, and at the front of `-5` the minus sign and the
integer `-5`.  `Longest` is the rule: no such lexeme at the front is longer, and one that is as long
is the same, or it is a name and the one that is taken is a word.

## Why the order comes to the rule

Two lexemes with one spelling are the same, or a word and a name (`eq_or_word_of_spelling_eq`).
What is read is at least as long as anything at the front (`exists_read?_of_front`), and there are
four cases.

* A name or a word at the front begins with a letter, and then the whole run of word characters is
  taken, as a name or as a word: a word may end nowhere else (`read?_of_startsName`).
* In front of a string or an integer nothing else is tried with success.
* A minus sign before a digit is shorter than the integer there.
* Any other mark could be taken, and so it is, unless one that is tried before it fits.  That one
  does not begin the mark, since no fixed spelling begins a later one (`fixed_ordered`); both stand
  at the front, so it is the longer of the two.
-/

namespace Scriptlet
namespace Lexeme

open Scriptlet.Text

/-! ## Lexemes by their looks -/

/-- What a lexeme looks like by itself, whatever follows it. -/
def Shaped : Lexeme → Prop
  | .mark _ | .bool _ => True
  | .name text => ∃ first others, text = first :: others ∧ startsName first = true ∧
      ∀ c ∈ others, isWord c = true
  | .string inner => '"' ∉ inner
  | .int _ digits => digits ≠ [] ∧ ∀ d ∈ digits, d.isDigit = true

/-- The lexeme is the longest at the front of the text, and of two that are as long it is the one
that is no name. -/
structure Longest (l : Lexeme) (text : List Char) : Prop where
  shaped : l.Shaped
  front : l.spelling <+: text
  longest : ∀ other : Lexeme, other.Shaped → other.spelling <+: text →
    other.spelling.length ≤ l.spelling.length
  tie : ∀ other : Lexeme, other.Shaped → other.spelling <+: text →
    other.spelling.length = l.spelling.length →
    other = l ∨ (l ∈ words ∧ other = .name l.spelling)

variable {l other : Lexeme} {text rest : List Char}

theorem WellFormed.shaped (h : l.WellFormed) : l.Shaped := by
  cases l with
  | name text => exact IsName.shape h
  | _ => exact h

/-- A lexeme is well-formed by its looks, or it is a name that is spelled like a word. -/
theorem Shaped.wellFormed_or (h : l.Shaped) :
    l.WellFormed ∨ ∃ word ∈ words, l = .name word.spelling := by
  cases l with
  | name text =>
    by_cases hword : text ∈ words.map spelling
    · obtain ⟨word, hmem, rfl⟩ := List.mem_map.mp hword
      exact Or.inr ⟨word, hmem, rfl⟩
    · exact Or.inl ⟨h, hword⟩
  | _ => exact Or.inl h

/-- Well-formed lexemes are told apart by their spellings, since they are read back from them. -/
theorem spelling_injective (h : l.WellFormed) (hother : other.WellFormed)
    (heq : other.spelling = l.spelling) : other = l := by
  have hend : AtGap [] := rfl
  have hread := read?_spelling h hend
  have hread' := read?_spelling hother hend
  rw [heq, hread] at hread'
  exact (congrArg Prod.fst (Option.some.inj hread')).symm

/-- Two lexemes with one spelling are the same, or a word and a name. -/
theorem eq_or_word_of_spelling_eq (h : l.WellFormed) (hother : other.Shaped)
    (heq : other.spelling = l.spelling) : other = l ∨ (l ∈ words ∧ other = .name l.spelling) := by
  rcases hother.wellFormed_or with hwell | ⟨word, hword, rfl⟩
  · exact Or.inl (spelling_injective h hwell heq)
  · have hwell : word.WellFormed := wellFormed_of_mem_fixed (mem_fixed_of_mem_words hword)
    obtain rfl := spelling_injective h hwell heq
    exact Or.inr ⟨hword, rfl⟩

/-! ## What is read is at least as long -/

/-- A word that is taken is the whole run of word characters. -/
theorem takeWhile_of_word (h : l ∈ words) (hmay : l.mayPrecede rest = true) :
    (l.spelling ++ rest).takeWhile isWord = l.spelling ∧
    (l.spelling ++ rest).dropWhile isWord = rest := by
  rw [mayPrecede_of_mem_words h, Bool.not_eq_true'] at hmay
  exact takeWhile_append_of_startsWith (fun c hc => isWord_of_mem_words h hc) hmay

/-- Behind a first letter the whole run of word characters is taken. -/
theorem read?_of_startsName {c : Char} (hc : startsName c = true) (text : List Char) :
    ∃ l, read? (c :: text) = some (l, (c :: text).dropWhile isWord) ∧
      l.spelling = (c :: text).takeWhile isWord := by
  rw [read?]
  cases hfixed : readFixed? (c :: text) with
  | some found =>
    obtain ⟨l, rest⟩ := found
    obtain ⟨hmem, happend, hmay⟩ := readFixed?_eq_some hfixed
    obtain ⟨first, spelled, hspelling, _, _, _, hword⟩ := head_of_mem_fixed hmem
    have hfirst : first = c := by
      rw [hspelling, List.cons_append] at happend
      exact (List.cons.inj happend).1
    obtain ⟨htake, hdrop⟩ := takeWhile_of_word (hword (hfirst ▸ hc)) hmay
    rw [happend] at htake hdrop
    exact ⟨l, by rw [hdrop, Option.some_or], htake.symm⟩
  | none =>
    have hisWord := isWord_of_startsName hc
    refine ⟨.name (c :: text.takeWhile isWord), ?_, ?_⟩
    · rw [Option.none_or, readName?, if_pos hc, Option.some_or, List.dropWhile_cons_of_pos hisWord]
    · rw [List.takeWhile_cons_of_pos hisWord, spelling]

/-- Word characters behind a first letter are taken with it. -/
theorem exists_read?_of_isWord {c : Char} {others : List Char} (hc : startsName c = true)
    (hothers : ∀ w ∈ others, isWord w = true) (rest : List Char) :
    ∃ l left, read? (c :: others ++ rest) = some (l, left) ∧
      (c :: others).length ≤ l.spelling.length := by
  obtain ⟨l, hread, hspelling⟩ := read?_of_startsName hc (others ++ rest)
  have hrun : ∀ w ∈ c :: others, isWord w = true :=
    List.forall_mem_cons.mpr ⟨isWord_of_startsName hc, hothers⟩
  refine ⟨l, _, hread, ?_⟩
  rw [hspelling, ← List.cons_append, List.takeWhile_append_of_pos hrun, List.length_append]
  exact Nat.le_add_right _ _

/-- Digits at the front are taken, with all that follow. -/
theorem exists_read?_of_digits {negative : Bool} {digits : List Char}
    (h : (Lexeme.int negative digits).Shaped) (rest : List Char) :
    ∃ l left, read? ((Lexeme.int negative digits).spelling ++ rest) = some (l, left) ∧
      (Lexeme.int negative digits).spelling.length ≤ l.spelling.length := by
  have hall : (Lexeme.int negative (digits ++ rest.takeWhile Char.isDigit)).WellFormed := by
    refine ⟨fun hnil => h.1 (List.append_eq_nil_iff.mp hnil).1, fun d hd => ?_⟩
    rcases List.mem_append.mp hd with hd | hd
    · exact h.2 d hd
    · exact List.mem_takeWhile_imp hd
  have htext : (Lexeme.int negative digits).spelling ++ rest =
      (Lexeme.int negative (digits ++ rest.takeWhile Char.isDigit)).spelling ++
        rest.dropWhile Char.isDigit := by
    cases negative <;> simp [spelling, List.takeWhile_append_dropWhile]
  rw [htext]
  refine ⟨_, _, read?_int hall (startsWith_dropWhile _ rest), ?_⟩
  cases negative <;> simp [spelling]

/-- No fixed spelling begins one that is tried later. -/
theorem fixed_ordered : fixed.Pairwise fun earlier later =>
    ¬earlier.spelling <+: later.spelling := by
  decide

/-- Of the fixed lexemes that could be taken, one is taken that is not shorter than the others. -/
theorem exists_read?_of_mayPrecede (h : l ∈ fixed) (hmay : l.mayPrecede rest = true) :
    ∃ found left, read? (l.spelling ++ rest) = some (found, left) ∧
      l.spelling.length ≤ found.spelling.length := by
  have hthis : readThis? (l.spelling ++ rest) l = some (l, rest) := readThis?_of_append hmay
  have hsome : (readFixed? (l.spelling ++ rest)).isSome = true :=
    List.findSome?_isSome_iff.mpr ⟨l, h, by rw [hthis]; rfl⟩
  obtain ⟨⟨found, left⟩, hfixed⟩ := Option.isSome_iff_exists.mp hsome
  refine ⟨found, left, by rw [read?, hfixed, Option.some_or], ?_⟩
  obtain ⟨earlier, first, later, hsplit, hfirst, hnone⟩ := List.findSome?_eq_some_iff.mp hfixed
  obtain ⟨rfl, happend, _⟩ := readThis?_eq_some hfirst
  have hordered := fixed_ordered
  rw [hsplit] at h hordered
  rcases List.mem_append.mp h with hearlier | hmem
  · -- it would have been taken itself
    rw [hnone l hearlier] at hthis
    cases hthis
  · rcases List.mem_cons.mp hmem with rfl | hlater
    · exact Nat.le_refl _
    · have hnot := List.rel_of_pairwise_cons (List.pairwise_append.mp hordered).2.1 hlater
      refine Nat.le_of_not_le fun hle => hnot ?_
      exact List.prefix_of_prefix_length_le ⟨left, happend⟩ (List.prefix_append _ _) hle

/-- A fixed lexeme that may not stand where it stands is a word, or a minus sign before a digit. -/
theorem cases_of_not_mayPrecede (h : l ∈ fixed) (hmay : ¬l.mayPrecede rest = true) :
    l ∈ words ∨ (l = .mark .minus ∧ startsWith Char.isDigit rest = true) := by
  cases l with
  | mark m => cases m <;> simp_all [mayPrecede, words, Mark.isKeyword]
  | bool b => cases b <;> simp [words]
  | name text => simp [fixed] at h
  | string inner => simp [fixed] at h
  | int negative digits => simp [fixed] at h

/-- A fixed lexeme at the front: it is taken, or something that is longer. -/
theorem exists_read?_of_fixed (h : l ∈ fixed) (rest : List Char) :
    ∃ found left, read? (l.spelling ++ rest) = some (found, left) ∧
      l.spelling.length ≤ found.spelling.length := by
  by_cases hmay : l.mayPrecede rest = true
  · exact exists_read?_of_mayPrecede h hmay
  rcases cases_of_not_mayPrecede h hmay with hword | ⟨rfl, hdigit⟩
  · have hwords : ∀ l ∈ words, l.spelling.head?.any startsName = true := by decide
    have hall : ∀ c ∈ l.spelling, isWord c = true := fun c hc => isWord_of_mem_words hword hc
    have hhead := hwords l hword
    cases hspelling : l.spelling with
    | nil => rw [hspelling] at hhead; cases hhead
    | cons c others =>
      rw [hspelling] at hhead hall
      exact exists_read?_of_isWord hhead (List.forall_mem_cons.mp hall).2 rest
  · cases rest with
    | nil => cases hdigit
    | cons d rest =>
      have hone : (Lexeme.int true [d]).Shaped := ⟨by simp, List.forall_mem_singleton.mpr hdigit⟩
      obtain ⟨found, left, hread, hle⟩ := exists_read?_of_digits hone rest
      exact ⟨found, left, hread, Nat.le_trans (by simp [spelling, Mark.text]) hle⟩

/-- What is read is at least as long as anything that stands at the front. -/
theorem exists_read?_of_front (h : other.Shaped) (hfront : other.spelling <+: text) :
    ∃ l rest, read? text = some (l, rest) ∧ other.spelling.length ≤ l.spelling.length := by
  obtain ⟨rest, rfl⟩ := hfront
  cases other with
  | mark m => exact exists_read?_of_fixed (mark_mem_fixed m) rest
  | bool b => exact exists_read?_of_fixed (bool_mem_fixed b) rest
  | name text =>
    obtain ⟨first, others, rfl, hfirst, hothers⟩ := h
    exact exists_read?_of_isWord hfirst hothers rest
  | string inner => exact ⟨_, rest, read?_string h rest, Nat.le_refl _⟩
  | int negative digits => exact exists_read?_of_digits h rest

/-! ## The rule -/

/-- What is read is the longest lexeme. -/
theorem longest_of_read? (h : read? text = some (l, rest)) : l.Longest text := by
  obtain ⟨hwell, happend⟩ := read?_sound h
  have hfront : l.spelling <+: text := ⟨rest, happend⟩
  refine ⟨hwell.shaped, hfront, fun other hother hfront' => ?_,
    fun other hother hfront' hlength => ?_⟩
  · obtain ⟨l', rest', hread, hle⟩ := exists_read?_of_front hother hfront'
    rw [h] at hread
    cases hread
    exact hle
  · have heq := (List.prefix_of_prefix_length_le hfront' hfront hlength.le).eq_of_length hlength
    exact eq_or_word_of_spelling_eq hwell hother heq

/-- Only one lexeme is the longest. -/
theorem Longest.unique (h : l.Longest text) (h' : other.Longest text) : other = l := by
  have hlength := Nat.le_antisymm (h.longest other h'.shaped h'.front)
    (h'.longest l h.shaped h.front)
  rcases h.tie other h'.shaped h'.front hlength with heq | ⟨hword, hname⟩
  · exact heq
  · -- the other one is a name, and a name does not win over a word
    rcases h'.tie l h.shaped h.front hlength.symm with heq | ⟨hword', _⟩
    · exact heq.symm
    · rw [hname] at hword'
      simp [words] at hword'

/-- The longest lexeme is what is read. -/
theorem read?_eq_some_iff :
    read? text = some (l, rest) ↔ l.Longest text ∧ l.spelling ++ rest = text := by
  refine ⟨fun h => ⟨longest_of_read? h, (read?_sound h).2⟩, fun ⟨hlongest, happend⟩ => ?_⟩
  obtain ⟨found, left, hread, _⟩ := exists_read?_of_front hlongest.shaped hlongest.front
  obtain rfl := hlongest.unique (longest_of_read? hread)
  have hleft : left = rest := List.append_cancel_left ((read?_sound hread).2.trans happend.symm)
  rwa [hleft] at hread

/-- Nothing is read exactly where no lexeme stands at the front. -/
theorem read?_eq_none_iff :
    read? text = none ↔ ∀ l : Lexeme, l.Shaped → ¬l.spelling <+: text := by
  refine ⟨fun h l hl hfront => ?_, fun h => ?_⟩
  · obtain ⟨found, left, hread, _⟩ := exists_read?_of_front hl hfront
    rw [h] at hread
    cases hread
  · rw [Option.eq_none_iff_forall_ne_some]
    rintro ⟨l, left⟩ hread
    obtain ⟨hwell, happend⟩ := read?_sound hread
    exact h l hwell.shaped ⟨left, happend⟩

/-- What a scanner answers when it takes the lexeme that begins at an offset. -/
def scannedAt (l : Lexeme) (start : Nat) : Scanned :=
  match l.token with
  | .ok token => .token ⟨start, token, start + utf8Length l.spelling⟩
  | .error .outOfRange => .error ⟨.outOfRange, start⟩
  | .error (.overlong digits) => .overlong digits

theorem scannedAt_ne_unrecognized (l : Lexeme) (start position : Nat) :
    l.scannedAt start ≠ .error ⟨.unrecognized, position⟩ := by
  rw [scannedAt]
  split <;> simp

end Lexeme

namespace Scanner

variable {s : Scanner} {l : Lexeme} {left : List Char}

/-- A lexeme that is read at the front of the text is taken. -/
theorem nextLexeme_of_read? (h : Lexeme.read? s.rest = some (l, left)) :
    s.nextLexeme.1 = l.scannedAt s.bytePos ∧
      ∀ token, l.token = .ok token → s.nextLexeme.2.rest = left := by
  have hne : s.rest.isEmpty = false := by
    obtain ⟨hwell, happend⟩ := Lexeme.read?_sound h
    rw [List.isEmpty_eq_false_iff, ← happend, ne_eq, List.append_eq_nil_iff]
    exact fun hnil => Lexeme.spelling_ne_nil hwell hnil.1
  rw [nextLexeme, hne, h, Lexeme.scannedAt]
  simp only [Bool.false_eq_true, if_false]
  cases htoken : l.token with
  | ok token => exact ⟨rfl, fun _ _ => rfl⟩
  | error refusal => cases refusal <;> exact ⟨rfl, nofun⟩

theorem nextLexeme_of_none (hrest : s.rest ≠ []) (h : Lexeme.read? s.rest = none) :
    s.nextLexeme.1 = .error ⟨.unrecognized, s.bytePos⟩ := by
  rw [nextLexeme, List.isEmpty_eq_false_iff.mpr hrest, h]
  rfl

end Scanner

/-- **The longest lexeme is taken.**  Let a scanner be anywhere in a text, and let something be left
behind the gap that it skips, which is not itself taken for a `;`.  If any lexeme stands at the
front of what is left, the scanner takes the longest one, and of two that are as long, a word and a
name, it takes the word.  It reports text that it does not recognize exactly if no lexeme stands
there. -/
theorem next_takes_longest_lexeme (s : Scanner)
    (hline : ¬(s.lineEnds = true ∧ '\n' ∈ gap false s.rest)) (hrest : afterGap false s.rest ≠ []) :
    let rest := afterGap false s.rest
    let start := s.bytePos + utf8Length (gap false s.rest)
    ((∃ l : Lexeme, l.Shaped ∧ l.spelling <+: rest) →
      ∃ (l : Lexeme) (left : List Char), l.Longest rest ∧ l.spelling ++ left = rest ∧
        s.next.1 = l.scannedAt start ∧ ∀ token, l.token = .ok token → s.next.2.rest = left) ∧
    (∀ l l' : Lexeme, l.Longest rest → l'.Longest rest → l' = l) ∧
    (s.next.1 = .error ⟨.unrecognized, start⟩ ↔ ∀ l : Lexeme, l.Shaped → ¬l.spelling <+: rest) := by
  intro rest start
  have hnot : (s.lineEnds && (gap false s.rest).contains '\n') = false := by
    rw [Bool.eq_false_iff, ne_eq, Bool.and_eq_true, List.contains_iff_mem]
    exact hline
  rw [Scanner.next_of_not_lineEnds hnot]
  refine ⟨?_, fun l l' h h' => h.unique h', ?_, ?_⟩
  · rintro ⟨other, hother, hfront⟩
    obtain ⟨l, left, hread, _⟩ := Lexeme.exists_read?_of_front hother hfront
    obtain ⟨hlongest, happend⟩ := Lexeme.read?_eq_some_iff.mp hread
    obtain ⟨hscanned, hleft⟩ :=
      Scanner.nextLexeme_of_read? (s := s.past (gap false s.rest) rest) hread
    exact ⟨l, left, hlongest, happend, hscanned, hleft⟩
  · intro hunrecognized
    refine Lexeme.read?_eq_none_iff.mp (Option.eq_none_iff_forall_ne_some.mpr ?_)
    rintro ⟨l, left⟩ hread
    have hscanned :=
      (Scanner.nextLexeme_of_read? (s := s.past (gap false s.rest) rest) hread).1
    exact l.scannedAt_ne_unrecognized _ _ (hscanned.symm.trans hunrecognized)
  · intro hnone
    exact Scanner.nextLexeme_of_none hrest (Lexeme.read?_eq_none_iff.mpr hnone)

/-- A scanner before a comment and a name that begins with a word. -/
def beforeFalsehood : Scanner :=
  { rest := " // é\n falsehood-5".toList, pos := 1, bytePos := 1, lineEnds := false }

theorem beforeFalsehood_takes_longest :
    ¬(beforeFalsehood.lineEnds = true ∧ '\n' ∈ gap false beforeFalsehood.rest) ∧
    afterGap false beforeFalsehood.rest = "falsehood-5".toList ∧
    (Lexeme.bool false).spelling <+: "falsehood-5".toList ∧
    (∃ (l : Lexeme) (left : List Char), l.Longest "falsehood-5".toList ∧
      l.spelling ++ left = "falsehood-5".toList ∧ beforeFalsehood.next.1 = l.scannedAt 9 ∧
      ∀ token, l.token = .ok token → beforeFalsehood.next.2.rest = left) ∧
    beforeFalsehood.next.1 = .token ⟨9, .name "falsehood", 18⟩ := by
  have hline : ¬(beforeFalsehood.lineEnds = true ∧ '\n' ∈ gap false beforeFalsehood.rest) := by
    decide
  have hrest : afterGap false beforeFalsehood.rest = "falsehood-5".toList := by decide
  have hfront : (Lexeme.bool false).spelling <+: "falsehood-5".toList := by decide
  have hne : afterGap false beforeFalsehood.rest ≠ [] := by rw [hrest]; decide
  have hstart : beforeFalsehood.bytePos + utf8Length (gap false beforeFalsehood.rest) = 9 := by
    decide
  obtain ⟨htaken, _⟩ := next_takes_longest_lexeme beforeFalsehood hline hne
  rw [hrest, hstart] at htaken
  exact ⟨hline, hrest, hfront, htaken ⟨.bool false, trivial, hfront⟩, by decide⟩

end Scriptlet
