import Mathlib.Data.List.Basic
import Mathlib.Data.List.TakeWhile
import Scriptlet.Token.Lexeme

/-!
# What is read is what was spelled

`Lexeme.read?` takes a lexeme off the front of a text.  Two facts about it are proved here.

* What it finds is a well-formed lexeme whose spelling stands at the front (`read?_sound`).  In
  particular a name that it finds is none of the five words with a meaning of their own: such a word
  would have been found before names are tried.
* Conversely a well-formed lexeme is read back from its spelling, provided that the text ends there
  or goes on with a blank (`read?_spelling`).  Integers, bools and names need less: that no digit or
  no word character follows (`read?_int`, `read?_bool`, `read?_name`).  A string needs nothing.

For the second fact it has to be seen that nothing that is tried earlier takes hold.  The fixed
spellings are settled without going through them one by one against an unknown text: none of them
holds a blank, so that a blank behind a text changes nothing in what they find in it
(`readFixed?_append`), and on the spelling itself, which is closed, the answer can be computed.
-/

namespace Scriptlet
namespace Lexeme

open Scriptlet.Text

/-! ## Well-formed lexemes -/

/-- The fixed lexemes that are words. -/
def words : List Lexeme :=
  [.bool true, .bool false, .mark .func, .mark .ifWord, .mark .elseWord]

/-- The text is a lower-case ASCII letter and word characters, and no fixed word. -/
structure IsName (text : List Char) : Prop where
  shape : ∃ first others, text = first :: others ∧ startsName first = true ∧
    ∀ c ∈ others, isWord c = true
  notWord : text ∉ words.map spelling

/-- What every lexeme satisfies that can be read. -/
def WellFormed : Lexeme → Prop
  | .mark _ | .bool _ => True
  | .name text => IsName text
  | .string inner => '"' ∉ inner
  | .int _ digits => digits ≠ [] ∧ ∀ d ∈ digits, d.isDigit = true

theorem mark_mem_fixed (m : Mark) : Lexeme.mark m ∈ fixed := by
  cases m <;> decide

theorem bool_mem_fixed (b : Bool) : Lexeme.bool b ∈ fixed := by
  cases b <;> decide

theorem mem_fixed_of_mem_words {l : Lexeme} (h : l ∈ words) : l ∈ fixed := by
  revert l
  decide

/-! ## What is found stands at the front -/

theorem readThis?_eq_some {text rest : List Char} {l found : Lexeme}
    (h : readThis? text l = some (found, rest)) :
    found = l ∧ l.spelling ++ rest = text ∧ l.mayPrecede rest = true := by
  rw [readThis?] at h
  split at h
  · rename_i left hleft
    split at h
    · rename_i hmay
      obtain ⟨rfl, rfl⟩ : l = found ∧ left = rest := by simpa using h
      exact ⟨rfl, List.append_eq_of_isPrefixOf?_eq_some hleft, hmay⟩
    · exact absurd h (by simp)
  · exact absurd h (by simp)

theorem readThis?_of_append {rest : List Char} {l : Lexeme} (h : l.mayPrecede rest = true) :
    readThis? (l.spelling ++ rest) l = some (l, rest) := by
  have hfront : l.spelling.isPrefixOf? (l.spelling ++ rest) = some rest :=
    List.isPrefixOf?_eq_some_iff_append_eq.mpr rfl
  rw [readThis?, hfront]
  simp only [h, if_true]

theorem readFixed?_eq_some {text rest : List Char} {l : Lexeme}
    (h : readFixed? text = some (l, rest)) :
    l ∈ fixed ∧ l.spelling ++ rest = text ∧ l.mayPrecede rest = true := by
  obtain ⟨l', hmem, hread⟩ := List.exists_of_findSome?_eq_some h
  obtain ⟨rfl, hfound⟩ := readThis?_eq_some hread
  exact ⟨hmem, hfound⟩

theorem wellFormed_of_mem_fixed {l : Lexeme} (h : l ∈ fixed) : l.WellFormed := by
  cases l with
  | mark m => trivial
  | bool b => trivial
  | name text => simp [fixed] at h
  | string inner => simp [fixed] at h
  | int negative digits => simp [fixed] at h

/-- What is left after the longest run of characters does not go on with one of them. -/
theorem startsWith_dropWhile (p : Char → Bool) (text : List Char) :
    startsWith p (text.dropWhile p) = false := by
  induction text with
  | nil => rfl
  | cons c text ih =>
    by_cases h : p c = true
    · rw [List.dropWhile_cons_of_pos h]
      exact ih
    · rw [List.dropWhile_cons_of_neg h]
      simpa [startsWith] using h

/-- A word may stand before what is no word character, and only there. -/
theorem mayPrecede_of_mem_words {l : Lexeme} (h : l ∈ words) (rest : List Char) :
    l.mayPrecede rest = !startsWith isWord rest := by
  simp only [words, List.mem_cons, List.not_mem_nil, or_false] at h
  rcases h with rfl | rfl | rfl | rfl | rfl <;> simp [mayPrecede, Mark.isKeyword]

theorem isName_of_readName? {text rest : List Char} {l : Lexeme}
    (hfixed : readFixed? text = none) (h : readName? text = some (l, rest)) :
    l.WellFormed ∧ l.spelling ++ rest = text := by
  cases text with
  | nil => simp [readName?] at h
  | cons c text =>
    rw [readName?] at h
    split at h
    · rename_i hc
      obtain ⟨rfl, rfl⟩ : Lexeme.name (c :: text.takeWhile isWord) = l ∧
          text.dropWhile isWord = rest := by simpa using h
      have happend : c :: text.takeWhile isWord ++ text.dropWhile isWord = c :: text := by
        rw [List.cons_append, List.takeWhile_append_dropWhile]
      refine ⟨⟨⟨c, text.takeWhile isWord, rfl, hc, fun x hx => ?_⟩, ?_⟩, happend⟩
      · exact List.mem_takeWhile_imp hx
      · -- a fixed word would have been found before
        intro hword
        obtain ⟨w, hw, hspelling⟩ := List.mem_map.mp hword
        have hmay : w.mayPrecede (text.dropWhile isWord) = true := by
          rw [mayPrecede_of_mem_words hw, startsWith_dropWhile, Bool.not_false]
        have hread := readThis?_of_append hmay
        rw [hspelling, happend] at hread
        have hnone := List.findSome?_eq_none_iff.mp hfixed w (mem_fixed_of_mem_words hw)
        rw [hread] at hnone
        exact absurd hnone (by simp)
    · exact absurd h (by simp)

theorem wellFormed_of_readString? {text rest : List Char} {l : Lexeme}
    (h : readString? text = some (l, rest)) : l.WellFormed ∧ l.spelling ++ rest = text := by
  rw [readString?.eq_def] at h
  split at h
  · rename_i text
    split at h
    · exact absurd h (by simp)
    · rename_i quote left hleft
      obtain ⟨rfl, rfl⟩ : Lexeme.string (text.takeWhile (· != '"')) = l ∧ left = rest := by
        simpa using h
      have hquote : quote = '"' := by
        have hstop := startsWith_dropWhile (· != '"') text
        rw [hleft] at hstop
        simpa [startsWith] using hstop
      refine ⟨fun hmem => ?_, ?_⟩
      · have hne := List.mem_takeWhile_imp hmem
        simp at hne
      · have hsplit := List.takeWhile_append_dropWhile (p := (· != '"')) (l := text)
        rw [hleft, hquote] at hsplit
        simp only [spelling, List.cons_append, List.append_assoc, List.nil_append]
        rw [hsplit]
  · exact absurd h (by simp)

theorem wellFormed_of_readDigits? {negative : Bool} {text rest : List Char} {l : Lexeme}
    (h : readDigits? negative text = some (l, rest)) :
    ∃ digits, l = .int negative digits ∧ l.WellFormed ∧ digits ++ rest = text := by
  rw [readDigits?] at h
  split at h
  · exact absurd h (by simp)
  · rename_i hne
    obtain ⟨rfl, rfl⟩ : Lexeme.int negative (text.takeWhile Char.isDigit) = l ∧
        text.dropWhile Char.isDigit = rest := by simpa using h
    refine ⟨_, rfl, ⟨hne, fun d hd => List.mem_takeWhile_imp hd⟩, ?_⟩
    exact List.takeWhile_append_dropWhile

theorem wellFormed_of_readInt? {text rest : List Char} {l : Lexeme}
    (h : readInt? text = some (l, rest)) : l.WellFormed ∧ l.spelling ++ rest = text := by
  rw [readInt?.eq_def] at h
  split at h
  · obtain ⟨digits, rfl, hl, happend⟩ := wellFormed_of_readDigits? h
    refine ⟨hl, ?_⟩
    simp only [spelling, if_true, List.cons_append, happend]
  · obtain ⟨digits, rfl, hl, happend⟩ := wellFormed_of_readDigits? h
    exact ⟨hl, happend⟩

/-- A lexeme that is read is well-formed, and its spelling stands at the front of the text. -/
theorem read?_sound {text rest : List Char} {l : Lexeme} (h : read? text = some (l, rest)) :
    l.WellFormed ∧ l.spelling ++ rest = text := by
  rw [read?] at h
  cases hfixed : readFixed? text with
  | some found =>
    rw [hfixed, Option.some_or] at h
    obtain ⟨hmem, happend, _⟩ := readFixed?_eq_some (hfixed.trans h)
    exact ⟨wellFormed_of_mem_fixed hmem, happend⟩
  | none =>
    rw [hfixed, Option.none_or] at h
    cases hname : readName? text with
    | some found =>
      rw [hname, Option.some_or] at h
      exact isName_of_readName? hfixed (hname.trans h)
    | none =>
      rw [hname, Option.none_or] at h
      cases hstring : readString? text with
      | some found =>
        rw [hstring, Option.some_or] at h
        exact wellFormed_of_readString? (hstring.trans h)
      | none =>
        rw [hstring, Option.none_or] at h
        exact wellFormed_of_readInt? h

theorem spelling_ne_nil_of_mem_fixed {l : Lexeme} (h : l ∈ fixed) : l.spelling ≠ [] := by
  revert l
  decide

/-- No well-formed lexeme is spelled by nothing. -/
theorem spelling_ne_nil {l : Lexeme} (h : l.WellFormed) : l.spelling ≠ [] := by
  cases l with
  | mark m => exact spelling_ne_nil_of_mem_fixed (mark_mem_fixed m)
  | bool b => exact spelling_ne_nil_of_mem_fixed (bool_mem_fixed b)
  | name text =>
    obtain ⟨first, others, htext, _⟩ := IsName.shape h
    rw [spelling, htext]
    exact List.cons_ne_nil _ _
  | string inner => exact List.cons_ne_nil _ _
  | int negative digits =>
    cases negative with
    | true => exact List.cons_ne_nil _ _
    | false => exact h.1

/-! ## A blank behind a text -/

/-- No blank is a word character. -/
theorem isWord_eq_false_of_isBlank {c : Char} (h : isBlank c = true) : isWord c = false := by
  have hcodes : ∀ r ∈ blanks, ∀ n ∈ List.range' r.1 (r.2 - r.1 + 1), n ≠ 0x5f ∧
      isAlphanumericCode n = false := by decide
  have hascends : blanks.ascends 0 = true := by decide
  obtain ⟨r, hr, hlow, hhigh⟩ := (CodePoints.has_iff_of_ascends hascends c.toNat).mp h
  obtain ⟨hne, hcode⟩ := hcodes r hr c.toNat (List.mem_range'_1.mpr ⟨hlow, by omega⟩)
  have hunderscore : c ≠ '_' := by
    intro hc
    rw [hc] at hne
    exact hne rfl
  rw [isWord, hcode, beq_false_of_ne hunderscore, Bool.or_false]

/-- ASCII digits are word characters. -/
theorem isWord_of_isDigit {c : Char} (h : c.isDigit = true) : isWord c = true := by
  have hcodes : ∀ n ∈ List.range' 48 10, isAlphanumericCode n = true := by decide
  have hbounds : 48 ≤ c.toNat ∧ c.toNat ≤ 57 := by
    simpa [Char.isDigit, UInt32.le_iff_toNat_le] using h
  rw [isWord, hcodes c.toNat (List.mem_range'_1.mpr ⟨hbounds.1, by omega⟩), Bool.or_true]

theorem isWord_of_startsName {c : Char} (h : startsName c = true) : isWord c = true := by
  have hcodes : ∀ n ∈ List.range' 97 26, isAlphanumericCode n = true := by decide
  have hbounds : 97 ≤ c.toNat ∧ c.toNat ≤ 122 := by
    simpa [startsName, Char.le_def, UInt32.le_iff_toNat_le] using h
  rw [isWord, hcodes c.toNat (List.mem_range'_1.mpr ⟨hbounds.1, by omega⟩), Bool.or_true]

theorem IsName.isWord_of_mem {text : List Char} (h : IsName text) {c : Char} (hc : c ∈ text) :
    isWord c = true := by
  obtain ⟨first, others, rfl, hfirst, hothers⟩ := h.shape
  rcases List.mem_cons.mp hc with rfl | hc
  · exact isWord_of_startsName hfirst
  · exact hothers c hc

theorem isDigit_eq_false_of_isBlank {c : Char} (h : isBlank c = true) : c.isDigit = false := by
  cases hdigit : c.isDigit with
  | false => rfl
  | true =>
    have hword := isWord_of_isDigit hdigit
    rw [isWord_eq_false_of_isBlank h] at hword
    exact absurd hword (by simp)

/-- The text is at its end or goes on with a blank. -/
def AtGap (rest : List Char) : Prop :=
  startsWith (fun c => !isBlank c) rest = false

/-- No property that blanks lack begins a gap. -/
theorem AtGap.startsWith_eq_false {rest : List Char} (h : AtGap rest) {p : Char → Bool}
    (hp : ∀ c, isBlank c = true → p c = false) : startsWith p rest = false := by
  cases rest with
  | nil => rfl
  | cons c rest => exact hp c (by simpa [AtGap, startsWith] using h)

/-- What holds no blank is found in front of a gap exactly where it is found without the gap. -/
theorem isPrefixOf?_append_of_atGap {rest : List Char} (hrest : AtGap rest) :
    ∀ (l text : List Char), (∀ c ∈ l, isBlank c = false) →
      l.isPrefixOf? (text ++ rest) = (l.isPrefixOf? text).map (· ++ rest)
  | [], text, _ => by simp [List.isPrefixOf?]
  | c :: l, [], hl => by
    cases rest with
    | nil => rfl
    | cons b rest =>
      have hb : isBlank b = true := by simpa [AtGap, startsWith] using hrest
      have hne : (c == b) = false := by
        refine beq_false_of_ne fun hcb => ?_
        rw [← hcb, hl c (List.mem_cons_self ..)] at hb
        exact absurd hb (by simp)
      simp [List.isPrefixOf?, hne]
  | c :: l, d :: text, hl => by
    have ih := isPrefixOf?_append_of_atGap hrest l text fun x hx => hl x (List.mem_cons_of_mem _ hx)
    rw [List.cons_append, List.isPrefixOf?, List.isPrefixOf?, ih]
    split <;> rfl

/-- A gap does not keep a lexeme from standing where it may stand. -/
theorem mayPrecede_append {rest : List Char} (hrest : AtGap rest) (l : Lexeme)
    (text : List Char) : l.mayPrecede (text ++ rest) = l.mayPrecede text := by
  have hword : startsWith isWord (text ++ rest) = startsWith isWord text := by
    cases text with
    | nil => exact hrest.startsWith_eq_false fun c => isWord_eq_false_of_isBlank
    | cons c text => rfl
  have hdigit : startsWith Char.isDigit (text ++ rest) = startsWith Char.isDigit text := by
    cases text with
    | nil => exact hrest.startsWith_eq_false fun c => isDigit_eq_false_of_isBlank
    | cons c text => rfl
  cases l with
  | mark m => cases m <;> simp only [mayPrecede, hword, hdigit]
  | bool b => simp only [mayPrecede, hword]
  | name text => rfl
  | string inner => rfl
  | int negative digits => rfl

theorem isBlank_eq_false_of_mem_fixed {l : Lexeme} (h : l ∈ fixed) :
    ∀ c ∈ l.spelling, isBlank c = false := by
  have hcheck : (fixed.all fun l => l.spelling.all fun c => !isBlank c) = true := by decide
  intro c hc
  have hchar := List.all_eq_true.mp (List.all_eq_true.mp hcheck l h) c hc
  simpa using hchar

/-- The fixed lexeme in front of a gap is the one that is found without the gap. -/
theorem readFixed?_append {rest : List Char} (hrest : AtGap rest) (text : List Char) :
    readFixed? (text ++ rest) =
      (readFixed? text).map fun found => (found.1, found.2 ++ rest) := by
  have hthis : ∀ l ∈ fixed, readThis? (text ++ rest) l =
      (readThis? text l).map fun found => (found.1, found.2 ++ rest) := by
    intro l hl
    rw [readThis?, readThis?,
      isPrefixOf?_append_of_atGap hrest _ _ (isBlank_eq_false_of_mem_fixed hl)]
    cases l.spelling.isPrefixOf? text with
    | none => rfl
    | some left =>
      simp only [Option.map_some, mayPrecede_append hrest]
      split <;> rfl
  rw [readFixed?, readFixed?]
  generalize fixed = candidates at hthis
  induction candidates with
  | nil => rfl
  | cons l candidates ih =>
    rw [List.findSome?_cons, List.findSome?_cons, hthis l (List.mem_cons_self ..)]
    cases readThis? text l with
    | some found => rfl
    | none => exact ih fun l' hl' => hthis l' (List.mem_cons_of_mem _ hl')

/-! ## What was spelled is read -/

/-- On their own spellings the fixed lexemes are told apart by the order in which they are tried. -/
theorem readFixed?_spelling {l : Lexeme} (h : l ∈ fixed) :
    readFixed? l.spelling = some (l, []) := by
  revert l
  decide

/-- A fixed lexeme is a word, or begins with a character that no other lexeme begins with, except
for the minus sign. -/
theorem head_of_mem_fixed {l : Lexeme} (h : l ∈ fixed) : ∃ c text, l.spelling = c :: text ∧
    c.isDigit = false ∧ c ≠ '"' ∧ (c = '-' → l = .mark .minus) ∧
    (startsName c = true → l ∈ words) := by
  have hcheck : ∀ l ∈ fixed, (l.spelling.head?.any fun c => !c.isDigit && c != '"' &&
      (c != '-' || l == .mark .minus) && (!startsName c || words.contains l)) = true := by decide
  have hl := hcheck l h
  cases hspelling : l.spelling with
  | nil => exact absurd hspelling (spelling_ne_nil_of_mem_fixed h)
  | cons c text =>
    rw [hspelling] at hl
    simp only [List.head?_cons, Option.any_some, Bool.and_eq_true, Bool.or_eq_true,
      Bool.not_eq_true', bne_iff_ne, beq_iff_eq, List.contains_iff_mem] at hl
    obtain ⟨⟨⟨hdigit, hquote⟩, hminus⟩, hword⟩ := hl
    refine ⟨c, text, rfl, hdigit, hquote, fun hc => hminus.resolve_left (not_not_intro hc), ?_⟩
    intro hc
    refine hword.resolve_left ?_
    rw [hc]
    simp

theorem isWord_of_mem_words {l : Lexeme} (h : l ∈ words) {c : Char} (hc : c ∈ l.spelling) :
    isWord c = true := by
  have hcheck : ∀ l ∈ words, l.spelling.all isWord = true := by decide
  exact List.all_eq_true.mp (hcheck l h) c hc

/-- No fixed lexeme is read off the front of a name whose word ends there. -/
theorem readFixed?_of_isName {text rest : List Char} (h : IsName text)
    (hrest : startsWith isWord rest = false) : readFixed? (text ++ rest) = none := by
  cases hread : readFixed? (text ++ rest) with
  | none => rfl
  | some found =>
    obtain ⟨l, left⟩ := found
    obtain ⟨hmem, happend, hmay⟩ := readFixed?_eq_some hread
    have hl : l ∈ words := by
      obtain ⟨first, others, htext, hfirst, _⟩ := h.shape
      obtain ⟨c, spelled, hspelling, _, _, _, hword⟩ := head_of_mem_fixed hmem
      rw [hspelling, htext, List.cons_append, List.cons_append] at happend
      exact hword ((List.cons.inj happend).1 ▸ hfirst)
    have hne : l.spelling ≠ text := fun heq => h.notWord (List.mem_map.mpr ⟨l, hl, heq⟩)
    rw [mayPrecede_of_mem_words hl] at hmay
    rcases List.append_eq_append_iff.mp happend with ⟨more, hmore, hleft⟩ | ⟨more, hmore, hleft⟩
    · -- the name goes on where the fixed word ends, which may not end there
      cases more with
      | nil => exact absurd (hmore.trans (List.append_nil _)).symm hne
      | cons w more =>
        have hw : isWord w = true := by
          refine h.isWord_of_mem ?_
          rw [hmore]
          exact List.mem_append_right _ List.mem_cons_self
        rw [hleft, List.cons_append, startsWith, hw] at hmay
        exact absurd hmay (by simp)
    · -- the fixed word goes on with a character that is in no word
      cases more with
      | nil => exact absurd (hmore.trans (List.append_nil _)) hne
      | cons w more =>
        have hw : isWord w = true := by
          refine isWord_of_mem_words hl ?_
          rw [hmore]
          exact List.mem_append_right _ List.mem_cons_self
        rw [hleft, List.cons_append, startsWith, hw] at hrest
        exact absurd hrest (by simp)

/-- No fixed lexeme begins with a digit or a quote. -/
theorem readFixed?_of_cons {c : Char} {text : List Char} (h : c.isDigit = true ∨ c = '"') :
    readFixed? (c :: text) = none := by
  cases hread : readFixed? (c :: text) with
  | none => rfl
  | some found =>
    obtain ⟨hmem, happend, _⟩ := readFixed?_eq_some hread
    obtain ⟨c', spelled, hspelling, hdigit, hquote, _⟩ := head_of_mem_fixed hmem
    rw [hspelling, List.cons_append, List.cons.injEq] at happend
    rcases h with hc | hc
    · rw [← happend.1, hdigit] at hc
      exact absurd hc (by simp)
    · exact absurd (happend.1.trans hc) hquote

/-- No fixed lexeme is read where a minus sign stands before a digit. -/
theorem readFixed?_of_minus {d : Char} {text : List Char} (h : d.isDigit = true) :
    readFixed? ('-' :: d :: text) = none := by
  cases hread : readFixed? ('-' :: d :: text) with
  | none => rfl
  | some found =>
    obtain ⟨l, rest⟩ := found
    obtain ⟨hmem, happend, hmay⟩ := readFixed?_eq_some hread
    obtain ⟨c, spelled, hspelling, _, _, hminus, _⟩ := head_of_mem_fixed hmem
    have hc : c = '-' := by
      rw [hspelling, List.cons_append, List.cons.injEq] at happend
      exact happend.1
    obtain rfl := hminus hc
    obtain rfl : rest = d :: text := by simpa [spelling, Mark.text] using happend
    simp [mayPrecede, startsWith, h] at hmay

theorem takeWhile_append_of_startsWith {p : Char → Bool} {text rest : List Char}
    (htext : ∀ c ∈ text, p c = true) (hrest : startsWith p rest = false) :
    (text ++ rest).takeWhile p = text ∧ (text ++ rest).dropWhile p = rest := by
  have hstop : rest.takeWhile p = [] ∧ rest.dropWhile p = rest := by
    cases rest with
    | nil => exact ⟨rfl, rfl⟩
    | cons c rest =>
      have hc : ¬p c = true := by simpa [startsWith] using hrest
      exact ⟨List.takeWhile_cons_of_neg hc, List.dropWhile_cons_of_neg hc⟩
  rw [List.takeWhile_append_of_pos htext, List.dropWhile_append_of_pos htext, hstop.1, hstop.2]
  exact ⟨List.append_nil _, rfl⟩

theorem readName?_of_isName {text rest : List Char} (h : IsName text)
    (hrest : startsWith isWord rest = false) :
    readName? (text ++ rest) = some (.name text, rest) := by
  obtain ⟨first, others, rfl, hfirst, hothers⟩ := h.shape
  obtain ⟨htake, hdrop⟩ := takeWhile_append_of_startsWith hothers hrest
  rw [List.cons_append, readName?, if_pos hfirst, htake, hdrop]

/-- A name is read back where its word ends. -/
theorem read?_name {text rest : List Char} (h : IsName text)
    (hrest : startsWith isWord rest = false) :
    read? (text ++ rest) = some (.name text, rest) := by
  rw [read?, readFixed?_of_isName h hrest, readName?_of_isName h hrest]
  rfl

theorem startsName_eq_false_of_isDigit {c : Char} (h : c.isDigit = true) :
    startsName c = false := by
  have hbounds : 48 ≤ c.toNat ∧ c.toNat ≤ 57 := by
    simpa [Char.isDigit, UInt32.le_iff_toNat_le] using h
  have hlow : ¬ 'a' ≤ c := by
    rw [Char.le_def, UInt32.le_iff_toNat_le]
    show ¬97 ≤ c.toNat
    omega
  simp [startsName, hlow]

theorem readString?_of_notMem {inner rest : List Char} (h : '"' ∉ inner) :
    readString? ('"' :: inner ++ ['"'] ++ rest) = some (.string inner, rest) := by
  have hinner : ∀ c ∈ inner, (c != '"') = true := by
    intro c hc
    rw [bne_iff_ne]
    rintro rfl
    exact h hc
  have hquote : startsWith (· != '"') ('"' :: rest) = false := by simp [startsWith]
  obtain ⟨htake, hdrop⟩ := takeWhile_append_of_startsWith hinner hquote
  simp only [List.cons_append, List.append_assoc, List.nil_append, readString?, htake, hdrop]

theorem readDigits?_of_digits {negative : Bool} {digits rest : List Char} (hne : digits ≠ [])
    (hdigits : ∀ d ∈ digits, d.isDigit = true) (hrest : startsWith Char.isDigit rest = false) :
    readDigits? negative (digits ++ rest) = some (.int negative digits, rest) := by
  obtain ⟨htake, hdrop⟩ := takeWhile_append_of_startsWith hdigits hrest
  rw [readDigits?, htake, hdrop]
  cases digits with
  | nil => exact absurd rfl hne
  | cons d digits => rfl

/-- An integer is read back where no digit follows. -/
theorem read?_int {negative : Bool} {digits rest : List Char}
    (h : (Lexeme.int negative digits).WellFormed) (hrest : startsWith Char.isDigit rest = false) :
    read? ((Lexeme.int negative digits).spelling ++ rest) = some (.int negative digits, rest) := by
  obtain ⟨hne, hdigits⟩ := h
  obtain ⟨d, others, rfl⟩ := List.exists_cons_of_ne_nil hne
  have hd := hdigits d (List.mem_cons_self ..)
  have hquote : d ≠ '"' := by
    rintro rfl
    exact absurd hd (by decide)
  have hsign : d ≠ '-' := by
    rintro rfl
    exact absurd hd (by decide)
  cases negative with
  | true =>
    have hread : readInt? ('-' :: (d :: others ++ rest)) = some (.int true (d :: others), rest) :=
      readDigits?_of_digits hne hdigits hrest
    have hname : readName? ('-' :: (d :: others ++ rest)) = none := by
      rw [readName?, if_neg (by decide)]
    have hstring : readString? ('-' :: (d :: others ++ rest)) = none := by
      simp [readString?]
    have hnone : readFixed? ('-' :: (d :: others ++ rest)) = none := readFixed?_of_minus hd
    rw [spelling, if_pos rfl, List.cons_append, read?, hnone, hname, hstring, hread]
    rfl
  | false =>
    have hread : readInt? (d :: others ++ rest) = some (.int false (d :: others), rest) := by
      have hdefault : readInt? (d :: others ++ rest) =
          readDigits? false (d :: others ++ rest) := by
        simp [readInt?, hsign]
      rw [hdefault]
      exact readDigits?_of_digits hne hdigits hrest
    have hname : readName? (d :: others ++ rest) = none := by
      rw [List.cons_append, readName?, if_neg]
      rw [startsName_eq_false_of_isDigit hd]
      simp
    have hstring : readString? (d :: others ++ rest) = none := by
      simp [readString?, hquote]
    have hnone : readFixed? (d :: others ++ rest) = none := readFixed?_of_cons (Or.inl hd)
    rw [spelling, if_neg (by simp), read?, hnone, hname, hstring, hread]
    rfl

/-- A bool is read back where its word ends. -/
theorem read?_bool (b : Bool) {rest : List Char} (hrest : startsWith isWord rest = false) :
    read? ((Lexeme.bool b).spelling ++ rest) = some (.bool b, rest) := by
  cases b <;> simp [read?, readFixed?, fixed, readThis?, spelling, Mark.text, List.isPrefixOf?,
    mayPrecede, hrest]

/-- A string is read back whatever follows it. -/
theorem read?_string {inner : List Char} (h : '"' ∉ inner) (rest : List Char) :
    read? ((Lexeme.string inner).spelling ++ rest) = some (.string inner, rest) := by
  have hname : readName? ('"' :: inner ++ ['"'] ++ rest) = none := by
    rw [List.cons_append, List.cons_append, readName?, if_neg (by decide)]
  have hnone : readFixed? ('"' :: inner ++ ['"'] ++ rest) = none := by
    rw [List.cons_append, List.cons_append]
    exact readFixed?_of_cons (Or.inr rfl)
  rw [spelling, read?, hnone, hname, readString?_of_notMem h]
  rfl

/-- A well-formed lexeme in front of a gap is read back. -/
theorem read?_spelling {l : Lexeme} (h : l.WellFormed) {rest : List Char} (hrest : AtGap rest) :
    read? (l.spelling ++ rest) = some (l, rest) := by
  have hfixed : ∀ l ∈ fixed, read? (l.spelling ++ rest) = some (l, rest) := by
    intro l hl
    rw [read?, readFixed?_append hrest, readFixed?_spelling hl]
    rfl
  cases l with
  | mark m => exact hfixed _ (mark_mem_fixed m)
  | bool b => exact hfixed _ (bool_mem_fixed b)
  | name text =>
    exact read?_name h (hrest.startsWith_eq_false fun c => isWord_eq_false_of_isBlank)
  | string inner => exact read?_string h rest
  | int negative digits =>
    exact read?_int h (hrest.startsWith_eq_false fun c => isDigit_eq_false_of_isBlank)

end Lexeme
end Scriptlet
