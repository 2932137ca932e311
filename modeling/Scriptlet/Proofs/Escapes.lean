import Scriptlet.Proofs.Layout
import Scriptlet.Proofs.SourceTrees
import Scriptlet.Proofs.Tiling

/-!
# Escapes and where they end

Decoding a text has one thing to remember from one character to the next: whether the last one was
a backslash that is still waiting for its letter.  It is after an odd number of backslashes at the
end, and otherwise not, whatever stands before them.  So a text can be cut in two and decoded piece
by piece wherever the first piece does not end in an odd run of backslashes (`decode_append`), and
where it does, the last backslash is dropped (`decode_dropLast`).

A scanner ends a string at the very next quote, and no escape can hide one.  Escaping a text adds no
quote to it and decoding brings none out.  For a text without quotes the scanner and the decoder
therefore fit together: its escaped form between quotes is one token and stands for the text.
-/

namespace Scriptlet
namespace Text.Escape

variable {x y text : List Char} {c : Char}

/-! ## Backslashes at the end -/

/-- How many backslashes a text ends in. -/
def trailingBackslashes (text : List Char) : Nat :=
  (text.reverse.takeWhile (· == '\\')).length

/-- The text ends in an odd run of backslashes. -/
def EndsOddly (text : List Char) : Prop :=
  trailingBackslashes text % 2 = 1

instance : DecidablePred EndsOddly := fun text =>
  inferInstanceAs (Decidable (trailingBackslashes text % 2 = 1))

/-- What stands before a text counts only if the text is nothing but backslashes. -/
theorem trailingBackslashes_append (front text : List Char) :
    trailingBackslashes (front ++ text) =
      if trailingBackslashes text = text.length then text.length + trailingBackslashes front
      else trailingBackslashes text := by
  by_cases hall : trailingBackslashes text = text.length
  · rw [if_pos hall]
    rw [trailingBackslashes] at hall
    rw [trailingBackslashes, List.reverse_append, List.takeWhile_append, List.length_reverse,
      if_pos hall, List.length_append, List.length_reverse]
    rfl
  · rw [if_neg hall]
    rw [trailingBackslashes] at hall
    rw [trailingBackslashes, List.reverse_append, List.takeWhile_append, List.length_reverse,
      if_neg hall]
    rfl

/-- Nor does it count if it has no backslash at its end, or two. -/
theorem endsOddly_append (front : List Char) (h : trailingBackslashes front % 2 = 0) :
    EndsOddly (front ++ text) ↔ EndsOddly text := by
  rw [EndsOddly, EndsOddly, trailingBackslashes_append]
  split
  · omega
  · exact Iff.rfl

theorem endsOddly_cons (h : c ≠ '\\') : EndsOddly (c :: text) ↔ EndsOddly text := by
  refine endsOddly_append [c] ?_
  simp [trailingBackslashes, h]

theorem endsOddly_escape (c : Char) : EndsOddly ('\\' :: c :: text) ↔ EndsOddly text := by
  refine endsOddly_append ['\\', c] ?_
  by_cases hc : c = '\\' <;> simp [trailingBackslashes, hc]

/-- One more backslash makes an odd run even and an even one odd. -/
theorem endsOddly_concat : EndsOddly (text ++ ['\\']) ↔ ¬EndsOddly text := by
  rw [EndsOddly, EndsOddly, trailingBackslashes_append]
  simp [trailingBackslashes]
  omega

theorem EndsOddly.exists_concat (h : EndsOddly x) : ∃ text, x = text ++ ['\\'] := by
  rcases List.eq_nil_or_concat x with rfl | ⟨text, c, rfl⟩
  · exact absurd h (by decide)
  · by_cases hc : c = '\\'
    · exact ⟨text, by rw [hc, List.concat_eq_append]⟩
    · simp [EndsOddly, trailingBackslashes, hc] at h

/-! ## Decoding piece by piece -/

/-- A text that does not end in the middle of an escape is decoded by itself. -/
theorem decode_append (h : ¬EndsOddly x) (y : List Char) :
    decode (x ++ y) = decode x ++ decode y := by
  fun_induction decode x with
  | case1 => rfl
  | case2 => exact absurd (by decide) h
  | case3 c text ih =>
    rw [endsOddly_escape] at h
    rw [List.cons_append, List.cons_append, decode_escape, ih h, List.append_assoc]
  | case4 c text hlone hescape ih =>
    have hc : c ≠ '\\' := by
      rintro rfl
      cases text with
      | nil => exact hlone rfl rfl
      | cons d text => exact hescape d text rfl rfl
    rw [endsOddly_cons hc] at h
    rw [List.cons_append, decode_cons_of_ne hc, ih h, List.cons_append]

/-- A backslash at the end of an odd run stands for nothing. -/
theorem decode_dropLast (h : EndsOddly x) : decode x = decode x.dropLast := by
  obtain ⟨text, rfl⟩ := h.exists_concat
  rw [decode_append (endsOddly_concat.mp h), decode_lone, List.append_nil, List.dropLast_concat]

/-! ## Quotes -/

/-- No quote comes in where only a quote is written with one. -/
theorem quote_notMem_flatMap {f : Char → List Char} (hf : ∀ c, '"' ∈ f c → '"' = c)
    (h : '"' ∉ text) : '"' ∉ text.flatMap f := by
  rw [List.mem_flatMap]
  rintro ⟨c, hc, hquote⟩
  exact h ((hf c hquote).symm ▸ hc)

theorem quote_notMem_encode (h : '"' ∉ text) : '"' ∉ encode text := by
  refine quote_notMem_flatMap (fun c hquote => ?_) h
  unfold encodeChar at hquote
  split at hquote
  case h_5 => exact List.mem_singleton.mp hquote
  all_goals exact absurd hquote (by decide)

theorem quote_notMem_doubleBackslashes (h : '"' ∉ text) : '"' ∉ doubleBackslashes text := by
  refine quote_notMem_flatMap (fun c hquote => ?_) h
  split at hquote
  · exact absurd hquote (by decide)
  · exact List.mem_singleton.mp hquote

/-- A text between quotes. -/
def quoted (inner : List Char) : String :=
  String.ofList ('"' :: inner ++ ['"'])

end Text.Escape

open Text.Escape

/-- A text without quotes is one token between quotes, and the token spans it all. -/
theorem Scanner.drain_quoted {inner : List Char} (h : '"' ∉ inner) :
    (Scanner.ofSource (quoted inner)).drain =
      .ok [.token ⟨0, .string (String.ofList (decode inner)), (quoted inner).utf8ByteSize⟩] := by
  have hwell : (Lexeme.string inner).WellFormed := h
  have hrest : (Scanner.ofSource (quoted inner)).rest = (Lexeme.string inner).spelling ++ [] := by
    rw [List.append_nil]
    exact String.toList_ofList
  obtain ⟨hgap, hafter⟩ := Lexeme.gap_spelling hwell (show Lexeme.AtGap [] from rfl)
  rw [← hrest] at hgap hafter
  have hstart : (Scanner.ofSource (quoted inner)).bytePos = 0 := rfl
  have hsize : utf8Length (Lexeme.string inner).spelling = (quoted inner).utf8ByteSize :=
    utf8Length_eq_utf8ByteSize _
  have hfirst := next_of_spelling hgap (hafter.trans hrest) (fun hline => nomatch hline.2) hwell rfl
    rfl
  rw [hstart, hsize, utf8Length, Nat.add_zero, Nat.zero_add] at hfirst
  have hlast := Feed.next_scanner (next_of_rest_nil (s := (Scanner.ofSource (quoted inner)).next.2)
    (by rw [hfirst]; rfl))
  rw [hfirst] at hlast
  exact drain_of_hands (.token (Feed.next_scanner hfirst) (.finished hlast))

/-- No string that is handed out has a quote in it. -/
theorem Scanner.quote_notMem_of_token {s after : Scanner} {span : Span} {value : String}
    (h : s.next = (.token span, after)) (hvalue : span.token = .string value) :
    '"' ∉ value.toList := by
  rcases token_cases h with ⟨hsemicolon, _⟩ | ⟨lexeme, hread, htoken⟩
  · rw [hsemicolon] at hvalue
    cases hvalue
  · have hsound := Lexeme.sound_token (Lexeme.read?_sound hread).1 htoken
    rwa [hvalue] at hsound

/-- **Decoding undoes escaping, and it is local.**  An escaped text decodes to the text, whether all
four characters are escaped or only backslashes are doubled.  A text that does not end in an odd run
of backslashes is decoded independently of what follows it, and one that does loses the last of
them.  Hence a text without quotes, escaped and put between quotes, is scanned as one string token
that stands for the text and spans it all; and no string token stands for a text with a quote. -/
theorem decoding_undoes_escaping_piece_by_piece :
    (∀ escape ∈ [encode, doubleBackslashes], ∀ text, decode (escape text) = text) ∧
    (∀ x y, ¬EndsOddly x → decode (x ++ y) = decode x ++ decode y) ∧
    (∀ x, EndsOddly x → decode x = decode x.dropLast) ∧
    (∀ escape ∈ [encode, doubleBackslashes], ∀ value : String, '"' ∉ value.toList →
      (Scanner.ofSource (quoted (escape value.toList))).drain =
        .ok [.token ⟨0, .string value, (quoted (escape value.toList)).utf8ByteSize⟩]) ∧
    (∀ (s after : Scanner) (span : Span) (value : String), s.next = (.token span, after) →
      span.token = .string value → '"' ∉ value.toList) := by
  have hundone : ∀ escape ∈ [encode, doubleBackslashes], ∀ text, decode (escape text) = text := by
    simp only [List.forall_mem_cons, List.not_mem_nil, false_implies, implies_true, and_true]
    exact ⟨decode_encode, decode_doubleBackslashes⟩
  have hquote : ∀ escape ∈ [encode, doubleBackslashes], ∀ text, '"' ∉ text → '"' ∉ escape text := by
    simp only [List.forall_mem_cons, List.not_mem_nil, false_implies, implies_true, and_true]
    exact ⟨fun _ => quote_notMem_encode, fun _ => quote_notMem_doubleBackslashes⟩
  refine ⟨hundone, fun x y h => decode_append h y, fun x => decode_dropLast,
    fun escape hescape value hvalue => ?_, fun _ _ _ _ => Scanner.quote_notMem_of_token⟩
  rw [Scanner.drain_quoted (hquote escape hescape _ hvalue), hundone escape hescape,
    String.ofList_toList]

/-- A text of a backslash, a letter and a line feed, and one that ends in three backslashes. -/
theorem backslashText_is_quoted :
    (Scanner.ofSource (quoted (encode "\\n\n".toList))).drain =
      .ok [.token ⟨0, .string "\\n\n", 7⟩] ∧
    decode "\\\\\\".toList = decode "\\\\".toList ∧
    decode ("\\\\".toList ++ "n".toList) = decode "\\\\".toList ++ decode "n".toList := by
  obtain ⟨-, hlocal, hodd, hquoted, -⟩ := decoding_undoes_escaping_piece_by_piece
  refine ⟨?_, hodd _ (by decide), hlocal _ _ (by decide)⟩
  exact hquoted encode List.mem_cons_self "\\n\n" (by decide)

end Scriptlet
