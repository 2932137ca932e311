/-!
# Escapes in string literals

Between its quotes a string literal may hold two-character escapes, a backslash and a letter.
`decode` replaces them.  It never fails: an escape it does not know stays as written, and a
backslash with nothing behind it is dropped.

`encode` is the way back, and `doubleBackslashes` a plainer one that leaves line breaks and tabs
as they are; `decode_encode` and `decode_doubleBackslashes` say that both are undone by `decode`.
-/

namespace Scriptlet.Text.Escape

/-- What a backslash and `c` stand for. -/
def meaning (c : Char) : List Char :=
  match c with
  | 'n' => ['\n']
  | '\\' => ['\\']
  | 'r' => ['\r']
  | 't' => ['\t']
  | c => ['\\', c]

/-- The text with its escapes replaced. -/
def decode : List Char → List Char
  | [] => []
  | '\\' :: [] => []
  | '\\' :: c :: text => meaning c ++ decode text
  | c :: text => c :: decode text

/-- The written form of one character. -/
def encodeChar (c : Char) : List Char :=
  match c with
  | '\\' => ['\\', '\\']
  | '\n' => ['\\', 'n']
  | '\r' => ['\\', 'r']
  | '\t' => ['\\', 't']
  | c => [c]

/-- The text with backslashes, line feeds, carriage returns and tabs escaped. -/
def encode (text : List Char) : List Char :=
  text.flatMap encodeChar

/-- The text with every backslash written twice, and all else as it is. -/
def doubleBackslashes (text : List Char) : List Char :=
  text.flatMap fun c => if c = '\\' then ['\\', '\\'] else [c]

/-! ## Equations of `decode` -/

@[simp] theorem decode_nil : decode [] = [] := by
  simp [decode]

@[simp] theorem decode_lone : decode ['\\'] = [] := by
  simp [decode]

@[simp] theorem decode_escape (c : Char) (text : List Char) :
    decode ('\\' :: c :: text) = meaning c ++ decode text := by
  simp [decode]

theorem decode_cons_of_ne {c : Char} (h : c ≠ '\\') (text : List Char) :
    decode (c :: text) = c :: decode text := by
  cases text <;> simp [decode, h]

/-- Decoding undoes the escaping of one character, whatever follows it. -/
theorem decode_encodeChar_append (c : Char) (text : List Char) :
    decode (encodeChar c ++ text) = c :: decode text := by
  unfold encodeChar
  split
  · simp [meaning]
  · simp [meaning]
  · simp [meaning]
  · simp [meaning]
  · rename_i h _ _ _
    exact decode_cons_of_ne h text

/-- Escaped text decodes to what was escaped. -/
theorem decode_encode (text : List Char) : decode (encode text) = text := by
  induction text with
  | nil => rfl
  | cons c text ih =>
    rw [encode, List.flatMap_cons, decode_encodeChar_append, ← encode, ih]

/-- Text with doubled backslashes decodes to the text itself. -/
theorem decode_doubleBackslashes (text : List Char) : decode (doubleBackslashes text) = text := by
  induction text with
  | nil => rfl
  | cons c text ih =>
    rw [doubleBackslashes, List.flatMap_cons, ← doubleBackslashes]
    by_cases h : c = '\\'
    · simp [h, meaning, ih]
    · simp [h, decode_cons_of_ne h, ih]

end Scriptlet.Text.Escape
