import Scriptlet.Text.Characters

/-!
# Gaps

What stands between two tokens: any run of blanks and of comments.  A comment begins with two
slashes and lasts up to the next line feed, which is a blank again, or to the end of the text.

`gap` takes the longest such run off the front of a text and `afterGap` is what is left.  A flag
says whether the text begins inside a comment.
-/

namespace Scriptlet

open Scriptlet.Text

/-- The longest gap at the front of a text. -/
def gap : (inComment : Bool) → List Char → List Char
  | _, [] => []
  | true, c :: text => c :: gap (c != '\n') text
  | false, '/' :: '/' :: text => '/' :: '/' :: gap true text
  | false, c :: text => if isBlank c then c :: gap false text else []

/-- What follows the longest gap. -/
def afterGap : (inComment : Bool) → List Char → List Char
  | _, [] => []
  | true, c :: text => afterGap (c != '\n') text
  | false, '/' :: '/' :: text => afterGap true text
  | false, c :: text => if isBlank c then afterGap false text else c :: text

/-- The gap and what follows it are the whole text. -/
theorem gap_append_afterGap (inComment : Bool) (text : List Char) :
    gap inComment text ++ afterGap inComment text = text := by
  fun_induction gap inComment text with
  | case1 => simp [afterGap]
  | case2 c text ih => simp [afterGap, ih]
  | case3 text ih => simp [afterGap, ih]
  | case4 c text _ blank ih => simp_all [afterGap]
  | case5 c text _ solid => simp_all [afterGap]

end Scriptlet
