import VisualBasic.Text.Printable

/-!
# Quoted text

Text between double quotes, in which every character can be seen: quotes, backslashes and the usual
control characters are escaped by a backslash and a character, and whatever else cannot be shown by
its code point in hexadecimal.
-/

namespace VisualBasic.Text

/-- The character in quoted text. -/
def escape (c : Char) : String :=
  match c with
  | '"' => "\\\""
  | '\\' => "\\\\"
  | '\n' => "\\n"
  | '\r' => "\\r"
  | '\t' => "\\t"
  | '\x00' => "\\0"
  | c =>
    if isShowable c then c.toString
    else "\\u\x7b" ++ String.ofList (Nat.toDigits 16 c.toNat) ++ "\x7d"

def quoted (text : List Char) : String := "\"" ++ String.join (text.map escape) ++ "\""

end VisualBasic.Text
