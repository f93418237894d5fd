/-!
# ASCII case

The language does not tell the case of ASCII letters apart. `Text.foldCase` is the common form of
all spellings of a word.
-/

namespace VisualBasic.Text

/-- The text with every ASCII letter in lower case; other characters stay as they are. -/
def foldCase (text : List Char) : List Char := text.map Char.toLower

@[simp]
theorem length_foldCase (text : List Char) : (foldCase text).length = text.length :=
  List.length_map ..

end VisualBasic.Text
