/-!
# Reserved words

Words that cannot be written as a tag or attribute name directly. Such a word
followed by one underscore names the tag or attribute spelled like the word.
-/

namespace TagTree.Text

def reservedWords : List String :=
  ["False", "None", "True", "and", "as", "assert", "async", "await", "break", "class",
    "continue", "def", "del", "elif", "else", "except", "finally", "for", "from", "global",
    "if", "import", "in", "is", "lambda", "nonlocal", "not", "or", "pass", "raise",
    "return", "try", "while", "with", "yield"]

def unreserve (name : String) : String :=
  (reservedWords.find? fun word => word ++ "_" == name).getD name

end TagTree.Text
