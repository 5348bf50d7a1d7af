/-!
# Blanks

The characters that may stand between tokens, in references and in documents.
No other space is one of them.
-/

namespace TypeExport.Text

/-- Space, tab, line feed and carriage return. -/
def isBlank (c : Char) : Bool := c = ' ' || c = '\t' || c = '\n' || c = '\r'

/-- The text behind its leading blanks. -/
def skipBlanks (cs : List Char) : List Char := cs.dropWhile isBlank

end TypeExport.Text
