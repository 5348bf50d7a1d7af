import TypeExport.Text.EscapeTable

/-!
# Quoted text

The form in which a diagnostic shows a text: in double quotes, with a
backslash before a double quote and before a backslash, short escapes for NUL,
tab, line feed and carriage return, and `\u{hex}` for every other scalar of
the escape table.  An apostrophe stands as it is.
-/

namespace TypeExport.Text

/-- The lower case hexadecimal digits of a number, without leading zeros. -/
def hexDigits (n : Nat) : List Char := Nat.toDigits 16 n

/-- One scalar inside double quotes. -/
def quotedChar (c : Char) : List Char :=
  if c = '"' then ['\\', '"']
  else if c = '\\' then ['\\', '\\']
  else if c = '\x00' then ['\\', '0']
  else if c = '\t' then ['\\', 't']
  else if c = '\n' then ['\\', 'n']
  else if c = '\r' then ['\\', 'r']
  else if isEscaped c then ['\\', 'u', '\x7b'] ++ hexDigits c.toNat ++ ['\x7d']
  else [c]

/-- A text in double quotes. -/
def quoted (s : String) : String :=
  String.ofList ('"' :: s.toList.flatMap quotedChar ++ ['"'])

end TypeExport.Text
