import TypeExport.Text.Case

/-!
# Names

Two conventions for names.  A member takes its declared name with the leading
run of capitals lowered as one word, so `URLValue` becomes `urlValue`: the last
capital of a run stays when a lower case letter follows it, because it starts
the next word.  The lookup constant of an enumeration takes the English plural
of its name.
-/

namespace TypeExport

open Text (isUpper isLower lowered)

/-- Lowers the leading run of capitals.  `first` says that no capital of the
run was met yet, then the next one is lowered whatever follows it. -/
def lowerLead (first : Bool) : List Char → List Char
  | [] => []
  | c :: rest =>
    if isUpper c then
      if !first && rest.head?.any isLower then c :: rest
      else lowered c ++ lowerLead false rest
    else c :: rest

/-- The lower camel case form of a name. -/
def lowerCamel (s : String) : String := String.ofList (lowerLead true s.toList)

/-- Whether a word, given from its last letter backwards, ends in a sibilant,
whose plural takes `es`. -/
def endsInSibilant : List Char → Bool
  | 's' :: _ | 'x' :: _ | 'z' :: _ => true
  | 'h' :: 'c' :: _ | 'h' :: 's' :: _ => true
  | _ => false

/-- Whether a letter is an ASCII vowel. -/
def isVowel (c : Char) : Bool := c.toLower ∈ ['a', 'e', 'i', 'o', 'u']

/-- The regular English plural.  The sibilant test ignores the case of ASCII
letters, and only a small `y` after something other than a vowel turns into
`ies`. -/
def pluralize (word : String) : String :=
  match word.toList.reverse with
  | [] => ""
  | last :: before =>
    if endsInSibilant ((last :: before).map Char.toLower) then word ++ "es"
    else
      match last, before with
      | 'y', c :: _ =>
        if isVowel c then word ++ "s" else String.ofList before.reverse ++ "ies"
      | _, _ => word ++ "s"

end TypeExport
