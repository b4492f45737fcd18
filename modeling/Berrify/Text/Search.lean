/-!
# Searching and replacing in text

`startsWith` and `occursIn` are the two ways in which one text stands in another.
`replaceAll` replaces every occurrence of a pattern, from left to right and without overlap : after
a match the search goes on behind it, and the replacement is not searched again.
-/

namespace Berrify.Text

/-- Whether `text` begins with `lead`. -/
def startsWith (lead text : String) : Bool :=
  lead.toList.isPrefixOf text.toList

/-- Whether the characters of `pattern` stand next to each other somewhere in a list. -/
def occursInChars (pattern : List Char) : List Char → Bool
  | [] => pattern.isEmpty
  | c :: rest => pattern.isPrefixOf (c :: rest) || occursInChars pattern rest

/-- Whether `pattern` occurs in `text`. -/
def occursIn (pattern text : String) : Bool :=
  occursInChars pattern.toList text.toList

/-- `replaceChars pattern value skip text` drops the first `skip` characters, which belong to a
match already replaced, and puts `value` for each occurrence of `pattern` in the rest. -/
def replaceChars (pattern value : List Char) : Nat → List Char → List Char
  | _, [] => []
  | skip + 1, _ :: rest => replaceChars pattern value skip rest
  | 0, c :: rest =>
    if pattern.isPrefixOf (c :: rest) then
      value ++ replaceChars pattern value (pattern.length - 1) rest
    else
      c :: replaceChars pattern value 0 rest

/-- Puts `value` for each occurrence of a non-empty `pattern`; an empty pattern matches nothing. -/
def replaceAll (pattern value text : String) : String :=
  if pattern.isEmpty then text
  else String.ofList (replaceChars pattern.toList value.toList 0 text.toList)

end Berrify.Text
