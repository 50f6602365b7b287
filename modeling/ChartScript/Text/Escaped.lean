/-!
# Text shown in a message

Settings that a page cannot hold are shown in an error message in printable ASCII: the usual
backslash pairs for tab, line breaks, quotes and the backslash, and the code point in braces for
everything else that is not printable ASCII.
-/

namespace ChartScript.Text

/-- The shown form of one character. -/
def showChar (c : Char) : List Char :=
  if c = '\t' then ['\\', 't']
  else if c = '\r' then ['\\', 'r']
  else if c = '\n' then ['\\', 'n']
  else if c = '\'' then ['\\', '\'']
  else if c = '"' then ['\\', '"']
  else if c = '\\' then ['\\', '\\']
  else if 0x20 ≤ c.toNat ∧ c.toNat ≤ 0x7e then [c]
  else '\\' :: 'u' :: '\x7b' :: (Nat.toDigits 16 c.toNat ++ ['\x7d'])

/-- Text in printable ASCII. -/
def showEscaped (text : String) : String :=
  String.ofList (text.toList.flatMap showChar)

end ChartScript.Text
