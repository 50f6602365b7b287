/-!
# Blank characters

The characters with the Unicode property `White_Space`, and text made of nothing else. Core's
`Char.isWhitespace` knows four of them; a date may be preceded by any, and a loader version of any
of them counts as empty.
-/

namespace ChartScript.Text

/-- The Unicode property `White_Space`. -/
def isBlank (c : Char) : Bool :=
  let n := c.toNat
  (0x09 ≤ n && n ≤ 0x0d) || n == 0x20 || n == 0x85 || n == 0xa0 || n == 0x1680 ||
    (0x2000 ≤ n && n ≤ 0x200a) || n == 0x2028 || n == 0x2029 || n == 0x202f || n == 0x205f ||
    n == 0x3000

/-- Text that holds blanks only, or nothing. -/
def allBlank (text : String) : Bool :=
  text.toList.all isBlank

end ChartScript.Text
