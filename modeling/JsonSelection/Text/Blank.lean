/-!
# Blank characters

White space in the sense of Unicode: the ASCII blanks, the four information
separators, and the separators beyond ASCII. A query is trimmed of these, while
a JSON text knows the four blanks of its format only.
-/

set_option autoImplicit false

namespace JsonSelection

namespace Text

/-- Whether a character is white space. -/
def isBlank (c : Char) : Bool :=
  let n := c.toNat
  (0x09 ≤ n && n ≤ 0x0D) || (0x1C ≤ n && n ≤ 0x20) || n == 0x85 || n == 0xA0 ||
    n == 0x1680 ||
    (0x2000 ≤ n && n ≤ 0x200A) || n == 0x2028 || n == 0x2029 || n == 0x202F || n == 0x205F ||
    n == 0x3000

/-- A text without the blanks at its two ends. A text of blanks alone becomes
empty. -/
def trim (cs : List Char) : List Char :=
  ((cs.dropWhile isBlank).reverse.dropWhile isBlank).reverse

end Text

end JsonSelection
