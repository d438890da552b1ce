/-
What the companion uses of Kotlin's strings, which are lists of characters
here.
-/
import AbkFido.Lib.Indent
import Mathlib.Data.List.DropRight
import Mathlib.Algebra.Group.Nat.Defs

namespace AbkFido

namespace Kotlin

/-- `Char.isWhitespace` -/
def isWhitespace (c : Char) : Bool :=
  let n := c.toNat
  (9 ≤ n && n ≤ 13) || (28 ≤ n && n ≤ 32) || n == 0xA0 || n == 0x1680 || (0x2000 ≤ n && n ≤ 0x200A) || n == 0x2028 ||
    n == 0x2029 || n == 0x202F || n == 0x205F || n == 0x3000

def trim (s : List Char) : List Char := (s.dropWhile isWhitespace).rdropWhile isWhitespace

def isBlank (s : List Char) : Bool := s.all isWhitespace

/-- `equals(ignoreCase = true)` of ASCII texts. -/
def equalsIgnoreCase (s t : List Char) : Bool := s.map Char.toLower == t.map Char.toLower

/-- `toIntOrNull()` of ASCII digits, with or without a sign. -/
def toIntOrNull (s : List Char) : Option Int :=
  let digits := if s.head? = some '-' ∨ s.head? = some '+' then s.tail else s
  let n := Nat.ofDigitChars 10 digits 0
  if digits = [] ∨ ¬ digits.all Char.isDigit then none
  else if s.head? = some '-' then if n ≤ 2 ^ 31 then some (-n) else none
  else if n < 2 ^ 31 then some n else none

/-- Each line end that `lines` knows, as a line feed. -/
def lineFeeds : List Char → List Char
  | [] => []
  | '\r' :: '\n' :: s => '\n' :: lineFeeds s
  | c :: s => (if c = '\r' then '\n' else c) :: lineFeeds s

def lines (s : List Char) : List (List Char) := (lineFeeds s).splitOn '\n'

/-- The first line and the last are left out if they are blank. -/
def trimIndent (s : List Char) : List Char :=
  let lines := lines s
  let minCommonIndent := Indent.common isWhitespace lines
  let lines := if isBlank (lines.headD []) then lines.tail else lines
  let lines := if isBlank (lines.getLastD []) then lines.dropLast else lines
  ['\n'].intercalate (lines.map (·.drop minCommonIndent))

end Kotlin

end AbkFido
