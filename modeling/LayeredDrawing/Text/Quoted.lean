import LayeredDrawing.Text.Printable

/-!
# Quoted text

Inside a message a text stands in single quotes, or in double quotes if it holds a single quote and
no double one.  The backslash, the quote in use, newline, return and tab are written with a
backslash and a letter; any other character that is not printable by its code in hexadecimal, of
two, four or eight digits.
-/

namespace LayeredDrawing.Text

def hexDigit (n : Nat) : Char := if n < 10 then Char.ofNat (48 + n) else Char.ofNat (87 + n)

/-- the last `width` hexadecimal digits of `n` -/
def hex : Nat → Nat → List Char
  | 0, _ => []
  | width + 1, n => hex width (n / 16) ++ [hexDigit (n % 16)]

theorem length_hex (width n : Nat) : (hex width n).length = width := by
  induction width generalizing n with
  | zero => rfl
  | succ width ih => simp [hex, ih]

/-- a character as it stands between two of the quotes `quote` -/
def escape (quote c : Char) : List Char :=
  if c = quote ∨ c = '\\' then ['\\', c]
  else if c = '\n' then ['\\', 'n']
  else if c = '\r' then ['\\', 'r']
  else if c = '\t' then ['\\', 't']
  else if isPrintable c then [c]
  else if c.toNat < 0x100 then '\\' :: 'x' :: hex 2 c.toNat
  else if c.toNat < 0x10000 then '\\' :: 'u' :: hex 4 c.toNat
  else '\\' :: 'U' :: hex 8 c.toNat

def quoteFor (l : List Char) : Char := if '\'' ∈ l ∧ '"' ∉ l then '"' else '\''

def quoted (s : String) : String :=
  let l := s.toList
  let quote := quoteFor l
  String.ofList (quote :: l.flatMap (escape quote) ++ [quote])

end LayeredDrawing.Text
