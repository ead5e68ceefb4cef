import SettingsHarvest.Text.Printable

/-! Texts shown in messages.

A text is shown between single quotes, or between double quotes when it holds a single quote and no
double one. Backslashes, the quotes in use, line ends and tabs are spelled with a backslash, and so
is every character that cannot be printed, with as many hexadecimal digits as it needs. -/
namespace SettingsHarvest.Text

/-- A number in hexadecimal, padded with zeros to a width. -/
def hex (width n : Nat) : List Char :=
  let digits := (Nat.toDigits 16 n)
  List.replicate (width - digits.length) '0' ++ digits

/-- One character inside a quoted text. -/
def quoteChar (quote c : Char) : List Char :=
  if c == quote || c == '\\' then ['\\', c]
  else if c == '\n' then ['\\', 'n']
  else if c == '\r' then ['\\', 'r']
  else if c == '\t' then ['\\', 't']
  else if isPrintable c then [c]
  else if c.toNat < 0x100 then '\\' :: 'x' :: hex 2 c.toNat
  else if c.toNat < 0x10000 then '\\' :: 'u' :: hex 4 c.toNat
  else '\\' :: 'U' :: hex 8 c.toNat

/-- The quote a text is shown in. -/
def quoteFor (s : List Char) : Char :=
  if s.contains '\'' && !s.contains '"' then '"' else '\''

/-- A text as messages show it. -/
def quoted (s : String) : String :=
  let cs := s.toList
  let q := quoteFor cs
  String.ofList (q :: cs.flatMap (quoteChar q) ++ [q])

/-- A character in ASCII: any other one is spelled with a backslash. -/
def asciiChar (c : Char) : List Char :=
  if c.toNat < 0x80 then [c]
  else if c.toNat < 0x100 then '\\' :: 'x' :: hex 2 c.toNat
  else if c.toNat < 0x10000 then '\\' :: 'u' :: hex 4 c.toNat
  else '\\' :: 'U' :: hex 8 c.toNat

/-- A text as messages show it, in ASCII. -/
def asciiQuoted (s : String) : String := String.ofList ((quoted s).toList.flatMap asciiChar)

end SettingsHarvest.Text
