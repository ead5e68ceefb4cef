/-! What can be wrong with templates and with the layouts in them. -/
namespace SettingsHarvest.Text

/-- What is wrong with a layout. -/
inductive LayoutFlaw where
  | tooManyDigits
  | twoSeparators
  | noPrecision
  | malformed (layout : List Char)
  | separator (mark type : Char)
  | unknownType (t : Char)
  | space
  | sign
  | zeroSign
  | alternate
  | numericAlignment
  deriving DecidableEq

def LayoutFlaw.message : LayoutFlaw → String
  | tooManyDigits => "Too many decimal digits in format string"
  | twoSeparators => "Cannot specify both ',' and '_'."
  | noPrecision => "Format specifier missing precision"
  | malformed layout =>
    "Invalid format specifier '" ++ String.ofList layout ++ "' for object of type 'str'"
  | separator mark t =>
    "Cannot specify '" ++ String.singleton mark ++ "' with '" ++ String.singleton t ++ "'."
  | unknownType t => "Unknown format code '"
      ++ (if ' ' < t && t.toNat < 0x80 then String.singleton t
        else "\\x" ++ String.ofList (Nat.toDigits 16 t.toNat))
      ++ "' for object of type 'str'"
  | space => "Space not allowed in string format specifier"
  | sign => "Sign not allowed in string format specifier"
  | zeroSign => "Negative zero coercion (z) not allowed in string format specifier"
  | alternate => "Alternate form (#) not allowed in string format specifier"
  | numericAlignment => "'=' alignment not allowed in string format specifier"

/-- What is wrong with a template. -/
inductive TemplateFlaw where
  /-- A brace without its partner. -/
  | loneBrace (brace : Char)
  | unclosedField
  | braceInField
  | noConversion
  | unknownConversion (c : Char)
  | behindConversion
  | unclosedLayout
  /-- A step from a text to something in it that names nothing. -/
  | emptyStep
  | unclosedBracket
  | behindBracket
  /-- Layouts in layouts. -/
  | tooDeep
  | layout (flaw : LayoutFlaw)
  deriving DecidableEq

def TemplateFlaw.message : TemplateFlaw → String
  | loneBrace brace => "Single '" ++ String.singleton brace ++ "' encountered in format string"
  | unclosedField => "expected '\x7d' before end of string"
  | braceInField => "unexpected '\x7b' in field name"
  | noConversion => "end of string while looking for conversion specifier"
  | unknownConversion c => "Unknown conversion specifier "
      ++ (if ' ' < c && c.toNat < 0x7f then String.singleton c
        else "\\x" ++ String.ofList (Nat.toDigits 16 c.toNat))
  | behindConversion => "expected ':' after conversion specifier"
  | unclosedLayout => "unmatched '\x7b' in format spec"
  | emptyStep => "Empty attribute in format string"
  | unclosedBracket => "Missing ']' in format string"
  | behindBracket => "Only '.' or '[' may follow ']' in format field specifier"
  | tooDeep => "Max string recursion exceeded"
  | layout flaw => flaw.message

end SettingsHarvest.Text
