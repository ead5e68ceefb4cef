import SettingsHarvest.Text.Flaw
import SettingsHarvest.Text.Quoted

/-! What stops a reading altogether.

Most things a source can hold that the library cannot make sense of are expected, and are answered
as values. A `Fault` is the other kind: an input that some step has no answer for. It ends the whole
reading of a plugin, and the scan of a tree reports it and goes on with the next plugin. -/
namespace SettingsHarvest

inductive Fault where
  /-- References lead back into themselves through member accesses. -/
  | endlessReference
  /-- An escape names a code point beyond the last one. -/
  | codePointOutOfRange
  /-- An escape names a number that is not even kept as a code point. -/
  | codePointTooLarge
  /-- A text that is no numeral in its base (0: the base its prefix names). -/
  | notInteger (base : Nat) (text : String)
  | notDecimal (text : String)
  /-- A numeral of no characters at all. -/
  | emptyNumeral
  /-- A date or a time that does not exist. -/
  | noSuchMoment (reason : String)
  | notMoment
  /-- A decimal numeral with more digits than are read; their number is not known of an integer that
  would have to be written out first. -/
  | overlongNumeral (digits : Option Nat)
  /-- An integer beyond the largest floating-point number. -/
  | integerTooLarge
  /-- A remainder with an infinite dividend. -/
  | remainderUndefined
  | infiniteToInteger
  | nanToInteger
  /-- A template names a field that is not given. -/
  | missingField (name : String)
  /-- A template asks for a field by position. -/
  | positionalField (index : Nat)
  | template (flaw : Text.TemplateFlaw)
  /-- A template asks for a character behind the last one. -/
  | outsideText
  /-- A key that is not in a mapping. -/
  | missingKey (key : String)
  /-- A value that cannot be indexed, or assigned into, by key. -/
  | notIndexable (kind : String)
  | notAssignable (kind : String)
  | keyIntoText
  | keyIntoList
  /-- A list or a mapping where a key is asked for. -/
  | notKey (kind : String)
  /-- Something that does not have what it is asked for by name. -/
  | noAttribute (kind name : String)
  /-- Something of another kind where the length of a text is asked for. -/
  | noLength (kind : String)
  /-- Configuration keys that should be texts. -/
  | keyNotText (position : Nat) (kind : String)
  | keysNotOrdered (left right : String)
  /-- A directory in the configuration that is no text. -/
  | pathNotText (kind : String)
  /-- An import of a file that is closed. -/
  | closedFile (path : String)
  | noSuchFile (path : String)
  | isDirectory (path : String)
  | notDirectory (path : String)
  | fileExists (path : String)
  /-- Neither plugin directory is there. -/
  | noPluginDirectories (root first second : String)
  | configuration (message : String)
  deriving DecidableEq

/-- Reading that may meet a fault. -/
abbrev Attempt := Except Fault

/-- Decimal numerals longer than this are not read, and not written out either. -/
def longestNumeral : Nat := 4300

def Fault.message : Fault → String
  | endlessReference => "maximum recursion depth exceeded"
  | codePointOutOfRange => "chr() arg not in range(0x110000)"
  | codePointTooLarge => "Python int too large to convert to C int"
  | notInteger base text =>
    s!"invalid literal for int() with base {base}: "
      ++ String.ofList ((Text.quoted text).toList.take 200)
  | notDecimal text => s!"could not convert string to float: {Text.quoted text}"
  | emptyNumeral => "string index out of range"
  | noSuchMoment reason => reason
  | notMoment => "'NoneType' object has no attribute 'groupdict'"
  | overlongNumeral digits =>
    s!"Exceeds the limit ({longestNumeral} digits) for integer string conversion"
      ++ (match digits with
        | some count => s!": value has {count} digits"
        | none => "")
      ++ "; use sys.set_int_max_str_digits() to increase the limit"
  | integerTooLarge => "int too large to convert to float"
  | remainderUndefined => "math domain error"
  | infiniteToInteger => "cannot convert float infinity to integer"
  | nanToInteger => "cannot convert float NaN to integer"
  | missingField name => Text.quoted name
  | positionalField index => s!"Replacement index {index} out of range for positional args tuple"
  | template flaw => flaw.message
  | outsideText => "string index out of range"
  | missingKey key => Text.quoted key
  | notIndexable kind => s!"'{kind}' object is not subscriptable"
  | notAssignable kind => s!"'{kind}' object does not support item assignment"
  | keyIntoText => "string indices must be integers, not 'str'"
  | keyIntoList => "list indices must be integers or slices, not str"
  | notKey kind => s!"unhashable type: '{kind}'"
  | noAttribute kind name => s!"'{kind}' object has no attribute '{name}'"
  | noLength kind => s!"object of type '{kind}' has no len()"
  | keyNotText position kind =>
    s!"sequence item {position}: expected str instance, {kind} found"
  | keysNotOrdered left right =>
    s!"'<' not supported between instances of '{left}' and '{right}'"
  | pathNotText kind =>
    s!"join() argument must be str, bytes, or os.PathLike object, not '{kind}'"
  | closedFile path => s!"closed: {path}"
  | noSuchFile path => s!"[Errno 2] No such file or directory: {Text.quoted path}"
  | isDirectory path => s!"[Errno 21] Is a directory: {Text.quoted path}"
  | notDirectory path => s!"[Errno 20] Not a directory: {Text.quoted path}"
  | fileExists path => s!"[Errno 17] File exists: {Text.quoted path}"
  | noPluginDirectories root first second =>
    s!"No plugin directories found under {root} (looked for {first} and {second})"
  | configuration message => message

end SettingsHarvest
