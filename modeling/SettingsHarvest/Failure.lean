import SettingsHarvest.Value

/-! Why something in a source has no value.

Most settings hold something that cannot be worked out without running the program. That is expected,
and is an answer like any other: a `Failure` says which of seven kinds it is of and what it is about,
and whoever asked decides whether it matters. -/
namespace SettingsHarvest

inductive FailureKind where
  | unresolvedIdentifier
  | unresolvableAccess
  | nonNumericOperand
  | unsupportedOperator
  | unsupportedExpressionKind
  | unsupportedPattern
  | missingRequiredProperty
  deriving DecidableEq

def FailureKind.name : FailureKind → String
  | unresolvedIdentifier => "UnresolvedIdentifier"
  | unresolvableAccess => "UnresolvableAccess"
  | nonNumericOperand => "NonNumericOperand"
  | unsupportedOperator => "UnsupportedOperator"
  | unsupportedExpressionKind => "UnsupportedExpressionKind"
  | unsupportedPattern => "UnsupportedPattern"
  | missingRequiredProperty => "MissingRequiredProperty"

inductive Failure where
  /-- References lead on beyond the depth an evaluation goes to. -/
  | tooDeep (text : String)
  /-- An expression of a form that is never constant. -/
  | notAConstantForm (type : String)
  /-- A template with gaps. -/
  | substitutions
  | unreadableNumber (text : String)
  /-- A name nothing is known about. -/
  | unresolvedName (name : String)
  /-- A name whose expression has no value. -/
  | notConstant (name : String) (cause : Failure)
  | unresolvedMember (base member : String)
  | unresolvedElement (text : String)
  | unsupportedBinary (operator : String)
  | unsupportedUnary (operator : String)
  | binaryOperands (text : String)
  | unaryOperand (text : String)
  | divisionByZero (text : String)
  | notFinite (text : String)
  | overflow (text : String)
  /-- An option object without a value. -/
  | noOptionValue
  /-- A list of options none of which has a value. -/
  | noConstantElements (causes : List Failure)
  /-- A list of option objects none of which has a value; in some the value is missing. -/
  | noOptionObjects (valueMissing : Bool)
  | unresolvedSpread (text : String)
  /-- A callback that takes its parameter apart. -/
  | destructuredParameter
  /-- A callback that does not answer an object literal. -/
  | callbackBody
  | noCallbackValues
  | listFromNothing
  | listFromUnknown
  | listFromObjects
  | unresolvedTable (text : String)
  | emptyTable
  | unsupportedOptions (type : String)
  | unknownOptionType (value : Value)
  | unresolvedOptionType (text : String)
  | noChoices (setting : String)
  | noDefault (setting : String)

namespace Failure

def kind : Failure → FailureKind
  | tooDeep _ | unresolvedName _ | notConstant _ _ | unresolvedSpread _ | unresolvedTable _
  | unresolvedOptionType _ => .unresolvedIdentifier
  | unresolvedMember _ _ | unresolvedElement _ => .unresolvableAccess
  | binaryOperands _ | unaryOperand _ | divisionByZero _ | notFinite _ | overflow _ =>
    .nonNumericOperand
  | unsupportedBinary _ | unsupportedUnary _ => .unsupportedOperator
  | notAConstantForm _ | substitutions | unreadableNumber _ => .unsupportedExpressionKind
  | noConstantElements _ | destructuredParameter | callbackBody | noCallbackValues
  | listFromUnknown | listFromObjects | emptyTable | unsupportedOptions _ | unknownOptionType _
  | noChoices _ => .unsupportedPattern
  | noOptionValue | listFromNothing | noDefault _ => .missingRequiredProperty
  | noOptionObjects valueMissing =>
    if valueMissing then .missingRequiredProperty else .unsupportedPattern

mutual
def message : Failure → String
  | tooDeep text => s!"Reference chain too deep at '{text}'"
  | notAConstantForm type => s!"Cannot evaluate node of type {type}"
  | substitutions => "Template literals with substitutions are not constant"
  | unreadableNumber text => s!"Unrecognized numeric literal {text}"
  | unresolvedName name => s!"Cannot resolve identifier: {name}"
  | notConstant name cause =>
    s!"Identifier {name} does not resolve to a constant (" ++ cause.kind.name ++ ": "
      ++ message cause ++ ")"
  | unresolvedMember base member => s!"Cannot resolve property access: {base}.{member}"
  | unresolvedElement text => s!"Cannot resolve element access: {text}"
  | unsupportedBinary operator => s!"Unsupported binary operator: {operator}"
  | unsupportedUnary operator => s!"Unsupported unary operator: {operator}"
  | binaryOperands text => s!"Binary expression operands must be numbers: {text}"
  | unaryOperand text => s!"Unary operand must be a number: {text}"
  | divisionByZero text => s!"Division by zero in {text}"
  | notFinite text => s!"{text} is not a finite number"
  | overflow text => s!"{text} overflows"
  | noOptionValue => "Missing 'value' property in option object"
  | noConstantElements causes => "No evaluable elements: " ++ messages causes
  | noOptionObjects _ => "No evaluable option objects in array"
  | unresolvedSpread text => s!"Cannot resolve spread element {text}"
  | destructuredParameter => "Destructured map() parameters are not supported"
  | callbackBody => "map() callback must return an object literal"
  | noCallbackValues => "map() callback produced no constant values"
  | listFromNothing => "Array.from() requires at least one argument"
  | listFromUnknown => "Array.from() pattern not supported for this argument type"
  | listFromObjects => "Array.from() over non-literal elements"
  | unresolvedTable text => s!"Cannot resolve lookup table {text}"
  | emptyTable => "Lookup table has no entries"
  | unsupportedOptions type => s!"Unsupported options expression: {type}"
  | unknownOptionType value => s!"Unknown option type value {value.shown}"
  | unresolvedOptionType text => s!"Cannot resolve option type {text}"
  | noChoices setting => s!"Setting '{setting}' has no choices"
  | noDefault setting => s!"Setting '{setting}' has no default"

/-- Failures with their kinds, one behind the other. -/
def messages : List Failure → String
  | [] => ""
  | [f] => f.kind.name ++ ": " ++ message f
  | f :: rest => f.kind.name ++ ": " ++ message f ++ "; " ++ messages rest
end

/-- A failure with its kind in front. -/
def shown (f : Failure) : String := f.kind.name ++ ": " ++ f.message

end Failure
end SettingsHarvest
