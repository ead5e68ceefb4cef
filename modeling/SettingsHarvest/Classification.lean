import SettingsHarvest.Evidence
import SettingsHarvest.OptionType

/-! From evidence to a target type.

An ordered list of rules: the first one that holds decides, and where none does the setting is a
text. The order is part of the meaning. Choices come first, then the sorts whose type is fixed; only
a setting without a sort, or with one that says nothing about its value, is typed by its default. -/
namespace SettingsHarvest

/-- What the rules look at. -/
structure Observation where
  optionType : Option OptionType
  evidence : Evidence
  choices : Choices

namespace Observation

/-- Whether the sort is one that says nothing about the value. -/
def component (o : Observation) : Bool := o.optionType.any OptionType.isComponent

/-- Whether the type is left to the default. -/
def inferred (o : Observation) : Bool := o.optionType.isNone || o.component

def hasSort (o : Observation) (t : OptionType) : Bool := o.optionType == some t

/-- Whether a setting without a sort has a default of one of some shapes. -/
def declares (o : Observation) (shapes : List Syntax.TypeShape) : Bool :=
  o.optionType.isNone && o.evidence.declaredShape.any shapes.contains

def hasShape (o : Observation) (shapes : List Shape) : Bool := shapes.contains o.evidence.shape

end Observation

namespace Value

def isTruth : Value → Bool
  | truth _ => true
  | _ => false

def isText : Value → Bool
  | text _ => true
  | _ => false

/-- A number that is no integer. -/
def isFractional : Value → Bool
  | decimal x => !x.isInteger
  | _ => false

/-- A number that is an integer. -/
def isWhole (v : Value) : Bool := v.isNumber && !v.isFractional

end Value

/-- Two choices, `true` and `false` in any order. -/
def Choices.areBoolean (c : Choices) : Bool :=
  match c.values with
  | [.truth a, .truth b] => a != b
  | _ => false

structure Rule where
  name : String
  holds : Observation → Bool
  target : TargetType

/-- The rules from first to last. -/
def rules : List Rule :=
  [⟨"boolean-enum", fun o => o.choices.areBoolean, .bool⟩,
   ⟨"enum", fun o => !o.choices.isEmpty, .enum⟩,
   ⟨"boolean", fun o => o.hasSort .boolean, .bool⟩,
   ⟨"string", fun o => o.hasSort .string, .str⟩,
   ⟨"fractional-number",
    fun o => o.hasSort .number && o.evidence.literal.any Value.isFractional, .float⟩,
   ⟨"number", fun o => o.hasSort .number, .int⟩,
   ⟨"bigint", fun o => o.hasSort .bigint, .int⟩,
   ⟨"slider", fun o => o.hasSort .slider, .float⟩,
   ⟨"select", fun o => o.hasSort .select, .str⟩,
   ⟨"string-array", fun o => o.evidence.stringArray, .listOfStr⟩,
   ⟨"object-array", fun o => o.evidence.objectArray && !o.evidence.identifier, .listOfAttrs⟩,
   ⟨"empty-custom-array", fun o => o.evidence.emptyTypedArray && o.hasSort .custom, .listOfAttrs⟩,
   ⟨"empty-typed-array", fun o => o.evidence.emptyTypedArray, .listOfStr⟩,
   ⟨"empty-array", fun o => o.evidence.isEmptyArray, .listOfStr⟩,
   ⟨"declared-boolean", fun o => o.declares [.boolean], .bool⟩,
   ⟨"declared-string", fun o => o.declares [.string], .str⟩,
   ⟨"declared-number", fun o => o.declares [.number], .int⟩,
   ⟨"declared-collection", fun o => o.declares [.array, .component], .attrs⟩,
   ⟨"missing-default",
    fun o => (o.component && o.hasShape [.absent, .null, .getter])
      || (o.optionType.isNone && o.hasShape [.absent, .getter]), .attrs⟩,
   ⟨"component-array", fun o => o.component && o.hasShape [.array], .str⟩,
   ⟨"object-default", fun o => o.inferred && o.hasShape [.object], .attrs⟩,
   ⟨"runtime-bool", fun o => o.inferred && o.evidence.literal.any Value.isTruth, .bool⟩,
   ⟨"runtime-string", fun o => o.inferred && o.evidence.literal.any Value.isText, .str⟩,
   ⟨"runtime-int", fun o => o.inferred && o.evidence.literal.any Value.isWhole, .int⟩,
   ⟨"runtime-float", fun o => o.inferred && o.evidence.literal.any Value.isFractional, .float⟩,
   ⟨"collection-default", fun o => o.optionType.isNone && o.hasShape [.array], .attrs⟩]

/-- The first rule that holds. -/
def matchingRule? (o : Observation) : Option Rule := rules.find? fun r => r.holds o

/-- The target type of a setting. -/
def classify (o : Observation) : TargetType := ((matchingRule? o).map (·.target)).getD .str

end SettingsHarvest
