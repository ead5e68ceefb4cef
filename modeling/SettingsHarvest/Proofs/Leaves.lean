import SettingsHarvest.Extraction
import SettingsHarvest.Proofs.Assignment
import SettingsHarvest.Proofs.Attempt

/-! The settings in a tree, and the object literals they are read from.

Whatever is extracted from an object literal mirrors it: a setting at the end of a path of keys
(`Leaf`) was read from the object literal at the end of that path (`Declares`), by `extractSetting`
alone (`leaf_declared`). What holds of every setting that `extractSetting` answers therefore holds of
every setting in the tree. -/
namespace SettingsHarvest
open Syntax

/-! ### Paths -/

/-- A setting at the end of a path of keys. -/
inductive Leaf : Entries → List String → Setting → Prop where
  | setting {entries : Entries} {key : String} {s : Setting} :
    (key, .setting s) ∈ entries → Leaf entries [key] s
  | group {entries inner : Entries} {key name : String} {path : List String} {s : Setting} :
    (key, .group name inner) ∈ entries → Leaf inner path s → Leaf entries (key :: path) s

/-- An object literal that is the value of a pair with a key. -/
structure Holds (object : Site) (key : String) (inner : Site) : Prop where
  pair : ∃ pair ∈ object.named, pair.hasKind .pair = true ∧ pair.memberKey? = .ok (some key) ∧
    pair.pairValue?.map Site.unwrap = some inner
  isObject : inner.hasKind .object = true

/-- An object literal at the end of a path of keys. -/
inductive Declares : Site → List String → Site → Prop where
  | member {object inner : Site} {key : String} : Holds object key inner → Declares object [key] inner
  | inside {object group inner : Site} {key : String} {path : List String} :
    Holds object key group → Declares group path inner → Declares object (key :: path) inner

/-! ### One level -/

namespace Project

/-- Where an entry comes from: a setting from an object literal under its key, and so does a group. -/
def Comes (p : Project) (group : Site → Attempt Entries) (object : Site) : String × Entry → Prop
  | (key, .setting s) => ∃ o, Holds object key o ∧ p.extractSetting key o = .ok (.ok s)
  | (key, .group _ inner) => ∃ o, Holds object key o ∧ group o = .ok inner

theorem entriesOf_comes {p : Project} {retainHidden : Bool} {group : Site → Attempt Entries}
    {object : Site} {entries : Entries}
    (h : p.entriesOf retainHidden group (object.named.filter (·.hasKind .pair)) = .ok entries) :
    ∀ entry ∈ entries, p.Comes group object entry := by
  refine foldlM_preserves (P := fun es => ∀ entry ∈ es, p.Comes group object entry) h nofun ?_
  intro pair hpair es es' hstep hes
  obtain ⟨hnamed, hkind⟩ := List.mem_filter.1 hpair
  obtain ⟨key?, hkey, hstep⟩ := bind_eq_ok.1 hstep
  split at hstep
  · next key inner hvalue =>
    split at hstep
    · cases pure_eq_ok.1 hstep
      exact hes
    · next hobject =>
      have hholds : Holds object key inner :=
        ⟨⟨pair, hnamed, hkind, hkey, hvalue⟩, by simpa using hobject⟩
      obtain ⟨flag, hflag, hstep⟩ := bind_eq_ok.1 hstep
      split at hstep
      · cases pure_eq_ok.1 hstep
        exact hes
      · obtain ⟨isGroup, hgroup, hstep⟩ := bind_eq_ok.1 hstep
        split at hstep
        · obtain ⟨members, hmembers, hstep⟩ := bind_eq_ok.1 hstep
          cases pure_eq_ok.1 hstep
          have hcomes : p.Comes group object (key, .group key members) :=
            ⟨inner, hholds, hmembers⟩
          exact forall_mem_assign hcomes hes
        · obtain ⟨outcome, houtcome, hstep⟩ := bind_eq_ok.1 hstep
          cases outcome with
          | ok s =>
            cases pure_eq_ok.1 hstep
            have hcomes : p.Comes group object (key, .setting s) := ⟨inner, hholds, houtcome⟩
            exact forall_mem_assign hcomes hes
          | error f =>
            cases pure_eq_ok.1 hstep
            exact hes
  · cases pure_eq_ok.1 hstep
    exact hes

/-! ### One setting -/

/-- A setting that was read from an object literal, with the inspection that decided it. -/
structure Reads (p : Project) (object : Site) (s : Setting) (i : Inspection) : Prop where
  inspected : p.inspect object = .ok i
  resolved : p.resolveDefault object (classify i.observation) i.evidence i.choices i.sort? =
    .ok (s.target, s.default)
  choices : s.choices = if s.target = .enum then some i.choices.values else none
  labels : s.labels =
    if s.target = .enum ∧ i.choices.labels.isEmpty = false then some i.choices.labels else none
  chosen : s.target = .enum → i.choices.isEmpty = false ∧ s.default.isSome = true

theorem extractSetting_reads {p : Project} {name : String} {object : Site} {s : Setting}
    (h : p.extractSetting name object = .ok (.ok s)) : s.name = name ∧ ∃ i, p.Reads object s i := by
  obtain ⟨i, hi, h⟩ := bind_eq_ok.1 h
  split at h
  · cases pure_eq_ok.1 h
  · obtain ⟨⟨target, default⟩, hresolved, h⟩ := bind_eq_ok.1 h
    dsimp only at h
    split at h
    · cases pure_eq_ok.1 h
    · next hchoices =>
      split at h
      · cases pure_eq_ok.1 h
      · next hdefault =>
        obtain ⟨description, -, h⟩ := bind_eq_ok.1 h
        obtain ⟨example?, -, h⟩ := bind_eq_ok.1 h
        obtain ⟨hidden, -, h⟩ := bind_eq_ok.1 h
        obtain ⟨restartNeeded, -, h⟩ := bind_eq_ok.1 h
        cases Except.ok.inj (pure_eq_ok.1 h)
        refine ⟨rfl, i, hi, hresolved, ?_, ?_, ?_⟩
        · by_cases ht : target = .enum <;> simp [ht]
        · by_cases ht : target = .enum <;> simp [ht]
        · rintro rfl
          exact ⟨by simpa using hchoices, by simpa [Option.isSome_iff_ne_none] using hdefault⟩

/-- What was inspected, one by one. -/
theorem inspect_parts {p : Project} {object : Site} {i : Inspection} (h : p.inspect object = .ok i) :
    p.optionTypeOf object = .ok i.optionType ∧ p.choicesOf object = .ok i.choices ∧
      p.inspectDefault object = .ok i.evidence := by
  obtain ⟨optionType, htype, h⟩ := bind_eq_ok.1 h
  obtain ⟨choices, hchoices, h⟩ := bind_eq_ok.1 h
  obtain ⟨evidence, hevidence, h⟩ := bind_eq_ok.1 h
  cases pure_eq_ok.1 h
  exact ⟨htype, hchoices, hevidence⟩

/-! ### Trees -/

theorem leaf_declared_within {p : Project} {retainHidden : Bool} {depth : Nat} {object : Site}
    {entries : Entries} {path : List String} {s : Setting}
    (h : p.extractWithin retainHidden depth object = .ok entries) (hleaf : Leaf entries path s) :
    ∃ o, Declares object path o ∧ p.extractSetting s.name o = .ok (.ok s) := by
  induction depth generalizing object entries path with
  | zero =>
    cases h
    cases hleaf <;> contradiction
  | succ depth ih =>
    have hcomes := entriesOf_comes h
    cases hleaf with
    | setting hmem =>
      obtain ⟨o, hholds, hread⟩ := hcomes _ hmem
      rw [← (extractSetting_reads hread).1] at hread
      exact ⟨o, .member hholds, hread⟩
    | group hmem hleaf =>
      obtain ⟨g, hholds, hgroup⟩ := hcomes _ hmem
      obtain ⟨o, hdeclares, hread⟩ := ih hgroup hleaf
      exact ⟨o, .inside hholds hdeclares, hread⟩

/-- **Settings mirror their literals.** A setting in a tree was read from the object literal at the end
of its path. -/
theorem leaf_declared {p : Project} {retainHidden : Bool} {object : Site} {entries : Entries}
    {path : List String} {s : Setting} (h : p.extract object retainHidden = .ok entries)
    (hleaf : Leaf entries path s) :
    ∃ o i, Declares object path o ∧ p.Reads o s i := by
  obtain ⟨o, hdeclares, hread⟩ := leaf_declared_within h hleaf
  obtain ⟨-, i, hreads⟩ := extractSetting_reads hread
  exact ⟨o, i, hdeclares, hreads⟩

end Project

/-! ### Literals by hand -/

/-- A pair of an object literal. -/
def pairLiteral (key : String) (value : Node) : Node :=
  .tree .pair none
    [.leaf .propertyIdentifier (some .key) "" key, .token none "" ":", value.withRole .value]

def objectLiteral (members : List Node) : Node :=
  .tree .object none (.token none "" "\x7b" :: members ++ [.token none "" "\x7d"])

def arrayLiteral (elements : List Node) : Node :=
  .tree .array none (.token none "" "[" :: elements ++ [.token none "" "]"])

def textLiteral (text : String) : Node := .leaf .string none "" ("\"" ++ text ++ "\"")

def trueLiteral : Node := .leaf .trueLiteral none "" "true"

/-! ### Programs by hand -/

/-- A literal that stands for itself, with nothing around it. -/
def siteOf (literal : Node) : Site := ⟨"/project/settings.ts", [], literal⟩

/-- The variable of a name, with an initializer. -/
def variableNode (name : String) (value : Node) : Node :=
  .tree .variableDeclarator none
    [.leaf .identifier (some .name) " " name, .token none " " "=", value.withRole .value]

def constantNode (blank name : String) (value : Node) : Node :=
  .tree .lexicalDeclaration none
    [.token (some .kind) blank "const", variableNode name value, .token none "" ";"]

/-- The call `probe(…)` on a line of its own. -/
def probeNode (argument : Node) : Node :=
  .tree .expressionStatement none
    [.tree .callExpression none
      [.leaf .identifier (some .function) "\n" "probe",
       .tree .arguments (some .arguments) [.token none "" "(", argument, .token none "" ")"]],
     .token none "" ";"]

/-- The first argument of the first call in a program. -/
def firstArgument? (program : Node) : Option Site :=
  ((siteOf program).walk.find? (·.hasKind .arguments)).bind (·.named.head?)

/-- The value of a variable of a program. -/
def valueIn (program : Node) (blank name : String) (value : Node) : Site :=
  ⟨(siteOf program).file, [variableNode name value, constantNode blank name value, program],
    value.withRole .value⟩

/-- A project without files. -/
def bareProject : Project where
  workingDirectory := "/"
  root := "/project"
  aliases := .ok []
  enums := Project.platformEnums
  lookups := []
  known := []
  readable := []
  closed := []

end SettingsHarvest
