import SettingsHarvest.Proofs.LookupTables
import SettingsHarvest.Proofs.RestyledScopes

/-! Wrappers around expressions.

Parentheses, `as T`, `satisfies T`, `<T>x` and `x!` do not change what an expression comes to, wherever in
the files they are added: around operands, the bases and indices of accesses, initializers, members of
enumerations, properties and elements (`wrappers_transparent`).

What they can change is what a function takes: every name among its parameters counts as one of them,
those in the types of default values too. So a type around a default value can hide a constant from the
body of the function (`wrapped_default_hides_constant`). -/
namespace SettingsHarvest
open Syntax

/-- Wrappers of every sort around every expression. -/
def wrapping : Style := ⟨fun _ _ _ => True, Node.KeepsTexts⟩

/-- The same, as long as no name comes to be among the parameters of a function, or is gone from
them. -/
def wrappingWithin : Style := ⟨fun _ _ _ => True, Node.KeepsSpelling⟩

/-- **Wrappers are transparent.** In a project where wrappers were added anywhere, a corresponding
expression has the same value, or none for a reason of the same kind. -/
theorem wrappers_transparent {p p' : Project} (hp : p.Restyled wrappingWithin p')
    (henums : p.PlainEnums) {s s' : Site} (hs : s.unwrap.Restyled wrappingWithin s'.unwrap)
    {b b' : Bindings} (hb : Bindings.Alike (Site.Restyled wrappingWithin) b b') :
    Parallel (Outcome.Alike Eq) (p.evaluate s b) (p'.evaluate s' b') :=
  (hp.correspondence (fun _ _ h => h) henums).evaluateWithin _ s s' b b' hs hb

/-! ### Wrapped trees by hand -/

namespace Syntax

variable {σ : Style} {k : Kind} {n n' : Node} {rest rest' : List Node}

/-- A part as it was, or restyled inside. -/
theorem RestyledParts.part (h : Restyled σ n n') (hrole : n.role? = n'.role?)
    (hspelling : n.isSpelling k = false) (hrest : RestyledParts σ k rest rest') :
    RestyledParts σ k (n :: rest) (n' :: rest') :=
  .cons hrole (.same h fun htrue => absurd htrue (by rw [hspelling]; decide)) hrest

theorem RestyledParts.token {r : Option Role} {b b' t : String} (hrest : RestyledParts σ k rest rest') :
    RestyledParts σ k (.token r b t :: rest) (.token r b' t :: rest') :=
  .cons rfl (.same .token fun _ => rfl) hrest

theorem RestyledParts.leaf {kind : Kind} {r : Option Role} {b b' t : String}
    (hrest : RestyledParts σ k rest rest') :
    RestyledParts σ k (.leaf kind r b t :: rest) (.leaf kind r b' t :: rest') :=
  .cons rfl (.same .leaf fun _ => rfl) hrest

/-- Where nothing is added, all texts stay what they are. -/
theorem restyled_self (h : n.walk.all Node.isRegular = true) : Restyled wrapping n n :=
  .refl n fun m hm => ⟨fun _ => rfl, fun _ => rfl, List.all_eq_true.1 h m hm⟩

/-- A node with a blank, operator, bracket or other mark somewhere in its tokens. -/
def Node.holdsMark (n : Node) : Bool := n.pieces.any fun piece => !isPlainName piece.2

theorem Node.isPlainName_text (h : n.holdsMark = true) : isPlainName n.text = false := by
  obtain ⟨⟨blank, t⟩, hpiece, hmark⟩ := List.any_eq_true.1 h
  rw [isPlainName, Bool.not_eq_true', List.all_eq_false] at hmark
  obtain ⟨c, hc, hno⟩ := hmark
  exact List.all_eq_false.2 ⟨c, mem_joinPieces hpiece hc, hno⟩

/-- Two nodes that are no words, with texts that are no names. -/
def Node.areMarked (n n' : Node) : Bool :=
  !n.isWord && n.holdsMark && n'.holdsMark && n.isRegular

theorem Node.KeepsTexts.of_marked (h : n.areMarked n' = true) : n.KeepsTexts n' := by
  simp only [areMarked, Bool.and_eq_true, Bool.not_eq_true'] at h
  obtain ⟨⟨⟨hword, hmark⟩, hmark'⟩, hregular⟩ := h
  refine ⟨fun htrue => ?_, fun htrue => ?_, hregular⟩
  · cases hword.symm.trans htrue
  · rw [isPlainName_text hmark, isPlainName_text hmark'] at htrue
    rcases htrue with htrue | htrue <;> cases htrue

theorem Node.KeepsSpelling.of_marked (h : n.areMarked n' = true)
    (hfunction : n.kind?.any Kind.isFunction = false) : n.KeepsSpelling n' where
  toKeepsTexts := .of_marked h
  parameters htrue := absurd (hfunction.symm.trans htrue) Bool.false_ne_true

end Syntax

/-- Parentheses around an expression. -/
def parenthesesNode (blank : String) (inner : Node) : Node :=
  .tree .parenthesizedExpression none [.token none blank "(", inner, .token none "" ")"]

/-- An assertion of a type. -/
def asNode (inner type : Node) : Node :=
  .tree .asExpression none [inner, .token none " " "as", type]

def typeWord (type : String) : Node := .leaf .predefinedType none " " type

/-- The type of a constant. -/
def typeofNode (name : String) : Node :=
  .tree .typeQuery none [.token none " " "typeof", .leaf .identifier none " " name]

/-- A node that declares no variables. -/
abbrev Syntax.Node.IsSilent (n : Node) : Prop :=
  n.Throughout fun m => m.hasKind .variableDeclarator = false

theorem isSilent_typeWord (type : String) : (typeWord type).IsSilent := List.forall_mem_singleton.2 rfl

theorem isSilent_typeof (name : String) : (typeofNode name).IsSilent :=
  List.forall_mem_cons.2 ⟨rfl, List.forall_mem_cons.2 ⟨rfl, List.forall_mem_singleton.2 rfl⟩⟩

theorem wraps_parentheses {blank : String} {inner : Node} (h : inner.isNamedPart = true)
    (r : Option Role) : inner.Wraps (.tree .parenthesizedExpression r
      [.token none blank "(", inner, .token none "" ")"]) := by
  refine @Node.Wraps.around _ _ [.token none blank "("] [.token none "" ")"] _ rfl h ?_ ?_
  · exact List.forall_mem_singleton.2 rfl
  · exact List.forall_mem_cons.2 ⟨List.forall_mem_singleton.2 rfl,
      List.forall_mem_singleton.2 (List.forall_mem_singleton.2 rfl)⟩

theorem wraps_as {inner type : Node} (h : inner.isNamedPart = true)
    (htype : type.IsSilent) : inner.Wraps (asNode inner type) := by
  refine @Node.Wraps.around _ _ [] _ _ rfl h nofun ?_
  exact List.forall_mem_cons.2 ⟨List.forall_mem_singleton.2 rfl, List.forall_mem_singleton.2 htype⟩

/-! ### A wrapped initializer and a wrapped operand -/

/-- A product of a constant and a number. -/
def productNode (left : Node) : Node :=
  .tree .binaryExpression none
    [left.withRole .left, .token (some .operator) " " "*", .leaf .number (some .right) " " "2"]

/-- The parts of a probe. -/
def probeArguments (argument : Node) : Node :=
  .tree .arguments (some .arguments) [.token none "" "(", argument, .token none "" ")"]

def probeCall (argument : Node) : Node :=
  .tree .callExpression none [.leaf .identifier (some .function) "\n" "probe", probeArguments argument]

/-- The argument of the probe that ends a program. -/
def probedSite (program argument : Node) : Site :=
  ⟨(siteOf program).file, [probeArguments argument, probeCall argument, probeNode argument, program],
    argument⟩

def productProgram (one left : Node) : Node :=
  .tree .program none [constantNode "" "a" one, probeNode (productNode left)]

def plainProduct : Node :=
  productProgram (.leaf .number none " " "1") (.leaf .identifier none "" "a")

def wrappedProduct : Node :=
  productProgram (parenthesesNode " " (asNode (.leaf .number none "" "1") (typeWord "number")))
    (parenthesesNode "" (.leaf .identifier none "" "a"))

theorem wrapped_product :
    parse .plain "const a = 1;\nprobe(a * 2);" = plainProduct ∧
    parse .plain "const a = (1 as number);\nprobe((a) * 2);" = wrappedProduct ∧
    bareProject.Restyled wrappingWithin bareProject ∧ bareProject.PlainEnums ∧
    ∃ s s', firstArgument? plainProduct = some s ∧ firstArgument? wrappedProduct = some s' ∧
      s.unwrap.Restyled wrappingWithin s'.unwrap ∧
      Parallel (Outcome.Alike Eq) (bareProject.evaluate s []) (bareProject.evaluate s' []) ∧
      bareProject.evaluate s' [] = .ok (.ok (.integer 2)) := by
  have hconstant : Restyled wrappingWithin (constantNode "" "a" (.leaf .number none " " "1"))
      (constantNode "" "a" (parenthesesNode " " (asNode (.leaf .number none "" "1") (typeWord "number")))) :=
    .tree (.token (.part (.tree (.leaf (.token (.cons rfl (.wrapped rfl .leaf
      ((wraps_as rfl (isSilent_typeWord "number")).more (wraps_parentheses rfl _)) trivial) .nil)))
      (.of_marked (by decide +kernel) rfl)) rfl rfl (.token .nil))) (.of_marked (by decide +kernel) rfl)
  have hproduct : Restyled wrappingWithin (productNode (.leaf .identifier none "" "a"))
      (productNode (parenthesesNode "" (.leaf .identifier none "" "a"))) :=
    .tree (.cons rfl (.wrapped rfl .leaf (wraps_parentheses rfl _) trivial) (.token (.leaf .nil)))
      (.of_marked (by decide +kernel) rfl)
  have harguments : Restyled wrappingWithin
      (probeArguments (productNode (.leaf .identifier none "" "a")))
      (probeArguments (productNode (parenthesesNode "" (.leaf .identifier none "" "a")))) :=
    .tree (.token (.part hproduct rfl rfl (.token .nil))) (.of_marked (by decide +kernel) rfl)
  have hcall : Restyled wrappingWithin
      (probeCall (productNode (.leaf .identifier none "" "a")))
      (probeCall (productNode (parenthesesNode "" (.leaf .identifier none "" "a")))) :=
    .tree (.leaf (.part harguments rfl rfl .nil)) (.of_marked (by decide +kernel) rfl)
  have hstatement : Restyled wrappingWithin
      (probeNode (productNode (.leaf .identifier none "" "a")))
      (probeNode (productNode (parenthesesNode "" (.leaf .identifier none "" "a")))) :=
    .tree (.part hcall rfl rfl (.token .nil)) (.of_marked (by decide +kernel) rfl)
  have hprogram : Restyled wrappingWithin plainProduct wrappedProduct :=
    .tree (.part hconstant rfl rfl (.part hstatement rfl rfl .nil)) (.of_marked (by decide +kernel) rfl)
  have hp : bareProject.Restyled wrappingWithin bareProject :=
    ⟨rfl, rfl, rfl, rfl, rfl, .nil, .nil⟩
  have henums : bareProject.PlainEnums := by
    unfold Project.PlainEnums
    decide +kernel
  have hsite : (probedSite plainProduct (productNode (.leaf .identifier none "" "a"))).Restyled wrappingWithin
      (probedSite wrappedProduct (productNode (parenthesesNode "" (.leaf .identifier none "" "a")))) :=
    ⟨rfl, .cons harguments (.cons hcall (.cons hstatement (.cons hprogram .nil))), hproduct⟩
  exact ⟨by decide +kernel, by decide +kernel, hp, henums, _, _, rfl, rfl, hsite.unwrap,
    wrappers_transparent hp henums hsite.unwrap .nil, rfl⟩

/-! ### A type among parameters -/

/-- A parameter with a sum for its default value. -/
def defaultedParameter (right : Node) : Node :=
  .tree .requiredParameter none
    [.leaf .identifier (some .pattern) "" "y", .token none " " "=",
     .tree .binaryExpression (some .value)
      [.leaf .number (some .left) " " "1", .token (some .operator) " " "+", right.withRole .right]]

/-- The block `{ probe(a); }`. -/
def probingBlock : Node :=
  .tree .statementBlock (some .body)
    [.token none " " "\x7b",
     .tree .expressionStatement none
      [.tree .callExpression none
        [.leaf .identifier (some .function) " " "probe", probeArguments (.leaf .identifier none "" "a")],
       .token none "" ";"],
     .token none " " "\x7d"]

def probingFunction (parameter : Node) : Node :=
  .tree .functionDeclaration none
    [.token none "\n" "function", .leaf .identifier (some .name) " " "f",
     .tree .formalParameters (some .parameters) [.token none "" "(", parameter, .token none "" ")"],
     probingBlock]

/-- A constant that the body of a function with a parameter asks for. -/
def hidingProgram (right : Node) : Node :=
  .tree .program none
    [constantNode "" "a" (.leaf .number none " " "1"), probingFunction (defaultedParameter right)]

def bareRight : Node := .leaf .number none " " "2"

def assertedRight : Node :=
  parenthesesNode " " (asNode (.leaf .number none "" "2") (typeofNode "a"))

set_option maxRecDepth 2000 in
theorem wrapped_default_hides_constant :
    parse .plain "const a = 1;\nfunction f(y = 1 + 2) \x7b probe(a); \x7d" = hidingProgram bareRight ∧
    parse .plain "const a = 1;\nfunction f(y = 1 + (2 as typeof a)) \x7b probe(a); \x7d" =
      hidingProgram assertedRight ∧
    Restyled wrapping (hidingProgram bareRight) (hidingProgram assertedRight) ∧
    ∃ s s', firstArgument? (hidingProgram bareRight) = some s ∧
      firstArgument? (hidingProgram assertedRight) = some s' ∧
      bareProject.evaluate s [] = .ok (.ok (.integer 1)) ∧
      bareProject.evaluate s' [] = .ok (.error (.unresolvedName "a")) := by
  have hsum : Restyled wrapping (.tree .binaryExpression (some .value)
        [.leaf .number (some .left) " " "1", .token (some .operator) " " "+", bareRight.withRole .right])
      (.tree .binaryExpression (some .value)
        [.leaf .number (some .left) " " "1", .token (some .operator) " " "+",
          assertedRight.withRole .right]) :=
    .tree (.leaf (.token (.cons rfl (.wrapped rfl .leaf
      ((wraps_as rfl (isSilent_typeof "a")).more (wraps_parentheses rfl _)) trivial) .nil)))
      (.of_marked (by decide +kernel))
  have hparameter : Restyled wrapping (defaultedParameter bareRight) (defaultedParameter assertedRight) :=
    .tree (.leaf (.token (.part hsum rfl rfl .nil))) (.of_marked (by decide +kernel))
  have hfunction : Restyled wrapping (probingFunction (defaultedParameter bareRight))
      (probingFunction (defaultedParameter assertedRight)) :=
    .tree (.token (.leaf (.part (.tree (.token (.part hparameter rfl rfl (.token .nil)))
        (.of_marked (by decide +kernel))) rfl rfl
      (.part (restyled_self (by decide +kernel)) rfl rfl .nil)))) (.of_marked (by decide +kernel))
  refine ⟨by decide +kernel, by decide +kernel, ?_, _, _, rfl, rfl, rfl, rfl⟩
  exact .tree (.part (restyled_self (by decide +kernel)) rfl rfl (.part hfunction rfl rfl .nil))
    (.of_marked (by decide +kernel))

end SettingsHarvest
