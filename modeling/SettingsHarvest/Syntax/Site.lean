import SettingsHarvest.Syntax.Node

/-! Nodes in their place.

What a name means depends on the blocks and functions around it, so the questions the library asks
are about a `Site`: a node, the nodes around it from the inside out, and the path of its file. Going
down adds a node to that list and going up takes one off it; no node has to know its parent. -/
namespace SettingsHarvest.Syntax

structure Site where
  /-- The path of the file the node is in. -/
  file : String
  /-- The nodes around it, the innermost first. -/
  above : List Node
  node : Node
  deriving Inhabited

namespace Site

/-- A part of the node at a site. -/
def inside (s : Site) (part : Node) : Site := ⟨s.file, s.node :: s.above, part⟩

def kind? (s : Site) : Option Kind := s.node.kind?

def hasKind (s : Site) (k : Kind) : Bool := s.node.hasKind k

def text (s : Site) : String := s.node.text

def typeName (s : Site) : String := s.node.typeName

/-- The named parts, comments left out. -/
def named (s : Site) : List Site := s.node.named.map s.inside

/-- The part in a role. -/
def part? (s : Site) (r : Role) : Option Site := (s.node.part? r).map s.inside

/-- The nodes around a site, each in its own place, from the inside out. -/
def enclosing (s : Site) : List Site := go s.above
where
  go : List Node → List Site
    | [] => []
    | n :: rest => ⟨s.file, rest, n⟩ :: go rest

def parent? (s : Site) : Option Site := s.enclosing.head?

/-! ### Wrappers -/

mutual
/-- The expression behind wrappers, with the nodes around it. -/
def core (above : List Node) : Node → List Node × Node
  | .token r b t => (above, .token r b t)
  | .leaf k r b t => (above, .leaf k r b t)
  | .tree k r parts =>
    if k.isWrapper then
      let here := Node.tree k r parts :: above
      let inner := if k == .typeAssertion then coreOfLast here parts else coreOfFirst here parts
      inner.getD (above, .tree k r parts)
    else (above, .tree k r parts)

/-- The same for the first named part. -/
def coreOfFirst (above : List Node) : List Node → Option (List Node × Node)
  | [] => none
  | p :: rest =>
    if p.isNamedPart then some (core above p) else coreOfFirst above rest

/-- The same for the last named part. -/
def coreOfLast (above : List Node) : List Node → Option (List Node × Node)
  | [] => none
  | p :: rest => match coreOfLast above rest with
    | some found => some found
    | none => if p.isNamedPart then some (core above p) else none
end

/-- The expression a site stands for once parentheses and type assertions are taken off. -/
def unwrap (s : Site) : Site :=
  let (above, node) := core s.above s.node
  ⟨s.file, above, node⟩

/-! ### Walking -/

mutual
/-- A node and everything below it, each in its place, in the order of the document. -/
def walkFrom (file : String) (above : List Node) : Node → List Site
  | .token r b t => [⟨file, above, .token r b t⟩]
  | .leaf k r b t => [⟨file, above, .leaf k r b t⟩]
  | .tree k r parts =>
    ⟨file, above, .tree k r parts⟩ :: walkAllFrom file (.tree k r parts :: above) parts

def walkAllFrom (file : String) (above : List Node) : List Node → List Site
  | [] => []
  | n :: rest => walkFrom file above n ++ walkAllFrom file above rest
end

def walk (s : Site) : List Site := walkFrom s.file s.above s.node

/-! ### Source text -/

/-- The characters between the quotes of a string or template. -/
def literalBody (s : Site) : List Char := (s.text.toList.drop 1).dropLast

end Site
end SettingsHarvest.Syntax
