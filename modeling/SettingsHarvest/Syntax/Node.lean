import SettingsHarvest.Syntax.Kind

/-! Concrete syntax trees.

A `Node` is a token without a name of its own, a named node without parts, or a named node with
parts. The leaves carry the text of the source, each with the white space in front of it, so the
tree loses nothing: `Node.text` is the stretch of source from the first token of a node to its last.
Comments are leaves like any other and can stand anywhere; `Node.named` passes over them.

`Node.walk` is the order of the document: a node, then its parts from left to right. -/
namespace SettingsHarvest.Syntax

inductive Node where
  /-- A token the grammar does not name; its text is its type. -/
  | token (role : Option Role) (blank text : String)
  /-- A named node without parts. -/
  | leaf (kind : Kind) (role : Option Role) (blank text : String)
  /-- A named node made of parts. -/
  | tree (kind : Kind) (role : Option Role) (parts : List Node)
  deriving Inhabited

namespace Node

def kind? : Node → Option Kind
  | token .. => none
  | leaf k .. => some k
  | tree k .. => some k

def role? : Node → Option Role
  | token r .. => r
  | leaf _ r .. => r
  | tree _ r _ => r

def parts : Node → List Node
  | token .. => []
  | leaf .. => []
  | tree _ _ ps => ps

def withRole (r : Role) : Node → Node
  | token _ b t => token (some r) b t
  | leaf k _ b t => leaf k (some r) b t
  | tree k _ ps => tree k (some r) ps

def hasKind (k : Kind) (n : Node) : Bool := n.kind? == some k

/-! ### Text -/

mutual
/-- The leaves of a node in source order: white space in front, then the text. -/
def pieces : Node → List (String × String)
  | token _ b t => [(b, t)]
  | leaf _ _ b t => [(b, t)]
  | tree _ _ ps => piecesOf ps

def piecesOf : List Node → List (String × String)
  | [] => []
  | n :: rest => pieces n ++ piecesOf rest
end

/-- Leaves run together; the white space in front of the first one is not part of the text. -/
def joinPieces : List (String × String) → String
  | [] => ""
  | (_, t) :: rest => rest.foldl (fun acc p => acc ++ p.1 ++ p.2) t

theorem toList_foldl_pieces (pieces : List (String × String)) (t : String) :
    (pieces.foldl (fun acc p => acc ++ p.1 ++ p.2) t).toList =
      t.toList ++ pieces.flatMap fun p => p.1.toList ++ p.2.toList := by
  induction pieces generalizing t with
  | nil => simp
  | cons p rest ih => simp [ih]

theorem mem_joinPieces {pieces : List (String × String)} {blank t : String} {c : Char}
    (h : (blank, t) ∈ pieces) (hc : c ∈ t.toList) : c ∈ (joinPieces pieces).toList := by
  cases pieces with
  | nil => cases h
  | cons first rest =>
    obtain ⟨b, u⟩ := first
    rw [joinPieces, toList_foldl_pieces, List.mem_append]
    rcases List.mem_cons.1 h with heq | hrest
    · cases heq
      exact .inl hc
    · exact .inr (List.mem_flatMap.2 ⟨_, hrest, List.mem_append_right _ hc⟩)

/-- The source text a node covers. -/
def text (n : Node) : String := joinPieces n.pieces

/-- What reports call the type of a node. -/
def typeName (n : Node) : String :=
  match n.kind? with
  | some k => k.name
  | none => n.text

/-! ### Parts -/

/-- Named, and not a comment. -/
def isNamedPart (n : Node) : Bool :=
  match n.kind? with
  | none => false
  | some k => k != .comment

/-- The named parts of a node, comments left out. -/
def named (n : Node) : List Node := n.parts.filter isNamedPart

/-- The part that plays a role. -/
def part? (n : Node) (r : Role) : Option Node :=
  n.parts.find? fun p => p.role? == some r

mutual
/-- A node and everything below it, in the order of the document. -/
def walk : Node → List Node
  | token r b t => [token r b t]
  | leaf k r b t => [leaf k r b t]
  | tree k r ps => tree k r ps :: walkAll ps

def walkAll : List Node → List Node
  | [] => []
  | n :: rest => walk n ++ walkAll rest
end

/-! ### Equality -/

mutual
/-- Whether two nodes have the same kinds, roles, white space and texts. -/
def isSame : Node → Node → Bool
  | token r b t, token r' b' t' => r == r' && b == b' && t == t'
  | leaf k r b t, leaf k' r' b' t' => k == k' && r == r' && b == b' && t == t'
  | tree k r ps, tree k' r' ps' => k == k' && r == r' && areSame ps ps'
  | _, _ => false

def areSame : List Node → List Node → Bool
  | [], [] => true
  | n :: rest, n' :: rest' => isSame n n' && areSame rest rest'
  | _, _ => false
end

mutual
theorem isSame_iff : ∀ {n n' : Node}, n.isSame n' = true ↔ n = n'
  | token .., token .. => by simp [isSame, and_assoc]
  | leaf .., leaf .. => by simp [isSame, and_assoc]
  | tree .., tree .. => by simp [isSame, areSame_iff, and_assoc]
  | token .., leaf .. => by simp [isSame]
  | token .., tree .. => by simp [isSame]
  | leaf .., token .. => by simp [isSame]
  | leaf .., tree .. => by simp [isSame]
  | tree .., token .. => by simp [isSame]
  | tree .., leaf .. => by simp [isSame]

theorem areSame_iff : ∀ {ns ns' : List Node}, areSame ns ns' = true ↔ ns = ns'
  | [], [] => by simp [areSame]
  | [], _ :: _ => by simp [areSame]
  | _ :: _, [] => by simp [areSame]
  | _ :: _, _ :: _ => by simp [areSame, isSame_iff, areSame_iff]
end

instance : DecidableEq Node := fun _ _ => decidable_of_iff _ isSame_iff

end Node
end SettingsHarvest.Syntax
