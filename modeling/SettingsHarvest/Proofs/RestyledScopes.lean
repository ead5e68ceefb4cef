import SettingsHarvest.Proofs.Correspondence
import SettingsHarvest.Proofs.Restyling

/-! What restyled programs declare.

A style keeps the names that are read (`Style.KeepsNames`). Then a scope and its restyled form declare
the same names, for corresponding places (`Restyled.declarations`), files export the same names, imports
lead to corresponding files, and sites correspond in every respect that evaluation looks at
(`Project.Restyled.correspondenceOf`). -/
namespace SettingsHarvest
open Syntax

/-! ### Spelling -/

namespace Syntax.Node

/-- Names, numerals and quoted texts. -/
def wordKinds : List Kind :=
  [.identifier, .shorthandPropertyIdentifier, .propertyIdentifier, .privatePropertyIdentifier, .number,
    .string]

/-- What is read as it is spelled, templates without gaps among it. -/
def isWord (n : Node) : Bool :=
  n.kind?.any wordKinds.contains
    || (n.hasKind .templateString && !n.parts.any (·.hasKind .templateSubstitution))

/-- Whether a text could be a name: there is no blank, operator, bracket or other mark in it. -/
def isPlainName (text : String) : Bool := text.toList.all isNamePart

/-- Whether a function takes a name as parameter, or mentions it among its parameters. -/
def takes (function : Node) (name : String) : Bool :=
  match function.part? .parameter with
  | some p => p.text == name
  | none => match function.part? .parameters with
    | none => false
    | some ps => ps.walk.any fun n =>
      (n.hasKind .identifier || n.hasKind .shorthandPropertyIdentifierPattern) && n.text == name

/-- Bodies of enumerations hold their members, export clauses their specifiers. -/
def isRegular (n : Node) : Bool :=
  (!n.hasKind .enumDeclaration || (n.part? .body).all (·.hasKind .enumBody))
    && (!n.hasKind .exportClause || n.named.all (·.hasKind .exportSpecifier))

/-- Texts that are read as they are spelled stay what they are. -/
structure KeepsTexts (n n' : Node) : Prop where
  word : n.isWord = true → n.text = n'.text
  /-- No node comes to be spelled like a name, or ceases to be. -/
  plain : isPlainName n.text = true ∨ isPlainName n'.text = true → n.text = n'.text
  regular : n.isRegular = true

/-- What a node made of parts keeps in another style, so that names mean what they meant. -/
structure KeepsSpelling (n n' : Node) : Prop extends KeepsTexts n n' where
  /-- Functions take, or mention among their parameters, the same names. -/
  parameters : n.kind?.any Kind.isFunction = true → ∀ name, n.takes name = n'.takes name

end Syntax.Node

/-- A style in which names mean what they meant: nodes that are read as they are spelled stay what they
are, and functions take the same names. -/
structure Syntax.Style.KeepsNames (σ : Style) : Prop where
  word {n n' : Node} : Restyled σ n n' → n.isWord = true → n.text = n'.text
  regular {n n' : Node} : Restyled σ n n' → n.isRegular = true
  parameters {n n' : Node} : Restyled σ n n' → n.kind?.any Kind.isFunction = true →
    ∀ name, n.takes name = n'.takes name

/-- A style in which names and texts stay what they are. -/
def Syntax.Style.KeepsSpelling (σ : Style) : Prop := ∀ n n', σ.keeps n n' → n.KeepsSpelling n'

theorem Syntax.Node.isRegular_leaf (k : Kind) (r : Option Role) (b t : String) :
    (Node.leaf k r b t).isRegular = true := by
  simp [Node.isRegular, Node.part?, Node.named, Node.parts]

theorem Syntax.Style.KeepsSpelling.names {σ : Style} (hσ : σ.KeepsSpelling) : σ.KeepsNames where
  word h hn := by
    cases h with
    | token => rfl
    | leaf => rfl
    | tree _ hkeeps => exact (hσ _ _ hkeeps).word hn
  regular h := by
    cases h with
    | token => rfl
    | leaf => exact Node.isRegular_leaf _ _ _ _
    | tree _ hkeeps => exact (hσ _ _ hkeeps).regular
  parameters h hn name := by
    cases h with
    | token => rfl
    | leaf => rfl
    | tree _ hkeeps => exact (hσ _ _ hkeeps).parameters hn name

namespace Syntax

variable {σ : Style} {n n' : Node} {s s' : Site}

theorem Restyled.plain_eq (hσ : σ.KeepsSpelling) (h : Restyled σ n n')
    (hname : Node.isPlainName n.text = true ∨ Node.isPlainName n'.text = true) : n.text = n'.text := by
  cases h with
  | token => rfl
  | leaf => rfl
  | tree _ hkeeps => exact (hσ _ _ hkeeps).plain hname

namespace Site

theorem bindsParameter_eq (s : Site) (name : String) : s.bindsParameter name = s.node.takes name := by
  unfold bindsParameter Node.takes part?
  cases s.node.part? .parameter with
  | some p => rfl
  | none => cases s.node.part? .parameters <;> rfl

theorem isWord_of_kind {k : Kind} (hs : s.kind? = some k) (hk : k ∈ Node.wordKinds) :
    s.node.isWord = true := by
  simpa [Node.isWord, show s.node.kind? = some k from hs] using Or.inl hk

theorem isWord_node (hs : s.isWord = true) : s.node.isWord = true := by
  simp only [isWord, isStringLiteral, Bool.or_eq_true] at hs
  rcases hs with ((hs | hs) | hs) | hs | hs
  · exact isWord_of_kind (hasKind_iff.1 hs) (by decide)
  · exact isWord_of_kind (hasKind_iff.1 hs) (by decide)
  · exact isWord_of_kind (hasKind_iff.1 hs) (by decide)
  · exact isWord_of_kind (hasKind_iff.1 hs) (by decide)
  · exact Bool.or_eq_true_iff.2 (.inr hs)

namespace Restyled

theorem nodeText (hσ : σ.KeepsNames) (h : s.Restyled σ s') (hs : s.node.isWord = true) :
    s.text = s'.text := hσ.word h.node hs

theorem wordText (hσ : σ.KeepsNames) (h : s.Restyled σ s') {k : Kind} (hs : s.kind? = some k)
    (hk : k ∈ Node.wordKinds) : s.text = s'.text :=
  h.nodeText hσ (isWord_of_kind hs hk)

theorem hasSubstitutions_eq (h : s.Restyled σ s') (hs : s.hasKind .templateString = true) :
    s.hasSubstitutions = s'.hasSubstitutions := by
  have haligned := (h.node.aligned (hasKind_iff.1 hs)).aligned
  unfold hasSubstitutions
  generalize s.node.parts = parts at haligned
  generalize s'.node.parts = parts' at haligned
  induction haligned with
  | nil => rfl
  | cons _ hpart _ ih =>
    rw [List.any_cons, List.any_cons, ih,
      (hpart.restyled (Node.mayWrap_eq_false rfl _)).hasKind_eq]
  | comment _ ih => exact ih
  | comment' _ ih => exact ih

theorem nameText (hσ : σ.KeepsNames) (h : s.Restyled σ s') (hs : s.isNameUse = true) :
    s.text = s'.text := by
  rcases Bool.or_eq_true_iff.1 hs with hs | hs
  · exact h.wordText hσ (hasKind_iff.1 hs) (by decide)
  · exact h.wordText hσ (hasKind_iff.1 hs) (by decide)

/-- A member is spelled with the same key. -/
theorem memberKey_eq (hσ : σ.KeepsNames) (h : s.Restyled σ s') : s.memberKey? = s'.memberKey? := by
  have hplain (r : Role) (hr : r ∉ [Role.left, .right, .argument, .object, .index, .value]) :=
    h.plainPart (r := r) fun k _ => Kind.not_mem_operandRoles hr k
  have hkey : Option.Rel (Site.Restyled σ) ((s.part? .key).or (s.part? .name))
      ((s'.part? .key).or (s'.part? .name)) := by
    rcases option_rel_cases (hplain .key (by decide)) with ⟨hk, hk'⟩ | ⟨_, _, hk, hk', hsame⟩
    · rw [hk, hk', Option.none_or, Option.none_or]
      exact hplain .name (by decide)
    · rw [hk, hk', Option.some_or, Option.some_or]
      exact .some hsame
  unfold memberKey?
  rcases option_rel_cases hkey with ⟨hk, hk'⟩ | ⟨key, key', hk, hk', hsame⟩
  · rw [hk, hk']
  · rw [hk, hk']
    dsimp only
    rw [← hsame.kind_eq]
    split
    · next hkind => rw [hsame.wordText hσ hkind (by decide)]
    · next hkind => rw [hsame.wordText hσ hkind (by decide)]
    · next hkind => rw [hsame.wordText hσ hkind (by decide)]
    · next hkind => rw [hsame.wordText hσ hkind (by decide)]
    · next hkind =>
      rw [stringValue, stringValue, literalBody, literalBody, hsame.wordText hσ hkind (by decide)]
    · rfl

end Restyled
end Site
end Syntax

/-! ### Statements -/

section Statements

variable {σ : Style} {s s' : Site}

/-- An initializer: in another style, and with wrappers around it or not. -/
inductive Site.RestyledValue (σ : Style) : Site → Site → Prop where
  | same {s s' : Site} : s.Restyled σ s' → Site.RestyledValue σ s s'
  | initializer {s s' : Site} {part part' : Node} : s.Restyled σ s' →
    s.kind? = some .variableDeclarator → RestyledPart σ .variableDeclarator part part' →
    Site.RestyledValue σ (s.inside part) (s'.inside part')

theorem Site.RestyledValue.unwrapped (h : Site.RestyledValue σ s s') :
    Unwrapped (Site.Restyled σ) s s' := by
  cases h with
  | same h => exact h.unwrap
  | initializer h hk hpart => exact h.inside_unwrap hk hpart

/-- The initializer of a variable. -/
theorem initializerPart (h : s.Restyled σ s') (hs : s.kind? = some .variableDeclarator) :
    Option.Rel (Site.RestyledValue σ) (s.part? .value) (s'.part? .value) :=
  option_rel_map (h.partOf hs .value) fun _ _ hpart => .initializer h hs hpart.2

/-- Corresponding declarations in another style. -/
abbrev DeclaredAlike (σ : Style) : Declaration → Declaration → Prop :=
  Declaration.Alike (Site.Restyled σ) (Site.RestyledValue σ)

/-- Tables with the same names for corresponding declarations. -/
abbrev TableAlike (σ : Style) : NameTable → NameTable → Prop :=
  NameTable.Alike (Site.Restyled σ) (Site.RestyledValue σ)

theorem memberName_eq {name name' : Site} (h : name.Restyled σ name') (htext : name.text = name'.text) :
    memberName name = memberName name' := by
  rw [memberName, memberName, ← h.hasKind_eq, Site.stringValue, Site.stringValue, Site.literalBody,
    Site.literalBody, htext]

theorem memberAlike {member member' : Site} (h : member.Restyled σ member')
    (htext : member.hasKind .enumAssignment = false → member.text = member'.text) :
    MemberAlike (Site.Restyled σ) member member' := by
  cases hkind : member.hasKind .enumAssignment with
  | true =>
    have hname := h.spelledPart (Site.hasKind_iff.1 hkind) (r := .name) (by decide)
      (Node.isSpelling_of_role (by decide))
    have hparts : memberParts member = (member.part? .name, member.part? .value) := by
      rw [memberParts, hkind, if_pos rfl]
    have hparts' : memberParts member' = (member'.part? .name, member'.part? .value) := by
      rw [memberParts, ← h.hasKind_eq, hkind, if_pos rfl]
    refine ⟨?_, ?_⟩
    · rw [hparts, hparts']
      exact option_rel_mono hname fun _ _ hn => memberName_eq hn.1 hn.2
    · rw [hparts, hparts']
      exact h.part .value
  | false =>
    have hparts : memberParts member = (some member, none) := by
      rw [memberParts, hkind, if_neg (by decide)]
    have hparts' : memberParts member' = (some member', none) := by
      rw [memberParts, ← h.hasKind_eq, hkind, if_neg (by decide)]
    refine ⟨?_, ?_⟩
    · rw [hparts, hparts']
      exact .some (memberName_eq h (htext hkind))
    · rw [hparts, hparts']
      exact .none

/-- An enumeration has the same members. -/
theorem membersAlike (hσ : σ.KeepsNames) (h : s.Restyled σ s')
    (hs : s.hasKind .enumDeclaration = true) :
    List.Forall₂ (MemberAlike (Site.Restyled σ)) (membersOf s) (membersOf s') := by
  have hbody := h.plainPart (r := .body) fun k _ => Kind.not_mem_operandRoles (by decide) k
  unfold membersOf
  rcases option_rel_cases hbody with ⟨hb, hb'⟩ | ⟨body, body', hb, hb', hsame⟩
  · rw [hb, hb']
    exact .nil
  · rw [hb, hb']
    have hkind : body.hasKind .enumBody = true := by
      obtain ⟨m, hm, rfl⟩ := Option.map_eq_some_iff.1 hb
      have hregular := hσ.regular h.node
      rw [Node.isRegular, show s.node.hasKind .enumDeclaration = true from hs, hm] at hregular
      exact (Bool.and_eq_true_iff.1 hregular).1
    have hmembers := (hsame.node.aligned (Site.hasKind_iff.1 hkind)).aligned.named
      fun _ _ hpart => hpart.isNamedPart_eq
    refine List.forall₂_map_left_iff.2 (List.forall₂_map_right_iff.2 (hmembers.imp ?_))
    intro member member' hmember
    have hplain := hmember.restyled (Node.mayWrap_eq_false rfl member)
    refine memberAlike (hsame.inside hplain) fun hnot => ?_
    cases hmember with
    | same _ htext =>
      refine htext ?_
      rw [Node.isSpelling_enumBody, show member.hasKind .enumAssignment = false from hnot]
      rfl
    | wrapped hwrap => cases (Node.mayWrap_eq_false rfl member).symm.trans hwrap

/-- Variables of plain names. -/
theorem plainVariables (hσ : σ.KeepsNames) {k : Kind} (h : s.Restyled σ s') (hs : s.kind? = some k)
    (hk : k.takesNoWrappers = true) :
    List.Forall₂ (DeclaredAlike σ) s.plainVariables s'.plainVariables := by
  refine List.rel_filterMap (fun d d' hd => ?_) (h.named hs hk)
  rw [← hd.hasKind_eq]
  split
  · next hkind =>
    have hkind := Site.hasKind_iff.1 hkind
    have hname := hd.plainPart (r := .name) fun _ _ => Kind.not_mem_operandRoles (by decide) _
    rcases option_rel_cases hname with ⟨hn, hn'⟩ | ⟨name, name', hn, hn', hsame⟩
    · rw [hn, hn']
      exact .none
    · rw [hn, hn']
      dsimp only
      rw [← hsame.hasKind_eq]
      split
      · next hplain =>
        exact .some ⟨hsame.wordText hσ (Site.hasKind_iff.1 hplain) (by decide), hd,
          .initialized (initializerPart hd hkind), nofun⟩
      · exact .none
  · exact .none

/-- A declaration under a name of its own. -/
theorem byName {k : Kind} {b : Binding} (h : s.Restyled σ s') (hs : s.kind? = some k)
    (hspelling : ∀ part : Node, part.role? = some .name → part.isSpelling k = true)
    (hb : ∀ v, b ≠ .variable v)
    (hmembers : b = .enumeration →
      List.Forall₂ (MemberAlike (Site.Restyled σ)) (membersOf s) (membersOf s')) :
    List.Forall₂ (DeclaredAlike σ) (s.byName b) (s'.byName b) := by
  unfold Site.byName
  rcases option_rel_cases (h.spelledPart hs (Kind.not_mem_operandRoles (by decide) k) hspelling) with
    ⟨hn, hn'⟩ | ⟨name, name', hn, hn', -, htext⟩
  · rw [hn, hn']
    exact .nil
  · rw [hn, hn']
    exact .cons ⟨htext, h, .same b hb, hmembers⟩ .nil

/-- The two names of a specifier: the one that is imported or exported, and the one it goes by. -/
theorem specifierNames {k : Kind} (h : s.Restyled σ s') (hs : s.kind? = some k)
    (hk : k = .importSpecifier ∨ k = .exportSpecifier) :
    Option.Rel (fun name name' => name.text = name'.text ∧
        ((s.part? .rename).getD name).text = ((s'.part? .rename).getD name').text)
      (s.part? .name) (s'.part? .name) := by
  have hspelled {r : Role} (hr : r = .name ∨ r = .rename) := h.spelledPart hs (r := r)
    (by rcases hk with rfl | rfl <;> exact List.not_mem_nil)
    (Node.isSpelling_of_role (by rcases hk with rfl | rfl <;> rcases hr with rfl | rfl <;> decide))
  refine option_rel_mono (hspelled (.inl rfl)) fun name name' hname => ⟨hname.2, ?_⟩
  rcases option_rel_cases (hspelled (.inr rfl)) with ⟨hn, hn'⟩ | ⟨_, _, hn, hn', -, htext⟩
  · rw [hn, hn']
    exact hname.2
  · rw [hn, hn']
    exact htext

/-- What one part of an import clause binds. -/
theorem importsOf (hσ : σ.KeepsNames) (source : String) (h : s.Restyled σ s') :
    List.Forall₂ (DeclaredAlike σ) (s.importsOf source) (s'.importsOf source) := by
  unfold Site.importsOf
  rw [← h.kind_eq]
  split
  · next hkind =>
    have htext := h.wordText hσ hkind (by decide)
    rw [← htext]
    exact .cons ⟨rfl, h, .same _ nofun, nofun⟩ .nil
  · next hkind =>
    have hparts := (h.node.aligned hkind).aligned.named fun _ _ hpart => hpart.isNamedPart_eq
    have hnames : List.Forall₂ (fun t t' => t.text = t'.text) s.named s'.named := by
      refine List.forall₂_map_left_iff.2 (List.forall₂_map_right_iff.2 (hparts.imp fun part _ hpart => ?_))
      cases hpart with
      | same _ htext => exact htext (Node.isSpelling_namespaceImport _)
      | wrapped hwrap => cases (Node.mayWrap_eq_false rfl part).symm.trans hwrap
    rcases option_rel_cases (forall₂_getLast hnames) with ⟨hn, hn'⟩ | ⟨name, name', hn, hn', htext⟩
    · rw [hn, hn']
      exact .nil
    · rw [hn, hn']
      dsimp only
      rw [htext]
      exact .cons ⟨rfl, h, .same _ nofun, nofun⟩ .nil
  · next hkind =>
    refine List.rel_filterMap (fun item item' hitem => ?_) (h.named hkind rfl)
    rw [← hitem.hasKind_eq]
    split
    · next hitemKind =>
      have hnames := specifierNames hitem (Site.hasKind_iff.1 hitemKind) (.inl rfl)
      refine option_rel_map hnames fun name name' ⟨htext, hlocal⟩ => ?_
      rw [htext]
      exact ⟨hlocal, hitem, .same _ nofun, nofun⟩
    · exact .none
  · exact .nil

theorem imports (hσ : σ.KeepsNames) (h : s.Restyled σ s') (hs : s.kind? = some .importStatement) :
    Parallel (List.Forall₂ (DeclaredAlike σ)) s.imports s'.imports := by
  have hsource := h.spelledPart hs (r := .source) (by decide)
    (Node.isSpelling_of_role (by decide))
  unfold Site.imports
  rcases option_rel_cases hsource with ⟨hn, hn'⟩ | ⟨source, source', hn, hn', -, htext⟩
  · rw [hn, hn']
    exact .ok .nil
  · rw [hn, hn']
    have hvalue : source.stringValue = source'.stringValue := by
      rw [Site.stringValue, Site.stringValue, Site.literalBody, Site.literalBody, htext]
    dsimp only
    rw [← hvalue]
    refine (Parallel.refl _).bind fun path _ hpath => hpath ▸ .ok ?_
    have hclauses : List.Forall₂
        (fun t t' => t.hasKind .importClause = true ∧ t.Restyled σ t')
        (s.named.filter (·.hasKind .importClause)) (s'.named.filter (·.hasKind .importClause)) :=
      (List.forall₂_and_left _ _).2 ⟨fun _ ht => (List.mem_filter.1 ht).2,
        forall₂_filter (h.named hs rfl) fun _ _ ht => ht.hasKind_eq _⟩
    refine List.rel_flatMap hclauses fun clause clause' hclause => ?_
    exact List.rel_flatMap (hclause.2.named (Site.hasKind_iff.1 hclause.1) rfl)
      fun _ _ hitem => importsOf hσ path hitem

/-- A statement declares the same names. -/
theorem statementDeclarations (hσ : σ.KeepsNames) (h : s.Restyled σ s') :
    Parallel (List.Forall₂ (DeclaredAlike σ)) s.statementDeclarations
      s'.statementDeclarations := by
  have hdeclaring : Option.Rel (Site.Restyled σ) s.declaringStatement? s'.declaringStatement? :=
    option_rel_map (h.node.declaring h.around) fun _ _ hfound => ⟨h.file, hfound.around, hfound.node⟩
  unfold Site.statementDeclarations
  rcases option_rel_cases hdeclaring with ⟨hd, hd'⟩ | ⟨t, t', hd, hd', ht⟩
  · rw [hd, hd']
    exact .ok .nil
  · rw [hd, hd']
    dsimp only
    rw [← ht.kind_eq]
    split
    · next hk => exact .ok (plainVariables hσ ht hk rfl)
    · next hk => exact .ok (plainVariables hσ ht hk rfl)
    · next hk =>
      exact .ok (byName ht hk (Node.isSpelling_of_role (by decide)) nofun
        fun _ => membersAlike hσ ht (Site.hasKind_iff.2 hk))
    · next hk => exact .ok (byName ht hk (Node.isSpelling_of_role (by decide)) nofun nofun)
    · next hk => exact .ok (byName ht hk (Node.isSpelling_of_role (by decide)) nofun nofun)
    · next hk => exact .ok (byName ht hk (Node.isSpelling_of_role (by decide)) nofun nofun)
    · next hk => exact .ok (byName ht hk (Node.isSpelling_of_role (by decide)) nofun nofun)
    · next hk => exact imports hσ ht hk
    · exact .ok .nil

/-! ### Tables -/

/-- What is no statement that declares adds no names. -/
theorem statementDeclarations_eq_nil (h : s.kind?.any Kind.declares = false) :
    s.statementDeclarations = .ok [] := by
  have hself : s.declaringStatement? = some s ∨ s.declaringStatement? = none := by
    obtain ⟨file, above, node⟩ := s
    cases node with
    | token => exact .inr rfl
    | leaf => exact .inl rfl
    | tree k r parts =>
      left
      unfold Site.declaringStatement?
      rw [Site.declaring, if_neg, Option.map_some]
      intro hk
      rcases (by simpa using hk : k = .exportStatement ∨ k = .ambientDeclaration) with rfl | rfl <;> cases h
  unfold Site.statementDeclarations
  rcases hself with hself | hself
  · rw [hself]
    dsimp only
    split
    all_goals first
      | rfl
      | (next hk => rw [hk] at h; cases h)
  · rw [hself]

/-- A node declares the same names for what is in it. -/
theorem declarations (hσ : σ.KeepsNames) (h : s.Restyled σ s') :
    Parallel (TableAlike σ) s.declarations s'.declarations := by
  have hstatements : Parallel (List.Forall₂ (List.Forall₂ (DeclaredAlike σ)))
      (s.named.mapM Site.statementDeclarations) (s'.named.mapM Site.statementDeclarations) := by
    cases hk : s.kind? with
    | none =>
      rw [(h.named_eq_nil hk).1, (h.named_eq_nil hk).2]
      exact .ok .nil
    | some k =>
      have hparts := (h.node.aligned hk).aligned.named fun _ _ hpart => hpart.isNamedPart_eq
      have hsites : List.Forall₂ (fun t t' =>
          Parallel (List.Forall₂ (DeclaredAlike σ)) t.statementDeclarations t'.statementDeclarations)
          s.named s'.named := by
        refine List.forall₂_map_left_iff.2 (List.forall₂_map_right_iff.2 ?_)
        refine hparts.imp fun part part' hpart => ?_
        cases hpart with
        | same hsame => exact statementDeclarations hσ (h.inside hsame)
        | wrapped hwrap hinner hwraps =>
          obtain ⟨k, hk, hwrapper⟩ := Kind.exists_wrapper hwraps.isWrapper
          rw [statementDeclarations_eq_nil, statementDeclarations_eq_nil]
          · exact .ok .nil
          · rw [show (s'.inside part').kind? = some k from hk]
            cases k <;> first | rfl | cases hwrapper
          · have hdeclares := (Bool.and_eq_true_iff.1 hwrap).2
            rw [Bool.not_eq_true'] at hdeclares
            exact hdeclares
      exact Parallel.mapM hsites fun _ _ ht => ht
  unfold Site.declarations
  exact hstatements.bind fun ds ds' hds => .ok (NameTable.Alike.offerAll .nil (List.rel_flatten hds))

theorem clauseExports (hσ : σ.KeepsNames) {declared declared' exported exported' : NameTable}
    (hdeclared : TableAlike σ declared declared') (hexported : TableAlike σ exported exported')
    (h : s.Restyled σ s') (hs : s.kind? = some .exportStatement) :
    TableAlike σ (s.clauseExports declared exported) (s'.clauseExports declared' exported') := by
  unfold Site.clauseExports
  have hclauses : List.Forall₂ (fun t t' => t.hasKind .exportClause = true ∧ t.Restyled σ t')
      (s.named.filter (·.hasKind .exportClause)) (s'.named.filter (·.hasKind .exportClause)) :=
    (List.forall₂_and_left _ _).2 ⟨fun _ ht => (List.mem_filter.1 ht).2,
      forall₂_filter (h.named hs rfl) fun _ _ ht => ht.hasKind_eq _⟩
  refine List.rel_foldl (fun t t' ht clause clause' ⟨hkind, hclause⟩ => ?_) hexported hclauses
  have hspecifiers : List.Forall₂ (fun t t' => t.hasKind .exportSpecifier = true ∧ t.Restyled σ t')
      clause.named clause'.named := by
    refine (List.forall₂_and_left _ _).2 ⟨fun specifier hspecifier => ?_,
      hclause.named (Site.hasKind_iff.1 hkind) rfl⟩
    obtain ⟨m, hm, rfl⟩ := List.mem_map.1 hspecifier
    have hregular := (Bool.and_eq_true_iff.1 (hσ.regular hclause.node)).2
    rw [show clause.node.hasKind .exportClause = true from hkind] at hregular
    exact List.all_eq_true.1 (by simpa using hregular) m hm
  refine List.rel_foldl (fun t t' ht specifier specifier' ⟨hkind, hspecifier⟩ => ?_) ht hspecifiers
  rcases option_rel_cases (specifierNames hspecifier (Site.hasKind_iff.1 hkind) (.inr rfl)) with
    ⟨hn, hn'⟩ | ⟨name, name', hn, hn', htext, hlocal⟩
  · rw [hn, hn']
    exact ht
  · rw [hn, hn']
    dsimp only
    rw [← htext, ← hlocal]
    rcases option_rel_cases (hdeclared.lookup name.text) with ⟨hl, hl'⟩ | ⟨d, d', hl, hl', hd⟩
    · rw [hl, hl']
      exact ht
    · rw [hl, hl']
      exact NameTable.Alike.offer ht _ hd

theorem statementExports (hσ : σ.KeepsNames) {declared declared' exported exported' : NameTable}
    (hdeclared : TableAlike σ declared declared') (hexported : TableAlike σ exported exported')
    (h : s.Restyled σ s') (hs : s.kind? = some .exportStatement) :
    Parallel (TableAlike σ) (s.statementExports declared exported)
      (s'.statementExports declared' exported') := by
  have hplain {r : Role} := h.plainPart (r := r) fun k hk => by
    cases Option.some.inj (hs.symm.trans hk)
    exact List.not_mem_nil
  unfold Site.statementExports
  rcases option_rel_cases (hplain (r := .declaration)) with ⟨hn, hn'⟩ | ⟨t, t', hn, hn', ht⟩
  · rw [hn, hn']
    dsimp only
    rcases option_rel_cases (hplain (r := .value)) with ⟨hv, hv'⟩ | ⟨v, v', hv, hv', hvalue⟩
    · rw [hv, hv']
      exact .ok (clauseExports hσ hdeclared hexported h hs)
    · rw [hv, hv']
      exact .ok (hexported.assign "default" ⟨rfl, h, .initialized (.some (.same hvalue)), nofun⟩)
  · rw [hn, hn']
    exact (statementDeclarations hσ ht).bind fun ds ds' hds => .ok (hexported.offerAll hds)

/-- A program exports the same names. -/
theorem exports (hσ : σ.KeepsNames) (h : s.Restyled σ s') (hs : s.hasKind .program = true) :
    Parallel (TableAlike σ) s.exports s'.exports := by
  have hs := Site.hasKind_iff.1 hs
  unfold Site.exports
  refine (declarations hσ h).bind fun declared declared' hdeclared => ?_
  have hstatements : List.Forall₂ (fun t t' => t.hasKind .exportStatement = true ∧ t.Restyled σ t')
      (s.named.filter (·.hasKind .exportStatement)) (s'.named.filter (·.hasKind .exportStatement)) :=
    (List.forall₂_and_left _ _).2 ⟨fun _ ht => (List.mem_filter.1 ht).2,
      forall₂_filter (h.named hs rfl) fun _ _ ht => ht.hasKind_eq _⟩
  exact Parallel.foldlM hstatements .nil fun t t' a a' ht ha =>
    statementExports hσ hdeclared ht ha.2 (Site.hasKind_iff.1 ha.1)

/-! ### Scopes -/

/-- What one enclosing node says about a name. -/
theorem declaredBy (hσ : σ.KeepsNames) (h : s.Restyled σ s') (name : String) :
    Parallel (Option.Rel (DeclaredAlike σ)) (s.declaredBy name)
      (s'.declaredBy name) := by
  have hfunction : s.isFunction = s'.isFunction := by rw [Site.isFunction, Site.isFunction, h.kind_eq]
  have hbinds : (s.isFunction && s.bindsParameter name) = (s'.isFunction && s'.bindsParameter name) := by
    rw [← hfunction]
    cases hf : s.isFunction with
    | false => rfl
    | true => rw [Site.bindsParameter_eq, Site.bindsParameter_eq, hσ.parameters h.node hf]
  unfold Site.declaredBy
  rw [← hbinds, ← h.hasKind_eq, ← h.hasKind_eq]
  split
  · exact .ok (.some ⟨rfl, h, .same _ (by simp), by simp⟩)
  · split
    · exact (declarations hσ h).bind fun t t' ht => .ok (ht.lookup name)
    · exact .ok .none

/-- A wrapper declares nothing. -/
theorem declaredBy_wrapper {wrapper : Site} (h : wrapper.kind?.any Kind.isWrapper = true) (name : String) :
    wrapper.declaredBy name = .ok none := by
  obtain ⟨k, hk, hwrapper⟩ := Kind.exists_wrapper h
  have hfunction : wrapper.isFunction = false := by
    rw [Site.isFunction, hk]
    cases k <;> first | rfl | cases hwrapper
  have hkind (k' : Kind) (hk' : k'.isWrapper = false) : wrapper.hasKind k' = false := by
    refine beq_eq_false_iff_ne.2 fun heq => ?_
    cases Option.some.inj (hk.symm.trans heq)
    cases hwrapper.symm.trans hk'
  rw [Site.declaredBy, hfunction, hkind _ rfl, hkind _ rfl]
  rfl

/-- The nearest scope that knows a name says the same about it. -/
theorem scopedDeclaration (hσ : σ.KeepsNames) (h : s.Restyled σ s') (name : String) :
    Parallel (Option.Rel (DeclaredAlike σ)) (s.scopedDeclaration? name)
      (s'.scopedDeclaration? name) := by
  have henclosing := h.enclosing
  unfold Site.scopedDeclaration?
  generalize s.enclosing = scopes at henclosing
  generalize s'.enclosing = scopes' at henclosing
  induction henclosing with
  | nil => exact .ok .none
  | cons hscope _ ih =>
    unfold firstSome
    generalize hx : Site.declaredBy _ name = x
    generalize hx' : Site.declaredBy _ name = x'
    have hstep := hx ▸ hx' ▸ declaredBy hσ hscope name
    cases hstep with
    | fault => exact .fault
    | ok hd =>
      cases hd with
      | none => exact ih
      | some hd => exact .ok (.some hd)
  | added hwrapper _ ih =>
    conv => rhs; unfold firstSome
    rw [declaredBy_wrapper hwrapper]
    exact ih

end Statements

/-! ### Projects -/

/-- A file set in another style. -/
structure SourceFile.Restyled (σ : Style) (f f' : SourceFile) : Prop where
  path : f.path = f'.path
  isProgram : f.program.get.hasKind .program = true
  program : Syntax.Restyled σ f.program.get f'.program.get

/-- A project whose files are set in another style. -/
structure Project.Restyled (σ : Style) (p p' : Project) : Prop where
  workingDirectory : p.workingDirectory = p'.workingDirectory
  root : p.root = p'.root
  aliases : p.aliases = p'.aliases
  enums : p.enums = p'.enums
  closed : p.closed = p'.closed
  known : List.Forall₂ (SourceFile.Restyled σ) p.known p'.known
  readable : List.Forall₂ (SourceFile.Restyled σ) p.readable p'.readable

/-- Enumerations outside the files have plain names. -/
def Project.PlainEnums (p : Project) : Prop := ∀ e ∈ p.enums, Node.isPlainName e.1 = true

section Projects

variable {σ : Style} {p p' : Project} {s s' : Site}

theorem SourceFile.Restyled.top {f f' : SourceFile} (h : f.Restyled σ f') :
    f.top.Restyled σ f'.top := ⟨h.path, .nil, h.program⟩

namespace Project.Restyled

theorem file (h : p.Restyled σ p') (path : String) :
    Option.Rel (SourceFile.Restyled σ) (p.file? path) (p'.file? path) := by
  unfold Project.file? Project.known?
  have hpath (f f' : SourceFile) (hf : f.Restyled σ f') : (f.path == path) = (f'.path == path) := by
    rw [hf.path]
  rcases option_rel_cases (forall₂_find h.known hpath) with ⟨hk, hk'⟩ | ⟨f, f', hk, hk', hf⟩
  · rw [hk, hk', Option.none_or, Option.none_or]
    exact forall₂_find h.readable hpath
  · rw [hk, hk', Option.some_or, Option.some_or]
    exact .some hf

theorem findFile (h : p.Restyled σ p') (paths : List String) :
    Option.Rel (SourceFile.Restyled σ) (paths.findSome? p.file?) (paths.findSome? p'.file?) := by
  induction paths with
  | nil => exact .none
  | cons path rest ih =>
    rw [List.findSome?_cons, List.findSome?_cons]
    rcases option_rel_cases (h.file path) with ⟨hf, hf'⟩ | ⟨f, f', hf, hf', hfile⟩
    · rw [hf, hf']
      exact ih
    · rw [hf, hf']
      exact .some hfile

/-- Imports lead to corresponding files. -/
theorem module (hσ : σ.KeepsNames) (h : p.Restyled σ p') (importer specifier : String) :
    Parallel (Option.Rel (SourceFile.Restyled σ)) (p.module? importer specifier)
      (p'.module? importer specifier) := by
  have halias : p.aliasTarget? specifier = p'.aliasTarget? specifier := by
    rw [Project.aliasTarget?, Project.aliasTarget?, h.aliases, h.root]
  have hplace : p.place = p'.place := by
    funext path
    rw [Project.place, Project.place, h.workingDirectory, h.root]
  unfold Project.module?
  rw [halias, hplace]
  refine Parallel.ite_bind (fun _ => .refl _) (fun _ => .refl _) fun base? _ heq => heq ▸ ?_
  dsimp only
  generalize hfiles : (base?.bind fun base => (moduleCandidates (p'.place base)).findSome? p.file?) = found
  generalize hfiles' : (base?.bind fun base => (moduleCandidates (p'.place base)).findSome? p'.file?) = found'
  have hfound : Option.Rel (SourceFile.Restyled σ) found found' := by
    rw [← hfiles, ← hfiles']
    cases base? with
    | none => exact .none
    | some base =>
      rw [Option.bind_some, Option.bind_some]
      exact h.findFile _
  cases hfound with
  | none => exact .ok .none
  | some hfile =>
    dsimp only
    rw [← hfile.path, ← h.closed]
    split
    · exact .fault
    · exact (exports hσ hfile.top hfile.isProgram).bind fun _ _ _ => .ok (.some hfile)

theorem followImport (hσ : σ.KeepsNames) (h : p.Restyled σ p') (file : String)
    {d d' : Declaration} (hd : DeclaredAlike σ d d') :
    Parallel (DeclaredAlike σ) (p.followImport file d)
      (p'.followImport file d') := by
  obtain ⟨name, site, binding⟩ := d
  obtain ⟨name', site', binding'⟩ := d'
  have hbinding := hd.binding
  unfold Project.followImport
  cases hbinding with
  | initialized => exact .ok hd
  | same =>
    cases binding
    case imported source exported _ =>
      dsimp only
      refine (h.module hσ file source).bind fun f f' hf => ?_
      cases hf with
      | none => exact .ok hd
      | some hf =>
        refine (exports hσ hf.top hf.isProgram).bind fun t t' ht => .ok ?_
        rcases option_rel_cases (ht.lookup exported) with ⟨hl, hl'⟩ | ⟨e, e', hl, hl', he⟩
        · rw [hl, hl']
          exact hd
        · rw [hl, hl']
          exact he
    all_goals exact .ok hd

theorem declaration (hσ : σ.KeepsNames) (hp : p.Restyled σ p') (h : s.Restyled σ s')
    (htext : s.text = s'.text) :
    Parallel (Option.Rel (DeclaredAlike σ)) (p.declaration? s)
      (p'.declaration? s') := by
  unfold Project.declaration?
  rw [← htext, ← h.file]
  refine (scopedDeclaration hσ h s.text).bind fun d d' hd => ?_
  cases hd with
  | none => exact .ok .none
  | some hd => exact (hp.followImport hσ s.file hd).bind fun _ _ hd => .ok (.some hd)

end Project.Restyled

/-- The variable that is spelled like a name. -/
theorem initializerBySpelling (hσ : σ.KeepsNames) (h : s.Restyled σ s') (htext : s.text = s'.text) :
    Option.Rel (Site.RestyledValue σ) (Project.initializerBySpelling? s)
      (Project.initializerBySpelling? s') := by
  have hprogram := h.program
  have hdeclarators := hprogram.node.declarators s.program.file hprogram.around
  have hnamed (d d' : Site) (hd : d.Restyled σ d') :
      ((d.part? .name).any fun n => n.hasKind .identifier && n.text == s.text) =
        (d'.part? .name).any fun n => n.hasKind .identifier && n.text == s.text := by
    have hname := hd.plainPart (r := .name) fun _ _ => Kind.not_mem_operandRoles (by decide) _
    rcases option_rel_cases hname with ⟨hn, hn'⟩ | ⟨name, name', hn, hn', hsame⟩
    · rw [hn, hn']
    · rw [hn, hn', Option.any_some, Option.any_some, ← hsame.hasKind_eq]
      cases hkind : name.hasKind .identifier with
      | false => rfl
      | true => rw [hsame.wordText hσ (Site.hasKind_iff.1 hkind) (by decide)]
  have hfound : List.Forall₂ (fun d d' => d.hasKind .variableDeclarator = true ∧ d.Restyled σ d')
      (s.program.declaratorsOf s.text) (s'.program.declaratorsOf s.text) := by
    refine (List.forall₂_and_left _ _).2 ⟨fun d hd => ?_, ?_⟩
    · exact (Bool.and_eq_true_iff.1 (List.mem_filter.1 hd).2).1
    · have hspelled := forall₂_filter hdeclarators hnamed
      unfold Site.declarators at hspelled
      rw [List.filter_filter, List.filter_filter, hprogram.file] at hspelled
      rw [Site.declaratorsOf_eq, Site.declaratorsOf_eq]
      unfold Site.walk
      simpa only [Bool.and_comm, hprogram.file] using hspelled
  unfold Project.initializerBySpelling?
  rw [← htext]
  generalize s.program.declaratorsOf s.text = declarators at hfound
  generalize s'.program.declaratorsOf s.text = declarators' at hfound
  induction hfound with
  | nil => exact .none
  | cons hd _ ih =>
    rw [List.findSome?_cons, List.findSome?_cons]
    rcases option_rel_cases (initializerPart hd.2 (Site.hasKind_iff.1 hd.1)) with
      ⟨hv, hv'⟩ | ⟨v, v', hv, hv', hvalue⟩
    · rw [hv, hv']
      exact ih
    · rw [hv, hv']
      exact .some hvalue

/-- Where texts differ, neither is the name of an enumeration outside the files. -/
theorem Project.Restyled.enumMember_eq (hσ : σ.KeepsSpelling) (hp : p.Restyled σ p')
    (hplain : p.PlainEnums) (h : s.Restyled σ s') (key : String) :
    p.enumMember? s.text key = p'.enumMember? s'.text key := by
  have hnone {text : String} (htext : ¬Node.isPlainName text = true) : p.enums.lookup text = none := by
    refine List.lookup_eq_none_iff.2 fun e he => bne_iff_ne.2 ?_
    rintro rfl
    exact htext (hplain e he)
  unfold Project.enumMember?
  rw [← hp.enums]
  by_cases hname : Node.isPlainName s.text = true ∨ Node.isPlainName s'.text = true
  · rw [show s.text = s'.text from h.node.plain_eq hσ hname]
  · rw [hnone fun h => hname (.inl h), hnone fun h => hname (.inr h)]

/-- **Restyling.** Sites correspond to their restyled forms in every respect that evaluation looks at. -/
theorem Project.Restyled.correspondenceOf (hσ : σ.KeepsNames) (hp : p.Restyled σ p')
    (houtside : ∀ {s s' : Site}, s.Restyled σ s' → ∀ key,
      p.enumMember? s.text key = p'.enumMember? s'.text key) :
    Correspondence p p' (Site.Restyled σ) (Site.RestyledValue σ) where
  unwrap h := h.unwrap
  same h := .same h
  initial h := h.unwrapped
  kind h := h.kind_eq
  word h hs := h.nodeText hσ (Site.isWord_node hs)
  substitutions h hs := h.hasSubstitutions_eq hs
  operator h := by
    have hoperator := h.plainPart (r := .operator) fun k _ => Kind.not_mem_operandRoles (by decide) k
    unfold operatorText
    rcases option_rel_cases hoperator with ⟨ho, ho'⟩ | ⟨o, o', ho, ho', hsame⟩
    · rw [ho, ho']
    · rw [ho, ho', Option.map_some, Option.map_some, Site.typeName, Site.typeName, hsame.node.typeName_eq]
  part h _ r := h.part r
  property h hs := by
    have hproperty := h.spelledPart (Site.hasKind_iff.1 hs) (r := .property) (by decide)
      (Node.isSpelling_of_role (by decide))
    rcases option_rel_cases hproperty with ⟨ho, ho'⟩ | ⟨o, o', ho, ho', -, htext⟩
    · rw [ho, ho']
    · rw [ho, ho', Option.map_some, Option.map_some, htext]
  pairKey h _ := h.memberKey_eq hσ
  elements h _ := h.elements
  members h hs := h.named (Site.hasKind_iff.1 hs) rfl
  declaration h hs := hp.declaration hσ h (h.nameText hσ hs)
  spelled h hs := initializerBySpelling hσ h (h.nameText hσ hs)
  outside := houtside

/-- Names of enumerations outside the files are spelled alike wherever texts are. -/
theorem Project.Restyled.correspondence (hσ : σ.KeepsSpelling) (hp : p.Restyled σ p')
    (hplain : p.PlainEnums) : Correspondence p p' (Site.Restyled σ) (Site.RestyledValue σ) :=
  hp.correspondenceOf hσ.names fun h key => hp.enumMember_eq hσ hplain h key

end Projects
end SettingsHarvest
