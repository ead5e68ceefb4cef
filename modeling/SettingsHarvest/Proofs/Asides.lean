import SettingsHarvest.Proofs.EvidenceCorrespondence
import SettingsHarvest.Proofs.Places

/-! One expression aside another.

What stands around an expression matters where it is a scope, and right around it where it is a variable
with a type. So an expression that stands in two places, around which only other nodes differ (`Beyond`),
means the same in both, functions in it and the names they declare included (`Aside.correspondence`). Two
object literals in such places that differ in one member have corresponding other members
(`AlikeBut.settingsAlike`). -/
namespace SettingsHarvest
open Syntax Project

namespace Syntax

/-- Nodes that say nothing about what is inside of them: they are no scopes and no variables. -/
def Node.isSilent (n : Node) : Bool := !n.isScope && !n.hasKind .variableDeclarator

/-- What is around two places, alike but for nodes that say nothing about what is inside of them. -/
inductive Beyond : List Node → List Node → Prop where
  | same (above : List Node) : Beyond above above
  | inside (n : Node) {above above' : List Node} : Beyond above above' →
    Beyond (n :: above) (n :: above')
  | apart {n n' : Node} {above above' : List Node} : n.isSilent = true → n'.isSilent = true →
    above ≠ [] → Beyond above above' → Beyond (n :: above) (n' :: above')

/-- One node in two places that are alike in the scopes around them. -/
structure Site.Aside (s s' : Site) : Prop where
  file : s.file = s'.file
  around : Beyond s.above s'.above
  node : s.node = s'.node

/-- The same for a node that was found with what is around it. -/
structure FoundAside (found found' : List Node × Node) : Prop where
  around : Beyond found.1 found'.1
  node : found.2 = found'.2

/-! ### Going down -/

mutual

theorem Beyond.core : ∀ {above above' : List Node} (n : Node), Beyond above above' →
    FoundAside (Site.core above n) (Site.core above' n)
  | _, _, .token .., h => ⟨h, rfl⟩
  | _, _, .leaf .., h => ⟨h, rfl⟩
  | above, above', .tree k r parts, h => by
    have hinner : Option.Rel FoundAside
        (if k == .typeAssertion then Site.coreOfLast (.tree k r parts :: above) parts
          else Site.coreOfFirst (.tree k r parts :: above) parts)
        (if k == .typeAssertion then Site.coreOfLast (.tree k r parts :: above') parts
          else Site.coreOfFirst (.tree k r parts :: above') parts) := by
      split
      · exact Beyond.coreOfLast parts (.inside _ h)
      · exact Beyond.coreOfFirst parts (.inside _ h)
    unfold Site.core
    split
    · dsimp only
      generalize (if k == .typeAssertion then Site.coreOfLast (.tree k r parts :: above) parts
        else Site.coreOfFirst (.tree k r parts :: above) parts) = found at hinner
      generalize (if k == .typeAssertion then Site.coreOfLast (.tree k r parts :: above') parts
        else Site.coreOfFirst (.tree k r parts :: above') parts) = found' at hinner
      cases hinner with
      | none => exact ⟨h, rfl⟩
      | some hfound => exact hfound
    · exact ⟨h, rfl⟩

theorem Beyond.coreOfFirst : ∀ {above above' : List Node} (parts : List Node), Beyond above above' →
    Option.Rel FoundAside (Site.coreOfFirst above parts) (Site.coreOfFirst above' parts)
  | _, _, [], _ => .none
  | _, _, part :: rest, h => by
    unfold Site.coreOfFirst
    split
    · exact .some (Beyond.core part h)
    · exact Beyond.coreOfFirst rest h

theorem Beyond.coreOfLast : ∀ {above above' : List Node} (parts : List Node), Beyond above above' →
    Option.Rel FoundAside (Site.coreOfLast above parts) (Site.coreOfLast above' parts)
  | _, _, [], _ => .none
  | _, _, part :: rest, h => by
    unfold Site.coreOfLast
    rcases option_rel_cases (Beyond.coreOfLast rest h) with
      ⟨hnone, hnone'⟩ | ⟨_, _, hsome, hsome', hfound⟩
    · rw [hnone, hnone']
      dsimp only
      split
      · exact .some (Beyond.core part h)
      · exact .none
    · rw [hsome, hsome']
      exact .some hfound

end

mutual

theorem Beyond.declaring : ∀ {above above' : List Node} (n : Node), Beyond above above' →
    Option.Rel FoundAside (Site.declaring above n) (Site.declaring above' n)
  | _, _, .token .., _ => .none
  | _, _, .leaf .., h => .some ⟨h, rfl⟩
  | _, _, .tree k r parts, h => by
    unfold Site.declaring
    split
    · dsimp only
      split
      · exact Beyond.declaringInRole parts (.inside _ h)
      · exact Beyond.declaringFirst parts (.inside _ h)
    · exact .some ⟨h, rfl⟩

theorem Beyond.declaringInRole : ∀ {above above' : List Node} (parts : List Node),
    Beyond above above' →
    Option.Rel FoundAside (Site.declaringInRole above parts) (Site.declaringInRole above' parts)
  | _, _, [], _ => .none
  | _, _, part :: rest, h => by
    unfold Site.declaringInRole
    split
    · exact Beyond.declaring part h
    · exact Beyond.declaringInRole rest h

theorem Beyond.declaringFirst : ∀ {above above' : List Node} (parts : List Node),
    Beyond above above' →
    Option.Rel FoundAside (Site.declaringFirst above parts) (Site.declaringFirst above' parts)
  | _, _, [], _ => .none
  | _, _, part :: rest, h => by
    unfold Site.declaringFirst
    split
    · exact Beyond.declaring part h
    · exact Beyond.declaringFirst rest h

end

namespace Site.Aside

variable {s s' : Site}

theorem refl (s : Site) : s.Aside s := ⟨rfl, .same _, rfl⟩

theorem unwrap (h : s.Aside s') : s.unwrap.Aside s'.unwrap := by
  have hfound : FoundAside (Site.core s.above s.node) (Site.core s'.above s'.node) :=
    h.node ▸ Beyond.core s.node h.around
  exact ⟨h.file, hfound.around, hfound.node⟩

theorem inside (h : s.Aside s') (part : Node) : (s.inside part).Aside (s'.inside part) := by
  refine ⟨h.file, ?_, rfl⟩
  show Beyond (s.node :: s.above) (s'.node :: s'.above)
  rw [h.node]
  exact .inside _ h.around

theorem placesAlike : PlacesAlike Aside where
  node h := h.node
  unwrap h := h.unwrap
  inside h _ part _ := h.inside part

theorem part (h : s.Aside s') (r : Role) : Option.Rel Aside (s.part? r) (s'.part? r) := by
  unfold Site.part?
  rw [← h.node]
  cases s.node.part? r with
  | none => exact .none
  | some part => exact .some (h.inside part)

theorem named (h : s.Aside s') : List.Forall₂ Aside s.named s'.named := by
  unfold Site.named
  rw [← h.node, List.forall₂_map_left_iff, List.forall₂_map_right_iff, List.forall₂_same]
  exact fun part _ => h.inside part

theorem kind_eq (h : s.Aside s') : s.kind? = s'.kind? := congrArg Node.kind? h.node

theorem hasKind_eq (h : s.Aside s') (k : Kind) : s.hasKind k = s'.hasKind k :=
  congrArg (Node.hasKind k) h.node

theorem text_eq (h : s.Aside s') : s.text = s'.text := congrArg Node.text h.node

theorem stringValue_eq (h : s.Aside s') : s.stringValue = s'.stringValue := by
  rw [Site.stringValue, Site.stringValue, literalBody, literalBody, h.text_eq]

/-! ### What scopes declare -/

/-- Corresponding declarations. -/
abbrev Declared : Declaration → Declaration → Prop := Declaration.Alike Aside Aside

theorem membersAlike (h : s.Aside s') :
    List.Forall₂ (MemberAlike Aside) (membersOf s) (membersOf s') := by
  unfold membersOf
  rcases option_rel_cases (h.part .body) with ⟨hb, hb'⟩ | ⟨body, body', hb, hb', hbody⟩
  · rw [hb, hb']
    exact .nil
  · rw [hb, hb']
    refine hbody.named.imp fun member member' hmember => ?_
    have hname {name name' : Site} (hn : name.Aside name') : memberName name = memberName name' := by
      rw [memberName, memberName, hn.hasKind_eq, hn.stringValue_eq, hn.text_eq]
    have hparts : Option.Rel Aside (memberParts member).1 (memberParts member').1 ∧
        Option.Rel Aside (memberParts member).2 (memberParts member').2 := by
      unfold memberParts
      rw [← hmember.hasKind_eq]
      split
      · exact ⟨hmember.part .name, hmember.part .value⟩
      · exact ⟨.some hmember, .none⟩
    exact ⟨option_rel_mono hparts.1 fun _ _ => hname, option_rel_mono hparts.2 fun _ _ => unwrap⟩

theorem plainVariables (h : s.Aside s') : List.Forall₂ Declared s.plainVariables s'.plainVariables := by
  refine List.rel_filterMap (fun d d' hd => ?_) h.named
  rw [← hd.hasKind_eq]
  split
  · rcases option_rel_cases (hd.part .name) with ⟨hn, hn'⟩ | ⟨name, name', hn, hn', hname⟩
    · rw [hn, hn']
      exact .none
    · rw [hn, hn']
      dsimp only
      rw [← hname.hasKind_eq, ← hname.text_eq]
      split
      · exact .some ⟨rfl, hd, .initialized (hd.part .value), nofun⟩
      · exact .none
  · exact .none

theorem byName {b : Binding} (h : s.Aside s') (hb : ∀ v, b ≠ .variable v) :
    List.Forall₂ Declared (s.byName b) (s'.byName b) := by
  unfold Site.byName
  rcases option_rel_cases (h.part .name) with ⟨hn, hn'⟩ | ⟨name, name', hn, hn', hname⟩
  · rw [hn, hn']
    exact .nil
  · rw [hn, hn']
    dsimp only
    rw [← hname.text_eq]
    exact .cons ⟨rfl, h, .same b hb, fun _ => h.membersAlike⟩ .nil

theorem importsOf (source : String) (h : s.Aside s') :
    List.Forall₂ Declared (s.importsOf source) (s'.importsOf source) := by
  unfold Site.importsOf
  rw [← h.kind_eq]
  split
  · rw [← h.text_eq]
    exact .cons ⟨rfl, h, .same _ nofun, nofun⟩ .nil
  · rcases option_rel_cases (forall₂_getLast h.named) with ⟨hn, hn'⟩ | ⟨name, name', hn, hn', hname⟩
    · rw [hn, hn']
      exact .nil
    · rw [hn, hn']
      dsimp only
      rw [← hname.text_eq]
      exact .cons ⟨rfl, h, .same _ nofun, nofun⟩ .nil
  · refine List.rel_filterMap (fun item item' hitem => ?_) h.named
    rw [← hitem.hasKind_eq]
    split
    · refine option_rel_map (hitem.part .name) fun name name' hname => ?_
      have hlocal : ((item.part? .rename).getD name).text = ((item'.part? .rename).getD name').text := by
        rcases option_rel_cases (hitem.part .rename) with ⟨hr, hr'⟩ | ⟨_, _, hr, hr', hrename⟩
        · rw [hr, hr']
          exact hname.text_eq
        · rw [hr, hr']
          exact hrename.text_eq
      rw [hlocal, hname.text_eq]
      exact ⟨rfl, hitem, .same _ nofun, nofun⟩
    · exact .none
  · exact .nil

theorem imports (h : s.Aside s') : Parallel (List.Forall₂ Declared) s.imports s'.imports := by
  unfold Site.imports
  rcases option_rel_cases (h.part .source) with ⟨hn, hn'⟩ | ⟨source, source', hn, hn', hsource⟩
  · rw [hn, hn']
    exact .ok .nil
  · rw [hn, hn']
    dsimp only
    rw [← hsource.stringValue_eq]
    refine .same_bind _ fun path _ => .ok ?_
    refine List.rel_flatMap (forall₂_filter h.named fun _ _ ht => ht.hasKind_eq _)
      fun clause clause' hclause => ?_
    exact List.rel_flatMap hclause.named fun _ _ hitem => hitem.importsOf path

theorem statementDeclarations (h : s.Aside s') :
    Parallel (List.Forall₂ Declared) s.statementDeclarations s'.statementDeclarations := by
  have hdeclaring : Option.Rel Aside s.declaringStatement? s'.declaringStatement? := by
    unfold Site.declaringStatement?
    rw [← h.node]
    exact option_rel_map (Beyond.declaring s.node h.around) fun _ _ hfound =>
      ⟨h.file, hfound.around, hfound.node⟩
  unfold Site.statementDeclarations
  rcases option_rel_cases hdeclaring with ⟨hd, hd'⟩ | ⟨t, t', hd, hd', ht⟩
  · rw [hd, hd']
    exact .ok .nil
  · rw [hd, hd']
    dsimp only
    rw [← ht.kind_eq]
    split
    case h_1 | h_2 => exact .ok ht.plainVariables
    case h_8 => exact ht.imports
    case h_9 => exact .ok .nil
    all_goals exact .ok (ht.byName nofun)

theorem declarations (h : s.Aside s') :
    Parallel (NameTable.Alike Aside Aside) s.declarations s'.declarations := by
  unfold Site.declarations
  refine (Parallel.mapM h.named fun _ _ ht => ht.statementDeclarations).bind fun ds ds' hds => .ok ?_
  exact NameTable.Alike.offerAll .nil (List.rel_flatten hds)

theorem declaredBy (h : s.Aside s') (name : String) :
    Parallel (Option.Rel Declared) (s.declaredBy name) (s'.declaredBy name) := by
  have hbinds : s.bindsParameter name = s'.bindsParameter name := by
    unfold bindsParameter
    rcases option_rel_cases (h.part .parameter) with ⟨hn, hn'⟩ | ⟨p, p', hn, hn', hp⟩
    · rw [hn, hn']
      rcases option_rel_cases (h.part .parameters) with ⟨hn, hn'⟩ | ⟨ps, ps', hn, hn', hps⟩
      · rw [hn, hn']
      · rw [hn, hn']
        dsimp only
        rw [hps.node]
    · rw [hn, hn']
      dsimp only
      rw [hp.text_eq]
  unfold Site.declaredBy
  rw [← hbinds, isFunction, isFunction, ← h.kind_eq, ← h.hasKind_eq, ← h.hasKind_eq]
  split
  · exact .ok (.some ⟨rfl, h, .same _ (by simp), by simp⟩)
  · split
    · exact h.declarations.bind fun t t' ht => .ok (ht.lookup name)
    · exact .ok .none

/-! ### Names -/

theorem enclosing_eq (file : String) (above : List Node) (node : Node) :
    Site.enclosing ⟨file, above, node⟩ = enclosing.go ⟨file, [], node⟩ above := by
  have hgo (around : List Node) :
      enclosing.go ⟨file, around, node⟩ above = enclosing.go ⟨file, [], node⟩ above := by
    induction above with
    | nil => rfl
    | cons n rest ih => rw [enclosing.go, enclosing.go, ih]
  exact hgo above

/-- The enclosing scopes declare corresponding names. -/
theorem scopedDeclaration (h : s.Aside s') (name : String) :
    Parallel (Option.Rel Declared) (s.scopedDeclaration? name) (s'.scopedDeclaration? name) := by
  obtain ⟨file, above, node⟩ := s
  obtain ⟨file', above', node'⟩ := s'
  obtain ⟨rfl, haround, rfl⟩ := h
  have hrefl (x : Attempt (Option Declaration)) : Parallel (Option.Rel Declared) x x :=
    (Parallel.refl x).mono fun o _ heq => heq ▸ option_rel_refl _ (.refl refl refl) o
  unfold scopedDeclaration?
  rw [enclosing_eq, enclosing_eq]
  dsimp only at haround
  induction haround with
  | same above => exact hrefl _
  | apart hn hn' _ _ ih =>
    -- what is no scope declares nothing
    unfold enclosing.go firstSome
    have hsilent (above : List Node) {m : Node} (hm : m.isSilent = true) :
        Site.declaredBy ⟨file, above, m⟩ name = .ok none :=
      declaredBy_eq_none (s := ⟨file, above, m⟩) ((Bool.not_eq_true' _).mp (Bool.and_eq_true_iff.1 hm).1) name
    dsimp only
    rw [hsilent _ hn, hsilent _ hn']
    exact ih
  | @inside n above above' haround ih =>
    unfold enclosing.go firstSome
    have hscope : Site.Aside ⟨file, above, n⟩ ⟨file, above', n⟩ := ⟨rfl, haround, rfl⟩
    generalize hx : Site.declaredBy ⟨file, above, n⟩ name = x
    generalize hx' : Site.declaredBy ⟨file, above', n⟩ name = x'
    have hstep := hx ▸ hx' ▸ hscope.declaredBy name
    cases hstep with
    | fault => exact .fault
    | ok hd =>
      cases hd with
      | none => exact ih
      | some hd => exact .ok (.some hd)

theorem program_eq (h : s.Aside s') : s.program = s'.program := by
  obtain ⟨file, above, node⟩ := s
  obtain ⟨file', above', node'⟩ := s'
  obtain ⟨rfl, haround, rfl⟩ := h
  have hlast {above above' : List Node} (h : Beyond above above') (hne : above ≠ []) :
      above' ≠ [] ∧ (enclosing.go ⟨file, [], node⟩ above).getLast? =
        (enclosing.go ⟨file, [], node⟩ above').getLast? := by
    induction h with
    | same => exact ⟨hne, rfl⟩
    | @apart n n' rest rest' _ _ hrest h ih =>
      obtain ⟨hrest', hlast⟩ := ih hrest
      obtain ⟨m, more, rfl⟩ := List.exists_cons_of_ne_nil hrest
      obtain ⟨m', more', rfl⟩ := List.exists_cons_of_ne_nil hrest'
      exact ⟨nofun, hlast⟩
    | @inside n rest rest' h ih =>
      refine ⟨nofun, ?_⟩
      cases h with
      | same => rfl
      | inside m h => exact (ih nofun).2
      | apart hm hm' hne h => exact (ih nofun).2
  cases above with
  | nil =>
    cases haround
    rfl
  | cons n rest =>
    cases above' with
    | nil => cases haround
    | cons n' rest' =>
      unfold program
      rw [enclosing_eq, enclosing_eq, ← (hlast haround nofun).2]
      rfl

/-- Names mean corresponding things. -/
theorem declaration {p : Project} (h : s.Aside s') :
    Parallel (Option.Rel Declared) (p.declaration? s) (p.declaration? s') := by
  unfold Project.declaration?
  rw [← h.text_eq, ← h.file]
  refine (h.scopedDeclaration s.text).bind fun d d' hd => ?_
  cases hd with
  | none => exact .ok .none
  | some hd =>
    rename_i d d'
    obtain ⟨name, site, binding⟩ := d
    obtain ⟨name', site', binding'⟩ := d'
    have hbinding := hd.binding
    unfold followImport
    cases hbinding with
    | initialized => exact .ok (.some hd)
    | same =>
      cases binding
      case imported source exported _ =>
        dsimp only
        cases p.module? s.file source with
        | error f => exact .fault
        | ok target =>
          cases target with
          | none => exact .ok (.some hd)
          | some target =>
            dsimp only [bind, Except.bind]
            cases target.exports with
            | error f => exact .fault
            | ok table =>
              refine .ok (.some ?_)
              cases table.lookup? exported with
              | none => exact hd
              | some e => exact .refl refl refl e
      all_goals exact .ok (.some hd)

theorem initializerBySpelling (h : s.Aside s') :
    Project.initializerBySpelling? s = Project.initializerBySpelling? s' := by
  rw [Project.initializerBySpelling?, Project.initializerBySpelling?, h.text_eq, h.program_eq]

/-! ### Calls, functions and types -/

theorem callArguments (h : s.Aside s') : List.Forall₂ Aside s.callArguments s'.callArguments := by
  unfold Site.callArguments
  rcases option_rel_cases (h.part .arguments) with ⟨ha, ha'⟩ | ⟨a, a', ha, ha', hsame⟩
  · rw [ha, ha']
    exact .nil
  · rw [ha, ha']
    exact hsame.named

theorem isMethodCall_eq (h : s.Aside s') (name : String) : s.isMethodCall name = s'.isMethodCall name := by
  unfold Site.isMethodCall callee?
  rw [← h.hasKind_eq]
  rcases option_rel_cases (h.part .function) with ⟨hc, hc'⟩ | ⟨c, c', hc, hc', hcallee⟩
  · rw [hc, hc']
  · rw [hc, hc']
    dsimp only
    rw [← hcallee.hasKind_eq]
    rcases option_rel_cases (hcallee.part .property) with ⟨hp, hp'⟩ | ⟨q, q', hp, hp', hproperty⟩
    · rw [hp, hp']
    · rw [hp, hp', Option.any_some, Option.any_some, hproperty.text_eq]

theorem builtinAnswer_eq (h : s.Aside s') : s.builtinAnswer? = s'.builtinAnswer? := by
  unfold builtinAnswer? callee?
  rcases option_rel_cases (h.part .function) with ⟨hc, hc'⟩ | ⟨c, c', hc, hc', hcallee⟩
  · rw [hc, hc']
  · rw [hc, hc', Option.bind_some, Option.bind_some, hcallee.text_eq]

/-- The object a method is called on. -/
theorem calledOn (h : s.Aside s') :
    Option.Rel Aside (s.callee?.bind (·.part? .object)) (s'.callee?.bind (·.part? .object)) := by
  unfold callee?
  rcases option_rel_cases (h.part .function) with ⟨hc, hc'⟩ | ⟨c, c', hc, hc', hcallee⟩
  · rw [hc, hc']
    exact .none
  · rw [hc, hc']
    exact hcallee.part .object

theorem isMethodCallOn_eq (h : s.Aside s') (receiver name : String) :
    s.isMethodCallOn receiver name = s'.isMethodCallOn receiver name := by
  unfold Site.isMethodCallOn
  rw [h.isMethodCall_eq]
  rcases option_rel_cases h.calledOn with ⟨ho, ho'⟩ | ⟨o, o', ho, ho', hobject⟩
  · rw [ho, ho']
  · rw [ho, ho']
    dsimp only
    rw [hobject.hasKind_eq, hobject.text_eq]

theorem receiver (h : s.Aside s') : Option.Rel Aside s.receiver? s'.receiver? := by
  unfold receiver? callee?
  rcases option_rel_cases (h.part .function) with ⟨hc, hc'⟩ | ⟨c, c', hc, hc', hcallee⟩
  · rw [hc, hc']
    exact .none
  · rw [hc, hc']
    dsimp only
    rw [← hcallee.hasKind_eq]
    split
    · exact hcallee.part .object
    · exact .none

theorem parameterNames_eq (h : s.Aside s') : s.parameterNames? = s'.parameterNames? := by
  unfold parameterNames?
  rcases option_rel_cases (h.part .parameter) with ⟨hp, hp'⟩ | ⟨q, q', hp, hp', hsame⟩
  · rw [hp, hp']
    rcases option_rel_cases (h.part .parameters) with ⟨hq, hq'⟩ | ⟨params, params', hq, hq', hparams⟩
    · rw [hq, hq']
    · rw [hq, hq']
      refine forall₂_mapM_eq hparams.named fun q q' hsame => ?_
      have hpattern : Option.Rel Aside (if q.hasKind .identifier then some q else q.part? .pattern)
          (if q'.hasKind .identifier then some q' else q'.part? .pattern) := by
        rw [← hsame.hasKind_eq]
        split
        · exact .some hsame
        · exact hsame.part .pattern
      rcases option_rel_cases hpattern with ⟨hn, hn'⟩ | ⟨name, name', hn, hn', hname⟩
      · rw [hn, hn']
      · rw [hn, hn']
        simp only [hname.hasKind_eq, hname.text_eq]
  · rw [hp, hp']
    dsimp only
    rw [hsame.hasKind_eq, hsame.text_eq]

theorem bodyExpression (h : s.Aside s') : Option.Rel Aside s.bodyExpression? s'.bodyExpression? := by
  have hhead {t t' : Site} (ht : t.Aside t') : Option.Rel Aside t.named.head? t'.named.head? := by
    rw [List.head?_eq_getElem?, List.head?_eq_getElem?]
    exact forall₂_getElem ht.named 0
  unfold bodyExpression?
  rcases option_rel_cases (h.part .body) with ⟨hb, hb'⟩ | ⟨body, body', hb, hb', hbody⟩
  · rw [hb, hb']
    exact .none
  · rw [hb, hb']
    dsimp only
    rw [← hbody.hasKind_eq]
    split
    · rcases option_rel_cases (hhead hbody) with ⟨hf, hf'⟩ | ⟨first, first', hf, hf', hfirst⟩
      · rw [hf, hf']
        exact .none
      · rw [hf, hf']
        dsimp only
        rw [← hfirst.hasKind_eq]
        split
        · exact hhead hfirst
        · exact .none
    · exact .some hbody

theorem declaredShape_eq (h : s.Aside s') : s.declaredShape? = s'.declaredShape? := by
  obtain ⟨file, above, node⟩ := s
  obtain ⟨file', above', node'⟩ := s'
  obtain ⟨rfl, haround, rfl⟩ := h
  dsimp only at haround
  cases haround with
  | same => rfl
  | inside => rfl
  | @apart n n' above above' hn hn' =>
    -- what is no variable declares no type
    have hsilent (above : List Node) {m : Node} (hm : m.isSilent = true) :
        Site.hasKind ⟨file, above, m⟩ .variableDeclarator = false :=
      (Bool.not_eq_true' _).mp (Bool.and_eq_true_iff.1 hm).2
    unfold declaredShape?
    rw [parent?, parent?, enclosing_eq, enclosing_eq]
    dsimp only [enclosing.go, List.head?_cons]
    rw [hsilent _ hn, hsilent _ hn']
    rfl

theorem isStringArray_eq (h : s.Aside s') : s.isStringArray = s'.isStringArray := by
  unfold isStringArray
  dsimp only
  rw [h.unwrap.hasKind_eq, h.node, forall₂_all h.unwrap.named fun e e' he => he.unwrap.hasKind_eq .string]

theorem isObjectArray_eq (h : s.Aside s') : s.isObjectArray = s'.isObjectArray := by
  unfold isObjectArray
  dsimp only
  rw [h.unwrap.hasKind_eq, h.node, forall₂_isEmpty h.unwrap.named,
    forall₂_all h.unwrap.named fun e e' he => he.unwrap.hasKind_eq .object]

/-- **Asides.** An expression means the same whatever nodes around it hold besides. -/
theorem correspondence (p : Project) : SettingCorrespondence p p Aside Aside where
  toCorrespondence := placesAlike.correspondence id unwrap (fun h _ => h.declaration) fun {s s'} h _ => by
    rw [h.initializerBySpelling]
    exact option_rel_refl _ refl _
  lookups := rfl
  partOf h r := option_rel_mono (h.part r) fun _ _ => unwrap
  parts h := h.named.imp fun _ _ => unwrap
  memberKey h := memberKey_eq_of_node h.node
  isGetter {s s'} h := by rw [isGetter, isGetter, h.hasKind_eq, h.node]
  spreads h _ := h.named.imp fun _ _ he => he.hasKind_eq _
  arguments h := h.callArguments.imp fun _ _ => unwrap
  method h := h.isMethodCall_eq
  methodOn h := h.isMethodCallOn_eq
  receiver h := option_rel_mono h.receiver fun _ _ => unwrap
  builtin h := h.builtinAnswer_eq
  helper h _ _ name _ := congrArg (· != some name) (part_map_eq_of_node Node.text h.node .function)
  parameterNames h := h.parameterNames_eq
  body h := option_rel_mono h.bodyExpression fun _ _ => unwrap
  topValue {s s'} h name := by
    rw [topValue?, topValue?, h.program_eq]
    exact (Parallel.refl _).mono fun o _ heq => heq ▸ option_rel_refl _ refl o
  typeShape h := by rw [h.node]
  declaredShape h := h.declaredShape_eq
  isStringArray h := h.isStringArray_eq
  isObjectArray h := h.isObjectArray_eq

end Site.Aside

/-! ### Objects that differ in one member -/

/-- A pair with a key. -/
def Site.IsPair (member : Site) (key : String) : Prop :=
  member.hasKind .pair = true ∧ member.memberKey? = .ok (some key)

/-- Members in two object literals: one aside the other, unless both are pairs with one key. -/
def Site.AsideBut (key : String) (m m' : Site) : Prop := m.Aside m' ∨ m.IsPair key ∧ m'.IsPair key

/-- Two object literals inside of the same scopes, with the same members but for pairs with one key. -/
structure Site.AlikeBut (key : String) (s s' : Site) : Prop where
  file : s.file = s'.file
  around : Beyond s.above s'.above
  nested : s.above ≠ []
  isObject : s.hasKind .object = true
  alsoObject : s'.hasKind .object = true
  members : List.Forall₂ (fun m m' => m = m' ∨ (s.inside m).IsPair key ∧ (s'.inside m').IsPair key)
    s.node.named s'.node.named

namespace Site.AsideBut

variable {m m' : Site} {key : String} {members members' : List Site}

theorem hasKind_eq (h : m.AsideBut key m') (k : Kind) : m.hasKind k = m'.hasKind k := by
  rcases h with h | ⟨h, h'⟩
  · exact h.hasKind_eq k
  · rw [hasKind, hasKind, Node.hasKind, Node.hasKind, eq_of_beq h.1, eq_of_beq h'.1]

/-- What a search finds that finds nothing in pairs with the key. -/
theorem firstSome {f : Site → Attempt (Option Site)} (h : List.Forall₂ (AsideBut key) members members')
    (hpair : ∀ m, m.IsPair key → f m = .ok none)
    (hf : ∀ m m', Aside m m' → Parallel (Option.Rel Aside) (f m) (f m')) :
    Parallel (Option.Rel Aside) (Syntax.firstSome f members) (Syntax.firstSome f members') := by
  refine Parallel.firstSome h fun m m' hm => ?_
  rcases hm with hm | ⟨hm, hm'⟩
  · exact hf m m' hm
  · rw [hpair m hm, hpair m' hm']
    exact .ok .none

end Site.AsideBut

theorem Site.IsPair.not_of_kind {m : Site} {key : String} {k : Kind} (h : m.IsPair key)
    (hk : (Kind.pair == k) = false) : m.hasKind k = false := by
  rw [hasKind, Node.hasKind, eq_of_beq h.1]
  exact hk

namespace Site.AlikeBut

variable {s s' : Site} {key : String}

theorem named (h : s.AlikeBut key s') : List.Forall₂ (AsideBut key) s.named s'.named := by
  unfold Site.named
  rw [List.forall₂_map_left_iff, List.forall₂_map_right_iff]
  refine h.members.imp fun m m' hm => hm.imp_left fun heq => ?_
  have hsilent {o : Site} (ho : o.hasKind .object = true) : o.node.isSilent = true := by
    rw [Node.isSilent, show o.node.isScope = false from isScope_eq_false ho rfl, Node.hasKind,
      eq_of_beq ho]
    rfl
  have haround : Beyond (s.node :: s.above) (s'.node :: s'.above) :=
    .apart (hsilent h.isObject) (hsilent h.alsoObject) h.nested h.around
  exact ⟨h.file, haround, heq⟩

theorem propertyValue (h : s.AlikeBut key s') {other : String} (hne : other ≠ key) :
    Parallel (Option.Rel Aside) (s.propertyValue? other) (s'.propertyValue? other) := by
  unfold propertyValue?
  rw [if_pos h.isObject, if_pos h.alsoObject]
  refine AsideBut.firstSome (forall₂_filter h.named fun m m' hm => hm.hasKind_eq _) (fun m hm => ?_)
    fun m m' hm => ?_
  · rw [hm.2]
    dsimp only [bind, Except.bind]
    rw [if_neg (by simpa using Ne.symm hne)]
    rfl
  · rw [← memberKey_eq_of_node hm.node]
    refine .same_bind _ fun k _ => ?_
    split
    · exact .ok (hm.part .value)
    · exact .ok .none

/-- The name of a member that is written alone. -/
theorem alone (h : s.AlikeBut key s') (other : String) :
    Option.Rel Aside (s.named.find? (·.isShorthand other)) (s'.named.find? (·.isShorthand other)) := by
  have hpair {m : Site} (hm : m.IsPair key) : m.isShorthand other = false := by
    rw [isShorthand, hm.not_of_kind rfl]
    rfl
  have hsame (m m' : Site) (hm : m.AsideBut key m') : m.isShorthand other = m'.isShorthand other := by
    rcases hm with hm | ⟨hm, hm'⟩
    · rw [isShorthand, isShorthand, hm.hasKind_eq, hm.text_eq]
    · rw [hpair hm, hpair hm']
  have hfound := forall₂_find h.named hsame
  rcases option_rel_cases hfound with ⟨ho, ho'⟩ | ⟨m, m', ho, ho', hm⟩
  · rw [ho, ho']
    exact .none
  · rw [ho, ho']
    rcases hm with hm | ⟨hm, -⟩
    · exact .some hm
    · exact absurd (List.find?_some ho) (by simp [hpair hm])

theorem settingsAlike (h : s.AlikeBut "default" s') : SettingsAlike Aside s s' := by
  intro other hother
  unfold memberValue?
  refine (h.propertyValue hother).bind fun v v' hv => ?_
  cases hv with
  | some hv => exact .ok (.some hv.unwrap)
  | none =>
    dsimp only
    rw [if_pos h.isObject, if_pos h.alsoObject]
    exact .ok (option_rel_mono (h.alone other) fun _ _ => Aside.unwrap)

/-- Accessors are found alike. -/
theorem getter (h : s.AlikeBut key s') (other : String) :
    Parallel (Option.Rel Aside) (s.getter? other) (s'.getter? other) := by
  unfold getter?
  rw [if_pos h.isObject, if_pos h.alsoObject]
  refine AsideBut.firstSome h.named (fun m hm => ?_) fun m m' hm => ?_
  · have hgetter : m.isGetter = false := by
      rw [isGetter, hm.not_of_kind rfl]
      rfl
    rw [hgetter]
    rfl
  · have hgetter : m.isGetter = m'.isGetter := by rw [isGetter, isGetter, hm.hasKind_eq, hm.node]
    rw [← hgetter, ← memberKey_eq_of_node hm.node]
    split
    · refine .same_bind _ fun k _ => ?_
      split
      · exact .ok (.some hm)
      · exact .ok .none
    · exact .ok .none

end Site.AlikeBut
end Syntax
end SettingsHarvest
