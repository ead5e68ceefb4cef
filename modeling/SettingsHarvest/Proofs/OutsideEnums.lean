import SettingsHarvest.Proofs.Depth
import SettingsHarvest.Proofs.Wrappers

/-! Enumerations outside the files.

A table lists members of enumerations that no file declares. An access asks it last of all, and by the
spelling of the base alone: for a name that the files define as well, it answers exactly where what they
define lacks the key (`outside_answers_iff`). Functions, classes, parameters and variables without
initializer lack every key. So an enumeration of the files is filled up with the members of one outside
that has its name (`declared_enum_filled_up`). -/
namespace SettingsHarvest
open Syntax Project

/-! ### What declarations can be -/

/-- A property of all that a table declares. -/
def Syntax.NameTable.All (P : Declaration → Prop) (t : NameTable) : Prop := ∀ e ∈ t, P e.2

namespace Syntax.NameTable

variable {P : Declaration → Prop} {t : NameTable}

theorem All.lookup? (h : t.All P) {name : String} {d : Declaration} (hd : t.lookup? name = some d) :
    P d := by
  obtain ⟨e, he, rfl⟩ := Option.map_eq_some_iff.1 hd
  exact h e (List.mem_of_find?_eq_some he)

theorem All.offer (h : t.All P) {d : Declaration} (hd : P d) (name : String) :
    (t.offer name d).All P := by
  unfold NameTable.offer
  split
  · exact h
  · exact List.forall_mem_append.2 ⟨h, List.forall_mem_singleton.2 hd⟩

theorem All.offerAll (h : t.All P) {ds : List Declaration} (hds : ∀ d ∈ ds, P d) :
    (t.offerAll ds).All P := by
  induction ds generalizing t with
  | nil => exact h
  | cons d rest ih =>
    obtain ⟨hd, hrest⟩ := List.forall_mem_cons.1 hds
    exact ih (h.offer hd d.name) hrest

theorem All.clauseExports {declared : NameTable} (hdeclared : declared.All P) (h : t.All P)
    (statement : Site) : (Site.clauseExports declared t statement).All P := by
  refine List.foldlRecOn _ _ h fun t ht clause _ => ?_
  refine List.foldlRecOn _ _ ht fun t ht specifier _ => ?_
  split
  · exact ht
  · split
    · next hd => exact ht.offer (hdeclared.lookup? hd) _
    · exact ht

end Syntax.NameTable

/-- A property of whatever is declared somewhere: by a statement, as a default export or as a
parameter. -/
structure Syntax.DeclaredAs (P : Declaration → Prop) : Prop where
  statement : ∀ s : Site, Ends (fun _ => True) (fun ds => ∀ d ∈ ds, P d) s.statementDeclarations
  default : ∀ s v, P ⟨"default", s, .variable (some v)⟩
  parameter : ∀ name scope, P ⟨name, scope, .parameter⟩

namespace Syntax.DeclaredAs

variable {P : Declaration → Prop} (hP : DeclaredAs P)

include hP

theorem declarations (s : Site) : Ends (fun _ => True) (NameTable.All P) s.declarations := by
  have hstatements : Ends (fun _ => True) (fun groups => ∀ ds ∈ groups, ∀ d ∈ ds, P d)
      (s.named.mapM Site.statementDeclarations) := .mapM fun t _ => hP.statement t
  refine hstatements.bind fun groups hgroups => .ok ?_
  refine NameTable.All.offerAll (t := []) nofun fun d hd => ?_
  obtain ⟨group, hgroup, hd⟩ := List.mem_flatten.1 hd
  exact hgroups group hgroup d hd

theorem exports (s : Site) : Ends (fun _ => True) (NameTable.All P) s.exports := by
  refine (hP.declarations s).bind fun declared hdeclared => Ends.foldlM nofun fun t _ exported ht => ?_
  unfold Site.statementExports
  split
  · exact (hP.statement _).bind fun ds hds => .ok (NameTable.All.offerAll ht hds)
  · split
    · exact .ok (forall_mem_assign (hP.default _ _) ht)
    · exact .ok (hdeclared.clauseExports ht _)

theorem declaredBy (scope : Site) (name : String) :
    Ends (fun _ => True) (fun found => ∀ d ∈ found, P d) (scope.declaredBy name) := by
  unfold Site.declaredBy
  split
  · exact .ok fun d hd => Option.some.inj hd ▸ hP.parameter name scope
  · split
    · exact (hP.declarations scope).bind fun t ht => .ok fun d hd => ht.lookup? hd
    · exact .ok nofun

/-- What holds of all that statements declare, of defaults and of parameters, holds of what names are
declared as, imported ones among them. -/
theorem declaration {p : Project} {name : Site} {d : Declaration}
    (hd : p.declaration? name = .ok (some d)) : P d := by
  obtain ⟨found, hfound, hd⟩ := bind_eq_ok.1 hd
  cases found with
  | none => cases pure_eq_ok.1 hd
  | some here =>
    have hhere : P here :=
      (Ends.firstSome fun t _ => hP.declaredBy t name.text).result hfound here rfl
    obtain ⟨followed, hfollowed, hd⟩ := bind_eq_ok.1 hd
    cases pure_eq_ok.1 hd
    unfold Project.followImport at hfollowed
    split at hfollowed
    · obtain ⟨target, -, hfollowed⟩ := bind_eq_ok.1 hfollowed
      cases target with
      | none =>
        cases pure_eq_ok.1 hfollowed
        exact hhere
      | some file =>
        obtain ⟨table, htable, hfollowed⟩ := bind_eq_ok.1 hfollowed
        cases pure_eq_ok.1 hfollowed
        cases hlookup : table.lookup? _ with
        | none => exact hhere
        | some d => exact ((hP.exports file.top).result htable).lookup? hlookup
    · cases hfollowed
      exact hhere

end Syntax.DeclaredAs

/-! ### Functions -/

theorem Syntax.Site.plainVariables_binding {t : Site} :
    ∀ d ∈ t.plainVariables, d.binding ≠ .function := by
  intro d hd
  obtain ⟨declarator, -, hd⟩ := List.mem_filterMap.1 hd
  split at hd
  · split at hd
    · split at hd
      · cases hd
        simp
      · cases hd
    · cases hd
  · cases hd

theorem Syntax.Site.importsOf_binding (source : String) (item : Site) :
    ∀ d ∈ Site.importsOf source item, d.binding ≠ .function := by
  unfold Site.importsOf
  split
  · exact List.forall_mem_singleton.2 (by simp)
  · split
    · exact List.forall_mem_singleton.2 (by simp)
    · exact List.forall_mem_nil _
  · intro d hd
    obtain ⟨specifier, -, hd⟩ := List.mem_filterMap.1 hd
    split at hd
    · obtain ⟨name, -, rfl⟩ := Option.map_eq_some_iff.1 hd
      simp
    · cases hd
  · exact List.forall_mem_nil _

/-- What is declared as a function is one. -/
theorem Syntax.declaredAs_function :
    DeclaredAs fun d => d.binding = .function → d.site.isFunction = true where
  default _ _ hfunction := by cases hfunction
  parameter _ _ hfunction := by cases hfunction
  statement s := by
    have hbyName (t : Site) (b : Binding) (h : b = .function → t.isFunction = true) :
        ∀ d ∈ t.byName b, d.binding = .function → d.site.isFunction = true := by
      unfold Site.byName
      split
      · exact List.forall_mem_singleton.2 h
      · exact List.forall_mem_nil _
    have hvariables (t : Site) :
        ∀ d ∈ t.plainVariables, d.binding = .function → d.site.isFunction = true :=
      fun d hd hfunction => absurd hfunction (Site.plainVariables_binding d hd)
    unfold Site.statementDeclarations
    split
    · exact .ok (List.forall_mem_nil _)
    · next t _ =>
      split
      · exact .ok (hvariables t)
      · exact .ok (hvariables t)
      · exact .ok (hbyName t _ fun h => by cases h)
      · next hkind => exact .ok (hbyName t _ fun _ => by rw [Site.isFunction, hkind]; rfl)
      · next hkind => exact .ok (hbyName t _ fun _ => by rw [Site.isFunction, hkind]; rfl)
      · exact .ok (hbyName t _ fun h => by cases h)
      · exact .ok (hbyName t _ fun h => by cases h)
      · unfold Site.imports
        split
        · exact .ok (List.forall_mem_nil _)
        · refine Ends.bind (P := fun _ => True) ⟨fun _ => trivial, fun _ => trivial⟩ fun path _ => .ok ?_
          intro d hd hfunction
          obtain ⟨clause, -, hd⟩ := List.mem_flatMap.1 hd
          obtain ⟨item, -, hd⟩ := List.mem_flatMap.1 hd
          exact absurd hfunction (Site.importsOf_binding path item d hd)
      · exact .ok (List.forall_mem_nil _)

/-! ### What defined names lack -/

/-- Whether a binding says what its name is. An import does not, if it leads to no export. -/
def Syntax.Binding.isDefinition : Binding → Bool
  | .imported .. | .namespace _ => false
  | _ => true

/-- Whether a binding leaves its name without an expression that could be a literal. -/
def Syntax.Binding.isBare : Binding → Bool
  | .variable none | .function | .classDefinition | .parameter => true
  | _ => false

namespace Project

variable {p : Project} {b : Bindings} {name start : Site} {key : String}

/-- A name that is bound where it stands, or that the files define. -/
structure Defines (p : Project) (b : Bindings) (name : Site) : Prop where
  isName : name.hasKind .identifier = true
  known : b.lookup name.text ≠ none ∨
    ∃ d, p.declaration? name = .ok (some d) ∧ d.binding.isDefinition = true

/-- An expression denotes no list or object literal with something behind a key. -/
def NoEntry (p : Project) (start : Site) (key : String) : Prop :=
  ∃ found, p.denoted? start = .ok found ∧
    ∀ literal ∈ found, (literal.hasKind .object || literal.hasKind .array) = true →
      entryAt? literal key = .ok none

/-- What a defined name stands for has nothing behind a key that evaluates: a value that it is bound to,
an expression that denotes no literal with the key, an enumeration without such a member, a constant like
such an expression, or something without members. -/
inductive Lacks (p : Project) (b : Bindings) (name : Site) (key : String) : Prop where
  | value {v : Value} : b.lookup name.text = some (.value v) → Lacks p b name key
  | expression {e : Site} : b.lookup name.text = some (.expression e) → p.NoEntry e key → Lacks p b name key
  | enumeration {label : String} {site : Site} {members : List (String × Value)} :
    b.lookup name.text = none → p.declaration? name = .ok (some ⟨label, site, .enumeration⟩) →
    p.enumMembers site = .ok members → members.lookup key = none → Lacks p b name key
  | constant {label : String} {site v : Site} : b.lookup name.text = none →
    p.declaration? name = .ok (some ⟨label, site, .variable (some v)⟩) → p.NoEntry name key →
    Lacks p b name key
  | bare {d : Declaration} : b.lookup name.text = none → p.declaration? name = .ok (some d) →
    d.binding.isBare = true → Lacks p b name key

theorem isFunction_of_declared {d : Declaration} (h : p.declaration? name = .ok (some d))
    (hfunction : d.binding = .function) : d.site.isFunction = true :=
  declaredAs_function.declaration h hfunction

/-- A name declared without an expression that could be a literal denotes none. -/
theorem noEntry_of_bare (hname : name.hasKind .identifier = true) {d : Declaration}
    (h : p.declaration? name = .ok (some d)) (hbare : d.binding.isBare = true) : p.NoEntry name key := by
  have hinitializer : p.initializer? name = .ok d.value? := by
    rw [initializer?, h]
    rfl
  have hdenoted : p.denoted? name =
      Followed.onward <$> p.initializer? name >>= Followed.resume (p.chain (p.objectWithin 479) 15) := by
    rw [denoted?, deepestChain, denotedWithin_succ, Site.unwrap_eq_self hname rfl, longestChain,
      chain_succ, follow, if_pos hname]
  cases hvalue : d.value? with
  | none =>
    refine ⟨none, ?_, fun _ hv => absurd hv (by simp)⟩
    rw [hdenoted, hinitializer, hvalue]
    rfl
  | some v =>
    -- Only a function has a value then, and it is what the name denotes.
    have hfunction : d.binding = .function ∧ v = d.site := by
      obtain ⟨label, site, binding⟩ := d
      cases binding with
      | «variable» value =>
        cases hvalue
        cases hbare
      | function => exact ⟨rfl, (Option.some.inj hvalue).symm⟩
      | enumeration | classDefinition | imported | «namespace» | parameter => cases hvalue
    obtain ⟨k, hkind, hk⟩ := (Option.any_eq_true _ _).1 (isFunction_of_declared h hfunction.1)
    rw [← hfunction.2] at hkind
    have hv : v.hasKind k = true := Site.hasKind_iff.2 hkind
    have hother (other : Kind) (hother : other.isFunction = false) : v.hasKind other = false :=
      Site.hasKind_ne hv fun heq => absurd hk (by rw [heq, hother]; decide)
    have hunwrap : v.unwrap = v := Site.unwrap_eq_self hv (Kind.isWrapper_of_isFunction hk)
    refine ⟨some v, ?_, ?_⟩
    · rw [hdenoted, hinitializer, hvalue]
      show p.chain (p.objectWithin 479) 15 v.unwrap = _
      rw [hunwrap, chain_succ, follow, hother .identifier rfl, hother .memberExpression rfl]
      rfl
    · rintro literal ⟨⟩ hliteral
      rw [hother .object rfl, hother .array rfl] at hliteral
      cases hliteral

/-- What is read from a base that is no bound value is an entry of what it denotes. -/
theorem entryIn_eq_none_iff (hstart : p.container? b name = (do
      return (← p.denoted? start).filter fun s => s.hasKind .object || s.hasKind .array)) :
    entryIn p b name key = .ok none ↔ p.NoEntry start key := by
  rw [entryIn, hstart]
  constructor
  · intro h
    obtain ⟨container, hcontainer, h⟩ := bind_eq_ok.1 h
    obtain ⟨found, hfound, hfilter⟩ := bind_eq_ok.1 hcontainer
    cases pure_eq_ok.1 hfilter
    refine ⟨found, hfound, fun literal hliteral hkind => ?_⟩
    cases hliteral
    rw [Option.filter_some, hkind] at h
    exact h
  · rintro ⟨found, hfound, hnone⟩
    rw [hfound]
    cases found with
    | none => rfl
    | some literal =>
      cases hkind : literal.hasKind .object || literal.hasKind .array with
      | false =>
        dsimp only [bind, Except.bind]
        rw [Option.filter_some, hkind]
        rfl
      | true =>
        dsimp only [bind, Except.bind]
        rw [Option.filter_some, hkind]
        exact hnone literal rfl hkind

theorem container_free (hname : name.hasKind .identifier = true) (hfree : b.lookup name.text = none) :
    p.container? b name = (do
      return (← p.denoted? name).filter fun s => s.hasKind .object || s.hasKind .array) := by
  unfold container?
  rw [if_pos hname, hfree]

theorem container_bound {e : Site} (hname : name.hasKind .identifier = true)
    (hbound : b.lookup name.text = some (.expression e)) :
    p.container? b name = (do
      return (← p.denoted? e).filter fun s => s.hasKind .object || s.hasKind .array) := by
  unfold container?
  rw [if_pos hname, hbound]

/-- A name that is bound, or is declared as something else, is no enumeration of the files. -/
theorem declaredEnumMember_bound {recur : Evaluator} {bound : Bound}
    (hlookup : b.lookup name.text = some bound) : p.declaredEnumMember? recur b name key = .ok none := by
  rw [declaredEnumMember?, hlookup, Option.isNone_some, Bool.and_false]
  rfl

theorem declaredEnumMember_other {recur : Evaluator} {d : Declaration}
    (hname : name.hasKind .identifier = true) (hfree : b.lookup name.text = none)
    (hd : p.declaration? name = .ok (some d)) (hother : d.binding ≠ .enumeration) :
    p.declaredEnumMember? recur b name key = .ok none := by
  rw [declaredEnumMember?, hname, hfree, hd]
  obtain ⟨label, site, binding⟩ := d
  cases binding with
  | enumeration => exact absurd rfl hother
  | «variable» | function | classDefinition | imported | «namespace» | parameter => rfl

theorem declaredEnumMember_enumeration {label : String} {site : Site}
    (hname : name.hasKind .identifier = true) (hfree : b.lookup name.text = none)
    (hd : p.declaration? name = .ok (some ⟨label, site, .enumeration⟩)) :
    p.declaredEnumMember? (p.evaluateWithin (evaluationDepth - 1)) b name key =
      (·.lookup key) <$> p.enumMembers site := by
  rw [declaredEnumMember?, hname, hfree, hd, enumMembers]
  rfl

/-- A defined name lacks a key exactly if neither its enumeration nor a literal that it denotes answers. -/
theorem lacks_iff (h : p.Defines b name) : p.Lacks b name key ↔
    p.declaredEnumMember? (p.evaluateWithin (evaluationDepth - 1)) b name key = .ok none ∧
      entryIn p b name key = .ok none := by
  constructor
  · intro hlacks
    cases hlacks with
    | value hlookup =>
      refine ⟨declaredEnumMember_bound hlookup, ?_⟩
      rw [entryIn, container?, if_pos h.isName, hlookup]
      rfl
    | expression hlookup hnone =>
      exact ⟨declaredEnumMember_bound hlookup,
        (entryIn_eq_none_iff (container_bound h.isName hlookup)).2 hnone⟩
    | enumeration hfree hd hmembers hnone =>
      refine ⟨by rw [declaredEnumMember_enumeration h.isName hfree hd, hmembers, ← hnone]; rfl, ?_⟩
      rw [entryIn, NamesEnum.container ⟨h.isName, hfree, _, hd⟩]
      rfl
    | constant hfree hd hnone =>
      exact ⟨declaredEnumMember_other h.isName hfree hd (by simp),
        (entryIn_eq_none_iff (container_free h.isName hfree)).2 hnone⟩
    | bare hfree hd hbare =>
      refine ⟨declaredEnumMember_other h.isName hfree hd fun henum => ?_, ?_⟩
      · rw [henum] at hbare
        cases hbare
      · exact (entryIn_eq_none_iff (container_free h.isName hfree)).2 (noEntry_of_bare h.isName hd hbare)
  · rintro ⟨hmember, hentry⟩
    cases hlookup : b.lookup name.text with
    | some bound =>
      cases bound with
      | value v => exact .value hlookup
      | expression e =>
        exact .expression hlookup ((entryIn_eq_none_iff (container_bound h.isName hlookup)).1 hentry)
    | none =>
      rcases h.known with hbound | ⟨⟨label, site, binding⟩, hd, hdefinition⟩
      · exact absurd hlookup hbound
      · cases binding with
        | «variable» value =>
          cases value with
          | none => exact .bare hlookup hd rfl
          | some v =>
            exact .constant hlookup hd ((entryIn_eq_none_iff (container_free h.isName hlookup)).1 hentry)
        | enumeration =>
          rw [declaredEnumMember_enumeration h.isName hlookup hd] at hmember
          obtain ⟨members, hmembers, hnone⟩ := exists_of_map hmember
          exact .enumeration hlookup hd hmembers hnone
        | function | classDefinition | parameter => exact .bare hlookup hd rfl
        | imported | «namespace» => cases hdefinition

/-! ### The table -/

/-- A project that knows of no enumerations outside its files. -/
def withoutOutside (p : Project) : Project := { p with enums := [] }

theorem chain_withoutOutside {object? : Site → Attempt (Option Site)} (steps : Nat) (s : Site) :
    p.withoutOutside.chain object? steps s = p.chain object? steps s := by
  induction steps generalizing s with
  | zero => rfl
  | succ steps ih =>
    rw [chain_succ, chain_succ]
    show p.follow object? s >>= _ = _
    rw [show p.withoutOutside.chain object? steps = p.chain object? steps from funext ih]

theorem denotedWithin_withoutOutside (depth : Nat) (s : Site) :
    p.withoutOutside.denotedWithin depth s = p.denotedWithin depth s := by
  induction depth generalizing s with
  | zero => rfl
  | succ depth ih =>
    have hobjects : p.withoutOutside.objectWithin depth = p.objectWithin depth :=
      funext fun base => congrArg (onlyKind .object <$> ·) (ih base)
    rw [denotedWithin_succ, denotedWithin_succ, chain_withoutOutside, hobjects]

theorem entryIn_withoutOutside : entryIn p.withoutOutside b name key = entryIn p b name key := by
  have hdenoted : p.withoutOutside.denoted? = p.denoted? :=
    funext fun s => denotedWithin_withoutOutside deepestChain s
  unfold entryIn container?
  rw [hdenoted]

/-- Without the table an access has the value that the files give it, or none. -/
theorem accessValue_withoutOutside (recur : Evaluator) (b : Bindings) (base : Site) (key : String) :
    p.withoutOutside.accessValue recur b base key =
      p.declaredEnumMember? recur b base.unwrap key >>= fun
        | some v => Evaluation.value v
        | none => entryIn p b base.unwrap key >>= entryValue p.withoutOutside recur base key := by
  rw [accessValue_eq, entryIn_withoutOutside]
  rfl

end Project

/-- **Enumerations outside fill up what the files define.** For a name that is bound, or that the files
define, the table decides an access exactly if what is defined lacks the key and the table lists it under
that name. Then the value is the one from the table; a key that neither has is an unresolved access. -/
theorem outside_answers_iff {p : Project} {b : Bindings} {s base : Site} {key : String}
    (hreads : p.ReadsKey b s base key) (hdefined : p.Defines b base.unwrap) :
    (p.evaluate s b ≠
        p.withoutOutside.accessValue (p.evaluateWithin (evaluationDepth - 1)) b base key ↔
      p.Lacks b base.unwrap key ∧ p.enumMember? base.unwrap.text key ≠ none) ∧
    (p.Lacks b base.unwrap key → p.evaluate s b = match p.enumMember? base.unwrap.text key with
      | some v => Evaluation.value v
      | none => Evaluation.fail (.unresolvedMember base.unwrap.text key)) := by
  rw [hreads.evaluate_eq, accessValue_withoutOutside, accessValue_eq, lacks_iff hdefined]
  constructor
  · constructor
    · intro hdiffer
      cases hmember : p.declaredEnumMember? (p.evaluateWithin (evaluationDepth - 1)) b base.unwrap key with
      | error f => exact absurd (by rw [hmember]; rfl) hdiffer
      | ok found =>
        rw [hmember] at hdiffer
        cases found with
        | some v => exact absurd rfl hdiffer
        | none =>
          cases hentry : entryIn p b base.unwrap key with
          | error f => exact absurd (by rw [hentry]; rfl) hdiffer
          | ok entry =>
            cases entry with
            | some e => exact absurd (by rw [hentry]; rfl) hdiffer
            | none =>
              refine ⟨⟨rfl, rfl⟩, fun hnone => hdiffer ?_⟩
              dsimp only [bind, Except.bind]
              rw [hentry]
              dsimp only [entryValue]
              rw [hnone]
              rfl
    · rintro ⟨⟨hmember, hentry⟩, hlisted⟩ heq
      obtain ⟨v, hv⟩ := Option.ne_none_iff_exists'.1 hlisted
      rw [hmember, hentry] at heq
      dsimp only [bind, Except.bind, entryValue] at heq
      rw [hv] at heq
      cases heq
  · rintro ⟨hmember, hentry⟩
    rw [hmember, hentry]
    rfl

/-! ### An enumeration with the name of one outside -/

/-- An enumeration of one member, and the probe of a member. -/
def enumProgram (name member value key : String) : Node :=
  .tree .program none
    [enumNode "" name [memberNode member (.leaf .number none " " value)],
     probeNode (memberAccess "" name key)]

theorem declared_member_wins :
    parse .plain "enum ActivityType \x7b PLAYING = 7 \x7d\nprobe(ActivityType.PLAYING);" =
      enumProgram "ActivityType" "PLAYING" "7" "PLAYING" ∧
    ∃ s base, firstArgument? (enumProgram "ActivityType" "PLAYING" "7" "PLAYING") = some s ∧
      bareProject.ReadsKey [] s base "PLAYING" ∧ bareProject.Defines [] base.unwrap ∧
      bareProject.enumMember? base.unwrap.text "PLAYING" = some (.integer 0) ∧
      bareProject.evaluate s [] = .ok (.ok (.integer 7)) ∧ ¬bareProject.Lacks [] base.unwrap "PLAYING" := by
  obtain ⟨s, base, hs, hreads, hname, hlisted, hvalue, hfiles, d, hd, hdefinition⟩ : ∃ s base,
      firstArgument? (enumProgram "ActivityType" "PLAYING" "7" "PLAYING") = some s ∧
      bareProject.ReadsKey [] s base "PLAYING" ∧ base.unwrap.hasKind .identifier = true ∧
      bareProject.enumMember? base.unwrap.text "PLAYING" = some (.integer 0) ∧
      bareProject.evaluate s [] = .ok (.ok (.integer 7)) ∧
      bareProject.withoutOutside.accessValue (bareProject.evaluateWithin (evaluationDepth - 1)) [] base
        "PLAYING" = .ok (.ok (.integer 7)) ∧
      ∃ d, bareProject.declaration? base.unwrap = .ok (some d) ∧ d.binding.isDefinition = true :=
    ⟨_, _, rfl, .member ⟨rfl, rfl⟩, rfl, rfl, rfl, rfl, _, rfl, rfl⟩
  have hdefined : bareProject.Defines [] base.unwrap := ⟨hname, .inr ⟨d, hd, hdefinition⟩⟩
  refine ⟨by decide +kernel, s, base, hs, hreads, hdefined, hlisted, hvalue, fun hlacks => ?_⟩
  have hdiffers := (outside_answers_iff hreads hdefined).1.2 ⟨hlacks, by rw [hlisted]; nofun⟩
  exact hdiffers (hvalue.trans hfiles.symm)

theorem declared_enum_filled_up :
    parse .plain "enum ActivityType \x7b FOO = 1 \x7d\nprobe(ActivityType.PLAYING);" =
      enumProgram "ActivityType" "FOO" "1" "PLAYING" ∧
    ∃ s base d, firstArgument? (enumProgram "ActivityType" "FOO" "1" "PLAYING") = some s ∧
      s.accessParts? = some (base, "PLAYING") ∧ bareProject.declaration? base = .ok (some d) ∧
      d.binding = .enumeration ∧ bareProject.enumMembers d.site = .ok [("FOO", .integer 1)] ∧
      bareProject.evaluate s [] = .ok (.ok (.integer 0)) ∧
      bareProject.evaluate s [("ActivityType", .value (.text "bound"))] = .ok (.ok (.integer 0)) :=
  ⟨by decide +kernel, _, _, _, rfl, rfl, rfl, rfl, rfl, rfl, rfl⟩

end SettingsHarvest
