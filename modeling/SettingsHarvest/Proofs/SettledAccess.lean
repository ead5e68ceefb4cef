import SettingsHarvest.Proofs.CarefulRuns

/-! Accesses by way of literals.

An access has the value of an entry of a literal. If the entry is settled for the key, this is what every
run reads there; if it is not, some run reads something else, and evaluation answers all the same
(`literal_access_exact`). What the entry itself comes to is a question for runs of the program: a careful
run of it comes to nothing but the value. -/
namespace SettingsHarvest
open Syntax Project

/-! ### What evaluation reads -/

section Reading

variable {p : Project} {b : Bindings} {s literal entry : Site} {key : String} {position : Nat} {v : Value}

/-- The expression that the part at a position of a literal gives. -/
inductive EntryAt (literal : Site) (position : Nat) : Site → Prop where
  | pair {member value : Site} : literal.hasKind .object = true → literal.named[position]? = some member →
    member.hasKind .pair = true → member.pairValue? = some value → EntryAt literal position value
  | shorthand {member : Site} : literal.hasKind .object = true →
    literal.named[position]? = some member → member.hasKind .shorthandPropertyIdentifier = true →
    EntryAt literal position member
  | element {element : Site} : literal.hasKind .object = false →
    literal.named[position]? = some element → element.hasKind .spreadElement = false →
    EntryAt literal position element

/-- A key gives a value in a run: that of the expression which is read there. -/
def Run.Gives (run : Run) (p : Project) (literal : Site) (key : String) (v : Value) : Prop :=
  ∃ position entry, run.provider? literal key = some position ∧ EntryAt literal position entry ∧
    p.evaluateWithin (evaluationDepth - 1) entry [] = .ok (.ok v)

theorem EntryAt.unique {entry' : Site} (h : EntryAt literal position entry)
    (h' : EntryAt literal position entry') : entry = entry' := by
  cases h with
  | pair hobject hmember hpair hvalue =>
    cases h' with
    | pair _ hmember' _ hvalue' =>
      cases hmember.symm.trans hmember'
      exact Option.some.inj (hvalue.symm.trans hvalue')
    | shorthand _ hmember' hshorthand =>
      cases hmember.symm.trans hmember'
      cases (Site.hasKind_ne hpair (by decide)).symm.trans hshorthand
    | element hno => cases hno.symm.trans hobject
  | shorthand hobject hmember hshorthand =>
    cases h' with
    | pair _ hmember' hpair _ =>
      cases hmember.symm.trans hmember'
      cases (Site.hasKind_ne hpair (by decide)).symm.trans hshorthand
    | shorthand _ hmember' _ => exact Option.some.inj (hmember.symm.trans hmember')
    | element hno => cases hno.symm.trans hobject
  | element hno helement =>
    cases h' with
    | pair hobject | shorthand hobject => cases hno.symm.trans hobject
    | element _ helement' => exact Option.some.inj (helement.symm.trans helement')

/-- A run gives no two values. -/
theorem Run.Gives.unique {run : Run} {v' : Value} (h : run.Gives p literal key v)
    (h' : run.Gives p literal key v') : v = v' := by
  obtain ⟨position, entry, hprovider, hentry, hv⟩ := h
  obtain ⟨position', entry', hprovider', hentry', hv'⟩ := h'
  cases hprovider.symm.trans hprovider'
  cases hentry.unique hentry'
  exact Except.ok.inj (Except.ok.inj (hv.symm.trans hv'))

/-- An entry is what some part of the literal gives, if it has a value. -/
theorem exists_position (h : entryAt? literal key = .ok (some entry)) {depth : Nat}
    (hv : p.evaluateWithin depth entry [] = .ok (.ok v)) : ∃ position, EntryAt literal position entry := by
  unfold entryAt? at h
  split at h
  · next hobject =>
    obtain ⟨found, hfound, h⟩ := bind_eq_ok.1 h
    cases found with
    | some value =>
      cases pure_eq_ok.1 h
      obtain ⟨-, member, hmember, hpair, -, hvalue⟩ := exists_pair_of_propertyValue hfound
      obtain ⟨position, hposition⟩ := List.mem_iff_getElem?.1 hmember
      exact ⟨position, .pair hobject hposition hpair hvalue⟩
    | none =>
      dsimp only at h
      rw [if_pos hobject] at h
      have hfind := pure_eq_ok.1 h
      have hmatch := List.find?_some hfind
      obtain ⟨position, hposition⟩ := List.mem_iff_getElem?.1 (List.mem_of_find?_eq_some hfind)
      exact ⟨position, .shorthand hobject hposition (Bool.and_eq_true_iff.1 hmatch).1⟩
  · next hobject =>
    unfold elementAt? at h
    split at h
    · obtain ⟨n, -, h⟩ := bind_eq_ok.1 h
      refine ⟨n.toNat, .element (Bool.eq_false_iff.2 hobject) (pure_eq_ok.1 h) ?_⟩
      refine Bool.eq_false_iff.2 fun hspread => ?_
      cases depth with
      | zero => exact absurd hv fail_ne_ok
      | succ depth =>
        rw [Project.evaluateWithin, Site.unwrap_eq_self hspread rfl, Project.valueOf,
          Site.kind_eq_of_hasKind hspread] at hv
        exact absurd hv fail_ne_ok
    · cases h

/-- An access to a base, with the key that evaluation comes to and the one that the language does. -/
inductive Accesses (p : Project) (b : Bindings) : Site → Site → String → String → Prop where
  | member {s base name : Site} {key wanted : String} : ReadsFrom s.unwrap base key →
    s.unwrap.part? .property = some name → name.nameText? = some wanted → Accesses p b s base key wanted
  | text {s base index : Site} {key : String} : s.unwrap.hasKind .subscriptExpression = true →
    s.unwrap.part? .object = some base → s.unwrap.part? .index = some index →
    p.evaluateWithin (evaluationDepth - 1) index b = .ok (.ok (.text key)) → Accesses p b s base key key
  | number {s base index : Site} {key wanted : String} {n : Value} :
    s.unwrap.hasKind .subscriptExpression = true → s.unwrap.part? .object = some base →
    s.unwrap.part? .index = some index → p.evaluateWithin (evaluationDepth - 1) index b = .ok (.ok n) →
    n.keyText = .ok key → numberKey n = some wanted → Accesses p b s base key wanted

variable {wanted : String}

theorem Accesses.readsKey {base : Site} (h : Accesses p b s base key wanted) :
    p.ReadsKey b s base key := by
  cases h with
  | member hreads => exact .member hreads
  | text hkind hobject hindex hkey => exact .text hkind hobject hindex hkey
  | number hkind hobject hindex hn hkey hwanted =>
    rename_i n
    have hnumber : n.isNumber = true := by
      cases n with
      | integer | decimal => rfl
      | text | null | truth | list | record => cases hwanted
    exact .number hkind hobject hindex hn hnumber hkey

/-- An access that is answered by an entry of a literal. -/
structure ByLiteral (p : Project) (b : Bindings) (s literal entry : Site) (wanted : String) : Prop where
  reads : ∃ base key, Accesses p b s base key wanted ∧ p.container? b base.unwrap = .ok (some literal) ∧
    entryAt? literal key = .ok (some entry)

/-- An access by way of a literal has the value of the entry. -/
theorem ByLiteral.value (h : ByLiteral p b s literal entry wanted) (hv : p.evaluate s b = .ok (.ok v)) :
    p.evaluateWithin (evaluationDepth - 1) entry [] = .ok (.ok v) := by
  obtain ⟨base, key, haccess, hcontainer, hentry⟩ := h.reads
  rw [haccess.readsKey.evaluate_eq, accessValue_eq] at hv
  obtain ⟨declared, hdeclared, hv⟩ := bind_eq_ok.1 hv
  rcases declaredEnumMember_cases hdeclared with ⟨enumeration, -, hnames, -⟩ | ⟨rfl, -⟩
  · cases hcontainer.symm.trans hnames.container
  · rw [entryIn, hcontainer] at hv
    obtain ⟨found, hfound, hv⟩ := bind_eq_ok.1 hv
    cases hentry.symm.trans hfound
    exact hv

/-- **Settled entries are not guessed.** An access that has a value by way of a literal has the value of
the expression at some position there, and that is what careful runs of the expression come to. If this
position is settled for the key that the program looks up, then every run gives that value; if it is not,
then some run reads something else. -/
theorem literal_access_exact (h : ByLiteral p b s literal entry wanted)
    (hv : p.evaluate s b = .ok (.ok v)) :
    (∃ position, EntryAt literal position entry) ∧ (∀ d, p.ComesTo entry d → d = .constant v) ∧
    ∀ position, EntryAt literal position entry →
      (Settled literal position wanted → ∀ run : Run, run.Gives p literal wanted v) ∧
      (¬Settled literal position wanted → ∃ run : Run, run.provider? literal wanted ≠ some position) := by
  have hvalue := h.value hv
  obtain ⟨base, key, -, -, hread⟩ := h.reads
  refine ⟨exists_position hread hvalue, fun d hd => Foretells.comesTo (foretells_evaluateWithin _) hd hvalue,
    fun position hentry => ⟨fun hsettled run => ?_, fun hnot => ?_⟩⟩
  · exact ⟨position, entry, forall_provider_iff.2 hsettled run, hentry, hvalue⟩
  · exact not_forall.1 fun hall => hnot (forall_provider_iff.1 hall)

end Reading

/-! ### Two literals -/

/-- The pair `key: value` of a number. -/
def numberPair (key value : String) : Node :=
  .tree .pair none
    [.leaf .propertyIdentifier (some .key) " " key, .token none "" ":",
     .leaf .number (some .value) " " value]

/-- A constant object with two members, and the probe of one of them. -/
def memberProbe (first second : Node) (name : String) : Node :=
  .tree .program none
    [constantNode "" "o" (.tree .object none
       [.token none " " "\x7b", first, .token none "" ",", second, .token none " " "\x7d"]),
     probeNode (memberAccess "" "o" name)]

def plainProbe : Node := memberProbe (numberPair "a" "1") (numberPair "b" "2") "b"

/-- The last of two members is settled if it is written with the key. -/
theorem settled_last {literal first last : Site} {key : String} (hobject : literal.hasKind .object = true)
    (hnamed : literal.named = [first, last]) (hspells : last.spells key = true) : Settled literal 1 key where
  member _ := by
    refine ⟨⟨last, by rw [hnamed]; rfl, hspells⟩, fun j member hj hmember => ?_⟩
    rw [hnamed, List.getElem?_eq_none hj] at hmember
    cases hmember
  element hno := by cases hobject.symm.trans hno

theorem plain_member_given :
    parse .plain "const o = \x7b a: 1, b: 2 \x7d;\nprobe(o.b);" = plainProbe ∧
    ∃ s literal entry, firstArgument? plainProbe = some s ∧
      ByLiteral bareProject [] s literal entry "b" ∧
      bareProject.evaluate s [] = .ok (.ok (.integer 2)) ∧ Settled literal 1 "b" ∧
      ∀ run : Run, run.Gives bareProject literal "b" (.integer 2) := by
  obtain ⟨s, base, name, literal, entry, first, last, hs, hreads, hname, hwanted, hcontainer, hentry, hv,
      hobject, hnamed, hpair, hvalue, hspells⟩ :
      ∃ s base name literal entry first last, firstArgument? plainProbe = some s ∧
        ReadsFrom s.unwrap base "b" ∧ s.unwrap.part? .property = some name ∧ name.nameText? = some "b" ∧
        bareProject.container? [] base.unwrap = .ok (some literal) ∧
        entryAt? literal "b" = .ok (some entry) ∧ bareProject.evaluate s [] = .ok (.ok (.integer 2)) ∧
        literal.hasKind .object = true ∧ literal.named = [first, last] ∧
        last.hasKind .pair = true ∧ last.pairValue? = some entry ∧ last.spells "b" = true :=
    ⟨_, _, _, _, _, _, _, rfl, ⟨rfl, rfl⟩, rfl, rfl, rfl, rfl, rfl, rfl, rfl, rfl, rfl, rfl⟩
  have hby : ByLiteral bareProject [] s literal entry "b" :=
    ⟨base, "b", .member hreads hname hwanted, hcontainer, hentry⟩
  have hsettled := settled_last hobject hnamed hspells
  have hposition : EntryAt literal 1 entry := .pair hobject (by rw [hnamed]; rfl) hpair hvalue
  refine ⟨by decide +kernel, s, literal, entry, hs, hby, hv, hsettled, ?_⟩
  exact ((literal_access_exact hby hv).2.2 1 hposition).1 hsettled

def repeatedProbe : Node := memberProbe (numberPair "a" "1") (numberPair "a" "2") "a"

/-- `[...["a", "b"], "c"][1]`, an element behind a spread. -/
def spreadProbe : Node :=
  .tree .program none
    [probeNode (.tree .subscriptExpression none
      [.tree .array (some .object)
         [.token none "" "[",
          .tree .spreadElement none
            [.token none "" "...",
             .tree .array none
               [.token none "" "[", textLiteral "a", .token none "" ",",
                .leaf .string none " " "\"b\"", .token none "" "]"]],
          .token none "" ",", .leaf .string none " " "\"c\"", .token none "" "]"],
       .token none "" "[", .leaf .number (some .index) "" "1", .token none "" "]"])]

/-- Of a repeated key the first value is read, and behind a spread an element by its place in the
source. -/
theorem overridden_member_read :
    parse .plain "const o = \x7b a: 1, a: 2 \x7d;\nprobe(o.a);" = repeatedProbe ∧
    (∃ s literal entry, firstArgument? repeatedProbe = some s ∧
      ByLiteral bareProject [] s literal entry "a" ∧
      bareProject.evaluate s [] = .ok (.ok (.integer 1)) ∧
      ∀ (run : Run) v, run.Gives bareProject literal "a" v ↔ v = .integer 2) ∧
    ∃ s literal entry, firstArgument? spreadProbe = some s ∧
      ByLiteral bareProject [] s literal entry "1" ∧
      bareProject.evaluate s [] = .ok (.ok (.text "c")) ∧
      ∃ run : Run, ∀ v, ¬run.Gives bareProject literal "1" v := by
  refine ⟨by decide +kernel, ?_, ?_⟩
  · obtain ⟨s, base, name, literal, entry, first, last, value, hs, hreads, hname, hwanted, hcontainer,
        hentry, hv, hobject, hnamed, hpair, hvalue, hspells, htwo⟩ :
        ∃ s base name literal entry first last value, firstArgument? repeatedProbe = some s ∧
          ReadsFrom s.unwrap base "a" ∧ s.unwrap.part? .property = some name ∧
          name.nameText? = some "a" ∧ bareProject.container? [] base.unwrap = .ok (some literal) ∧
          entryAt? literal "a" = .ok (some entry) ∧
          bareProject.evaluate s [] = .ok (.ok (.integer 1)) ∧
          literal.hasKind .object = true ∧ literal.named = [first, last] ∧
          last.hasKind .pair = true ∧ last.pairValue? = some value ∧ last.spells "a" = true ∧
          bareProject.evaluateWithin (evaluationDepth - 1) value [] = .ok (.ok (.integer 2)) :=
      ⟨_, _, _, _, _, _, _, _, rfl, ⟨rfl, rfl⟩, rfl, rfl, rfl, rfl, rfl, rfl, rfl, rfl, rfl, rfl, rfl⟩
    have hby : ByLiteral bareProject [] s literal entry "a" :=
      ⟨base, "a", .member hreads hname hwanted, hcontainer, hentry⟩
    have hposition : EntryAt literal 1 value := .pair hobject (by rw [hnamed]; rfl) hpair hvalue
    have hgives (run : Run) : run.Gives bareProject literal "a" (.integer 2) :=
      ⟨1, value, forall_provider_iff.2 (settled_last hobject hnamed hspells) run, hposition, htwo⟩
    refine ⟨s, literal, entry, hs, hby, hv, fun run v => ⟨fun h => h.unique (hgives run), ?_⟩⟩
    rintro rfl
    exact hgives run
  · obtain ⟨s, base, index, literal, entry, spread, hs, hkind, hbase, hindex, hn, hcontainer, hentry, hv,
        hobject, hfirst, hspread, hprovider⟩ :
        ∃ s base index literal entry spread, firstArgument? spreadProbe = some s ∧
          s.unwrap.hasKind .subscriptExpression = true ∧ s.unwrap.part? .object = some base ∧
          s.unwrap.part? .index = some index ∧
          bareProject.evaluateWithin (evaluationDepth - 1) index [] = .ok (.ok (.integer 1)) ∧
          bareProject.container? [] base.unwrap = .ok (some literal) ∧
          entryAt? literal "1" = .ok (some entry) ∧
          bareProject.evaluate s [] = .ok (.ok (.text "c")) ∧ literal.hasKind .object = false ∧
          literal.named[0]? = some spread ∧ spread.hasKind .spreadElement = true ∧
          (Run.mk (fun _ => "") (fun _ _ => false) fun _ => 2).provider? literal "1" = some 0 :=
      ⟨_, _, _, _, _, _, rfl, rfl, rfl, rfl, rfl, rfl, rfl, rfl, rfl, rfl, rfl, rfl⟩
    have hby : ByLiteral bareProject [] s literal entry "1" :=
      ⟨base, "1", .number hkind hbase hindex hn rfl (by decide), hcontainer, hentry⟩
    refine ⟨s, literal, entry, hs, hby, hv, ⟨fun _ => "", fun _ _ => false, fun _ => 2⟩, ?_⟩
    rintro v ⟨position, found, hposition, hfound, -⟩
    cases hprovider.symm.trans hposition
    cases hfound with
    | pair hyes | shorthand hyes => cases hobject.symm.trans hyes
    | element _ helement hno =>
      cases hfirst.symm.trans helement
      cases hspread.symm.trans hno

end SettingsHarvest
