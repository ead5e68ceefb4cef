import SettingsHarvest.Proofs.Leaves
import SettingsHarvest.Proofs.References
import SettingsHarvest.Syntax.Program

/-! References that lead back.

Names and members that lead back into themselves without asking for themselves do come to an end: the
chain gives up after its sixteen steps, and evaluation after its own number of them
(`references_end_iff`). A circle of names is of this kind. A name for a member of itself is not: the
member asks for the object it is read from, which is the name again. -/
namespace SettingsHarvest
open Syntax

namespace Project

variable {p : Project} {s t base object : Site} {depth steps : Nat}

/-! ### Leading on -/

theorem Leads.unwrap_eq (h : p.Leads s t) : s.unwrap = s := by
  cases h with
  | name hname => exact Site.unwrap_eq_self hname rfl
  | member hreads => exact Site.unwrap_eq_self hreads.isAccess rfl

theorem Leads.declaredEnumMember (h : p.Leads s t) {recur : Evaluator} {b : Bindings} {key : String} :
    p.declaredEnumMember? recur b s key = .ok none := by
  cases h with
  | name _ hnext => exact declaredEnumMember_eq_none fun _ => hnext
  | member hreads =>
    have hno (hname : s.hasKind .identifier = true) : p.initializer? s = .ok (some s) :=
      absurd hname (by simp [hreads.not_name])
    exact declaredEnumMember_eq_none hno

/-- What leads on evaluates to what it leads to, or fails as an unresolved name with it. -/
theorem Leads.exists_next (h : p.Leads s t) (recur : Evaluator)
    (hfound : ∀ base object key, ReadsFrom s base key → p.Finds base object →
      p.object? base = .ok (some object)) :
    ∃ next, next.unwrap = t ∧ ∀ f, recur next [] = .ok (.error f) →
      f.kind = .unresolvedIdentifier →
        ∃ g, p.valueOf recur [] s = .ok (.error g) ∧ g.kind = .unresolvedIdentifier := by
  cases h with
  | @name next hname hnext =>
    refine ⟨next, rfl, fun f hf _ => ⟨.notConstant s.text f, ?_, rfl⟩⟩
    have hvalue : p.valueOf recur [] s = p.nameValue recur [] s := by
      rw [valueOf, Site.kind_eq_of_hasKind hname]
    rw [hvalue, nameValue, List.lookup_nil, hnext]
    dsimp only [bind, Except.bind]
    rw [hf]
    rfl
  | @member base object next key hreads hfinds hnext =>
    refine ⟨next, rfl, fun f hf hkind => ⟨f, ?_, hkind⟩⟩
    have hvalue : p.valueOf recur [] s = p.memberValue recur [] s := by
      rw [valueOf, Site.kind_eq_of_hasKind hreads.isAccess]
    have hentry : object.memberValue? key = .ok (some next) := by
      rw [Site.memberValue?, hnext]
      rfl
    rw [hvalue, memberValue, hreads.parts]
    dsimp only
    rw [accessValue_of_object (fun _ => List.lookup_nil) (hfound base object key hreads hfinds) hentry,
      hf]

/-- Sites that lead on to one another without end, none of which runs out of depth. -/
structure Unending (p : Project) (path : ℕ → Site) : Prop where
  leads : ∀ n, p.Leads (path n) (path (n + 1))
  answered : ∀ n, ¬p.AsksDeep deepestChain (path n)

namespace Unending

variable {path : ℕ → Site}

/-- Names that lead on to names ask for nothing. -/
theorem of_names (hleads : ∀ n, p.Leads (path n) (path (n + 1)))
    (hnames : ∀ n, (path n).hasKind .identifier = true) : p.Unending path := by
  have hchain (steps n : ℕ) (base : Site) : ¬p.ChainAsks base steps (path n) := by
    intro hasks
    induction steps generalizing n with
    | zero => cases hasks
    | succ steps ih =>
      cases hasks with
      | here hreads => cases hreads.not_name.symm.trans (hnames n)
      | next hlead hasks => exact ih (n + 1) (hlead.unique (hleads n) ▸ hasks)
  refine ⟨hleads, fun n => ?_⟩
  rintro ⟨base, hasks, -⟩
  rw [Asks, (hleads n).unwrap_eq] at hasks
  exact hchain longestChain n base hasks

theorem unwrap_eq (h : p.Unending path) (n : ℕ) : (path n).unwrap = path n :=
  (h.leads n).unwrap_eq

/-- A chain along the path gives up. -/
theorem chain (h : p.Unending path) (n : ℕ) :
    p.chain (p.objectWithin depth) steps (path n) = .ok none ∨
      p.chain (p.objectWithin depth) steps (path n) = .error .endlessReference := by
  induction steps generalizing n with
  | zero => exact Or.inl rfl
  | succ steps ih =>
    rw [chain_succ]
    rcases (h.leads n).follow depth with hstep | hstep
    · rw [hstep]
      exact ih (n + 1)
    · rw [hstep]
      exact Or.inr rfl

theorem denoted (h : p.Unending path) (hp : p.Bounded) {n : ℕ} (hs : s.unwrap = path n) :
    p.denoted? s = .ok none := by
  rw [← denoted_unwrap, hs]
  have hanswered : p.denoted? (path n) ≠ .error .endlessReference :=
    fun hendless => h.answered n ((denotedWithin_endless_iff hp).1 hendless)
  have hchain : p.denoted? (path n) = p.chain (p.objectWithin 479) longestChain (path n) := by
    rw [denoted?, deepestChain, denotedWithin_succ, h.unwrap_eq]
  rw [hchain] at hanswered ⊢
  exact (h.chain n).resolve_right hanswered

/-- The object that a member on the path is read from is found in time. -/
theorem object_eq (h : p.Unending path) (hp : p.Bounded) {n : ℕ} {key : String}
    (hreads : ReadsFrom (path n) base key) (hfinds : p.Finds base object) :
    p.object? base = .ok (some object) := by
  refine (hfinds.objectWithin deepestChain).resolve_right fun hendless => ?_
  refine h.answered n ⟨base, ?_, ?_⟩
  · rw [Asks, h.unwrap_eq]
    exact .here hreads
  · exact ((denotedWithin_endless_iff hp).1 (objectWithin_endless_iff.1 hendless)).of_succ

/-- Evaluation along the path ends with an unresolved name. -/
theorem evaluateWithin (h : p.Unending path) (hp : p.Bounded) {n : ℕ} (hs : s.unwrap = path n) :
    ∃ f, p.evaluateWithin depth s [] = .ok (.error f) ∧ f.kind = .unresolvedIdentifier := by
  induction depth generalizing s n with
  | zero => exact ⟨_, rfl, rfl⟩
  | succ depth ih =>
    obtain ⟨next, hnext, hvalue⟩ := (h.leads n).exists_next (p.evaluateWithin depth)
      fun base object key hreads hfinds => h.object_eq hp hreads hfinds
    obtain ⟨f, hf, hkind⟩ := ih hnext
    rw [Project.evaluateWithin, hs]
    exact hvalue f hf hkind

/-- A member of something on the path cannot be accessed. -/
theorem evaluate_access (h : p.Unending path) (hp : p.Bounded) {n : ℕ} {key : String}
    (hreads : ReadsFrom s.unwrap base key) (hbase : base.unwrap = path n)
    (houtside : p.enumMember? base.unwrap.text key = none) :
    p.evaluate s [] = .ok (.error (.unresolvedMember base.unwrap.text key)) := by
  have hdenoted : p.denoted? base.unwrap = .ok none := by rw [denoted_unwrap, h.denoted hp hbase]
  have hdeclared (recur : Evaluator) : p.declaredEnumMember? recur [] base.unwrap key = .ok none :=
    hbase ▸ (h.leads n).declaredEnumMember
  rw [evaluate, evaluationDepth, Project.evaluateWithin, valueOf,
    Site.kind_eq_of_hasKind hreads.isAccess]
  dsimp only
  rw [memberValue, hreads.parts]
  dsimp only
  rw [accessValue, hdeclared, container_of_denoted (fun _ => List.lookup_nil) hdenoted]
  dsimp only [bind, Except.bind, pure, Except.pure, Option.filter_none]
  rw [houtside]
  rfl

end Unending

/-- A name fails to be evaluated where what it stands for does. -/
theorem evaluateWithin_name_error {next : Site} {fault : Fault} (hname : s.hasKind .identifier = true)
    (hnext : p.initializer? s = .ok (some next)) (h : p.evaluateWithin depth next [] = .error fault) :
    p.evaluateWithin (depth + 1) s [] = .error fault := by
  rw [evaluateWithin, Site.unwrap_eq_self hname rfl, valueOf, Site.kind_eq_of_hasKind hname]
  dsimp only
  rw [nameValue, List.lookup_nil, hnext]
  dsimp only [bind, Except.bind]
  rw [h]

end Project

/-- **Where references end.** In a configured project the bounds on depth change no answer; following a
reference runs out of depth exactly where that many questions for objects are inside one another, and
at every depth exactly where such questions lead on without end. References that only lead back into
themselves denote nothing, and evaluating them, or a member of them, fails as it should. -/
theorem references_end_iff {p : Project} {preferences : Preferences}
    (hp : p.ConfiguredBy preferences) :
    (∀ depth depth' s, depth ≤ depth' → p.denotedWithin depth s ≠ .error .endlessReference →
      p.denotedWithin depth' s = p.denotedWithin depth s) ∧
    (∀ depth s, p.denotedWithin depth s = .error .endlessReference ↔ p.AsksDeep depth s) ∧
    (∀ s, (∀ depth, p.denotedWithin depth s = .error .endlessReference) ↔
      ∃ path : ℕ → Site, path 0 = s ∧ ∀ n, p.Asks (path n) (path (n + 1))) ∧
    ∀ path, p.Unending path → ∀ s,
      (s.unwrap = path 0 →
        p.denoted? s = .ok none ∧ p.object? s = .ok none ∧ p.array? s = .ok none ∧
          ∃ f, p.evaluate s [] = .ok (.error f) ∧ f.kind = .unresolvedIdentifier) ∧
      ∀ base key, Project.ReadsFrom s.unwrap base key → base.unwrap = path 0 →
        p.enumMember? base.unwrap.text key = none →
          p.evaluate s [] = .ok (.error (.unresolvedMember base.unwrap.text key)) := by
  have hbounded := hp.bounded
  refine ⟨fun _ _ _ => Project.denotedWithin_mono, fun _ _ => Project.denotedWithin_endless_iff hbounded,
    fun _ => Project.forall_endless_iff hbounded, fun path hpath s => ⟨fun hs => ?_, ?_⟩⟩
  · have hdenoted := hpath.denoted hbounded hs
    refine ⟨hdenoted, ?_, ?_, hpath.evaluateWithin hbounded hs⟩
    · rw [Project.object?, hdenoted]
      rfl
    · rw [Project.array?, hdenoted]
      rfl
  · exact fun base key hreads hbase => hpath.evaluate_access hbounded hreads hbase

/-! ### Two circles -/

/-- Two names that stand for each other. -/
def mutualProgram : Node :=
  .tree .program none
    [constantNode "" "a" (.leaf .identifier none " " "b"),
     constantNode "\n" "b" (.leaf .identifier none " " "a"), probeNode (.leaf .identifier none "" "a")]

theorem mutual_names_unresolved :
    parse .plain "const a = b;\nconst b = a;\nprobe(a);" = mutualProgram ∧
    ∃ s, firstArgument? mutualProgram = some s ∧ bareProject.denoted? s = .ok none ∧
      ∃ f, bareProject.evaluate s [] = .ok (.error f) ∧ f.kind = .unresolvedIdentifier := by
  obtain ⟨s, a, b, hs, hs', ha, hb, hsb, hab, hba⟩ : ∃ s a b,
      firstArgument? mutualProgram = some s ∧ s.hasKind .identifier = true ∧
      a.hasKind .identifier = true ∧ b.hasKind .identifier = true ∧
      bareProject.initializer? s = .ok (some b) ∧ bareProject.initializer? a = .ok (some b) ∧
      bareProject.initializer? b = .ok (some a) :=
    ⟨_, valueIn mutualProgram "\n" "b" (.leaf .identifier none " " "a"),
      valueIn mutualProgram "" "a" (.leaf .identifier none " " "b"), rfl, rfl, rfl, rfl, rfl,
      rfl, rfl⟩
  have hleads {t next : Site} (ht : t.hasKind .identifier = true)
      (hnext : next.hasKind .identifier = true)
      (hinitializer : bareProject.initializer? t = .ok (some next)) : bareProject.Leads t next := by
    have hlead := Project.Leads.name ht hinitializer
    rwa [Site.unwrap_eq_self hnext rfl] at hlead
  have hpath : bareProject.Unending fun n => if n = 0 then s else if n % 2 = 1 then b else a := by
    refine .of_names (fun n => ?_) fun n => ?_
    · rcases Nat.eq_zero_or_pos n with rfl | hn
      · exact hleads hs' hb hsb
      · rcases Nat.mod_two_eq_zero_or_one n with heven | hodd
        · have hnext : (n + 1) % 2 = 1 := by omega
          simpa [hn.ne', heven, hnext] using hleads ha hb hab
        · have hnext : (n + 1) % 2 = 0 := by omega
          simpa [hn.ne', hodd, hnext] using hleads hb ha hba
    · split
      · exact hs'
      · split
        · exact hb
        · exact ha
  have hconfigured : bareProject.ConfiguredBy [] := ⟨rfl, rfl, rfl, rfl⟩
  obtain ⟨hdenoted, -, -, hevaluate⟩ :=
    ((references_end_iff hconfigured).2.2.2 _ hpath s).1 (Site.unwrap_eq_self hs' rfl)
  exact ⟨by decide +kernel, s, hs, hdenoted, hevaluate⟩

/-- The access `a.b`. -/
def accessNode : Node :=
  .tree .memberExpression none
    [.leaf .identifier (some .object) " " "a", .token none "" ".",
     .leaf .propertyIdentifier (some .property) "" "b"]

def askingProgram : Node :=
  .tree .program none [constantNode "" "a" accessNode, probeNode (.leaf .identifier none "" "a")]

/-- The access that `a` stands for, and the `a` in it. -/
def askingAccess : Site := valueIn askingProgram "" "a" accessNode

def askingBase : Site := askingAccess.inside (.leaf .identifier (some .object) " " "a")

theorem asking_circle_endless :
    parse .plain "const a = a.b;\nprobe(a);" = askingProgram ∧
    ∃ s, firstArgument? askingProgram = some s ∧
      (∀ depth, bareProject.denotedWithin depth s = .error .endlessReference) ∧
      bareProject.evaluate s [] = .error .endlessReference := by
  obtain ⟨s, hs, hname, hinitializer⟩ : ∃ s, firstArgument? askingProgram = some s ∧
      s.hasKind .identifier = true ∧ bareProject.initializer? s = .ok (some askingAccess) :=
    ⟨_, rfl, rfl, rfl⟩
  have hconfigured : bareProject.ConfiguredBy [] := ⟨rfl, rfl, rfl, rfl⟩
  have hbounded : bareProject.Bounded := hconfigured.bounded
  have hreads : Project.ReadsFrom askingAccess askingBase "b" := ⟨rfl, rfl⟩
  have hbase : bareProject.initializer? askingBase = .ok (some askingAccess) := rfl
  -- Wherever it stands, the name leads to the access, and the access asks for the name.
  have hasks (t : Site) (ht : t.hasKind .identifier = true)
      (hnext : bareProject.initializer? t = .ok (some askingAccess)) :
      bareProject.Asks t askingBase := by
    rw [Project.Asks, Site.unwrap_eq_self ht rfl]
    exact .next (.name ht hnext) (.here hreads)
  have hendless (t : Site) (ht : t.hasKind .identifier = true)
      (hnext : bareProject.initializer? t = .ok (some askingAccess)) :
      ∀ depth, bareProject.denotedWithin depth t = .error .endlessReference := by
    refine (Project.forall_endless_iff hbounded).2
      ⟨fun n => if n = 0 then t else askingBase, rfl, fun n => ?_⟩
    cases n with
    | zero => exact hasks t ht hnext
    | succ n => exact hasks askingBase rfl hbase
  refine ⟨by decide +kernel, s, hs, hendless s hname hinitializer, ?_⟩
  have haccess (depth : ℕ) :
      bareProject.evaluateWithin (depth + 1) askingAccess [] = .error .endlessReference := by
    refine Project.accessValue_endless (fun _ => List.lookup_nil) (fun _ => hbase) ?_
    exact hendless askingBase rfl hbase Project.deepestChain
  exact Project.evaluateWithin_name_error hname hinitializer (haccess 31)

end SettingsHarvest
