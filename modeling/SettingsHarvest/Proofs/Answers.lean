import SettingsHarvest.Proofs.EvaluationFaults
import SettingsHarvest.Proofs.Leaves
import SettingsHarvest.Proofs.References
import SettingsHarvest.Syntax.Program

/-! Evaluations answer.

In a project whose preferences were checked, an evaluation comes to a finite value or to a failure. It
is kept from that by references without end, by escapes that name no code point and by aliases that are
no texts; and, in sources with none of these, only by keys that no element can be counted to. Such keys
are `"²"`, which has a digit and no numeral in it, and an integer of thousands of digits. -/
namespace SettingsHarvest
open Syntax Project

variable {p : Project} {preferences : Preferences} {U : Node → Prop} {s t base : Site}

/-! ### Sources without member accesses -/

/-- Only member accesses ask for what others denote. -/
theorem not_chainAsks (hp : p.Checked preferences U)
    (hno : ∀ n, U n → n.hasKind .memberExpression = false) {steps : Nat} (hs : s.Throughout U) :
    ¬p.ChainAsks base steps s := by
  intro h
  have hnoAccess {s : Site} (hs : s.Throughout U) : s.hasKind .memberExpression ≠ true := by
    rw [Site.hasKind, hno _ hs.here.self]
    exact Bool.false_ne_true
  induction h with
  | here hreads => exact hnoAccess hs hreads.isAccess
  | next hleads _ ih =>
    cases hleads with
    | name _ hnext =>
      have hlegible := hp.configured.legible hp.files
      have hinitializer := (hlegible.initializer? (legible_of_throughout hs)).result hnext
      exact ih (throughout_of_legible (hinitializer _ rfl)).unwrap
    | member hreads => exact hnoAccess hs hreads.isAccess

/-- References through names alone end. -/
theorem denoted_ne_endless (hp : p.Checked preferences U)
    (hno : ∀ n, U n → n.hasKind .memberExpression = false) (hs : s.Throughout U) :
    p.denoted? s ≠ .error .endlessReference := by
  intro hendless
  obtain ⟨base, hasks, -⟩ := (denotedWithin_endless_iff hp.configured.bounded).1 hendless
  exact not_chainAsks hp hno hs.unwrap hasks

/-! ### Answers -/

/-- **Evaluations answer.** What keeps one from a finite value or a failure is something of `Stuck`; and
if escapes name code points, aliases are texts and references end, it is an element that cannot be counted
to. -/
theorem evaluation_answers {b : Bindings} (hp : p.Checked preferences U) (hs : s.Throughout U)
    (hb : b.Within U) :
    (∀ f, p.evaluate s b = .error f → p.Stuck preferences U f) ∧
    ((∀ n, U n → n.isQuoted = true → ∀ e ∈ Text.escapes n.quotedBody, ¬Text.NamesNoCodePoint e) →
      (∀ e ∈ aliasEntries preferences, e.1.text?.isSome = true ∧ e.2.text?.isSome = true) →
      (∀ t : Site, t.Throughout U → p.denoted? t ≠ .error .endlessReference) →
      (∃ o, p.evaluate s b = .ok o ∧ FiniteOutcome o) ∨
        ∃ f, p.evaluate s b = .error f ∧ p.Uncounted U f) := by
  have hends := ends_evaluate hp hs hb
  refine ⟨fun f hf => hends.fault hf, fun hescapes haliases hreferences => ?_⟩
  cases hevaluate : p.evaluate s b with
  | ok o => exact Or.inl ⟨o, rfl, hends.result hevaluate⟩
  | error f =>
    refine Or.inr ⟨f, rfl, ?_⟩
    cases hends.fault hevaluate with
    | circle ht hendless => exact absurd hendless (hreferences _ ht)
    | escape hn hquoted hdecode =>
      obtain ⟨e, he, hnames⟩ := Text.decode_error_iff.1 ⟨f, hdecode⟩
      exact absurd hnames (hescapes _ hn hquoted e he)
    | aliasKey he hnone =>
      have hsome := (haliases _ he).1
      rw [hnone] at hsome
      cases hsome
    | aliasPath he hnone =>
      have hsome := (haliases _ he).2
      rw [hnone] at hsome
      cases hsome
    | element hkey => exact hkey

/-! ### Three programs -/

/-- The first argument of a program is of the nodes of the program. -/
theorem throughout_firstArgument {program : Node} (h : program.Throughout U)
    (hs : firstArgument? program = some s) : s.Throughout U := by
  obtain ⟨arguments, hfound, hhead⟩ := Option.bind_eq_some_iff.1 hs
  have hprogram : (siteOf program).Throughout U := ⟨h, nofun⟩
  exact (hprogram.walk _ (List.mem_of_find?_eq_some hfound)).named (List.mem_of_head? hhead)

/-- The least that preferences have to say. -/
def barePreferences : Preferences :=
  [(.text "concurrency", .integer 1), (.text "progress_interval", .integer 1),
   (.text "path_aliases", .mapping []), (.text "plugin_renames", .mapping []),
   (.text "external_enums", .mapping []), (.text "lookup_tables", .list [])]

/-- Nodes that read from a literal, and lists. -/
def literalReaders : List Kind := [.memberExpression, .subscriptExpression, .array]

/-- Nodes that neither read from a literal nor hold an escape. -/
def IsPlain (n : Node) : Prop :=
  (∀ k ∈ literalReaders, n.hasKind k = false) ∧ Text.escapes n.quotedBody = []

instance : DecidablePred IsPlain := fun _ => inferInstanceAs (Decidable (_ ∧ _))

theorem checked_bareProject : bareProject.Checked barePreferences IsPlain where
  configured := ⟨rfl, rfl, rfl, rfl⟩
  checked := rfl
  files := nofun

/-- A name, a product and a remainder. -/
def arithmeticProgram : Node :=
  .tree .program none
    [constantNode "" "size" (.leaf .number none " " "0x10"),
     probeNode (.tree .binaryExpression none
       [.tree .binaryExpression (some .left)
         [.leaf .identifier (some .left) "" "size", .token (some .operator) " " "*",
          .leaf .number (some .right) " " "2.5"],
        .token (some .operator) " " "%", .leaf .number (some .right) " " "7"])]

theorem arithmetic_answers :
    parse .plain "const size = 0x10;\nprobe(size * 2.5 % 7);" = arithmeticProgram ∧
    ∃ s, firstArgument? arithmeticProgram = some s ∧
      ∃ o, bareProject.evaluate s [] = .ok o ∧ FiniteOutcome o := by
  have hplain : arithmeticProgram.Throughout IsPlain := by
    unfold Node.Throughout
    decide
  obtain ⟨s, hs⟩ : ∃ s, firstArgument? arithmeticProgram = some s := ⟨_, rfl⟩
  have hthroughout : s.Throughout IsPlain := throughout_firstArgument hplain hs
  have hescapes (n : Node) (hn : IsPlain n) (_ : n.isQuoted = true) :
      ∀ e ∈ Text.escapes n.quotedBody, ¬Text.NamesNoCodePoint e := by
    rw [hn.2]
    exact List.forall_mem_nil _
  have hreferences (t : Site) (ht : t.Throughout IsPlain) :
      bareProject.denoted? t ≠ .error .endlessReference :=
    denoted_ne_endless checked_bareProject (fun n hn => hn.1 _ List.mem_cons_self) ht
  refine ⟨by decide +kernel, s, hs, ?_⟩
  rcases (evaluation_answers checked_bareProject hthroughout .nil).2 hescapes
    (List.forall_mem_nil _) hreferences with hanswer | ⟨f, -, hkey⟩
  · exact hanswer
  · have hno {t : Site} {k : Kind} (ht : t.Throughout IsPlain) (hk : k ∈ literalReaders) :
        t.hasKind k ≠ true := by
      rw [Site.hasKind, ht.here.self.1 k hk]
      exact Bool.false_ne_true
    cases hkey with
    | index hlist hkind => exact absurd hkind (hno hlist (by decide))
    | overlong hsite hkind => exact absurd hkind (hno hsite (by decide))

/-- An element looked up by a superscript. -/
def superscriptProgram : Node :=
  .tree .program none
    [probeNode (.tree .subscriptExpression none
      [.tree .array (some .object) [.token none "" "[", textLiteral "x", .token none "" "]"],
       .token none "" "[", (textLiteral "²").withRole .index, .token none "" "]"])]

/-- A text with an escape behind the last code point. -/
def escapeProgram : Node := .tree .program none [probeNode (textLiteral "\\u\x7b110000\x7d")]

theorem superscript_key_unanswered :
    barePreferences.check = .ok () ∧
    parse .plain "\nprobe([\"x\"][\"²\"]);" = superscriptProgram ∧
    parse .plain "\nprobe(\"\\u\x7b110000\x7d\");" = escapeProgram ∧
    (∃ s, firstArgument? superscriptProgram = some s ∧ bareProject.denoted? s = .ok (some s) ∧
      bareProject.evaluate s [] = .error (.notInteger 10 "²")) ∧
    ∃ s, firstArgument? escapeProgram = some s ∧ bareProject.denoted? s = .ok (some s) ∧
      bareProject.evaluate s [] = .error .codePointOutOfRange :=
  ⟨rfl, by decide +kernel, by decide +kernel, ⟨_, rfl, rfl, rfl⟩, ⟨_, rfl, rfl, rfl⟩⟩

end SettingsHarvest
