import SettingsHarvest.Proofs.Legibility

/-! Imports by alias.

An import specifier is resolved by the longest alias that fits, and of several that are written alike by the
first (`find_longestFirst`). So an alias is resolved by itself, and imports are resolved everywhere exactly if
all aliases are texts and stand for texts (`ends_module`, `aliasesFit_of_modules`). -/
namespace SettingsHarvest

namespace Preferences

/-- Aliases that imports can be resolved by; a path that starts with a dot is never taken for one. -/
structure AliasesFit (entries : Preferences) : Prop where
  keys : ∀ e ∈ entries, ∃ short, e.1 = .text short
  paths : ∀ short d, short.startsWith "." = false → Datum.lookup? (.text short) entries = some d →
    ∃ path, d = .text path

end Preferences

theorem Datum.sameKey_text (a b : String) : (Datum.text a).sameKey (.text b) = (a == b) := by
  simp [sameKey, scalar?, Value.agrees]

namespace Configuration

theorem exists_asAliases_iff {entries : Preferences} :
    (∃ aliases, asAliases entries = .ok aliases) ↔ ∀ e ∈ entries, ∃ short, e.1 = .text short := by
  constructor
  · rintro ⟨aliases, h⟩ ⟨key, path⟩ he
    obtain ⟨_, _, hstep⟩ := exists_mem_of_mapM h he
    cases key with
    | text short => exact ⟨short, rfl⟩
    | null | truth | integer | decimal | list | mapping | other => cases hstep
  · intro h
    have hends : Ends (fun _ => False) (fun _ => True) (asAliases entries) := by
      refine (Ends.mapM (Q := fun _ => True) fun e he => ?_).mono fun _ _ => trivial
      obtain ⟨key, path⟩ := e
      obtain ⟨short, rfl⟩ := h _ he
      exact .ok trivial
    obtain ⟨aliases, haliases, -⟩ := hends.exists_ok
    exact ⟨aliases, haliases⟩

/-- An alias stands for what is under its name. -/
theorem find_asAliases {entries : Preferences} {aliases : List (String × Attempt String)}
    (h : asAliases entries = .ok aliases) (short : String) :
    aliases.find? (·.1 == short) =
      (Datum.lookup? (.text short) entries).map fun d => (short, asPath d) := by
  induction entries generalizing aliases with
  | nil =>
    cases pure_eq_ok.1 h
    rfl
  | cons e rest ih =>
    obtain ⟨key, path⟩ := e
    rw [asAliases, List.mapM_cons] at h
    obtain ⟨first, hfirst, h⟩ := bind_eq_ok.1 h
    obtain ⟨others, hothers, h⟩ := bind_eq_ok.1 h
    cases pure_eq_ok.1 h
    cases key with
    | text own =>
      cases hfirst
      rw [Datum.lookup?, List.find?_cons, List.find?_cons, Datum.sameKey_text]
      cases hown : own == short with
      | true => rw [beq_iff_eq.1 hown]; rfl
      | false => exact ih hothers
    | null | truth | integer | decimal | list | mapping | other => cases hfirst

end Configuration

namespace Project

section Longest

variable {β : Type} {aliases : List (String × β)} {fits : String → Bool} {x : String × β}

/-- Aliases by length, the longest first. -/
def longestFirst (aliases : List (String × β)) : List (String × β) :=
  aliases.mergeSort fun a b => a.1.length ≥ b.1.length

theorem pairwise_longestFirst (aliases : List (String × β)) :
    (longestFirst aliases).Pairwise fun a b => decide (a.1.length ≥ b.1.length) = true :=
  List.pairwise_mergeSort (fun a b c hab hbc => by simp at hab hbc ⊢; omega)
    (fun a b => by simp; omega) aliases

/-- Sorting keeps the order of those with one name. -/
theorem filter_longestFirst (name : String) :
    (longestFirst aliases).filter (·.1 == name) = aliases.filter (·.1 == name) := by
  let same : List (String × β) := aliases.filter (·.1 == name)
  have hname : ∀ a ∈ same, a.1 = name := fun a ha => beq_iff_eq.1 (List.mem_filter.1 ha).2
  have hsame : same.Pairwise fun a b => decide (a.1.length ≥ b.1.length) = true :=
    List.pairwise_of_forall_mem_list fun a ha b hb => by rw [hname a ha, hname b hb]; simp
  have hsublist : same.Sublist (longestFirst aliases) :=
    List.sublist_mergeSort (fun a b c hab hbc => by simp at hab hbc ⊢; omega) (fun a b => by simp; omega)
      hsame List.filter_sublist
  have hperm : ((longestFirst aliases).filter (·.1 == name)).Perm same :=
    (List.mergeSort_perm aliases _).filter _
  have hkept : same.filter (fun a => a.1 == name) = same :=
    List.filter_eq_self.2 fun a ha => beq_iff_eq.2 (hname a ha)
  have hfiltered := hsublist.filter fun a => a.1 == name
  rw [hkept] at hfiltered
  exact (hfiltered.eq_of_length hperm.length_eq.symm).symm

/-- The first of the longest that fit is the first with its name. -/
theorem find_longestFirst (h : (longestFirst aliases).find? (fun a => fits a.1) = some x) :
    fits x.1 = true ∧ aliases.find? (·.1 == x.1) = some x ∧
      ∀ a ∈ aliases, fits a.1 = true → a.1.length ≤ x.1.length := by
  obtain ⟨hx, before, behind, hsplit, hbefore⟩ := List.find?_eq_some_iff_append.1 h
  refine ⟨hx, ?_, ?_⟩
  · rw [← List.head?_filter, ← filter_longestFirst, List.head?_filter, hsplit]
    refine List.find?_eq_some_iff_append.2 ⟨beq_self_eq_true _, before, behind, rfl, fun a ha => ?_⟩
    have hne : a.1 ≠ x.1 := by
      intro heq
      have hunfit := hbefore a ha
      rw [heq, hx] at hunfit
      cases hunfit
    simpa using hne
  · intro a ha hfits
    have hmem : a ∈ longestFirst aliases := List.mem_mergeSort.2 ha
    have hsorted := pairwise_longestFirst aliases
    rw [hsplit] at hmem hsorted
    rcases List.mem_append.1 hmem with hmem | hmem
    · have hunfit := hbefore a hmem
      rw [hfits] at hunfit
      cases hunfit
    · rcases List.mem_cons.1 hmem with rfl | hmem
      · exact Nat.le_refl _
      · simpa using List.rel_of_pairwise_cons (List.pairwise_append.1 hsorted).2.1 hmem

end Longest

theorem prefix_of_fitsAlias {specifier short : String} (h : fitsAlias specifier short = true) :
    short.toList <+: specifier.toList := by
  rw [fitsAlias, Bool.or_eq_true, beq_iff_eq, String.startsWith_string_iff, String.toList_append] at h
  rcases h with rfl | h
  · exact List.prefix_refl _
  · exact (List.prefix_append _ _).trans h

theorem starts_of_fitsAlias {specifier short start : String} (h : fitsAlias specifier short = true)
    (hstart : specifier.startsWith start = false) : short.startsWith start = false := by
  rw [Bool.eq_false_iff, ne_eq, String.startsWith_string_iff] at hstart ⊢
  exact fun hshort => hstart (hshort.trans (prefix_of_fitsAlias h))

section Modules

variable {p : Project} {entries : Preferences}

theorem aliasTarget?_eq {aliases : List (String × Attempt String)} (h : p.aliases = .ok aliases)
    (specifier : String) :
    p.aliasTarget? specifier =
      match (longestFirst aliases).find? fun a => fitsAlias specifier a.1 with
      | none => .ok none
      | some (short, target) => do
        let rest := String.ofList ((specifier.toList.drop short.length).dropWhile (· == '/'))
        return some (Path.join (Path.join p.root (← target)) rest) := by
  rw [aliasTarget?, h]
  rfl

/-- Where aliases fit, there is an answer for every specifier that is no relative path. -/
theorem exists_aliasTarget (hp : p.aliases = Configuration.asAliases entries)
    (h : Preferences.AliasesFit entries) {specifier : String} (hdot : specifier.startsWith "." = false) :
    ∃ target, p.aliasTarget? specifier = .ok target := by
  obtain ⟨aliases, haliases⟩ := Configuration.exists_asAliases_iff.2 h.keys
  rw [aliasTarget?_eq (hp.trans haliases)]
  split
  · exact ⟨none, rfl⟩
  · next short target hfound =>
    obtain ⟨hfits, hfirst, -⟩ := find_longestFirst hfound
    rw [Configuration.find_asAliases haliases] at hfirst
    obtain ⟨d, hd, heq⟩ := Option.map_eq_some_iff.1 hfirst
    obtain ⟨path, rfl⟩ := h.paths short d (starts_of_fitsAlias hfits hdot) hd
    cases heq
    exact ⟨_, rfl⟩

/-- A specifier that is an alias is resolved by this alias alone. -/
theorem find_alias {aliases : List (String × Attempt String)} {short : String} {target : Attempt String}
    (h : aliases.find? (·.1 == short) = some (short, target)) :
    (longestFirst aliases).find? (fun a => fitsAlias short a.1) = some (short, target) := by
  have hmem := List.mem_of_find?_eq_some h
  have hself : fitsAlias short short = true := by simp [fitsAlias]
  have hsome : ((longestFirst aliases).find? fun a => fitsAlias short a.1).isSome = true :=
    List.find?_isSome.2 ⟨_, List.mem_mergeSort.2 hmem, hself⟩
  obtain ⟨⟨name, other⟩, hfound⟩ := Option.isSome_iff_exists.1 hsome
  obtain ⟨hfits, hfirst, hlongest⟩ := find_longestFirst hfound
  have hbegins : name.toList <+: short.toList := prefix_of_fitsAlias hfits
  have hlength : short.toList.length ≤ name.toList.length := by
    simpa only [String.length_toList] using hlongest _ hmem hself
  obtain rfl : name = short := String.toList_injective (hbegins.eq_of_length_le hlength)
  rw [hfound, ← hfirst, h]

/-- An alias that stands for no text stops whoever imports by it. -/
theorem aliasTarget?_eq_error (hp : p.aliases = Configuration.asAliases entries)
    (hkeys : ∀ e ∈ entries, ∃ short, e.1 = .text short) {short : String} {d : Datum} {f : Fault}
    (hd : Datum.lookup? (.text short) entries = some d) (hf : Configuration.asPath d = .error f) :
    p.aliasTarget? short = .error f := by
  obtain ⟨aliases, haliases⟩ := Configuration.exists_asAliases_iff.2 hkeys
  have hfirst := Configuration.find_asAliases haliases short
  rw [hd, Option.map_some] at hfirst
  rw [aliasTarget?_eq (hp.trans haliases), find_alias hfirst, hf]
  rfl

theorem module?_eq_error {specifier : String} (hdot : specifier.startsWith "." = false) {f : Fault}
    (hf : p.aliasTarget? specifier = .error f) (importer : String) :
    p.module? importer specifier = .error f := by
  rw [Project.module?, if_neg (by simp [hdot]), hf]
  rfl

theorem aliasesFit_of_answers (hp : p.aliases = Configuration.asAliases entries)
    (h : ∀ specifier, specifier.startsWith "." = false → ∃ target, p.aliasTarget? specifier = .ok target) :
    Preferences.AliasesFit entries := by
  have hexists : ∃ aliases, Configuration.asAliases entries = .ok aliases := by
    obtain ⟨target, htarget⟩ := h "" (by decide +kernel)
    obtain ⟨aliases, haliases, -⟩ := bind_eq_ok.1 htarget
    exact ⟨aliases, hp.symm.trans haliases⟩
  have hkeys := Configuration.exists_asAliases_iff.1 hexists
  refine ⟨hkeys, fun short d hdot hd => ?_⟩
  obtain ⟨target, htarget⟩ := h short hdot
  cases d with
  | text path => exact ⟨path, rfl⟩
  | null | truth | integer | decimal | list | mapping | other =>
    rw [aliasTarget?_eq_error hp hkeys hd rfl] at htarget
    cases htarget

/-- A fault that a file of a project makes. -/
def FileFault (p : Project) (f : Fault) : Prop :=
  ∃ file ∈ p.known ++ p.readable, f = .closedFile file.path ∨ file.exports = .error f

theorem ends_opened {base? : Option String} {file : SourceFile}
    (hfound : (base?.bind fun base => (moduleCandidates (p.place base)).findSome? p.file?) = some file) :
    Ends p.FileFault (fun _ => True) (do
      if p.closed.contains file.path then throw (.closedFile file.path)
      let _ ← file.exports
      return some file) := by
  obtain ⟨base, -, hfound⟩ := Option.bind_eq_some_iff.1 hfound
  obtain ⟨path, -, hfile⟩ := List.exists_of_findSome?_eq_some hfound
  have hmem := mem_of_file hfile
  split
  · exact .error ⟨file, hmem, .inl rfl⟩
  · have hexports : Ends p.FileFault (fun _ => True) file.exports :=
      ⟨fun _ => trivial, fun hf => ⟨file, hmem, .inr hf⟩⟩
    exact hexports.bind fun _ _ => .ok trivial

/-- Where aliases fit, only files stop the resolution of imports. -/
theorem ends_module (hp : p.aliases = Configuration.asAliases entries) (h : Preferences.AliasesFit entries)
    (importer specifier : String) : Ends p.FileFault (fun _ => True) (p.module? importer specifier) := by
  unfold Project.module?
  split
  · rw [pure_bind]
    dsimp only
    split
    · exact .ok trivial
    · next hfound => exact ends_opened hfound
  · next hdot =>
    obtain ⟨target, htarget⟩ := exists_aliasTarget hp h (Bool.eq_false_iff.2 hdot)
    rw [htarget]
    dsimp only [bind, Except.bind]
    split
    · exact .ok trivial
    · next hfound => exact ends_opened hfound

theorem aliasesFit_of_modules (hp : p.aliases = Configuration.asAliases entries)
    (hnone : p.known ++ p.readable = [])
    (h : ∀ importer specifier, Ends p.FileFault (fun _ => True) (p.module? importer specifier)) :
    Preferences.AliasesFit entries := by
  refine aliasesFit_of_answers hp fun specifier hdot => ?_
  cases htarget : p.aliasTarget? specifier with
  | ok target => exact ⟨target, rfl⟩
  | error f =>
    obtain ⟨file, hfile, -⟩ := (h "" specifier).fault (module?_eq_error hdot htarget "")
    rw [hnone] at hfile
    cases hfile

end Modules
end Project

end SettingsHarvest
