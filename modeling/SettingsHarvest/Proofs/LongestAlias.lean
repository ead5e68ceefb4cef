import Mathlib.Logic.ExistsUnique
import SettingsHarvest.Proofs.AliasTargets
import SettingsHarvest.Proofs.Assignment
import SettingsHarvest.Proofs.Leaves

/-! The alias that an import goes by.

An alias fits a specifier that it is equal to, or that goes on with a slash behind it. Of the aliases
that fit, no two are of one length, so there is one longest, wherever it stands in the table
(`IsLongestAlias.unique`). Imports that are no relative paths go by this one; where no alias fits, they
lead nowhere (`longest_alias_used`). -/
namespace SettingsHarvest.Project

variable {p : Project} {table table' : List (String × Attempt String)} {specifier short : String}
  {entry entry' : String × Attempt String}

/-- An alias of the beginning of a specifier, up to its end or to a slash. -/
def BeginsWith (specifier short : String) : Prop :=
  specifier = short ∨ ∃ rest, specifier = short ++ "/" ++ rest

theorem fitsAlias_iff : fitsAlias specifier short = true ↔ BeginsWith specifier short := by
  rw [fitsAlias, Bool.or_eq_true, beq_iff_eq, String.startsWith_string_iff, BeginsWith]
  refine or_congr Iff.rfl ?_
  constructor
  · rintro ⟨rest, hrest⟩
    refine ⟨String.ofList rest, String.toList_injective ?_⟩
    rw [String.toList_append, String.toList_ofList, hrest]
  · rintro ⟨rest, rfl⟩
    rw [String.toList_append, String.toList_append, String.toList_append]
    exact List.prefix_append _ _

/-- The entry of a table for the longest alias that fits a specifier. -/
structure IsLongestAlias (table : List (String × Attempt String)) (specifier : String)
    (entry : String × Attempt String) : Prop where
  mem : entry ∈ table
  fits : BeginsWith specifier entry.1
  longest : ∀ other ∈ table, BeginsWith specifier other.1 → other.1.length ≤ entry.1.length

/-- Two aliases of one length that fit are the same beginning of the specifier. -/
theorem eq_of_beginsWith {short' : String} (h : BeginsWith specifier short)
    (h' : BeginsWith specifier short') (hlength : short.length = short'.length) : short = short' := by
  have hshort := prefix_of_fitsAlias (fitsAlias_iff.2 h)
  have hshort' := prefix_of_fitsAlias (fitsAlias_iff.2 h')
  refine String.toList_injective ((List.prefix_of_prefix_length_le hshort hshort' ?_).eq_of_length ?_)
  · rw [String.length_toList, String.length_toList]
    exact Nat.le_of_eq hlength
  · rw [String.length_toList, String.length_toList, hlength]

theorem IsLongestAlias.unique (hkeys : (keysOf table).Nodup) (h : IsLongestAlias table specifier entry)
    (h' : IsLongestAlias table specifier entry') : entry = entry' := by
  obtain ⟨short, target⟩ := entry
  obtain ⟨short', target'⟩ := entry'
  obtain rfl : short = short' := eq_of_beginsWith h.fits h'.fits
    (Nat.le_antisymm (h'.longest _ h.mem h.fits) (h.longest _ h'.mem h'.fits))
  have hfound := lookup_of_mem hkeys h.mem
  rw [lookup_of_mem hkeys h'.mem] at hfound
  rw [Option.some.inj hfound]

theorem IsLongestAlias.of_perm (hperm : table'.Perm table) (h : IsLongestAlias table specifier entry) :
    IsLongestAlias table' specifier entry where
  mem := hperm.mem_iff.2 h.mem
  fits := h.fits
  longest other hother := h.longest other (hperm.mem_iff.1 hother)

/-- The search that starts with the longest aliases comes to the longest one that fits. -/
theorem isLongestAlias_of_find
    (h : (longestFirst table).find? (fun a => fitsAlias specifier a.1) = some entry) :
    IsLongestAlias table specifier entry := by
  obtain ⟨hfits, hfirst, hlongest⟩ := find_longestFirst h
  exact ⟨List.mem_of_find?_eq_some hfirst, fitsAlias_iff.1 hfits,
    fun other hother hbegins => hlongest other hother (fitsAlias_iff.2 hbegins)⟩

theorem find_eq_none_iff : (longestFirst table).find? (fun a => fitsAlias specifier a.1) = none ↔
    ∀ a ∈ table, ¬BeginsWith specifier a.1 := by
  rw [List.find?_eq_none]
  refine forall_congr' fun a => ?_
  rw [fitsAlias_iff, longestFirst, List.mem_mergeSort]

theorem exists_isLongestAlias (h : ∃ a ∈ table, BeginsWith specifier a.1) :
    ∃ entry, IsLongestAlias table specifier entry := by
  cases hfound : (longestFirst table).find? (fun a => fitsAlias specifier a.1) with
  | some entry => exact ⟨entry, isLongestAlias_of_find hfound⟩
  | none =>
    obtain ⟨a, ha, hbegins⟩ := h
    exact absurd hbegins (find_eq_none_iff.1 hfound a ha)

/-! ### Targets -/

/-- What a specifier goes on with behind an alias, slashes in between left out. -/
def behind (specifier short : String) : String :=
  String.ofList ((specifier.toList.drop short.length).dropWhile (· == '/'))

/-- The path that a specifier stands for by an alias; a fault if the alias stands for no text. -/
def aliasedPath (p : Project) (specifier : String) (entry : String × Attempt String) : Attempt String := do
  return Path.join (Path.join p.root (← entry.2)) (behind specifier entry.1)

/-- The file that a path leads to, with an ending or without. -/
def fileAt? (p : Project) (base : String) : Attempt (Option SourceFile) :=
  match (moduleCandidates (p.place base)).findSome? p.file? with
  | none => .ok none
  | some f => do
    if p.closed.contains f.path then throw (.closedFile f.path)
    let _ ← f.exports
    return some f

/-- No alias counts in the look for a file. -/
theorem fileAt?_aliases (p : Project) (aliases : Attempt (List (String × Attempt String))) :
    { p with aliases := aliases }.fileAt? = p.fileAt? := by
  have hplace : { p with aliases := aliases }.place = p.place := rfl
  have hfile : { p with aliases := aliases }.file? = p.file? := rfl
  unfold fileAt?
  rw [hplace, hfile]

theorem aliasTarget?_of_longest (hp : p.aliases = .ok table) (hkeys : (keysOf table).Nodup)
    (h : IsLongestAlias table specifier entry) :
    p.aliasTarget? specifier = some <$> p.aliasedPath specifier entry := by
  rw [aliasTarget?_eq hp]
  cases hfound : (longestFirst table).find? (fun a => fitsAlias specifier a.1) with
  | none => exact absurd h.fits (find_eq_none_iff.1 hfound entry h.mem)
  | some found =>
    obtain rfl : found = entry := (isLongestAlias_of_find hfound).unique hkeys h
    obtain ⟨short, target⟩ := found
    cases target <;> rfl

theorem aliasTarget?_eq_none_iff (hp : p.aliases = .ok table) (hkeys : (keysOf table).Nodup) :
    p.aliasTarget? specifier = .ok none ↔ ∀ a ∈ table, ¬BeginsWith specifier a.1 := by
  constructor
  · intro hnone a ha hbegins
    obtain ⟨entry, hentry⟩ := exists_isLongestAlias ⟨a, ha, hbegins⟩
    rw [aliasTarget?_of_longest hp hkeys hentry] at hnone
    cases hpath : p.aliasedPath specifier entry <;> rw [hpath] at hnone <;> cases hnone
  · intro hno
    rw [aliasTarget?_eq hp, find_eq_none_iff.2 hno]

theorem module?_of_target (hdot : specifier.startsWith "." = false) (importer : String) :
    p.module? importer specifier = p.aliasTarget? specifier >>= fun
      | some base => p.fileAt? base
      | none => .ok none := by
  rw [module?, if_neg (by simp [hdot])]
  cases p.aliasTarget? specifier with
  | error f => rfl
  | ok base? =>
    cases base? with
    | none => rfl
    | some base =>
      unfold fileAt?
      dsimp only [bind, Except.bind, Option.bind_some]
      generalize (moduleCandidates (p.place base)).findSome? p.file? = found
      cases found <;> rfl

/-- The order of a table does not matter. -/
theorem aliasTarget?_perm (hp : p.aliases = .ok table) (hkeys : (keysOf table).Nodup)
    (hperm : table'.Perm table) :
    { p with aliases := .ok table' }.aliasTarget? specifier = p.aliasTarget? specifier := by
  have hkeys' : (keysOf table').Nodup := (hperm.map Prod.fst).nodup_iff.2 hkeys
  by_cases hfits : ∃ a ∈ table, BeginsWith specifier a.1
  · obtain ⟨entry, hentry⟩ := exists_isLongestAlias hfits
    rw [aliasTarget?_of_longest hp hkeys hentry, aliasTarget?_of_longest rfl hkeys' (hentry.of_perm hperm)]
    rfl
  · have hno : ∀ a ∈ table, ¬BeginsWith specifier a.1 := fun a ha hbegins => hfits ⟨a, ha, hbegins⟩
    rw [(aliasTarget?_eq_none_iff hp hkeys).2 hno]
    exact (aliasTarget?_eq_none_iff rfl hkeys').2 fun a ha => hno a (hperm.mem_iff.1 ha)

/-- **The longest alias.** If an alias fits a specifier, there is exactly one longest that does, and what
is imported goes by this one. There is no target exactly if no alias fits, and then imports lead nowhere.
In all this the order of the table does not matter. -/
theorem longest_alias_used (hp : p.aliases = .ok table) (hkeys : (keysOf table).Nodup)
    (hdot : specifier.startsWith "." = false) :
    ((∃ a ∈ table, BeginsWith specifier a.1) → ∃! entry, IsLongestAlias table specifier entry) ∧
    (∀ entry, IsLongestAlias table specifier entry →
      p.aliasTarget? specifier = some <$> p.aliasedPath specifier entry ∧
      ∀ importer, p.module? importer specifier = p.aliasedPath specifier entry >>= p.fileAt?) ∧
    (p.aliasTarget? specifier = .ok none ↔ ∀ a ∈ table, ¬BeginsWith specifier a.1) ∧
    ((∀ a ∈ table, ¬BeginsWith specifier a.1) → ∀ importer, p.module? importer specifier = .ok none) ∧
    ∀ table' : List (String × Attempt String), table'.Perm table →
      { p with aliases := .ok table' }.aliasTarget? specifier = p.aliasTarget? specifier ∧
      ∀ importer, { p with aliases := .ok table' }.module? importer specifier =
        p.module? importer specifier := by
  refine ⟨fun hfits => ?_, fun entry hentry => ?_, aliasTarget?_eq_none_iff hp hkeys, fun hno importer => ?_,
    fun table' hperm => ?_⟩
  · obtain ⟨entry, hentry⟩ := exists_isLongestAlias hfits
    exact ⟨entry, hentry, fun other hother => hother.unique hkeys hentry⟩
  · have htarget := aliasTarget?_of_longest hp hkeys hentry
    refine ⟨htarget, fun importer => ?_⟩
    rw [module?_of_target hdot, htarget]
    cases p.aliasedPath specifier entry <;> rfl
  · rw [module?_of_target hdot, (aliasTarget?_eq_none_iff hp hkeys).2 hno]
    rfl
  · have htarget : { p with aliases := .ok table' }.aliasTarget? specifier = p.aliasTarget? specifier :=
      aliasTarget?_perm hp hkeys hperm
    refine ⟨htarget, fun importer => ?_⟩
    rw [module?_of_target hdot, module?_of_target hdot, htarget, fileAt?_aliases]

/-- A table with aliases inside one another, the short ones first. -/
def nestedAliases : List (String × Attempt String) :=
  [("@api", .ok "src/api"), ("@api/user", .ok "src/people"), ("@utils", .ok "src/utils")]

theorem nested_alias_used :
    (keysOf nestedAliases).Nodup ∧ "@api/user/rights".startsWith "." = false ∧
    IsLongestAlias nestedAliases "@api/user/rights" ("@api/user", .ok "src/people") ∧
    { bareProject with aliases := .ok nestedAliases }.aliasTarget? "@api/user/rights" =
      .ok (some "/project/src/people/rights") ∧
    { bareProject with aliases := .ok nestedAliases.reverse }.aliasTarget? "@api/user/rights" =
      .ok (some "/project/src/people/rights") ∧
    { bareProject with aliases := .ok nestedAliases }.aliasTarget? "@utilsfoo" = .ok none := by
  have hkeys : (keysOf nestedAliases).Nodup := by decide
  have hdot : "@api/user/rights".startsWith "." = false := by decide +kernel
  have hlengths : ∀ a ∈ nestedAliases, a.1.length ≤ "@api/user".length := by decide +kernel
  have hlongest : IsLongestAlias nestedAliases "@api/user/rights" ("@api/user", .ok "src/people") :=
    ⟨by simp [nestedAliases], .inr ⟨"rights", by decide +kernel⟩, fun a ha _ => hlengths a ha⟩
  obtain ⟨-, hgoes, -, -, horder⟩ := longest_alias_used
    (p := { bareProject with aliases := .ok nestedAliases }) rfl hkeys hdot
  have htarget : { bareProject with aliases := .ok nestedAliases }.aliasTarget? "@api/user/rights" =
      .ok (some "/project/src/people/rights") := by
    rw [(hgoes _ hlongest).1]
    refine congrArg (fun path => Except.ok (some path)) ?_
    decide +kernel
  refine ⟨hkeys, hdot, hlongest, htarget, ?_, ?_⟩
  · rw [← htarget]
    exact (horder nestedAliases.reverse (List.reverse_perm _)).1
  · have hdot' : "@utilsfoo".startsWith "." = false := by decide +kernel
    obtain ⟨-, -, hnone, -⟩ := longest_alias_used
      (p := { bareProject with aliases := .ok nestedAliases }) rfl hkeys hdot'
    refine hnone.2 fun a ha hbegins => ?_
    have hunfit : ∀ a ∈ nestedAliases, fitsAlias "@utilsfoo" a.1 = false := by decide +kernel
    rw [← fitsAlias_iff, hunfit a ha] at hbegins
    cases hbegins

end SettingsHarvest.Project
