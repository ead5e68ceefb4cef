import SettingsHarvest.Proofs.Nix.Identifier

/-! Names that an attribute can have.

The Nix language takes a word for an attribute's name if it starts with a letter or an underscore, goes on
with letters, digits, underscores, single quotes and dashes, and is no keyword (`IsPlainName`); a keyword
has to stand in quotes. Whatever a name is made of, its identifier is one of the two
(`identifier_is_attribute_name`): it starts with an underscore, or its spelling starts as it should. -/
namespace SettingsHarvest.Nix

/-- A word that is a name where it stands without quotes. -/
structure IsPlainName (s : List Char) : Prop where
  start : ∃ c, s.head? = some c ∧ (isLower c || isUpper c || c == '_') = true
  nameChars : ∀ c ∈ s, isNameChar c = true
  free : String.ofList s ∉ keywords

/-- A keyword between double quotes. -/
def IsQuotedKeyword (s : List Char) : Prop := ∃ k ∈ keywords, s = '"' :: k.toList ++ ['"']

theorem isPlainName_underscore {s : List Char} (h : ∀ c ∈ s, isNameChar c = true) :
    IsPlainName ('_' :: s) where
  start := ⟨'_', rfl, by decide⟩
  nameChars := List.forall_mem_cons.2 ⟨by decide, h⟩
  free hmem := by
    have hno := not_keyword_of_underscore (List.mem_cons_self : '_' ∈ '_' :: s)
    rw [List.contains_iff_mem.2 hmem] at hno
    cases hno

theorem exists_head_of_startsName {s : List Char} (h : startsName s = true) :
    ∃ c, s.head? = some c ∧ (isLower c || isUpper c || c == '_') = true :=
  (Option.any_eq_true _ _).1 h

/-- A spelling that starts as a name should is a name, if need be in quotes. -/
theorem quotedKeyword_is_name {s : List Char} (hs : startsName s = true)
    (hchars : ∀ c ∈ s, isNameChar c = true) :
    IsPlainName (quotedKeyword s) ∨ IsQuotedKeyword (quotedKeyword s) := by
  rw [quotedKeyword]
  split
  · next hk =>
    refine Or.inr ⟨String.ofList s, List.contains_iff_mem.1 hk, ?_⟩
    rw [String.toList_ofList]
  · next hk =>
    exact Or.inl ⟨exists_head_of_startsName hs, hchars, fun hmem => hk (List.contains_iff_mem.2 hmem)⟩

/-- **Identifiers are names of attributes.** The identifier of any name is a plain name, or a keyword in
quotes. -/
theorem identifier_is_attribute_name (name : List Char) :
    IsPlainName (identifier name) ∨ IsQuotedKeyword (identifier name) := by
  have hchars := (isSpelling_spelling name).nameChars
  rcases identifier_cases name with hid | ⟨hs, hid⟩
  · rw [hid]
    exact Or.inl (isPlainName_underscore hchars)
  · rw [hid]
    exact quotedKeyword_is_name hs hchars

end SettingsHarvest.Nix
