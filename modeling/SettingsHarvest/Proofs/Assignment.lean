import SettingsHarvest.Value

/-! What assigning under keys does.

`assign` keeps the place of a key that is there already. So the keys stay distinct, and a list that is
assigned key by key to another one ends up with all its own values, and with the other's only where it
has none. -/
namespace SettingsHarvest

variable {α : Type}

/-- The keys of a list of values. -/
def keysOf (fields : List (String × α)) : List String := fields.map (·.1)

@[simp] theorem keysOf_nil : keysOf ([] : List (String × α)) = [] := rfl

@[simp] theorem keysOf_cons (field : String × α) (rest : List (String × α)) :
    keysOf (field :: rest) = field.1 :: keysOf rest := rfl

@[simp] theorem keysOf_append (fields others : List (String × α)) :
    keysOf (fields ++ others) = keysOf fields ++ keysOf others := List.map_append

theorem mem_keysOf {fields : List (String × α)} {key : String} :
    key ∈ keysOf fields ↔ ∃ value, (key, value) ∈ fields := by
  simp [keysOf]

theorem mem_of_lookup {fields : List (String × α)} {key : String} {value : α}
    (h : fields.lookup key = some value) : (key, value) ∈ fields := by
  obtain ⟨before, behind, rfl, -⟩ := List.lookup_eq_some_iff.1 h
  simp

theorem lookup_of_mem {fields : List (String × α)} {key : String} {value : α}
    (hnodup : (keysOf fields).Nodup) (h : (key, value) ∈ fields) : fields.lookup key = some value := by
  induction fields with
  | nil => cases h
  | cons field rest ih =>
    obtain ⟨k, v⟩ := field
    rw [keysOf_cons, List.nodup_cons] at hnodup
    rcases List.mem_cons.1 h with heq | h
    · cases heq
      exact List.lookup_cons_self
    · have hne : key ≠ k := fun heq => hnodup.1 (heq ▸ mem_keysOf.2 ⟨value, h⟩)
      rw [List.lookup_cons, beq_eq_false_iff_ne.2 hne]
      exact ih hnodup.2 h

/-! ### One key -/

theorem mem_keysOf_assign {key other : String} {value : α} {fields : List (String × α)} :
    other ∈ keysOf (assign key value fields) ↔ other = key ∨ other ∈ keysOf fields := by
  induction fields with
  | nil => simp [assign]
  | cons field rest ih =>
    obtain ⟨k, v⟩ := field
    rw [assign]
    split
    · next hk =>
      obtain rfl : k = key := by simpa using hk
      simp
    · simp only [keysOf_cons, List.mem_cons, ih]
      exact or_left_comm

theorem nodup_keysOf_assign {key : String} {value : α} {fields : List (String × α)}
    (h : (keysOf fields).Nodup) : (keysOf (assign key value fields)).Nodup := by
  induction fields with
  | nil => simp [assign]
  | cons field rest ih =>
    obtain ⟨k, v⟩ := field
    rw [keysOf_cons, List.nodup_cons] at h
    rw [assign]
    split
    · exact List.nodup_cons.2 h
    · next hk =>
      rw [keysOf_cons, List.nodup_cons, mem_keysOf_assign]
      refine ⟨?_, ih h.2⟩
      rintro (rfl | hmem)
      · exact hk (by simp)
      · exact h.1 hmem

theorem mem_assign {key : String} {value : α} {fields : List (String × α)}
    (h : (keysOf fields).Nodup) (field : String × α) :
    field ∈ assign key value fields ↔ field = (key, value) ∨ field.1 ≠ key ∧ field ∈ fields := by
  induction fields with
  | nil => simp [assign]
  | cons first rest ih =>
    obtain ⟨k, v⟩ := first
    rw [keysOf_cons, List.nodup_cons] at h
    rw [assign]
    split
    · next hk =>
      obtain rfl : k = key := by simpa using hk
      have hrest : field ∈ rest → field.1 ≠ k := by
        rintro hmem rfl
        exact h.1 (mem_keysOf.2 ⟨_, hmem⟩)
      rw [List.mem_cons, List.mem_cons]
      constructor
      · rintro (rfl | hmem)
        · exact Or.inl rfl
        · exact Or.inr ⟨hrest hmem, Or.inr hmem⟩
      · rintro (rfl | ⟨hne, rfl | hmem⟩)
        · exact Or.inl rfl
        · exact absurd rfl hne
        · exact Or.inr hmem
    · next hk =>
      have hne : k ≠ key := by simpa using hk
      rw [List.mem_cons, List.mem_cons, ih h.2]
      constructor
      · rintro (rfl | rfl | ⟨hf, hmem⟩)
        · exact Or.inr ⟨hne, Or.inl rfl⟩
        · exact Or.inl rfl
        · exact Or.inr ⟨hf, Or.inr hmem⟩
      · rintro (rfl | ⟨hf, rfl | hmem⟩)
        · exact Or.inr (Or.inl rfl)
        · exact Or.inl rfl
        · exact Or.inr (Or.inr ⟨hf, hmem⟩)

theorem mem_of_mem_assign {key : String} {value : α} {fields : List (String × α)}
    {field : String × α} (h : field ∈ assign key value fields) :
    field = (key, value) ∨ field ∈ fields := by
  induction fields with
  | nil => simpa [assign] using h
  | cons first rest ih =>
    rw [assign] at h
    split at h
    · rcases List.mem_cons.1 h with rfl | h
      · next hk => exact Or.inl (by rw [eq_of_beq hk])
      · exact Or.inr (List.mem_cons_of_mem _ h)
    · rcases List.mem_cons.1 h with rfl | h
      · exact Or.inr List.mem_cons_self
      · exact (ih h).imp_right (List.mem_cons_of_mem _)

theorem lookup_cons_eq_ite (key other : String) (value : α) (rest : List (String × α)) :
    ((key, value) :: rest).lookup other = if other = key then some value else rest.lookup other := by
  by_cases hother : other = key
  · rw [if_pos hother, hother, List.lookup_cons_self]
  · rw [if_neg hother, List.lookup_cons, beq_eq_false_iff_ne.2 hother]

theorem lookup_assign (key other : String) (value : α) (fields : List (String × α)) :
    (assign key value fields).lookup other = if other = key then some value else fields.lookup other := by
  induction fields with
  | nil => exact lookup_cons_eq_ite key other value []
  | cons first rest ih =>
    obtain ⟨k, v⟩ := first
    rw [assign]
    split
    · next hk =>
      obtain rfl : k = key := by simpa using hk
      rw [lookup_cons_eq_ite, lookup_cons_eq_ite]
      split <;> rfl
    · next hk =>
      have hne : k ≠ key := by simpa using hk
      rw [lookup_cons_eq_ite, lookup_cons_eq_ite, ih]
      split
      · next hother => rw [if_neg (hother ▸ hne)]
      · rfl

/-- A value under a new key goes behind all others. -/
theorem assign_of_not_mem {key : String} {value : α} {fields : List (String × α)}
    (h : key ∉ keysOf fields) : assign key value fields = fields ++ [(key, value)] := by
  induction fields with
  | nil => rfl
  | cons first rest ih =>
    rw [keysOf_cons, List.mem_cons, not_or] at h
    rw [assign, if_neg (by simpa using Ne.symm h.1), ih h.2]
    rfl

/-- What holds of a value and of all those before it holds of all values after the assignment. -/
theorem forall_mem_assign {P : String × α → Prop} {key : String} {value : α}
    {fields : List (String × α)} (hvalue : P (key, value)) (h : ∀ field ∈ fields, P field) :
    ∀ field ∈ assign key value fields, P field := by
  intro field hfield
  rcases mem_of_mem_assign hfield with rfl | hfield
  · exact hvalue
  · exact h field hfield

/-! ### One key after another -/

/-- A list assigned to another one. -/
def assignAll (fields new : List (String × α)) : List (String × α) :=
  new.foldl (fun all (k, v) => assign k v all) fields

theorem assignAll_cons (fields : List (String × α)) (field : String × α) (new : List (String × α)) :
    assignAll fields (field :: new) = assignAll (assign field.1 field.2 fields) new := rfl

theorem mem_keysOf_assignAll {fields new : List (String × α)} {key : String} :
    key ∈ keysOf (assignAll fields new) ↔ key ∈ keysOf fields ∨ key ∈ keysOf new := by
  induction new generalizing fields with
  | nil => simp [assignAll]
  | cons field new ih =>
    rw [assignAll_cons, ih, mem_keysOf_assign, keysOf_cons, List.mem_cons, or_comm (a := key = field.1),
      or_assoc]

theorem nodup_keysOf_assignAll {fields new : List (String × α)} (h : (keysOf fields).Nodup) :
    (keysOf (assignAll fields new)).Nodup := by
  induction new generalizing fields with
  | nil => exact h
  | cons field new ih => exact ih (nodup_keysOf_assign h)

theorem forall_mem_assignAll {P : String × α → Prop} {fields new : List (String × α)}
    (h : ∀ field ∈ fields, P field) (hnew : ∀ field ∈ new, P field) :
    ∀ field ∈ assignAll fields new, P field := by
  induction new generalizing fields with
  | nil => exact h
  | cons first new ih =>
    have hfirst : P first := hnew first List.mem_cons_self
    exact ih (forall_mem_assign hfirst h) fun field hfield => hnew field (List.mem_cons_of_mem _ hfield)

theorem mem_assignAll {fields new : List (String × α)} (h : (keysOf fields).Nodup)
    (hnew : (keysOf new).Nodup) (field : String × α) :
    field ∈ assignAll fields new ↔ field ∈ new ∨ field.1 ∉ keysOf new ∧ field ∈ fields := by
  induction new generalizing fields with
  | nil => simp [assignAll]
  | cons first new ih =>
    rw [keysOf_cons, List.nodup_cons] at hnew
    rw [assignAll_cons, ih (nodup_keysOf_assign h) hnew.2, mem_assign h, List.mem_cons, keysOf_cons,
      List.mem_cons, not_or]
    constructor
    · rintro (hmem | ⟨hout, rfl | ⟨hne, hmem⟩⟩)
      · exact Or.inl (Or.inr hmem)
      · exact Or.inl (Or.inl rfl)
      · exact Or.inr ⟨⟨hne, hout⟩, hmem⟩
    · rintro ((rfl | hmem) | ⟨⟨hne, hout⟩, hmem⟩)
      · exact Or.inr ⟨hnew.1, Or.inl rfl⟩
      · exact Or.inl hmem
      · exact Or.inr ⟨hout, Or.inr ⟨hne, hmem⟩⟩

/-- New keys are added behind the others, in their order. -/
theorem assignAll_append {fields new : List (String × α)} (h : (keysOf (fields ++ new)).Nodup) :
    assignAll fields new = fields ++ new := by
  induction new generalizing fields with
  | nil => rw [List.append_nil, assignAll, List.foldl_nil]
  | cons field new ih =>
    have hout : field.1 ∉ keysOf fields := by
      rw [keysOf_append, keysOf_cons] at h
      exact fun hmem => (List.nodup_append.1 h).2.2 _ hmem _ List.mem_cons_self rfl
    rw [assignAll_cons, assign_of_not_mem hout, ih (by rwa [List.append_assoc]), List.append_assoc]
    rfl

theorem assignAll_of_nodup {new : List (String × α)} (h : (keysOf new).Nodup) :
    assignAll [] new = new := assignAll_append h

end SettingsHarvest
