import SettingsHarvest.Syntax.Literal

/-! Steps that can fail, taken apart.

A chain of steps comes to a result only if every step in it does. The lemmas here say so for two steps
and for the ways lists are gone through: item by item with a state, item by item with a result for
each, and up to the first answer. -/
namespace SettingsHarvest

variable {ε α β : Type}

theorem bind_eq_ok {x : Except ε α} {f : α → Except ε β} {b : β} :
    x >>= f = .ok b ↔ ∃ a, x = .ok a ∧ f a = .ok b := by
  cases x with
  | error e => exact ⟨nofun, nofun⟩
  | ok a => exact ⟨fun h => ⟨a, rfl, h⟩, fun ⟨_, rfl, h⟩ => h⟩

theorem pure_eq_ok {a b : α} : (pure a : Except ε α) = .ok b ↔ a = b :=
  Except.ok.injEq a b ▸ Iff.rfl

/-- What every step keeps holds in the end. -/
theorem foldlM_preserves {f : β → α → Except ε β} {P : β → Prop} {items : List α} {b c : β}
    (h : items.foldlM f b = .ok c) (hb : P b)
    (step : ∀ a ∈ items, ∀ b c, f b a = .ok c → P b → P c) : P c := by
  induction items generalizing b with
  | nil =>
    cases pure_eq_ok.1 h
    exact hb
  | cons a rest ih =>
    rw [List.foldlM_cons, bind_eq_ok] at h
    obtain ⟨next, hnext, h⟩ := h
    exact ih h (step a List.mem_cons_self b next hnext hb)
      fun a' ha' => step a' (List.mem_cons_of_mem a ha')

/-- A state goes through all items if every step goes through. -/
theorem exists_foldlM {f : β → α → Except ε β} {items : List α}
    (h : ∀ a ∈ items, ∀ b, ∃ c, f b a = .ok c) (b : β) : ∃ c, items.foldlM f b = .ok c := by
  induction items generalizing b with
  | nil => exact ⟨b, rfl⟩
  | cons a rest ih =>
    obtain ⟨ha, hrest⟩ := List.forall_mem_cons.1 h
    obtain ⟨next, hnext⟩ := ha b
    obtain ⟨c, hc⟩ := ih hrest next
    exact ⟨c, by rw [List.foldlM_cons, hnext]; exact hc⟩

/-- Steps of no result go through if each does. -/
theorem forM_eq_ok_iff {f : α → Except ε Unit} {items : List α} :
    items.forM f = .ok () ↔ ∀ a ∈ items, f a = .ok () := by
  induction items with
  | nil => exact iff_of_true rfl nofun
  | cons a rest ih =>
    rw [List.forall_mem_cons, ← ih]
    refine ⟨fun h => ?_, fun ⟨ha, hrest⟩ => bind_eq_ok.2 ⟨(), ha, hrest⟩⟩
    obtain ⟨⟨⟩, ha, hrest⟩ := bind_eq_ok.1 h
    exact ⟨ha, hrest⟩

theorem exists_mem_of_mapM {f : α → Except ε β} {items : List α} {results : List β}
    (h : items.mapM f = .ok results) {a : α} (ha : a ∈ items) : ∃ b ∈ results, f a = .ok b := by
  induction items generalizing results with
  | nil => simp at ha
  | cons a' rest ih =>
    rw [List.mapM_cons, bind_eq_ok] at h
    obtain ⟨first, hfirst, h⟩ := h
    obtain ⟨others, hothers, h⟩ := bind_eq_ok.1 h
    cases pure_eq_ok.1 h
    rcases List.mem_cons.1 ha with rfl | ha
    · exact ⟨first, List.mem_cons_self, hfirst⟩
    · obtain ⟨b, hb, hf⟩ := ih hothers ha
      exact ⟨b, List.mem_cons_of_mem first hb, hf⟩

theorem mem_mapM_iff {f : α → Except ε β} {items : List α} {results : List β}
    (h : items.mapM f = .ok results) {b : β} : b ∈ results ↔ ∃ a ∈ items, f a = .ok b := by
  induction items generalizing results with
  | nil =>
    cases pure_eq_ok.1 h
    simp
  | cons a rest ih =>
    rw [List.mapM_cons, bind_eq_ok] at h
    obtain ⟨first, hfirst, h⟩ := h
    obtain ⟨others, hothers, h⟩ := bind_eq_ok.1 h
    cases pure_eq_ok.1 h
    simp [ih hothers, hfirst, eq_comm]

/-- Items have results all together exactly if each of them has one. -/
theorem exists_mapM_iff {ε α β : Type} {f : α → Except ε β} {items : List α} :
    (∃ results, items.mapM f = .ok results) ↔ ∀ a ∈ items, ∃ b, f a = .ok b := by
  constructor
  · rintro ⟨results, h⟩ a ha
    obtain ⟨b, -, hb⟩ := exists_mem_of_mapM h ha
    exact ⟨b, hb⟩
  · intro h
    induction items with
    | nil => exact ⟨[], rfl⟩
    | cons a rest ih =>
      obtain ⟨⟨b, hb⟩, hrest⟩ := List.forall_mem_cons.1 h
      obtain ⟨others, hothers⟩ := ih hrest
      exact ⟨b :: others, by rw [List.mapM_cons, hb, hothers]; rfl⟩

theorem mapM_eq_ok {ε α β : Type} {f : α → Except ε β} {g : α → β} {items : List α}
    (h : ∀ a ∈ items, f a = .ok (g a)) : items.mapM f = .ok (items.map g) := by
  induction items with
  | nil => rfl
  | cons a rest ih =>
    obtain ⟨ha, hrest⟩ := List.forall_mem_cons.1 h
    rw [List.mapM_cons, ha, ih hrest]
    rfl

theorem exists_of_map {x : Except ε α} {f : α → β} {b : β} (h : x.map f = .ok b) :
    ∃ a, x = .ok a ∧ f a = b := by
  cases x with
  | error e => cases h
  | ok a => exact ⟨a, rfl, Except.ok.inj h⟩

/-- Steps that come to an image of what others come to, one by one and all together. -/
theorem mapM_eq_map {γ : Type} {f : α → Except ε β} {f' : α → Except ε γ} {g : β → γ}
    {items : List α} {results : List β} (h : items.mapM f = .ok results)
    (hstep : ∀ a ∈ items, ∀ b, f a = .ok b → f' a = .ok (g b)) :
    items.mapM f' = .ok (results.map g) := by
  induction items generalizing results with
  | nil =>
    cases pure_eq_ok.1 h
    rfl
  | cons a rest ih =>
    rw [List.mapM_cons] at h ⊢
    obtain ⟨b, hb, h⟩ := bind_eq_ok.1 h
    obtain ⟨others, hothers, h⟩ := bind_eq_ok.1 h
    cases pure_eq_ok.1 h
    obtain ⟨hfirst, hrest⟩ := List.forall_mem_cons.1 hstep
    rw [hfirst b hb, ih hothers hrest]
    rfl

/-- The first answer is the answer of an item. -/
theorem exists_of_firstSome {f : α → Attempt (Option β)} {items : List α} {b : β}
    (h : Syntax.firstSome f items = .ok (some b)) : ∃ a ∈ items, f a = .ok (some b) := by
  induction items with
  | nil => cases h
  | cons a rest ih =>
    rw [Syntax.firstSome] at h
    split at h
    · obtain ⟨a', ha', hb⟩ := ih h
      exact ⟨a', List.mem_cons_of_mem a ha', hb⟩
    · exact ⟨a, List.mem_cons_self, h⟩

/-- Without an answer, no item had one. -/
theorem forall_of_firstSome {f : α → Attempt (Option β)} {items : List α}
    (h : Syntax.firstSome f items = .ok none) : ∀ a ∈ items, f a = .ok none := by
  induction items with
  | nil => exact List.forall_mem_nil _
  | cons a rest ih =>
    rw [Syntax.firstSome] at h
    split at h
    · next ha => exact List.forall_mem_cons.2 ⟨ha, ih h⟩
    · next hnone => exact absurd h hnone

/-- A search ends if every item can be asked. -/
theorem exists_firstSome {f : α → Attempt (Option β)} {items : List α}
    (h : ∀ a ∈ items, ∃ b?, f a = .ok b?) : ∃ b?, Syntax.firstSome f items = .ok b? := by
  induction items with
  | nil => exact ⟨none, rfl⟩
  | cons a rest ih =>
    obtain ⟨⟨b?, hb⟩, hrest⟩ := List.forall_mem_cons.1 h
    rw [Syntax.firstSome, hb]
    cases b? with
    | none => exact ih hrest
    | some b => exact ⟨some b, rfl⟩

theorem firstSome_singleton (f : α → Attempt (Option β)) (a : α) : Syntax.firstSome f [a] = f a := by
  rw [Syntax.firstSome]
  cases f a with
  | error e => rfl
  | ok found => cases found <;> rfl

/-- A search among two lists goes through the second one if the first one comes to nothing. -/
theorem firstSome_append_eq (f : α → Attempt (Option β)) (xs ys : List α) :
    Syntax.firstSome f (xs ++ ys) =
      Syntax.firstSome id [Syntax.firstSome f xs, Syntax.firstSome f ys] := by
  rw [Syntax.firstSome, firstSome_singleton]
  induction xs with
  | nil => rfl
  | cons x rest ih =>
    rw [List.cons_append, Syntax.firstSome, Syntax.firstSome]
    cases hx : f x with
    | error e => rfl
    | ok found =>
      cases found with
      | none => exact ih
      | some b => rfl

/-- A search among groups goes through all that is in them. -/
theorem firstSome_flatMap {γ : Type} {f : β → Attempt (Option γ)} {g : α → Attempt (Option γ)}
    {parts : α → List β} {items : List α} (h : ∀ a, g a = Syntax.firstSome f (parts a)) :
    Syntax.firstSome g items = Syntax.firstSome f (items.flatMap parts) := by
  induction items with
  | nil => rfl
  | cons a rest ih =>
    rw [List.flatMap_cons, firstSome_append_eq, ← ih, ← h a, Syntax.firstSome, Syntax.firstSome,
      firstSome_singleton]
    rfl

end SettingsHarvest
