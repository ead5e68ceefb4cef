import SettingsHarvest.Proofs.Faults
import SettingsHarvest.Proofs.Nix.PrintedNames
import SettingsHarvest.Proofs.Parallel

/-! Nothing is lost without a collision.

Whatever is offered to a set is kept or comes too late (`Account`). What is kept is stored, one attribute
for each; what comes too late is reported, one collision for each, which names the first that asked for the
attribute. A set is written with a line for each of its attributes (`write_set`), so that a setting is in the
text of its module, inside its groups and its plugin, unless one of these names is reported
(`entries_kept_or_reported`). -/
namespace SettingsHarvest.Nix

/-! ### Those that come too late -/

section Late

variable {α : Type} (nameOf : α → String)

/-- Those whose attribute is taken when they ask for it. -/
def latecomers (taken : List String) : List α → List α
  | [] => []
  | x :: rest =>
    if wanted nameOf x ∈ taken then x :: latecomers taken rest
    else latecomers (taken ++ [wanted nameOf x]) rest

/-- The first to ask for an attribute. -/
def first? (items : List α) (key : String) : Option α := items.find? (wanted nameOf · == key)

/-- What is reported of somebody behind others. -/
def collision? (before : List α) (x : α) : Option Collision :=
  (first? nameOf before (wanted nameOf x)).map fun y => ⟨nameOf x, nameOf y, wanted nameOf x⟩

/-- What is reported of items, one after another. -/
def reports (before : List α) : List α → List Collision
  | [] => []
  | x :: rest => (collision? nameOf before x).toList ++ reports (before ++ [x]) rest

variable {nameOf}

theorem first?_append (before behind : List α) (key : String) :
    first? nameOf (before ++ behind) key = (first? nameOf before key).or (first? nameOf behind key) :=
  List.find?_append

theorem first?_singleton (x : α) (key : String) :
    first? nameOf [x] key = if key = wanted nameOf x then some x else none := by
  by_cases hkey : key = wanted nameOf x
  · rw [if_pos hkey, hkey, first?]
    exact List.find?_cons_of_pos (beq_self_eq_true (wanted nameOf x))
  · rw [if_neg hkey, first?]
    exact List.find?_cons_of_neg (by simpa using Ne.symm hkey)

theorem first?_isSome_iff {items : List α} {key : String} :
    (first? nameOf items key).isSome = true ↔ ∃ x ∈ items, wanted nameOf x = key := by
  simp [first?]

theorem claimants_append_latecomers (taken : List String) (items : List α) :
    (claimants nameOf taken items ++ latecomers nameOf taken items).Perm items := by
  induction items generalizing taken with
  | nil => exact .refl _
  | cons x rest ih =>
    rw [claimants, latecomers]
    split
    · exact List.perm_middle.trans ((ih taken).cons x)
    · exact (ih _).cons x

/-- The first to ask for a free attribute gets it. -/
theorem mem_claimants_of_first {taken : List String} {items : List α} {key : String} {y : α}
    (hfree : key ∉ taken) (h : first? nameOf items key = some y) : y ∈ claimants nameOf taken items := by
  induction items generalizing taken with
  | nil => cases h
  | cons x rest ih =>
    rw [← List.singleton_append, first?_append, first?_singleton] at h
    rw [claimants]
    by_cases hkey : key = wanted nameOf x
    · rw [if_pos hkey, Option.some_or] at h
      rw [if_neg (hkey ▸ hfree), ← Option.some.inj h]
      exact List.mem_cons_self
    · rw [if_neg hkey, Option.none_or] at h
      split
      · exact ih hfree h
      · refine List.mem_cons_of_mem _ (ih ?_ h)
        rw [List.mem_append, List.mem_singleton, not_or]
        exact ⟨hfree, hkey⟩

/-- One report for each that comes too late; `taken` are the attributes that those before asked for. -/
theorem forall₂_reports {taken : List String} {before items : List α}
    (htaken : ∀ key, key ∈ taken ↔ ∃ x ∈ before, wanted nameOf x = key) :
    List.Forall₂ (fun x c => ∃ y, first? nameOf (before ++ items) (wanted nameOf x) = some y ∧
        c = ⟨nameOf x, nameOf y, wanted nameOf x⟩)
      (latecomers nameOf taken items) (reports nameOf before items) := by
  induction items generalizing taken before with
  | nil => exact .nil
  | cons x rest ih =>
    have hassoc : before ++ x :: rest = (before ++ [x]) ++ rest := by simp
    rw [latecomers, reports]
    split
    · next hx =>
      obtain ⟨y, hy⟩ := Option.isSome_iff_exists.1 (first?_isSome_iff.2 ((htaken _).1 hx))
      rw [collision?, hy, Option.map_some, Option.toList_some, List.singleton_append]
      refine .cons ⟨y, by rw [first?_append, hy, Option.some_or], rfl⟩ ?_
      rw [hassoc]
      refine ih fun key => (htaken key).trans ⟨?_, ?_⟩
      · rintro ⟨z, hz, hkey⟩
        exact ⟨z, List.mem_append_left _ hz, hkey⟩
      · rintro ⟨z, hz, rfl⟩
        rcases List.mem_append.1 hz with hz | hz
        · exact ⟨z, hz, rfl⟩
        · rw [List.mem_singleton.1 hz]
          exact (htaken _).1 hx
    · next hx =>
      have hnone : first? nameOf before (wanted nameOf x) = none := by
        rw [← Option.not_isSome_iff_eq_none, first?_isSome_iff]
        exact fun h => hx ((htaken _).2 h)
      rw [collision?, hnone, Option.map_none, Option.toList_none, List.nil_append, hassoc]
      refine ih fun key => ?_
      rw [List.mem_append, List.mem_singleton, htaken]
      constructor
      · rintro (⟨z, hz, hkey⟩ | rfl)
        · exact ⟨z, List.mem_append_left _ hz, hkey⟩
        · exact ⟨x, List.mem_append_right _ (List.mem_singleton_self x), rfl⟩
      · rintro ⟨z, hz, rfl⟩
        rcases List.mem_append.1 hz with hz | hz
        · exact .inl ⟨z, hz, rfl⟩
        · rw [List.mem_singleton.1 hz]
          exact .inr rfl

/-- What becomes of items that are offered to a set. -/
structure Account (nameOf : α → String) (term : α → Except Fault Term) (items kept late : List α)
    (stored : List (String × Term)) (reported : List Collision) : Prop where
  /-- Every item is kept or comes too late, and none does both. -/
  split : (kept ++ late).Perm items
  /-- An item that is kept is stored under the identifier of its name. -/
  stores : List.Forall₂ (fun x v => v.1 = identifierText (nameOf x) ∧ term x = .ok v.2) kept stored
  /-- No two share an attribute. -/
  distinct : (keysOf stored).Nodup
  /-- One that comes too late is reported, with the one that is kept: the first with its identifier. -/
  reports : List.Forall₂ (fun x c => ∃ y ∈ kept,
    items.find? (fun z => identifierText (nameOf z) == identifierText (nameOf x)) = some y ∧
      c = ⟨nameOf x, nameOf y, identifierText (nameOf x)⟩) late reported
  balance : stored.length + reported.length = items.length

theorem account_of_granted {term : α → Except Fault Term} {items : List α}
    {stored : List (String × Term)} (h : Granted nameOf term [] items stored) :
    Account nameOf term items (claimants nameOf [] items) (latecomers nameOf [] items) stored
      (reports nameOf [] items) := by
  have hreports : List.Forall₂ _ (latecomers nameOf [] items) (reports nameOf [] items) :=
    forall₂_reports fun key => by simp
  have hperm : (claimants nameOf [] items ++ latecomers nameOf [] items).Perm items :=
    claimants_append_latecomers [] items
  constructor
  case split => exact hperm
  case stores => exact h
  case distinct =>
    rw [h.keysOf]
    exact nodup_map_wanted_claimants [] items
  case reports =>
    refine hreports.imp fun x c hc => ?_
    obtain ⟨y, hy, hc⟩ := hc
    exact ⟨y, mem_claimants_of_first List.not_mem_nil hy, hy, hc⟩
  case balance =>
    rw [← List.Forall₂.length_eq h, ← hreports.length_eq, ← hperm.length_eq, List.length_append]

end Late

/-! ### Collisions on the way -/

namespace Attributes

variable {α : Type} {nameOf : α → String} {a : Attributes} {before : List α}

/-- Every attribute is owned by the first of some items that asked for it. -/
def OwnedBy (a : Attributes) (nameOf : α → String) (before : List α) : Prop :=
  ∀ key, a.owners.lookup key = (first? nameOf before key).map nameOf

theorem ownedBy_empty (nameOf : α → String) : empty.OwnedBy nameOf [] := fun _ => rfl

/-- An offer reports a collision if somebody was there before. -/
theorem OwnedBy.offer (h : a.OwnedBy nameOf before) (x : α) (t : Term) :
    (a.offer (nameOf x) t).OwnedBy nameOf (before ++ [x]) ∧
      (a.offer (nameOf x) t).collisions = a.collisions ++ (collision? nameOf before x).toList := by
  have howner : a.owners.lookup (identifierText (nameOf x)) =
      (first? nameOf before (wanted nameOf x)).map nameOf := h _
  cases hfirst : first? nameOf before (wanted nameOf x) with
  | some y =>
    rw [hfirst, Option.map_some] at howner
    simp only [Attributes.offer, howner]
    refine ⟨fun key => ?_, ?_⟩
    · rw [first?_append, first?_singleton, h key]
      split
      · next hkey => rw [hkey, hfirst, Option.some_or]
      · rw [Option.or_none]
    · rw [collision?, hfirst]
      rfl
  | none =>
    rw [hfirst, Option.map_none] at howner
    simp only [Attributes.offer, howner]
    refine ⟨fun key => ?_, ?_⟩
    · rw [first?_append, first?_singleton, List.lookup_append, lookup_cons_eq_ite, h key, wanted]
      split
      · next hkey =>
        rw [hkey, ← wanted, hfirst, Option.map_none, Option.none_or, Option.none_or, Option.map_some]
      · rw [Option.or_none, List.lookup_nil, Option.or_none]
    · rw [collision?, hfirst]
      exact (List.append_nil _).symm

/-- Collisions that are reported of some items, and inside them. -/
def Tells (nameOf : α → String) (inside : α → List Collision) (before items : List α)
    (a b : Attributes) : Prop :=
  ∃ more, b.collisions = a.collisions ++ more ∧
    more.Perm (reports nameOf before items ++ items.flatMap inside)

theorem tells_nil {inside : α → List Collision} : Tells nameOf inside before [] a a :=
  ⟨[], (List.append_nil _).symm, .refl _⟩

/-- One offer, after the collisions inside it were noted, and then the others. -/
theorem tells_cons {inside : α → List Collision} {b : Attributes} {x : α} {rest : List α} {t : Term}
    (noted : Attributes) (ha : a.OwnedBy nameOf before) (howners : noted.owners = a.owners)
    (hinside : noted.collisions = a.collisions ++ inside x)
    (h : (noted.offer (nameOf x) t).OwnedBy nameOf (before ++ [x]) →
      Tells nameOf inside (before ++ [x]) rest (noted.offer (nameOf x) t) b) :
    Tells nameOf inside before (x :: rest) a b := by
  have hnoted : noted.OwnedBy nameOf before := by
    rw [OwnedBy, howners]
    exact ha
  obtain ⟨howned, hoffer⟩ := hnoted.offer x t
  obtain ⟨more, hmore, hperm⟩ := h howned
  refine ⟨inside x ++ ((collision? nameOf before x).toList ++ more), ?_, ?_⟩
  · rw [hmore, hoffer, hinside]
    simp only [List.append_assoc]
  · rw [reports, List.flatMap_cons, List.append_assoc]
    have hrest : (inside x ++ more).Perm
        (reports nameOf (before ++ [x]) rest ++ (inside x ++ rest.flatMap inside)) :=
      (hperm.append_left _).trans (List.perm_append_comm_assoc ..)
    exact (List.perm_append_comm_assoc ..).trans (hrest.append_left _)

end Attributes

/-- The collisions among entries and inside their groups. -/
def collisionsAmong (category : Option String) (entries : Entries) : List Collision :=
  match addEntries category .empty entries with
  | .ok b => b.collisions
  | .error _ => []

/-- The collisions inside an entry. -/
def innerCollisions (category : Option String) : String × Entry → List Collision
  | (_, .setting _) => []
  | (_, .group _ entries) => collisionsAmong category entries

/-- The collisions inside a plugin. -/
def pluginCollisions (category : Option String) (plugin : String × Plugin) : List Collision :=
  collisionsAmong category plugin.2.settings

theorem tells_addEntries {category : Option String} {before entries : Entries} {a b : Attributes}
    (ha : a.OwnedBy entryName before) (h : addEntries category a entries = .ok b) :
    Attributes.Tells entryName (innerCollisions category) before entries a b := by
  induction entries generalizing a before with
  | nil =>
    rw [addEntries] at h
    cases h
    exact Attributes.tells_nil
  | cons entry rest ih =>
    obtain ⟨key, s | ⟨name, inner⟩⟩ := entry
    · rw [addEntries, bind_eq_ok] at h
      obtain ⟨t, -, h⟩ := h
      have hinside : a.collisions = a.collisions ++ innerCollisions category (key, .setting s) :=
        (List.append_nil _).symm
      exact Attributes.tells_cons a ha rfl hinside fun howned => ih howned h
    · rw [addEntries, bind_eq_ok] at h
      obtain ⟨c, hc, h⟩ := h
      have hinside : (a.note c.collisions).collisions =
          a.collisions ++ innerCollisions category (key, .group name inner) := by
        rw [innerCollisions, collisionsAmong, hc]
        rfl
      exact Attributes.tells_cons (a.note c.collisions) ha rfl hinside fun howned => ih howned h

/-- What a plugin is made of when its settings come to some attributes: these, and at most one more. -/
structure Keeps (b whole : Attributes) : Prop where
  values : b.values ⊆ whole.values
  keys : keysOf whole.values ⊆ enableName :: keysOf b.values
  distinct : (keysOf whole.values).Nodup
  shown : ∀ v ∈ whole.values, v.2.isNull = false

/-- A plugin keeps what is stored of its settings, and has the collisions among them. -/
theorem pluginAttributes_keeps {p : Plugin} {category : Option String} {whole : Attributes}
    (h : pluginAttributes p category = .ok whole) :
    ∃ b, addEntries category .empty p.settings = .ok b ∧ whole.collisions = b.collisions ∧
      Keeps b whole := by
  obtain ⟨b, hb, h⟩ := bind_eq_ok.1 h
  have hmade := (granted_addEntries hb).madeFor entryTerm_shown
  refine ⟨b, hb, ?_⟩
  split at h
  · rw [← pure_eq_ok.1 h]
    exact ⟨rfl, List.Subset.refl _, List.subset_cons_self _ _, hmade.distinct, hmade.shown⟩
  · obtain ⟨enable, henable, h⟩ := bind_eq_ok.1 h
    obtain ⟨text, rfl⟩ := enableOption_raw henable
    rw [← pure_eq_ok.1 h]
    have hone : (keysOf [(enableName, Term.raw text)]).Nodup := List.nodup_singleton _
    have hwhole := hmade.assignAll (by decide : identifierText enableName = enableName) text
    refine ⟨rfl, fun v hv => (mem_assignAll hone hmade.distinct v).2 (.inl hv), fun key hkey => ?_,
      hwhole.distinct, hwhole.shown⟩
    rcases mem_keysOf_assignAll.1 hkey with hkey | hkey
    · exact List.mem_cons.2 (.inl (List.mem_singleton.1 hkey))
    · exact List.mem_cons_of_mem _ hkey

theorem exists_pluginAttributes {plugins : List (String × Plugin)} {category : Option String}
    {a b : Attributes} {plugin : String × Plugin} (h : addPlugins category a plugins = .ok b)
    (hplugin : plugin ∈ plugins) : ∃ whole, pluginAttributes plugin.2 category = .ok whole := by
  induction plugins generalizing a with
  | nil => cases hplugin
  | cons first rest ih =>
    obtain ⟨name, p⟩ := first
    rw [addPlugins, bind_eq_ok] at h
    obtain ⟨whole, hwhole, h⟩ := h
    rcases List.mem_cons.1 hplugin with rfl | hplugin
    · exact ⟨whole, hwhole⟩
    · exact ih h hplugin

theorem tells_addPlugins {category : Option String} {before plugins : List (String × Plugin)}
    {a b : Attributes} (ha : a.OwnedBy (·.1) before) (h : addPlugins category a plugins = .ok b) :
    Attributes.Tells (·.1) (pluginCollisions category) before plugins a b := by
  induction plugins generalizing a before with
  | nil =>
    rw [addPlugins] at h
    cases h
    exact Attributes.tells_nil
  | cons plugin rest ih =>
    obtain ⟨name, p⟩ := plugin
    rw [addPlugins, bind_eq_ok] at h
    obtain ⟨whole, hwhole, h⟩ := h
    obtain ⟨c, hc, hcollisions, -⟩ := pluginAttributes_keeps hwhole
    have hinside : (a.note whole.collisions).collisions =
        a.collisions ++ pluginCollisions category (name, p) := by
      rw [pluginCollisions, collisionsAmong, hc, hcollisions]
      rfl
    exact Attributes.tells_cons (a.note whole.collisions) ha rfl hinside fun howned => ih howned h

/-! ### Lines -/

/-- The line of an attribute; it may go on over others. -/
def attributeLine (level : Nat) (v : String × Term) : String :=
  indentation standardUnit level ++ identifierText v.1 ++ " = " ++ v.2.write standardUnit level ++ ";"

/-- A set with lines in it. -/
def setText (level : Nat) (lines : List String) : String :=
  if lines.isEmpty then "\x7b \x7d"
  else "\n".intercalate ("\x7b" :: lines ++ [indentation standardUnit level ++ "\x7d"])

/-- A set is written with a line for each attribute that is not null, in the order of the names. -/
theorem write_set_sorted (attributes : List (String × Term)) (level : Nat) :
    (Term.set attributes).write standardUnit level = setText level
      (((attributes.filter (!·.2.isNull)).mergeSort fun v w => attributeLe (v.1, "") (w.1, "")).map
        (attributeLine (level + 1))) := by
  let named (v : String × Term) := (v.1, attributeLine (level + 1) v)
  have hlines : writeAttributes standardUnit (level + 1) attributes =
      (attributes.filter (!·.2.isNull)).map named := writeAttributes_eq ..
  have hsorted : ((attributes.filter (!·.2.isNull)).mergeSort fun v w =>
      attributeLe (v.1, "") (w.1, "")).map named =
        ((attributes.filter (!·.2.isNull)).map named).mergeSort attributeLe :=
    List.map_mergeSort fun _ _ _ _ => rfl
  rw [Term.write, hlines, ← hsorted, setText, List.isEmpty_map, List.isEmpty_map, List.map_map]
  rfl

/-- A set is written with a line for each of its attributes. -/
theorem write_set {attributes : List (String × Term)} (h : ∀ v ∈ attributes, v.2.isNull = false)
    (level : Nat) :
    ∃ lines, lines.Perm (attributes.map (attributeLine (level + 1))) ∧
      (Term.set attributes).write standardUnit level = setText level lines := by
  have hkept : attributes.filter (!·.2.isNull) = attributes :=
    List.filter_eq_self.2 fun v hv => by rw [h v hv]; rfl
  refine ⟨_, ?_, write_set_sorted attributes level⟩
  rw [hkept]
  exact (List.mergeSort_perm _ _).map _

/-- A line of a set stands between line ends. -/
theorem exists_setText {lines : List String} {line : String} (h : line ∈ lines) (level : Nat) :
    ∃ before behind, setText level lines = before ++ "\n" ++ line ++ "\n" ++ behind := by
  obtain ⟨above, below, rfl⟩ := List.append_of_mem h
  refine ⟨"\n".intercalate ("\x7b" :: above),
    "\n".intercalate (below ++ [indentation standardUnit level ++ "\x7d"]), ?_⟩
  have hlines : "\x7b" :: (above ++ line :: below) ++ [indentation standardUnit level ++ "\x7d"] =
      ("\x7b" :: above) ++ (line :: (below ++ [indentation standardUnit level ++ "\x7d"])) := by simp
  have hcut := @String.intercalate_append_of_ne_nil ("\x7b" :: above)
    (line :: (below ++ [indentation standardUnit level ++ "\x7d"])) "\n" (List.cons_ne_nil _ _)
    (List.cons_ne_nil _ _)
  have hbelow := @String.intercalate_cons_of_ne_nil "\n" line
    (below ++ [indentation standardUnit level ++ "\x7d"]) (by simp)
  rw [setText, if_neg (by simp), hlines, hcut, hbelow]
  simp only [String.append_assoc]

/-- A text in which a value is written under a path of names: a line with the first name, and under the
names behind it what stands behind that one. -/
def WrittenUnder (value : String) : Nat → List String → String → Prop
  | _, [], text => text = value
  | level, name :: path, text => ∃ before inner behind,
    text = before ++ "\n" ++ (indentation standardUnit (level + 1) ++ identifierText name ++ " = "
      ++ inner ++ ";") ++ "\n" ++ behind ∧ WrittenUnder value (level + 1) path inner

theorem writtenUnder_raw (text : String) (level : Nat) :
    WrittenUnder text level [] ((Term.raw text).write standardUnit level) := by
  rw [WrittenUnder, Term.write]

/-- What is written under a path in a term is written one name farther down in a set with the term. -/
theorem writtenUnder_set {attributes : List (String × Term)} {v : String × Term} {value : String}
    {path : List String} {level : Nat} (hshown : ∀ v ∈ attributes, v.2.isNull = false)
    (hv : v ∈ attributes) (h : WrittenUnder value (level + 1) path (v.2.write standardUnit (level + 1))) :
    WrittenUnder value level (v.1 :: path) ((Term.set attributes).write standardUnit level) := by
  obtain ⟨lines, hperm, hwrite⟩ := write_set hshown level
  have hline : attributeLine (level + 1) v ∈ lines := hperm.mem_iff.2 (List.mem_map_of_mem hv)
  obtain ⟨before, behind, htext⟩ := exists_setText hline level
  exact ⟨before, _, behind, hwrite.trans htext, h⟩

/-! ### Settings in a module -/

/-- The names that lead from some entries to a setting among them: those of the groups it is in, and its
own. -/
inductive Reaches : Entries → List String → Setting → Prop where
  | setting {entries : Entries} {key : String} {s : Setting} :
    (key, .setting s) ∈ entries → Reaches entries [s.name] s
  | group {entries inner : Entries} {key name : String} {path : List String} {s : Setting} :
    (key, .group name inner) ∈ entries → Reaches inner path s → Reaches entries (name :: path) s

theorem Reaches.cons {entries : Entries} {path : List String} {s : Setting} (entry : String × Entry)
    (h : Reaches entries path s) : Reaches (entry :: entries) path s := by
  cases h with
  | setting hmem => exact .setting (List.mem_cons_of_mem entry hmem)
  | group hmem hinner => exact .group (List.mem_cons_of_mem entry hmem) hinner

section Offered

variable {α : Type} {nameOf : α → String} {term : α → Except Fault Term} {items kept late : List α}
  {stored : List (String × Term)} {reported : List Collision}

/-- An item that is offered is stored, or there is a report with its name. -/
theorem Account.stored_or_reported (h : Account nameOf term items kept late stored reported) {x : α}
    (hx : x ∈ items) : (∃ t, (identifierText (nameOf x), t) ∈ stored ∧ term x = .ok t) ∨
      ∃ c ∈ reported, c.name = nameOf x := by
  rcases List.mem_append.1 (h.split.mem_iff.2 hx) with hkept | hlate
  · obtain ⟨⟨key, t⟩, hv, hkey, hterm⟩ := exists_of_mem_forall₂ h.stores hkept
    dsimp only at hkey
    exact .inl ⟨t, hkey ▸ hv, hterm⟩
  · obtain ⟨c, hc, y, -, -, rfl⟩ := exists_of_mem_forall₂ h.reports hlate
    exact .inr ⟨_, hc, rfl⟩

end Offered

theorem account_addEntries {category : Option String} {entries : Entries} {b : Attributes}
    (h : addEntries category .empty entries = .ok b) :
    Account entryName (entryTerm category) entries (claimants entryName [] entries)
      (latecomers entryName [] entries) b.values (reports entryName [] entries) ∧
    b.collisions.Perm (reports entryName [] entries ++ entries.flatMap (innerCollisions category)) := by
  obtain ⟨more, hmore, hperm⟩ := tells_addEntries (Attributes.ownedBy_empty _) h
  have hcollisions : b.collisions = more := hmore
  exact ⟨account_of_granted (granted_addEntries h), hcollisions ▸ hperm⟩

theorem mem_innerCollisions {category : Option String} {entries inner : Entries} {b c : Attributes}
    {key name : String} (hb : addEntries category .empty entries = .ok b)
    (hgroup : (key, .group name inner) ∈ entries) (hc : addEntries category .empty inner = .ok c) :
    c.collisions ⊆ b.collisions := by
  intro d hd
  obtain ⟨-, hperm⟩ := account_addEntries hb
  refine hperm.mem_iff.2 (List.mem_append_right _ (List.mem_flatMap.2 ⟨_, hgroup, ?_⟩))
  rw [innerCollisions, collisionsAmong, hc]
  exact hd

/-- A group whose name is reported still has its own collisions reported: its set is made before. -/
theorem exists_addEntries_inner {category : Option String} {entries inner : Entries} {a b : Attributes}
    {key name : String} (h : addEntries category a entries = .ok b)
    (hgroup : (key, .group name inner) ∈ entries) : ∃ c, addEntries category .empty inner = .ok c := by
  induction entries generalizing a with
  | nil => cases hgroup
  | cons entry rest ih =>
    obtain ⟨k, s | ⟨n, entries⟩⟩ := entry
    · rw [addEntries, bind_eq_ok] at h
      obtain ⟨t, -, h⟩ := h
      rcases List.mem_cons.1 hgroup with heq | hgroup
      · cases heq
      · exact ih h hgroup
    · rw [addEntries, bind_eq_ok] at h
      obtain ⟨c, hc, h⟩ := h
      rcases List.mem_cons.1 hgroup with heq | hgroup
      · cases heq
        exact ⟨c, hc⟩
      · exact ih h hgroup

/-- A setting is written under its names in every set with the attributes of its level, unless one of the
names is reported. -/
theorem entries_kept_or_reported {category : Option String} {entries : Entries} {path : List String}
    {s : Setting} {b : Attributes} (hreaches : Reaches entries path s)
    (h : addEntries category .empty entries = .ok b) :
    (∃ c ∈ b.collisions, c.name ∈ path) ∨ ∃ text, settingTerm s category = .ok (.raw text) ∧
      ∀ values, (∀ v ∈ b.values, v ∈ values) → (∀ v ∈ values, v.2.isNull = false) → ∀ level,
        WrittenUnder text level (path.map identifierText) ((Term.set values).write standardUnit level) := by
  induction hreaches generalizing b with
  | @setting entries key s hmem =>
    obtain ⟨haccount, hperm⟩ := account_addEntries h
    rcases haccount.stored_or_reported hmem with ⟨t, ht, hterm⟩ | ⟨c, hc, hname⟩
    · obtain ⟨text, rfl⟩ := settingTerm_raw hterm
      refine .inr ⟨text, hterm, fun values hsub hshown level => ?_⟩
      have hset := writtenUnder_set hshown (hsub _ ht) (writtenUnder_raw text (level + 1))
      exact hset
    · exact .inl ⟨c, hperm.mem_iff.2 (List.mem_append_left _ hc), hname ▸ List.mem_singleton_self _⟩
  | @group entries inner key name path s hmem hinner ih =>
    obtain ⟨c, hc⟩ := exists_addEntries_inner h hmem
    obtain ⟨haccount, hperm⟩ := account_addEntries h
    rcases ih hc with ⟨d, hd, hname⟩ | ⟨text, htext, hwritten⟩
    · exact .inl ⟨d, mem_innerCollisions h hmem hc hd, List.mem_cons_of_mem name hname⟩
    · rcases haccount.stored_or_reported hmem with ⟨t, ht, hterm⟩ | ⟨d, hd, hname⟩
      · refine .inr ⟨text, htext, fun values hsub hshown level => ?_⟩
        rw [entryTerm, hc] at hterm
        obtain rfl : Term.set c.values = t := pure_eq_ok.1 hterm
        have hmade := (granted_addEntries hc).madeFor entryTerm_shown
        have hset := writtenUnder_set hshown (hsub _ ht)
          (hwritten c.values (fun _ hv => hv) hmade.shown (level + 1))
        exact hset
      · exact .inl ⟨d, hperm.mem_iff.2 (List.mem_append_left _ hd), hname ▸ List.mem_cons_self⟩

/-! ### Modules -/

/-- The entries of a plugin and those of the groups in them, kept or not. -/
inductive SettingsLevel (plugins : List (String × Plugin)) : Entries → Prop where
  | plugin {name : String} {p : Plugin} : (name, p) ∈ plugins → SettingsLevel plugins p.settings
  | group {entries inner : Entries} {key name : String} :
    SettingsLevel plugins entries → (key, .group name inner) ∈ entries → SettingsLevel plugins inner

/-- A set that is written with a line for each of its attributes, wherever it stands. -/
def Printed (attributes : List (String × Term)) : Prop :=
  ∀ level, ∃ lines, lines.Perm (attributes.map (attributeLine (level + 1))) ∧
    (Term.set attributes).write standardUnit level = setText level lines

/-- What becomes of everything that is put into a module. -/
structure Accounted (plugins : List (String × Plugin)) (category : Option String) (m : Module) : Prop where
  /-- The plugins are kept or reported, and there are no reports but theirs and those inside them. -/
  ofPlugins : ∃ a kept late reported, addPlugins category .empty plugins = .ok a ∧
    Account (·.1) (pluginTerm category) plugins kept late a.values reported ∧
    m.collisions.Perm (reported ++ plugins.flatMap (pluginCollisions category)) ∧
    Printed a.values ∧
    m.text = "\n".intercalate (moduleHeader ++ [(Term.set a.values).write standardUnit 0])
  /-- A plugin is made from what is stored of its settings, at most with an attribute more. -/
  composed : ∀ plugin ∈ plugins, ∃ b whole, addEntries category .empty plugin.2.settings = .ok b ∧
    pluginAttributes plugin.2 category = .ok whole ∧ b.values ⊆ whole.values ∧
    keysOf whole.values ⊆ enableName :: keysOf b.values ∧ (keysOf whole.values).Nodup ∧
    Printed whole.values
  /-- The settings of a plugin or a group are kept or reported, and so are those of the groups in them. -/
  ofSettings : ∀ entries, SettingsLevel plugins entries → ∃ b kept late reported,
    addEntries category .empty entries = .ok b ∧
    Account entryName (entryTerm category) entries kept late b.values reported ∧
    b.collisions.Perm (reported ++ entries.flatMap (innerCollisions category)) ∧ Printed b.values
  /-- A setting is in the text, or a report names it or something it is in. -/
  missing : ∀ plugin ∈ plugins, ∀ path s, Reaches plugin.2.settings path s →
    (∃ c ∈ m.collisions, c.name ∈ plugin.1 :: path) ∨
    ∃ option body, settingTerm s category = .ok (.raw option) ∧
      m.text = "\n".intercalate (moduleHeader ++ [body]) ∧
      WrittenUnder option 0 ((plugin.1 :: path).map identifierText) body

theorem printed_of_shown {attributes : List (String × Term)} (h : ∀ v ∈ attributes, v.2.isNull = false) :
    Printed attributes := write_set h

theorem exists_addEntries_of_level {plugins : List (String × Plugin)} {category : Option String}
    {a b : Attributes} {entries : Entries} (h : addPlugins category a plugins = .ok b)
    (hlevel : SettingsLevel plugins entries) : ∃ c, addEntries category .empty entries = .ok c := by
  induction hlevel with
  | plugin hmem =>
    obtain ⟨whole, hwhole⟩ := exists_pluginAttributes h hmem
    obtain ⟨c, hc, -⟩ := pluginAttributes_keeps hwhole
    exact ⟨c, hc⟩
  | group _ hmem ih =>
    obtain ⟨c, hc⟩ := ih
    exact exists_addEntries_inner hc hmem

theorem account_addPlugins {plugins : List (String × Plugin)} {category : Option String} {a : Attributes}
    (h : addPlugins category .empty plugins = .ok a) :
    Account (·.1) (pluginTerm category) plugins (claimants (·.1) [] plugins)
      (latecomers (·.1) [] plugins) a.values (reports (·.1) [] plugins) ∧
    a.collisions.Perm (reports (·.1) [] plugins ++ plugins.flatMap (pluginCollisions category)) ∧
    ∀ v ∈ a.values, v.2.isNull = false := by
  obtain ⟨more, hmore, hperm⟩ := tells_addPlugins (Attributes.ownedBy_empty _) h
  obtain ⟨-, added, hadded, hgranted⟩ := grown_addPlugins Attributes.owned_empty h
  have hcollisions : a.collisions = more := hmore
  have hvalues : a.values = added := hadded
  rw [hvalues]
  refine ⟨account_of_granted hgranted, hcollisions ▸ hperm, fun v hv => ?_⟩
  obtain ⟨plugin, -, hterm⟩ := hgranted.exists_claimant hv
  obtain ⟨b, -, hset⟩ := pluginTerm_cases hterm
  rw [hset]
  rfl

theorem plugin_kept_or_reported {plugins : List (String × Plugin)} {category : Option String}
    {a : Attributes} (h : addPlugins category .empty plugins = .ok a) {plugin : String × Plugin}
    (hplugin : plugin ∈ plugins) {path : List String} {s : Setting}
    (hreaches : Reaches plugin.2.settings path s) :
    (∃ c ∈ a.collisions, c.name ∈ plugin.1 :: path) ∨ ∃ option, settingTerm s category = .ok (.raw option) ∧
      WrittenUnder option 0 ((plugin.1 :: path).map identifierText)
        ((Term.set a.values).write standardUnit 0) := by
  obtain ⟨haccount, hperm, hshown⟩ := account_addPlugins h
  obtain ⟨whole, hwhole⟩ := exists_pluginAttributes h hplugin
  obtain ⟨b, hb, -, hkeeps⟩ := pluginAttributes_keeps hwhole
  rcases entries_kept_or_reported hreaches hb with ⟨c, hc, hname⟩ | ⟨option, hoption, hwritten⟩
  · refine .inl ⟨c, hperm.mem_iff.2 (List.mem_append_right _ ?_), List.mem_cons_of_mem _ hname⟩
    refine List.mem_flatMap.2 ⟨plugin, hplugin, ?_⟩
    rwa [pluginCollisions, collisionsAmong, hb]
  · rcases haccount.stored_or_reported hplugin with ⟨t, ht, hterm⟩ | ⟨c, hc, hname⟩
    · obtain ⟨whole', hwhole', rfl⟩ := pluginTerm_cases hterm
      obtain rfl : whole = whole' := Except.ok.inj (hwhole.symm.trans hwhole')
      have hset := writtenUnder_set hshown ht (hwritten whole.values hkeeps.values hkeeps.shown 1)
      exact .inr ⟨option, hoption, hset⟩
    · exact .inl ⟨c, hperm.mem_iff.2 (List.mem_append_left _ hc), hname ▸ List.mem_cons_self⟩

/-- A module accounts for everything that is put into it. -/
theorem accounted_of_moduleOf {plugins : List (String × Plugin)} {category : Option String} {m : Module}
    (h : moduleOf plugins category = .ok m) : Accounted plugins category m := by
  obtain ⟨a, ha, h⟩ := bind_eq_ok.1 h
  rw [← pure_eq_ok.1 h]
  constructor
  case ofPlugins =>
    obtain ⟨haccount, hperm, hshown⟩ := account_addPlugins ha
    exact ⟨a, _, _, _, ha, haccount, hperm, printed_of_shown hshown, rfl⟩
  case composed =>
    intro plugin hplugin
    obtain ⟨whole, hwhole⟩ := exists_pluginAttributes ha hplugin
    obtain ⟨b, hb, -, hkeeps⟩ := pluginAttributes_keeps hwhole
    exact ⟨b, whole, hb, hwhole, hkeeps.values, hkeeps.keys, hkeeps.distinct,
      printed_of_shown hkeeps.shown⟩
  case ofSettings =>
    intro entries hlevel
    obtain ⟨b, hb⟩ := exists_addEntries_of_level ha hlevel
    obtain ⟨haccount, hperm⟩ := account_addEntries hb
    have hmade := (granted_addEntries hb).madeFor entryTerm_shown
    exact ⟨b, _, _, _, hb, haccount, hperm, printed_of_shown hmade.shown⟩
  case missing =>
    intro plugin hplugin path s hreaches
    rcases plugin_kept_or_reported ha hplugin hreaches with hreported | ⟨option, hoption, hwritten⟩
    · exact .inl hreported
    · exact .inr ⟨option, _, hoption, rfl, hwritten⟩

/-! ### Modules that cannot be made -/

/-- A setting that is to be a floating-point number, with an integer beyond all of these as its default. -/
def TooLarge (s : Setting) : Prop :=
  s.target = .float ∧ ∃ n, s.default = some (.integer n) ∧ (Binary64.ofInt n).toInt? = none

/-- A setting with an integer of too many digits, in its choices or in its default. -/
def Overlong (s : Setting) : Prop :=
  (s.target = .enum ∧ ∃ v ∈ s.choices.getD [], v.isWritable = false) ∨
    ∃ v, s.default = some v ∧ v.isWritable = false

/-- What stops a module: a category without a label, or a setting in it with a number that is too large. -/
def Unwritable (category : Option String) (holds : Setting → Prop) (f : Fault) : Prop :=
  (∃ c, category = some c ∧ c ∉ keysOf categoryLabels ∧ f = .missingKey c) ∨
    ∃ s, holds s ∧ (TooLarge s ∧ f = .integerTooLarge ∨ Overlong s ∧ f = .overlongNumeral none)

theorem Unwritable.mono {category : Option String} {holds holds' : Setting → Prop} {f : Fault}
    (h : ∀ s, holds s → holds' s) (hf : Unwritable category holds f) : Unwritable category holds' f :=
  hf.imp_right fun ⟨s, hs, hnumber⟩ => ⟨s, h s hs, hnumber⟩

section Ends

variable {category : Option String} {holds : Setting → Prop}

theorem ends_enableOption (description : Option String) :
    Ends (Unwritable category holds) (fun _ => True) (enableOption description category) := by
  cases category with
  | none => exact .ok trivial
  | some c =>
    have hlabel : Ends (Unwritable (some c) holds) (fun _ => True) (categoryLabel c) := by
      rw [categoryLabel]
      split
      · exact .ok trivial
      · next hnone =>
        refine .error (.inl ⟨c, rfl, fun hmem => ?_, rfl⟩)
        obtain ⟨label, hlabel⟩ := mem_keysOf.1 hmem
        simpa using List.lookup_eq_none_iff.1 hnone _ hlabel
    exact hlabel.bind fun _ _ => .ok trivial

theorem ends_writableTerm {s : Setting} (hs : holds s) {v : Value} (h : v.isWritable = false → Overlong s) :
    Ends (Unwritable category holds) (fun _ => True) (writableTerm v) := by
  rw [writableTerm]
  split
  · exact .ok trivial
  · next hlong => exact .error (.inr ⟨s, hs, .inr ⟨h (Bool.eq_false_iff.2 hlong), rfl⟩⟩)

theorem ends_optionType {s : Setting} (hs : holds s) :
    Ends (Unwritable category holds) (fun _ => True) (optionType s) := by
  unfold optionType
  split
  · next htarget =>
    have hchoices : Ends (Unwritable category holds) (fun _ => True) (choiceTexts (s.choices.getD [])) := by
      refine (Ends.mapM (Q := fun _ => True) fun v hv => ?_).mono fun _ _ => trivial
      exact (ends_writableTerm hs fun hlong => .inl ⟨htarget, v, hv, hlong⟩).bind fun _ _ => .ok trivial
    exact hchoices.bind fun _ _ => .ok trivial
  · exact .ok trivial

theorem ends_optionDefault {s : Setting} (hs : holds s) {v : Value} (hv : s.default = some v) :
    Ends (Unwritable category holds) (fun _ => True) (optionDefault s.target v) := by
  unfold optionDefault
  split
  case h_2 n htarget =>
    refine Ends.bind (P := fun _ => True) ?_ fun _ _ => .ok trivial
    rw [withOnePlace]
    split
    · exact .ok trivial
    · next hnone => exact .error (.inr ⟨s, hs, .inl ⟨⟨htarget, n, hv, hnone⟩, rfl⟩⟩)
  case h_4 => exact ends_writableTerm hs fun hlong => .inr ⟨_, hv, hlong⟩
  all_goals exact .ok trivial

theorem ends_optionAttributes {s : Setting} (hs : holds s) :
    Ends (Unwritable category holds) (fun _ => True) (optionAttributes s) := by
  unfold optionAttributes
  refine (ends_optionType hs).bind fun type _ => ?_
  dsimp only
  split
  · next v hv =>
    refine (ends_optionDefault hs hv).bind fun _ _ => ?_
    exact .ok trivial
  · exact .ok trivial

theorem ends_settingTerm {s : Setting} (hs : holds s) :
    Ends (Unwritable category holds) (fun _ => True) (settingTerm s category) := by
  rw [settingTerm]
  split
  · exact ends_enableOption s.description
  · exact (ends_optionAttributes hs).bind fun _ _ => .ok trivial

theorem ends_addEntries (a : Attributes) (entries : Entries)
    (h : ∀ path s, Reaches entries path s → holds s) :
    Ends (Unwritable category holds) (fun _ => True) (addEntries category a entries) := by
  fun_induction addEntries category a entries with
  | case1 a => exact .ok trivial
  | case2 a key s rest ih =>
    have hs := h _ s (.setting List.mem_cons_self)
    exact (ends_settingTerm hs).bind fun t _ => ih t fun path s hreaches => h path s (hreaches.cons _)
  | case3 a key name inner rest hinner hrest =>
    have hgroup := hinner fun path s hreaches => h _ s (.group List.mem_cons_self hreaches)
    exact hgroup.bind fun b _ => hrest b fun path s hreaches => h path s (hreaches.cons _)

theorem ends_pluginAttributes (p : Plugin) (h : ∀ path s, Reaches p.settings path s → holds s) :
    Ends (Unwritable category holds) (fun _ => True) (pluginAttributes p category) := by
  rw [pluginAttributes]
  refine (ends_addEntries .empty p.settings h).bind fun b _ => ?_
  split
  · exact .ok trivial
  · exact (ends_enableOption p.description).bind fun _ _ => .ok trivial

theorem ends_addPlugins (a : Attributes) (plugins : List (String × Plugin))
    (h : ∀ plugin ∈ plugins, ∀ path s, Reaches plugin.2.settings path s → holds s) :
    Ends (Unwritable category holds) (fun _ => True) (addPlugins category a plugins) := by
  induction plugins generalizing a with
  | nil =>
    rw [addPlugins]
    exact .ok trivial
  | cons plugin rest ih =>
    rw [addPlugins]
    obtain ⟨hplugin, hrest⟩ := List.forall_mem_cons.1 h
    exact (ends_pluginAttributes plugin.2 hplugin).bind fun whole _ => ih _ hrest

end Ends

/-- **Nothing is lost in silence.** A module accounts for all plugins, settings and groups that are put
into it, and there is one, unless its category has no label or a number is too large to be written. -/
theorem nothing_lost_silently (plugins : List (String × Plugin)) (category : Option String) :
    Ends (Unwritable category fun s => ∃ plugin ∈ plugins, ∃ path, Reaches plugin.2.settings path s)
      (Accounted plugins category) (moduleOf plugins category) where
  result := accounted_of_moduleOf
  fault h := by
    refine (Ends.bind (Q := fun _ => True) (ends_addPlugins .empty plugins ?_) fun a _ => ?_).fault h
    · exact fun plugin hplugin path s hreaches => ⟨plugin, hplugin, path, hreaches⟩
    · exact .ok trivial

end SettingsHarvest.Nix
