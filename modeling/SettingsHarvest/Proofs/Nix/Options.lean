import Mathlib.Data.List.Basic
import SettingsHarvest.Proofs.Nix.Collisions

/-! What options are written as.

The attributes of an option are sorted by name, so the default stands in front of all others and the type
behind them (`settingTerm_eq_ok_iff`). What is written for a default is thus what stands behind `default = `
at the start of an option, up to the first semicolon (`exists_defaultWritten_iff`), and what is written for a
type is the last line (`exists_typeWritten_iff`). -/
namespace SettingsHarvest.Nix

/-! ### Sorted attributes -/

/-- The attributes of options, in the order they are written in. -/
def optionNames : List String := ["default", "description", "example", "type"]

theorem attributeLe_trans {a b c : String × String} (hab : attributeLe a b = true)
    (hbc : attributeLe b c = true) : attributeLe a c = true := by
  unfold attributeLe at *
  simp only [Bool.or_eq_true, beq_iff_eq, Bool.and_eq_true, bne_iff_ne, decide_eq_true_eq] at *
  rcases hab with ha | ⟨hb, hab⟩
  · exact .inl ha
  · rcases hbc with hb' | ⟨hc, hbc⟩
    · exact absurd hb' hb
    · exact .inr ⟨hc, String.le_trans hab hbc⟩

theorem attributeLe_total (a b : String × String) : (attributeLe a b || attributeLe b a) = true := by
  unfold attributeLe
  simp only [Bool.or_eq_true, beq_iff_eq, Bool.and_eq_true, bne_iff_ne, decide_eq_true_eq]
  by_cases ha : a.1 = enableName
  · exact .inl (.inl ha)
  · by_cases hb : b.1 = enableName
    · exact .inr (.inl hb)
    · rcases String.le_total a.1 b.1 with h | h
      · exact .inl (.inr ⟨hb, h⟩)
      · exact .inr (.inr ⟨ha, h⟩)

/-- Attributes with one place each in the order are sorted into it. -/
theorem mergeSort_eq {lines sorted : List (String × String)} (hperm : lines.Perm sorted)
    (hnames : (sorted.map (·.1)).Sublist optionNames) : lines.mergeSort attributeLe = sorted := by
  have hstrict : sorted.Pairwise fun a b => attributeLe a b = true ∧ attributeLe b a = false := by
    have hall : optionNames.Pairwise fun a b =>
        attributeLe (a, "") (b, "") = true ∧ attributeLe (b, "") (a, "") = false := by decide
    exact List.pairwise_map.1 (hall.sublist hnames)
  have hmerged : (lines.mergeSort attributeLe).Pairwise fun a b => attributeLe a b = true :=
    List.pairwise_mergeSort (fun a b c hab hbc => attributeLe_trans (a := a) (b := b) (c := c) hab hbc)
      attributeLe_total lines
  have hsame := (List.mergeSort_perm lines attributeLe).trans hperm
  refine hsame.eq_of_pairwise (fun a b ha hb hab hba => ?_) hmerged (hstrict.imp And.left)
  -- Two of them, each no later than the other one, have one place.
  have : Std.Symm fun a b : String × String => ¬(attributeLe a b = true ∧ attributeLe b a = true) :=
    ⟨fun _ _ h hboth => h hboth.symm⟩
  have hapart : sorted.Pairwise fun a b => ¬(attributeLe a b = true ∧ attributeLe b a = true) :=
    hstrict.imp fun h hboth => by simp [h.2] at hboth
  by_contra hne
  exact hapart.forall (hsame.mem_iff.1 ha) hb hne ⟨hab, hba⟩

/-- Attributes that are all written, with names that keep to an order. -/
structure InOrder (attributes : List (String × Term)) (names : List String) : Prop where
  shown : ∀ v ∈ attributes, v.2.isNull = false
  sublist : (attributes.map (·.1)).Sublist names

namespace InOrder

variable {attributes others : List (String × Term)} {names behind : List String}

theorem nil : InOrder [] names := ⟨by simp, List.nil_sublist _⟩

theorem single {name : String} {t : Term} (h : t.isNull = false) : InOrder [(name, t)] [name] :=
  ⟨List.forall_mem_singleton.2 h, List.Sublist.refl _⟩

theorem append (h : InOrder attributes names) (h' : InOrder others behind) :
    InOrder (attributes ++ others) (names ++ behind) where
  shown := List.forall_mem_append.2 ⟨h.shown, h'.shown⟩
  sublist := by
    rw [List.map_append]
    exact h.sublist.append h'.sublist

end InOrder

/-- A set with attributes of options. -/
theorem write_sorted {attributes sorted : List (String × Term)} (hperm : attributes.Perm sorted)
    (h : InOrder sorted optionNames) (level : Nat) :
    (Term.set attributes).write standardUnit level =
      setText level (sorted.map (attributeLine (level + 1))) := by
  have hkept : attributes.filter (!·.2.isNull) = attributes :=
    List.filter_eq_self.2 fun v hv => by rw [h.shown v (hperm.mem_iff.1 hv)]; rfl
  have hsorted := mergeSort_eq (hperm.map fun v => (v.1, attributeLine (level + 1) v))
    (by rw [List.map_map]; exact h.sublist)
  have hlines : writeAttributes standardUnit (level + 1) attributes =
      attributes.map fun v => (v.1, attributeLine (level + 1) v) := by
    rw [writeAttributes_eq, hkept]
    rfl
  rw [Term.write, hlines, hsorted, setText, List.isEmpty_map, List.isEmpty_map, List.map_map]
  rfl

/-! ### Options -/

/-- The default of a setting as an attribute, if there is one. -/
def defaultAttribute (s : Setting) : Except Fault (List (String × Term)) :=
  match s.default with
  | some v => do pure [("default", ← optionDefault s.target v)]
  | none => pure []

/-- What an option says about itself. -/
def describing (s : Setting) : List (String × Term) :=
  let description := match s.description with
    | some d => if d.isEmpty then [] else
      [("description", Term.raw (stringText true (describe s d)))]
    | none => []
  let example? := match s.example? with
    | some e => if showsExample s e then [("example", Term.text e)] else []
    | none => []
  description ++ example?

theorem optionAttributes_eq (s : Setting) : optionAttributes s = do
    let type ← optionType s
    let default ← defaultAttribute s
    return [("type", type)] ++ default ++ describing s := by
  unfold optionAttributes defaultAttribute
  cases optionType s with
  | error f => rfl
  | ok type =>
    cases s.default with
    | none => exact congrArg Except.ok (List.append_assoc _ _ _)
    | some v =>
      cases hv : optionDefault s.target v with
      | error f =>
        simp only [hv]
        rfl
      | ok d =>
        simp only [hv]
        exact congrArg Except.ok (List.append_assoc _ _ _)

/-- The text of an option with attributes in their order. -/
def optionText (attributes : List (String × Term)) : String :=
  "mkOption " ++ setText optionLevel (attributes.map (attributeLine (optionLevel + 1)))

theorem optionType_raw {s : Setting} {type : Term} (h : optionType s = .ok type) :
    ∃ text, type = .raw text := by
  unfold optionType at h
  split at h
  · obtain ⟨texts, -, h⟩ := bind_eq_ok.1 h
    exact ⟨_, (pure_eq_ok.1 h).symm⟩
  · exact ⟨_, (Except.ok.inj h).symm⟩

theorem writableTerm_eq_ok_iff {v : Value} {t : Term} :
    writableTerm v = .ok t ↔ v.isWritable = true ∧ termOf v = t := by
  unfold writableTerm
  split
  · next h => simp [h]
  · next h => simp [h]

theorem termOf_shown {v : Value} (h : v ≠ .null) : (termOf v).isNull = false := by
  cases v with
  | null => exact absurd rfl h
  | truth | integer | decimal | text | list | record => rfl

theorem optionDefault_shown {target : TargetType} {v : Value} {d : Term} (h : optionDefault target v = .ok d) :
    d.isNull = false := by
  unfold optionDefault at h
  split at h
  · cases h
    rfl
  · obtain ⟨text, -, h⟩ := bind_eq_ok.1 h
    cases pure_eq_ok.1 h
    rfl
  · cases h
    split <;> rfl
  · next hnull _ _ =>
    obtain ⟨-, rfl⟩ := writableTerm_eq_ok_iff.1 h
    exact termOf_shown hnull

theorem inOrder_defaultAttribute {s : Setting} {default : List (String × Term)}
    (h : defaultAttribute s = .ok default) : InOrder default ["default"] := by
  unfold defaultAttribute at h
  split at h
  · obtain ⟨d, hd, h⟩ := bind_eq_ok.1 h
    cases pure_eq_ok.1 h
    exact .single (optionDefault_shown hd)
  · cases pure_eq_ok.1 h
    exact .nil

theorem inOrder_describing (s : Setting) : InOrder (describing s) ["description", "example"] := by
  unfold describing
  show InOrder _ (["description"] ++ ["example"])
  refine InOrder.append ?_ ?_
  · split
    · split
      · exact .nil
      · exact .single rfl
    · exact .nil
  · split
    · split
      · exact .single rfl
      · exact .nil
    · exact .nil

/-- **A setting becomes an option with its default first and its type last.** -/
theorem settingTerm_eq_ok_iff {s : Setting} {category : Option String} {t : Term}
    (hname : s.name ≠ enableName) : settingTerm s category = .ok t ↔
      ∃ type default, optionType s = .ok type ∧ defaultAttribute s = .ok default ∧
        .raw (optionText (default ++ describing s ++ [("type", type)])) = t := by
  have hwritten {type : Term} {default : List (String × Term)} (htype : optionType s = .ok type)
      (hdefault : defaultAttribute s = .ok default) :
      "mkOption " ++ (Term.set ([("type", type)] ++ default ++ describing s)).write standardUnit optionLevel =
        optionText (default ++ describing s ++ [("type", type)]) := by
    have horder := (inOrder_defaultAttribute hdefault).append (inOrder_describing s)
    obtain ⟨text, rfl⟩ := optionType_raw htype
    have htype : InOrder [("type", Term.raw text)] ["type"] := .single rfl
    rw [optionText, write_sorted _ (horder.append htype)]
    rw [List.append_assoc]
    exact List.perm_append_comm
  rw [settingTerm, if_neg (by simpa using hname), optionAttributes_eq]
  simp only [bind_eq_ok, pure_eq_ok]
  constructor
  · rintro ⟨attributes, ⟨type, htype, default, hdefault, rfl⟩, rfl⟩
    exact ⟨type, default, htype, hdefault, by rw [hwritten htype hdefault]⟩
  · rintro ⟨type, default, htype, hdefault, rfl⟩
    exact ⟨_, ⟨type, htype, default, hdefault, rfl⟩, by rw [hwritten htype hdefault]⟩

/-! ### What is written for a default and for a type -/

/-- An option is written with a text, without semicolons in it, for its default. -/
def DefaultWritten (t : Term) (text : String) : Prop :=
  ';' ∉ text.toList ∧ ∃ rest, t = .raw ("mkOption \x7b\n      default = " ++ text ++ ";\n" ++ rest)

/-- An option is written with a text, on a single line, for its type. -/
def TypeWritten (t : Term) (text : String) : Prop :=
  '\n' ∉ text.toList ∧ ∃ front, t = .raw (front ++ "\n      type = " ++ text ++ ";\n    \x7d")

theorem exists_optionText_default (d : Term) (rest : List (String × Term)) :
    ∃ behind, optionText (("default", d) :: rest) =
      "mkOption \x7b\n      default = " ++ d.write standardUnit (optionLevel + 1) ++ ";\n" ++ behind := by
  let others := rest.map (attributeLine (optionLevel + 1)) ++ [indentation standardUnit optionLevel ++ "\x7d"]
  have hothers : others ≠ [] := by simp [others]
  have hline : attributeLine (optionLevel + 1) ("default", d) =
      "      default = " ++ d.write standardUnit (optionLevel + 1) ++ ";" := by
    rw [attributeLine, show indentation standardUnit (optionLevel + 1) = "      " by decide,
      show identifierText "default" = "default" by decide]
    rfl
  refine ⟨"\n".intercalate others, ?_⟩
  rw [optionText, List.map_cons, setText, if_neg (by simp), List.cons_append, List.cons_append,
    String.intercalate_cons_of_ne_nil (by simp), String.intercalate_cons_of_ne_nil hothers, hline]
  rw [show "mkOption \x7b\n      default = " = "mkOption " ++ "\x7b" ++ "\n" ++ "      default = " by decide,
    show ";\n" = ";" ++ "\n" by decide]
  simp only [String.append_assoc]

theorem exists_optionText_type (type : Term) (front : List (String × Term)) :
    ∃ before, optionText (front ++ [("type", type)]) =
      before ++ "\n      type = " ++ type.write standardUnit (optionLevel + 1) ++ ";\n    \x7d" := by
  let lines := front.map (attributeLine (optionLevel + 1))
  have hline : attributeLine (optionLevel + 1) ("type", type) =
      "      type = " ++ type.write standardUnit (optionLevel + 1) ++ ";" := by
    rw [attributeLine, show indentation standardUnit (optionLevel + 1) = "      " by decide,
      show identifierText "type" = "type" by decide]
    rfl
  refine ⟨"mkOption " ++ "\n".intercalate ("\x7b" :: lines), ?_⟩
  have hcut : "\x7b" :: (lines ++ [attributeLine (optionLevel + 1) ("type", type)]) ++
      [indentation standardUnit optionLevel ++ "\x7d"] =
        ("\x7b" :: lines) ++ [attributeLine (optionLevel + 1) ("type", type),
          indentation standardUnit optionLevel ++ "\x7d"] := by simp
  have hfront := @String.intercalate_append_of_ne_nil ("\x7b" :: lines)
    [attributeLine (optionLevel + 1) ("type", type), indentation standardUnit optionLevel ++ "\x7d"] "\n"
    (List.cons_ne_nil _ _) (List.cons_ne_nil _ _)
  have hlast := @String.intercalate_cons_of_ne_nil "\n" (attributeLine (optionLevel + 1) ("type", type))
    [indentation standardUnit optionLevel ++ "\x7d"] (List.cons_ne_nil _ _)
  rw [optionText, List.map_append, List.map_singleton, setText, if_neg (by simp), hcut, hfront, hlast, hline,
    String.intercalate_singleton]
  rw [show indentation standardUnit optionLevel ++ "\x7d" = "    \x7d" by decide,
    show "\n      type = " = "\n" ++ "      type = " by decide,
    show ";\n    \x7d" = ";" ++ "\n" ++ "    \x7d" by decide]
  simp only [String.append_assoc]

variable {s : Setting} {category : Option String} {t : Term} {text : String}

/-- What stands in front of the first of some marks is told by the whole text. -/
theorem before_mark_inj {front front' back back' : List Char} {mark : Char} (h : mark ∉ front)
    (h' : mark ∉ front') (heq : front ++ mark :: back = front' ++ mark :: back') : front = front' := by
  have hfront {f b : List Char} (hf : mark ∉ f) : (f ++ mark :: b).takeWhile (· != mark) = f := by
    rw [List.takeWhile_append_of_pos]
    · simp
    · intro c hc
      simpa using fun heq : c = mark => hf (heq ▸ hc)
  rw [← hfront h, heq, hfront h']

theorem defaultWritten_raw_iff {written rest : String} (hclean : ';' ∉ written.toList) :
    DefaultWritten (.raw ("mkOption \x7b\n      default = " ++ written ++ ";\n" ++ rest)) text ↔
      written = text := by
  constructor
  · rintro ⟨htext, other, heq⟩
    have hchars := congrArg String.toList (Term.raw.inj heq)
    simp only [String.toList_append, List.append_assoc, List.append_cancel_left_eq] at hchars
    exact String.toList_inj.1 (before_mark_inj hclean htext hchars)
  · rintro rfl
    exact ⟨hclean, rest, rfl⟩

theorem typeWritten_raw_iff {written front : String} (hclean : '\n' ∉ written.toList) :
    TypeWritten (.raw (front ++ "\n      type = " ++ written ++ ";\n    \x7d")) text ↔ written = text := by
  constructor
  · rintro ⟨htext, other, heq⟩
    have hchars := congrArg String.toList (Term.raw.inj heq)
    simp only [String.toList_append, List.append_cancel_right_eq] at hchars
    -- Read from behind, the line ends in front of its name.
    have hname : "\n      type = ".toList.reverse = " = epyt      ".toList ++ ['\n'] := by decide
    have hbehind := congrArg List.reverse hchars
    simp only [List.reverse_append, hname, List.append_assoc, List.singleton_append] at hbehind
    rw [← List.append_assoc, ← List.append_assoc] at hbehind
    have hline := before_mark_inj (by simpa using hclean) (by simpa using htext) hbehind
    exact String.toList_inj.1 (List.reverse_injective (List.append_cancel_right hline))
  · rintro rfl
    exact ⟨hclean, front, rfl⟩

/-- **What an option is written with for its default.** -/
theorem exists_defaultWritten_iff {v : Value} (hname : s.name ≠ enableName) (hdefault : s.default = some v)
    (hclean : ∀ d, optionDefault s.target v = .ok d → ';' ∉ (d.write standardUnit (optionLevel + 1)).toList) :
    (∃ t, settingTerm s category = .ok t ∧ DefaultWritten t text) ↔
      (∃ type, optionType s = .ok type) ∧
        ∃ d, optionDefault s.target v = .ok d ∧ d.write standardUnit (optionLevel + 1) = text := by
  simp only [settingTerm_eq_ok_iff hname]
  have hattribute (default : List (String × Term)) :
      defaultAttribute s = .ok default ↔
        ∃ d, optionDefault s.target v = .ok d ∧ [("default", d)] = default := by
    rw [defaultAttribute, hdefault]
    exact bind_eq_ok.trans (exists_congr fun d => and_congr_right fun _ => pure_eq_ok)
  have hone (d type : Term) (hd : optionDefault s.target v = .ok d) :
      DefaultWritten (.raw (optionText ([("default", d)] ++ describing s ++ [("type", type)]))) text ↔
        d.write standardUnit (optionLevel + 1) = text := by
    obtain ⟨behind, hbehind⟩ := exists_optionText_default d (describing s ++ [("type", type)])
    rw [List.append_assoc, List.singleton_append, hbehind, defaultWritten_raw_iff (hclean d hd)]
  constructor
  · rintro ⟨_, ⟨type, default, htype, hdefault', rfl⟩, hwritten⟩
    obtain ⟨d, hd, rfl⟩ := (hattribute default).1 hdefault'
    exact ⟨⟨type, htype⟩, d, hd, (hone d type hd).1 hwritten⟩
  · rintro ⟨⟨type, htype⟩, d, hd, hwritten⟩
    exact ⟨_, ⟨type, _, htype, (hattribute _).2 ⟨d, hd, rfl⟩, rfl⟩, (hone d type hd).2 hwritten⟩

/-- **What an option is written with for its type.** -/
theorem exists_typeWritten_iff (hname : s.name ≠ enableName)
    (hclean : ∀ type, optionType s = .ok type → '\n' ∉ (type.write standardUnit (optionLevel + 1)).toList) :
    (∃ t, settingTerm s category = .ok t ∧ TypeWritten t text) ↔
      (∃ default, defaultAttribute s = .ok default) ∧
        ∃ type, optionType s = .ok type ∧ type.write standardUnit (optionLevel + 1) = text := by
  simp only [settingTerm_eq_ok_iff hname]
  have hone (default : List (String × Term)) (type : Term) (htype : optionType s = .ok type) :
      TypeWritten (.raw (optionText (default ++ describing s ++ [("type", type)]))) text ↔
        type.write standardUnit (optionLevel + 1) = text := by
    obtain ⟨before, hbefore⟩ := exists_optionText_type type (default ++ describing s)
    rw [hbefore, typeWritten_raw_iff (hclean type htype)]
  constructor
  · rintro ⟨_, ⟨type, default, htype, hd, rfl⟩, hwritten⟩
    exact ⟨⟨default, hd⟩, type, htype, (hone default type htype).1 hwritten⟩
  · rintro ⟨⟨default, hd⟩, type, htype, hwritten⟩
    exact ⟨_, ⟨type, default, htype, hd, rfl⟩, (hone default type htype).2 hwritten⟩

end SettingsHarvest.Nix
