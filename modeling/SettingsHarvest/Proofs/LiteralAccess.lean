import SettingsHarvest.Proofs.Depth

/-! What an access to a literal gives in the language.

When a program runs, the members of an object literal are written one after the other, so the last one
with a key counts, and a list has the elements of its spreads in place and nothing where two commas meet.
A key is the name without its escapes, the characters of a text, or the number that a numeral denotes,
written in its one way. What computed keys and spreads come to is up to the run (`Run`).

Evaluation reads the first pair that is spelled like the key, and counts the elements that are written
down. `Settled` says when that is what every run reads (`forall_provider_iff`); elsewhere some run reads
something else, and evaluation answers all the same. -/
namespace SettingsHarvest
open Syntax Project

/-! ### Numbers as keys -/

/-- Digits with the point behind as many of them as `point` says, as the language writes numbers. -/
def withPoint (digits : List Char) (point : Int) : List Char :=
  if digits.length ≤ point ∧ point ≤ 21 then
    digits ++ List.replicate (point - digits.length).toNat '0'
  else if 0 < point ∧ point ≤ 21 then
    digits.take point.toNat ++ '.' :: digits.drop point.toNat
  else if -6 < point ∧ point ≤ 0 then
    '0' :: '.' :: List.replicate (-point).toNat '0' ++ digits
  else
    digits.take 1 ++ (if digits.length = 1 then [] else '.' :: digits.drop 1)
      ++ 'e' :: (if point ≤ 0 then '-' else '+') :: Nat.toDigits 10 (point - 1).natAbs

/-- The text of a number in the language. -/
def scriptText : Binary64 → String
  | .nan => "NaN"
  | .infinite negative => if negative then "-Infinity" else "Infinity"
  | .finite negative m e =>
    if m = 0 then "0"
    else
      let (d, power) := Binary64.shortest m e
      let digits := Nat.toDigits 10 d
      String.ofList ((if negative then ['-'] else []) ++ withPoint digits (power + digits.length))

example : scriptText (.ofInt 16) = "16" ∧ scriptText (.ofDecimal false 1 (-7)) = "1e-7" := by decide

/-- The key that a numeral denotes; a big integer is exact. -/
def numeralKey? (numeral : String) : Option String :=
  match Numeral.parse numeral with
  | .ok (.integer n) =>
    some (if numeral.endsWith "n" then Value.intText n else scriptText (.ofInt n))
  | .ok (.decimal x) => some (scriptText x)
  | _ => none

/-- The text of a number that the language looks an element up by. -/
def numberKey : Value → Option String
  | .integer n => some (scriptText (.ofInt n))
  | .decimal x => some (scriptText x)
  | _ => none

/-! ### Members -/

/-- What a run gives for the parts of a literal that are not written down. -/
structure Run where
  /-- The key that a computed one comes to. -/
  key : Site → String
  /-- Whether what is spread into an object has a key. -/
  spreads : Site → String → Bool
  /-- How many elements are spread into a list. -/
  length : Site → Nat

namespace Syntax.Site

/-- A name without its escapes. -/
def nameText? (name : Site) : Option String := (Text.decode name.text.toList).toOption.map String.ofList

/-- What stands for the key of a member. -/
def keySite? (member : Site) : Option Site := (member.part? .key).or (member.part? .name)

def isComputed (member : Site) : Bool := member.keySite?.any (·.hasKind .computedPropertyName)

/-- The key that a member is written with. -/
def writtenKey? (member : Site) : Option String :=
  match member.keySite? with
  | none => none
  | some key => match key.kind? with
    | some .propertyIdentifier | some .identifier => key.nameText?
    | some .string => key.stringValue.toOption
    | some .number => numeralKey? key.text
    | _ => none

/-- A member that is written with a key. The pair `__proto__: value` is none, it sets the prototype. -/
def spells (member : Site) (key : String) : Bool :=
  match member.kind? with
  | some .pair => !member.isComputed && member.writtenKey? == some key && key != "__proto__"
  | some .methodDefinition => !member.isComputed && member.writtenKey? == some key
  | some .shorthandPropertyIdentifier => member.nameText? == some key
  | _ => false

/-- A member whose key, or keys, are up to the run. -/
def isOpen (member : Site) : Bool :=
  match member.kind? with
  | some .pair | some .methodDefinition => member.isComputed
  | some .spreadElement => true
  | _ => false

end Syntax.Site

namespace Run

/-- Whether a member writes a key. -/
def writes (run : Run) (member : Site) (key : String) : Bool :=
  if member.isOpen then
    if member.hasKind .spreadElement then run.spreads member key else run.key member == key
  else member.spells key

/-- The position of the last member that writes a key. -/
def lastWriter? (run : Run) (key : String) : List Site → Option Nat
  | [] => none
  | member :: rest => match run.lastWriter? key rest with
    | some i => some (i + 1)
    | none => if run.writes member key then some 0 else none

/-! ### Elements -/

/-- The elements of a list by the positions of the parts they come from, none where there is a gap.
A comma with nothing in front is one: behind the bracket or another comma the place is `vacant`. -/
def slots (run : Run) (list : Site) : Bool → Nat → List Node → List (Option Nat)
  | _, _, [] => []
  | vacant, i, part :: rest =>
    if part.isNamedPart then
      (if part.hasKind .spreadElement then List.replicate (run.length (list.inside part)) (some i)
        else [some i]) ++ run.slots list false (i + 1) rest
    else if part.kind?.isNone && part.text == "," then
      (if vacant then [none] else []) ++ run.slots list true i rest
    else run.slots list vacant i rest

/-- The slot whose number is written as a key. -/
def slotAt? (key : String) : Nat → List (Option Nat) → Option Nat
  | _, [] => none
  | n, slot :: rest => if toString n == key then slot else slotAt? key (n + 1) rest

/-- The position of the part of a literal that what a key gives comes from. -/
def provider? (run : Run) (literal : Site) (key : String) : Option Nat :=
  if literal.hasKind .object then run.lastWriter? key literal.named
  else slotAt? key 0 (run.slots literal true 0 literal.node.parts)

end Run

/-! ### What every run reads -/

/-- How many gaps there are in front of the element at a position. -/
def gaps : Bool → Nat → List Node → Nat
  | _, _, [] => 0
  | vacant, i, part :: rest =>
    if part.isNamedPart then
      match i with
      | 0 => 0
      | i + 1 => gaps false i rest
    else if part.kind?.isNone && part.text == "," then
      (if vacant then 1 else 0) + gaps true i rest
    else gaps vacant i rest

/-- The part at a position is what a key gives in every run: in an object it is written with the key,
and none behind it is or may be; in a list it is the element of that number, with no spreads up to it. -/
structure Settled (literal : Site) (position : Nat) (key : String) : Prop where
  member : literal.hasKind .object = true →
    (∃ member, literal.named[position]? = some member ∧ member.spells key = true) ∧
      ∀ j member, position < j → literal.named[j]? = some member →
        member.isOpen = false ∧ member.spells key = false
  element : literal.hasKind .object = false →
    position < literal.named.length ∧
      (∀ j element, j ≤ position → literal.named[j]? = some element →
        element.hasKind .spreadElement = false) ∧
      key = toString (position + gaps true position literal.node.parts)

section Objects

variable {run : Run} {member : Site} {key : String}

/-- Runs in which open members write a key, or do not. -/
def Run.writing (key : String) : Run := ⟨fun _ => key, fun _ _ => true, fun _ => 1⟩

def Run.sparing (key : String) : Run := ⟨fun _ => key ++ "'", fun _ _ => false, fun _ => 0⟩

theorem spells_eq_false_of_isOpen (h : member.isOpen = true) : member.spells key = false := by
  unfold Site.isOpen at h
  unfold Site.spells
  split at h
  · next hkind => rw [hkind, h]; rfl
  · next hkind => rw [hkind, h]; rfl
  · next hkind => rw [hkind]
  · cases h

theorem forall_writes_iff : (∀ run : Run, run.writes member key = true) ↔ member.spells key = true := by
  constructor
  · intro h
    have hsparing := h (.sparing key)
    unfold Run.writes at hsparing
    split at hsparing
    · split at hsparing
      · cases hsparing
      · have hlength := congrArg String.length (eq_of_beq hsparing)
        simp [Run.sparing] at hlength
    · exact hsparing
  · intro h run
    unfold Run.writes
    split
    · next hopen => cases (spells_eq_false_of_isOpen hopen).symm.trans h
    · exact h

theorem forall_not_writes_iff : (∀ run : Run, run.writes member key = false) ↔
    member.isOpen = false ∧ member.spells key = false := by
  constructor
  · intro h
    have hwriting := h (.writing key)
    unfold Run.writes at hwriting
    split at hwriting
    · split at hwriting
      · cases hwriting
      · simp [Run.writing] at hwriting
    · next hclosed => exact ⟨Bool.not_eq_true _ ▸ hclosed, hwriting⟩
  · rintro ⟨hopen, hspells⟩ run
    unfold Run.writes
    rw [if_neg (by simp [hopen])]
    exact hspells

theorem lastWriter_eq_none_iff {members : List Site} :
    run.lastWriter? key members = none ↔ ∀ member ∈ members, run.writes member key = false := by
  induction members with
  | nil => simp [Run.lastWriter?]
  | cons member rest ih =>
    rw [Run.lastWriter?, List.forall_mem_cons, ← ih]
    cases run.lastWriter? key rest <;> simp

theorem lastWriter_cons_zero {rest : List Site} : run.lastWriter? key (member :: rest) = some 0 ↔
    run.writes member key = true ∧ run.lastWriter? key rest = none := by
  rw [Run.lastWriter?]
  cases run.lastWriter? key rest <;> simp

theorem lastWriter_cons_succ {rest : List Site} {i : Nat} :
    run.lastWriter? key (member :: rest) = some (i + 1) ↔ run.lastWriter? key rest = some i := by
  rw [Run.lastWriter?]
  cases run.lastWriter? key rest with
  | some last => simp
  | none => dsimp only; split <;> simp

theorem lastWriter_eq_some_iff {members : List Site} {i : Nat} :
    run.lastWriter? key members = some i ↔
      (∃ member, members[i]? = some member ∧ run.writes member key = true) ∧
        ∀ j member, i < j → members[j]? = some member → run.writes member key = false := by
  induction members generalizing i with
  | nil => simp [Run.lastWriter?]
  | cons first rest ih =>
    cases i with
    | zero =>
      rw [lastWriter_cons_zero, lastWriter_eq_none_iff]
      refine and_congr (by simp) ⟨fun h j member hj hmember => ?_, fun h member hmember => ?_⟩
      · obtain ⟨k, rfl⟩ := Nat.exists_eq_succ_of_ne_zero (Nat.ne_of_gt hj)
        exact h member (List.mem_of_getElem? hmember)
      · obtain ⟨k, hk⟩ := List.mem_iff_getElem?.1 hmember
        exact h (k + 1) member (Nat.succ_pos k) hk
    | succ i =>
      rw [lastWriter_cons_succ, ih]
      refine and_congr Iff.rfl ⟨fun h j member hj hmember => ?_, fun h j member hj hmember => ?_⟩
      · obtain ⟨k, rfl⟩ := Nat.exists_eq_succ_of_ne_zero (Nat.ne_zero_of_lt hj)
        exact h k member (Nat.lt_of_succ_lt_succ hj) hmember
      · exact h (j + 1) member (Nat.succ_lt_succ hj) hmember

/-- The last member with a key, none behind it open, is what every run reads. -/
theorem forall_lastWriter_iff {members : List Site} {i : Nat} :
    (∀ run : Run, run.lastWriter? key members = some i) ↔
      (∃ member, members[i]? = some member ∧ member.spells key = true) ∧
        ∀ j member, i < j → members[j]? = some member →
          member.isOpen = false ∧ member.spells key = false := by
  simp only [lastWriter_eq_some_iff, ← forall_writes_iff, ← forall_not_writes_iff]
  constructor
  · intro h
    obtain ⟨member, hmember, -⟩ := (h (.sparing key)).1
    refine ⟨⟨member, hmember, fun run => ?_⟩, fun j other hj hother run => (h run).2 j other hj hother⟩
    obtain ⟨writer, hwriter, hwrites⟩ := (h run).1
    cases hmember.symm.trans hwriter
    exact hwrites
  · rintro ⟨⟨member, hmember, hwrites⟩, hbehind⟩ run
    exact ⟨⟨member, hmember, hwrites run⟩, fun j other hj hother => hbehind j other hj hother run⟩

end Objects

/-! ### Elements -/

section Lists

variable {run : Run} {list : Site} {key : String}

theorem toString_injective {m n : Nat} (h : toString m = toString n) : m = n := by
  have hdigits := congrArg (Nat.ofDigitChars 10 · 0) (congrArg String.toList h)
  simpa [Nat.toList_repr, Nat.ofDigitChars_ten_toDigits] using hdigits

theorem slotAt_eq_some_iff {slots : List (Option Nat)} {first i : Nat} :
    Run.slotAt? key first slots = some i ↔ ∃ n, slots[n]? = some (some i) ∧ key = toString (first + n) := by
  induction slots generalizing first with
  | nil => simp [Run.slotAt?]
  | cons slot rest ih =>
    rw [Run.slotAt?]
    split
    · next hfirst =>
      have hkey : toString first = key := eq_of_beq hfirst
      constructor
      · rintro rfl
        exact ⟨0, rfl, hkey.symm⟩
      · rintro ⟨n, hslot, hn⟩
        have : n = 0 := by have := toString_injective (hkey.trans hn); omega
        subst this
        exact Option.some.inj hslot
    · next hfirst =>
      rw [ih]
      constructor
      · rintro ⟨n, hslot, hn⟩
        exact ⟨n + 1, hslot, by rw [hn, Nat.add_right_comm, Nat.add_assoc]⟩
      · rintro ⟨n, hslot, hn⟩
        cases n with
        | zero => exact absurd (beq_iff_eq.2 hn.symm) hfirst
        | succ n => exact ⟨n, hslot, by rw [hn, Nat.add_right_comm, Nat.add_assoc]⟩

section Parts

variable {part : Node} {rest : List Node} {vacant : Bool} {i : Nat}

/-- A comma as it stands between elements. -/
def isComma (part : Node) : Bool := part.kind?.isNone && part.text == ","

theorem slots_spread (hnamed : part.isNamedPart = true) (hspread : part.hasKind .spreadElement = true) :
    run.slots list vacant i (part :: rest) =
      List.replicate (run.length (list.inside part)) (some i) ++ run.slots list false (i + 1) rest := by
  rw [Run.slots, if_pos hnamed, if_pos hspread]

theorem slots_element (hnamed : part.isNamedPart = true)
    (hspread : ¬part.hasKind .spreadElement = true) :
    run.slots list vacant i (part :: rest) = some i :: run.slots list false (i + 1) rest := by
  rw [Run.slots, if_pos hnamed, if_neg hspread, List.singleton_append]

theorem slots_comma (hnamed : ¬part.isNamedPart = true) (hcomma : isComma part = true) :
    run.slots list vacant i (part :: rest) =
      (if vacant then [none] else []) ++ run.slots list true i rest := by
  rw [Run.slots, if_neg hnamed]
  exact if_pos hcomma

theorem slots_token (hnamed : ¬part.isNamedPart = true) (hcomma : ¬isComma part = true) :
    run.slots list vacant i (part :: rest) = run.slots list vacant i rest := by
  rw [Run.slots, if_neg hnamed]
  exact if_neg hcomma

theorem gaps_zero (hnamed : part.isNamedPart = true) : gaps vacant 0 (part :: rest) = 0 := by
  rw [gaps, if_pos hnamed]

theorem gaps_succ (hnamed : part.isNamedPart = true) :
    gaps vacant (i + 1) (part :: rest) = gaps false i rest := by
  rw [gaps, if_pos hnamed]

theorem gaps_comma (hnamed : ¬part.isNamedPart = true) (hcomma : isComma part = true) :
    gaps vacant i (part :: rest) = (if vacant then 1 else 0) + gaps true i rest := by
  rw [gaps.eq_def]
  exact (if_neg hnamed).trans (if_pos hcomma)

theorem gaps_token (hnamed : ¬part.isNamedPart = true) (hcomma : ¬isComma part = true) :
    gaps vacant i (part :: rest) = gaps vacant i rest := by
  rw [gaps.eq_def]
  exact (if_neg hnamed).trans (if_neg hcomma)

/-- A slot behind a gap, or behind no gap. -/
theorem getElem_gap {slots : List (Option Nat)} {n : Nat} :
    ((if vacant then [none] else []) ++ slots)[n]? = some (some i) ↔
      ∃ m, n = (if vacant then 1 else 0) + m ∧ slots[m]? = some (some i) := by
  cases vacant with
  | false => simp
  | true =>
    cases n with
    | zero => exact iff_of_false nofun fun ⟨m, hm, _⟩ => by rw [if_pos rfl] at hm; omega
    | succ n => simp [Nat.add_comm 1]

end Parts

theorem le_of_mem_slots {parts : List Node} {vacant : Bool} {i j : Nat}
    (h : some j ∈ run.slots list vacant i parts) : i ≤ j := by
  induction parts generalizing vacant i with
  | nil => cases h
  | cons part rest ih =>
    by_cases hnamed : part.isNamedPart = true
    · by_cases hspread : part.hasKind .spreadElement = true
      · rw [slots_spread hnamed hspread, List.mem_append] at h
        rcases h with hhere | hrest
        · cases List.eq_of_mem_replicate hhere
          exact Nat.le_refl _
        · exact Nat.le_of_succ_le (ih hrest)
      · rw [slots_element hnamed hspread, List.mem_cons] at h
        rcases h with hhere | hrest
        · cases hhere
          exact Nat.le_refl _
        · exact Nat.le_of_succ_le (ih hrest)
    · by_cases hcomma : isComma part = true
      · rw [slots_comma hnamed hcomma, List.mem_append] at h
        rcases h with hgap | hrest
        · split at hgap
          · cases List.mem_singleton.1 hgap
          · cases hgap
        · exact ih hrest
      · rw [slots_token hnamed hcomma] at h
        exact ih h

/-- Without spreads up to an element, its slot is its own position and the gaps in front. -/
theorem slot_of_no_spread {parts : List Node} {vacant : Bool} {i t : Nat}
    (ht : t < (parts.filter Node.isNamedPart).length)
    (hspread : ∀ j element, j ≤ t → (parts.filter Node.isNamedPart)[j]? = some element →
      element.hasKind .spreadElement = false) :
    (run.slots list vacant i parts)[t + gaps vacant t parts]? = some (some (i + t)) := by
  induction parts generalizing vacant i t with
  | nil => cases ht
  | cons part rest ih =>
    by_cases hnamed : part.isNamedPart = true
    · rw [List.filter_cons_of_pos hnamed] at ht hspread
      have hhere : ¬part.hasKind .spreadElement = true := by
        rw [hspread 0 part (Nat.zero_le t) rfl]
        exact Bool.false_ne_true
      rw [slots_element hnamed hhere]
      cases t with
      | zero => rw [gaps_zero hnamed, List.getElem?_cons_zero, Nat.add_zero]
      | succ t =>
        have hrest : (run.slots list false (i + 1) rest)[t + gaps false t rest]? =
            some (some (i + 1 + t)) :=
          ih (Nat.lt_of_succ_lt_succ ht)
            fun j element hj helement => hspread (j + 1) element (Nat.succ_le_succ hj) helement
        rw [gaps_succ hnamed, Nat.add_right_comm, List.getElem?_cons_succ, hrest, Nat.add_right_comm,
          Nat.add_assoc]
    · rw [List.filter_cons_of_neg hnamed] at ht hspread
      by_cases hcomma : isComma part = true
      · rw [slots_comma hnamed hcomma, gaps_comma hnamed hcomma, getElem_gap]
        exact ⟨_, Nat.add_left_comm _ _ _, ih ht hspread⟩
      · rw [slots_token hnamed hcomma, gaps_token hnamed hcomma]
        exact ih ht hspread

/-- Where spreads have one element each, all that moves a slot are gaps. -/
theorem eq_of_slot_writing {parts : List Node} {vacant : Bool} {i t n : Nat}
    (h : ((Run.writing key).slots list vacant i parts)[n]? = some (some (i + t))) :
    t < (parts.filter Node.isNamedPart).length ∧ n = t + gaps vacant t parts := by
  induction parts generalizing vacant i t n with
  | nil => simp [Run.slots] at h
  | cons part rest ih =>
    by_cases hnamed : part.isNamedPart = true
    · rw [List.filter_cons_of_pos hnamed, List.length_cons]
      have hslots : (Run.writing key).slots list vacant i (part :: rest) =
          some i :: (Run.writing key).slots list false (i + 1) rest := by
        by_cases hspread : part.hasKind .spreadElement = true
        · rw [slots_spread hnamed hspread]
          rfl
        · exact slots_element hnamed hspread
      rw [hslots] at h
      cases n with
      | zero =>
        have hi : i = i + t := Option.some.inj (Option.some.inj h)
        obtain rfl : t = 0 := by omega
        exact ⟨Nat.succ_pos _, by rw [gaps_zero hnamed]⟩
      | succ n =>
        rw [List.getElem?_cons_succ] at h
        have hle := le_of_mem_slots (List.mem_of_getElem? h)
        obtain ⟨t, rfl⟩ : ∃ t', t = t' + 1 := ⟨t - 1, by omega⟩
        rw [Nat.add_comm t 1, ← Nat.add_assoc] at h
        obtain ⟨hlt, hn⟩ := ih h
        exact ⟨Nat.succ_lt_succ hlt, by rw [gaps_succ hnamed, hn, Nat.add_right_comm]⟩
    · rw [List.filter_cons_of_neg hnamed]
      by_cases hcomma : isComma part = true
      · rw [slots_comma hnamed hcomma, getElem_gap] at h
        obtain ⟨m, rfl, hm⟩ := h
        obtain ⟨hlt, rfl⟩ := ih hm
        exact ⟨hlt, by rw [gaps_comma hnamed hcomma, Nat.add_left_comm]⟩
      · rw [slots_token hnamed hcomma] at h
        rw [gaps_token hnamed hcomma]
        exact ih h

/-- Where spreads have no elements, a spread up to an element moves its slot to the front. -/
theorem le_of_slot_sparing {parts : List Node} {vacant : Bool} {i t n : Nat}
    (h : ((Run.sparing key).slots list vacant i parts)[n]? = some (some (i + t))) :
    n ≤ t + gaps vacant t parts ∧ (n = t + gaps vacant t parts → ∀ j element, j ≤ t →
      (parts.filter Node.isNamedPart)[j]? = some element → element.hasKind .spreadElement = false) := by
  induction parts generalizing vacant i t n with
  | nil => simp [Run.slots] at h
  | cons part rest ih =>
    by_cases hnamed : part.isNamedPart = true
    · rw [List.filter_cons_of_pos hnamed]
      by_cases hspread : part.hasKind .spreadElement = true
      · have hslots : (Run.sparing key).slots list vacant i (part :: rest) =
            (Run.sparing key).slots list false (i + 1) rest := slots_spread hnamed hspread
        rw [hslots] at h
        have hle := le_of_mem_slots (List.mem_of_getElem? h)
        obtain ⟨t, rfl⟩ : ∃ t', t = t' + 1 := ⟨t - 1, by omega⟩
        rw [Nat.add_comm t 1, ← Nat.add_assoc] at h
        rw [gaps_succ hnamed]
        have hn := (ih h).1
        exact ⟨by omega, fun heq => by omega⟩
      · rw [slots_element hnamed hspread] at h
        cases n with
        | zero =>
          have hi : i = i + t := Option.some.inj (Option.some.inj h)
          obtain rfl : t = 0 := by omega
          refine ⟨Nat.zero_le _, fun _ j element hj helement => ?_⟩
          obtain rfl := Nat.le_zero.1 hj
          cases helement
          exact Bool.eq_false_iff.2 hspread
        | succ n =>
          rw [List.getElem?_cons_succ] at h
          have hle := le_of_mem_slots (List.mem_of_getElem? h)
          obtain ⟨t, rfl⟩ : ∃ t', t = t' + 1 := ⟨t - 1, by omega⟩
          rw [Nat.add_comm t 1, ← Nat.add_assoc] at h
          rw [gaps_succ hnamed]
          obtain ⟨hn, hrest⟩ := ih h
          refine ⟨by omega, fun heq j element hj helement => ?_⟩
          cases j with
          | zero =>
            cases helement
            exact Bool.eq_false_iff.2 hspread
          | succ j => exact hrest (by omega) j element (Nat.le_of_succ_le_succ hj) helement
    · rw [List.filter_cons_of_neg hnamed]
      by_cases hcomma : isComma part = true
      · rw [slots_comma hnamed hcomma, getElem_gap] at h
        obtain ⟨m, rfl, hm⟩ := h
        obtain ⟨hle, hrest⟩ := ih hm
        rw [gaps_comma hnamed hcomma]
        exact ⟨by omega, fun heq => hrest (by omega)⟩
      · rw [slots_token hnamed hcomma] at h
        rw [gaps_token hnamed hcomma]
        exact ih h

/-- The element whose number is the key, with no spreads up to it, is what every run reads. -/
theorem forall_slotAt_iff {parts : List Node} {t : Nat} :
    (∀ run : Run, Run.slotAt? key 0 (run.slots list true 0 parts) = some t) ↔
      t < (parts.filter Node.isNamedPart).length ∧
        (∀ j element, j ≤ t → (parts.filter Node.isNamedPart)[j]? = some element →
          element.hasKind .spreadElement = false) ∧
        key = toString (t + gaps true t parts) := by
  simp only [slotAt_eq_some_iff, Nat.zero_add]
  constructor
  · intro h
    obtain ⟨n, hslot, hkey⟩ := h (.writing key)
    obtain ⟨m, hslot', hkey'⟩ := h (.sparing key)
    rw [← Nat.zero_add t] at hslot hslot'
    obtain ⟨hlt, rfl⟩ := eq_of_slot_writing hslot
    have hm := toString_injective (hkey'.symm.trans hkey)
    exact ⟨hlt, (le_of_slot_sparing hslot').2 hm, hkey⟩
  · rintro ⟨hlt, hspread, hkey⟩ run
    have hslot : (run.slots list true 0 parts)[t + gaps true t parts]? = some (some (0 + t)) :=
      slot_of_no_spread hlt hspread
    rw [Nat.zero_add] at hslot
    exact ⟨_, hslot, hkey⟩

end Lists

/-- **What every run reads.** The part at a position of a literal is what a key gives in every run
exactly where it is settled. -/
theorem forall_provider_iff {literal : Site} {position : Nat} {key : String} :
    (∀ run : Run, run.provider? literal key = some position) ↔ Settled literal position key := by
  by_cases hobject : literal.hasKind .object = true
  · simp only [Run.provider?, if_pos hobject, forall_lastWriter_iff]
    exact ⟨fun h => ⟨fun _ => h, fun hno => by cases hno.symm.trans hobject⟩, fun h => h.member hobject⟩
  · have hlength : literal.named.length = (literal.node.parts.filter Node.isNamedPart).length :=
      List.length_map _
    have hspread (t : Nat) : (∀ j element, j ≤ t →
        (literal.node.parts.filter Node.isNamedPart)[j]? = some element →
          element.hasKind .spreadElement = false) ↔
        ∀ j element, j ≤ t → literal.named[j]? = some element →
          element.hasKind .spreadElement = false := by
      simp only [Site.named, Node.named, List.getElem?_map, Option.map_eq_some_iff]
      refine ⟨fun h j element hj helement => ?_, fun h j element hj helement => ?_⟩
      · obtain ⟨node, hnode, rfl⟩ := helement
        exact h j node hj hnode
      · exact h j (literal.inside element) hj ⟨element, helement, rfl⟩
    simp only [Run.provider?, if_neg hobject, forall_slotAt_iff, hspread, ← hlength]
    exact ⟨fun h => ⟨fun hyes => absurd hyes hobject, fun _ => h⟩,
      fun h => h.element (Bool.eq_false_iff.2 hobject)⟩

end SettingsHarvest
