import Mathlib.Data.List.Basic
import Mathlib.Logic.Relation
import SettingsHarvest.Proofs.Splitting

/-! Directories that are read side by side.

Several directories of plugins are read at once, and their answers come in any order: a plugin, none, or
a fault. A `Pool` holds the directories that are still being read and the answers that are in; a step of it
takes in the answer of any directory that is being read. Whatever the steps, each directory has its own
answer in the end (`Pool.lookup_of_run`), and `gather` asks for nothing else: it goes through the
directories in the order they are listed. After some of them it has, under each name, the plugin of the
first directory that gives one of that name, and has counted every directory once (`Taken`).

So the order of the answers does not matter (`gather_in_any_order`), and since the counts of one directory
balance, those of many do as well. -/
namespace SettingsHarvest

/-! ### Counts -/

namespace Summary

/-- Every directory found was processed or skipped, and those skipped are named. -/
structure Balanced (s : Summary) : Prop where
  found : s.found = s.processed + s.skipped
  names : s.names.length = s.skipped

theorem balanced_empty : empty.Balanced := ⟨rfl, rfl⟩

theorem Balanced.merge {s t : Summary} (hs : s.Balanced) (ht : t.Balanced) : (s.merge t).Balanced where
  found := by
    simp only [Summary.merge, hs.found, ht.found]
    omega
  names := by
    simp only [Summary.merge, List.length_append, hs.names, ht.names]

theorem Balanced.mergeAll {s : Summary} {others : List Summary} (hs : s.Balanced)
    (h : ∀ t ∈ others, t.Balanced) : (others.foldl Summary.merge s).Balanced := by
  induction others generalizing s with
  | nil => exact hs
  | cons t rest ih =>
    obtain ⟨ht, hrest⟩ := List.forall_mem_cons.1 h
    exact ih (hs.merge ht) hrest

end Summary

namespace Catalog

/-! ### Answers in any order -/

/-- What reading a directory comes to. -/
abbrev Answer := Attempt (Option Plugin)

theorem lookup_of_own {answer : String → Answer} {answers : List (String × Answer)} {path : String}
    (hpath : path ∈ keysOf answers) (hown : ∀ a ∈ answers, a.2 = answer a.1) :
    answers.lookup path = some (answer path) := by
  obtain ⟨a, ha⟩ := mem_keysOf.1 hpath
  have hsome : (answers.lookup path).isSome = true :=
    List.lookup_isSome_iff.2 ⟨_, ha, beq_self_eq_true path⟩
  obtain ⟨found, hfound⟩ := Option.isSome_iff_exists.1 hsome
  have hanswer : found = answer path := hown _ (mem_of_lookup hfound)
  rw [hfound, hanswer]

/-- Directories that are being read, and the answers that are in. -/
structure Pool where
  waiting : List String
  arrived : List (String × Answer)

namespace Pool

/-- The next answer is that of any directory that is being read. -/
inductive Step (answer : String → Answer) : Pool → Pool → Prop where
  | arrive {waiting : List String} {arrived : List (String × Answer)} (path : String) : path ∈ waiting →
    Step answer ⟨waiting, arrived⟩ ⟨waiting.erase path, arrived ++ [(path, answer path)]⟩

/-- Any number of steps. -/
abbrev Run (answer : String → Answer) : Pool → Pool → Prop := Relation.ReflTransGen (Step answer)

variable {answer : String → Answer} {folders : List String} {s t : Pool}

/-- Every directory is being read or has its own answer. -/
structure Holds (answer : String → Answer) (folders : List String) (s : Pool) : Prop where
  covers : (keysOf s.arrived ++ s.waiting).Perm folders
  own : ∀ a ∈ s.arrived, a.2 = answer a.1

theorem holds_start (answer : String → Answer) (folders : List String) :
    Holds answer folders ⟨folders, []⟩ :=
  ⟨.refl _, List.forall_mem_nil _⟩

theorem Holds.step (h : Holds answer folders s) (hstep : Step answer s t) : Holds answer folders t := by
  cases hstep with
  | @arrive waiting arrived path hpath =>
    constructor
    case covers =>
      have hmoved : (keysOf arrived ++ path :: waiting.erase path).Perm (keysOf arrived ++ waiting) :=
        (List.perm_cons_erase hpath).symm.append_left _
      rw [keysOf_append, keysOf_cons, keysOf_nil, List.append_assoc]
      exact hmoved.trans h.covers
    case own =>
      intro a ha
      rcases List.mem_append.1 ha with ha | ha
      · exact h.own a ha
      · rw [List.mem_singleton.1 ha]

theorem Holds.run (h : Holds answer folders s) (hrun : Run answer s t) : Holds answer folders t := by
  induction hrun with
  | refl => exact h
  | tail _ hstep ih => exact ih.step hstep

/-- As long as a directory is being read there is a next answer, so that every reading comes to an end. -/
theorem exists_run (answer : String → Answer) (s : Pool) : ∃ answers, Run answer s ⟨[], answers⟩ := by
  obtain ⟨waiting, arrived⟩ := s
  induction waiting generalizing arrived with
  | nil => exact ⟨arrived, .refl⟩
  | cons path rest ih =>
    obtain ⟨answers, hrun⟩ := ih (arrived ++ [(path, answer path)])
    have hstep : Step answer ⟨path :: rest, arrived⟩ ⟨rest, arrived ++ [(path, answer path)]⟩ := by
      have harrive : Step answer ⟨path :: rest, arrived⟩ _ := .arrive path List.mem_cons_self
      rwa [List.erase_cons_head] at harrive
    exact ⟨answers, .head hstep hrun⟩

/-- In the end every directory has its answer. -/
theorem lookup_of_run {answers : List (String × Answer)} (hrun : Run answer ⟨folders, []⟩ ⟨[], answers⟩)
    {path : String} (hpath : path ∈ folders) : answers.lookup path = some (answer path) := by
  obtain ⟨hcovers, hown⟩ := (holds_start answer folders).run hrun
  rw [List.append_nil] at hcovers
  exact lookup_of_own (hcovers.mem_iff.2 hpath) hown

end Pool

/-! ### Directories in the order they are listed -/

/-- The plugin of some name that a directory gives. -/
def givenAs (answer : String → Answer) (name path : String) : Option Plugin :=
  (plugin (answer path)).filter (·.name == name)

/-- Whether a directory gives a plugin. -/
def gives (answer : String → Answer) (path : String) : Bool := (plugin (answer path)).isSome

/-- The counts of some directories, out of so many. -/
def summaryOf (answer : String → Answer) (found : Nat) (seen : List String) : Summary where
  found := found
  processed := seen.countP (gives answer)
  skipped := seen.countP (!gives answer ·)
  names := (seen.filter (!gives answer ·)).map Path.base

/-- What is gathered once some directories are taken in. -/
structure Taken (answer : String → Answer) (found : Nat) (seen : List String) (g : Gathered) : Prop where
  first : ∀ name, g.plugins.lookup name = seen.findSome? (givenAs answer name)
  distinct : (keysOf g.plugins).Nodup
  summary : g.summary = summaryOf answer found seen

section Steps

variable {answer : String → Answer} {found : Nat} {seen : List String} {g : Gathered} {path : String}

theorem taken_start (answer : String → Answer) (found : Nat) :
    Taken answer found [] ⟨[], { Summary.empty with found := found }, []⟩ :=
  ⟨fun _ => rfl, List.nodup_nil, rfl⟩

theorem Taken.add_none (h : Taken answer found seen g) (hnone : plugin (answer path) = none) :
    Taken answer found (seen ++ [path]) (g.add path none) where
  first name := by
    have hgiven : givenAs answer name path = none := by
      rw [givenAs, hnone]
      rfl
    rw [List.findSome?_append, List.findSome?_singleton, hgiven, Option.or_none]
    exact h.first name
  distinct := h.distinct
  summary := by
    have hgives : gives answer path = false := by
      rw [gives, hnone]
      rfl
    simp [Gathered.add, h.summary, summaryOf, hgives]

theorem Taken.add_some {p : Plugin} (h : Taken answer found seen g)
    (hsome : plugin (answer path) = some p) :
    Taken answer found (seen ++ [path]) (g.add path (some p)) := by
  have hgives : gives answer path = true := by
    rw [gives, hsome]
    rfl
  have hsummary : { g.summary with processed := g.summary.processed + 1 } =
      summaryOf answer found (seen ++ [path]) := by
    simp [h.summary, summaryOf, hgives]
  have hfirst (name : String) : (seen ++ [path]).findSome? (givenAs answer name) =
      (g.plugins.lookup name).or (if name = p.name then some p else none) := by
    have hgiven : givenAs answer name path = if name = p.name then some p else none := by
      rw [givenAs, hsome, Option.filter_some]
      simp only [beq_iff_eq, eq_comm (a := p.name)]
    rw [List.findSome?_append, List.findSome?_singleton, h.first, hgiven]
  cases htaken : g.plugins.lookup p.name with
  | some kept =>
    -- the name is taken, and nothing changes under any name
    have hadd : g.add path (some p) =
        ⟨g.plugins, { g.summary with processed := g.summary.processed + 1 },
          g.notes ++ [.duplicate p.name (Path.base path) kept.directory]⟩ := by
      simp only [Gathered.add, htaken]
    rw [hadd]
    refine ⟨fun name => ?_, h.distinct, hsummary⟩
    rw [hfirst]
    split
    · next heq => rw [heq, htaken, Option.some_or]
    · rw [Option.or_none]
  | none =>
    have hadd : g.add path (some p) =
        ⟨g.plugins ++ [(p.name, p)], { g.summary with processed := g.summary.processed + 1 },
          g.notes⟩ := by
      simp only [Gathered.add, htaken]
    have hfree : p.name ∉ keysOf g.plugins := by
      intro hmem
      rw [← Categories.lookup_isSome_iff, htaken] at hmem
      cases hmem
    rw [hadd]
    refine ⟨fun name => ?_, ?_, hsummary⟩
    · rw [hfirst, List.lookup_append, lookup_cons_eq_ite]
      rfl
    · rw [keysOf_append, keysOf_cons, keysOf_nil, List.nodup_append]
      refine ⟨h.distinct, List.pairwise_singleton _ _, fun name hname other hother heq => hfree ?_⟩
      obtain rfl : other = p.name := List.mem_singleton.1 hother
      exact heq ▸ hname

theorem Taken.add (h : Taken answer found seen g) (path : String) :
    Taken answer found (seen ++ [path]) (g.add path (plugin (answer path))) := by
  cases hp : plugin (answer path) with
  | none => exact h.add_none hp
  | some p => exact h.add_some hp

theorem Taken.addAll (h : Taken answer found seen g) (folders : List String) :
    Taken answer found (seen ++ folders)
      (folders.foldl (fun g path => g.add path (plugin (answer path))) g) := by
  induction folders generalizing seen g with
  | nil => rwa [List.append_nil]
  | cons path rest ih =>
    have hrest := ih (h.add path)
    rwa [List.append_assoc] at hrest

end Steps

/-! ### All directories -/

theorem lookup_byName {plugins : Plugins} (h : (keysOf plugins).Nodup) (name : String) :
    (byName plugins).lookup name = plugins.lookup name := by
  have hsorted : (keysOf (byName plugins)).Nodup := nodup_of_sorted (sorted_byName h)
  refine Option.ext fun p => ?_
  exact ⟨fun hp => lookup_of_mem h (mem_byName.1 (mem_of_lookup hp)),
    fun hp => lookup_of_mem hsorted (mem_byName.2 (mem_of_lookup hp))⟩

theorem balanced_summaryOf (answer : String → Answer) (folders : List String) :
    (summaryOf answer folders.length folders).Balanced where
  found := by
    simp only [summaryOf]
    rw [List.length_eq_countP_add_countP (gives answer)]
    simp
  names := by
    simp only [summaryOf, List.length_map, List.countP_eq_length_filter]

/-- What is gathered of directories, given what each of them answers. -/
structure GathersFirst (answer : String → Answer) (folders : List String) (g : Gathered) : Prop where
  sorted : (keysOf g.plugins).Pairwise (· < ·)
  /-- Under a name is the plugin of the first directory that gives one of that name. -/
  first : ∀ name, g.plugins.lookup name = folders.findSome? (givenAs answer name)
  found : g.summary.found = folders.length
  balanced : g.summary.Balanced
  /-- The directories without a plugin are named, as they are listed. -/
  skipped : g.summary.names = (folders.filter (!gives answer ·)).map Path.base

/-- The directories taken in one after the other, each with its answer. -/
def gathered (answer : String → Answer) (folders : List String) : Gathered :=
  gather folders (folders.map fun path => (path, answer path))

section All

variable {answer : String → Answer} {folders : List String} {answers : List (String × Answer)}

/-- Answers are only asked for by directory. -/
theorem gather_of_lookup (h : ∀ path ∈ folders, answers.lookup path = some (answer path)) :
    gather folders answers =
      let g := folders.foldl (fun (g : Gathered) path => g.add path (plugin (answer path)))
        ⟨[], { Summary.empty with found := folders.length }, []⟩
      { g with plugins := byName g.plugins } := by
  have hstep (g : Gathered) (path : String) (hpath : path ∈ folders) :
      g.add path ((answers.lookup path).bind plugin) = g.add path (plugin (answer path)) := by
    rw [h path hpath, Option.bind_some]
  unfold gather
  dsimp only
  rw [List.foldl_ext _ _ _ hstep]

theorem gather_of_run (hrun : Pool.Run answer ⟨folders, []⟩ ⟨[], answers⟩) :
    gather folders answers = gathered answer folders := by
  have hlisted : ∀ path ∈ folders,
      (folders.map fun path => (path, answer path)).lookup path = some (answer path) := by
    intro path hpath
    refine lookup_of_own ?_ fun a ha => ?_
    · rw [keysOf, List.map_map]
      exact List.mem_map.2 ⟨path, hpath, rfl⟩
    · obtain ⟨other, -, rfl⟩ := List.mem_map.1 ha
      rfl
  rw [gathered, gather_of_lookup hlisted, gather_of_lookup fun _ => Pool.lookup_of_run hrun]

theorem gathersFirst_of_run (hrun : Pool.Run answer ⟨folders, []⟩ ⟨[], answers⟩) :
    GathersFirst answer folders (gather folders answers) := by
  have htaken : Taken answer folders.length folders _ :=
    (taken_start answer folders.length).addAll folders
  rw [gather_of_lookup fun _ => Pool.lookup_of_run hrun]
  constructor
  case sorted => exact sorted_byName htaken.distinct
  case first =>
    intro name
    rw [← htaken.first]
    exact lookup_byName htaken.distinct name
  case found => exact congrArg Summary.found htaken.summary
  case balanced => exact htaken.summary ▸ balanced_summaryOf answer folders
  case skipped => exact congrArg Summary.names htaken.summary

end All

theorem map_answers (folders : List String) (answer : String → List Note × Answer) :
    (folders.map fun f => (f, answer f)).map (fun (f, _, answer) => (f, answer)) =
      folders.map fun f => (f, (answer f).2) :=
  List.map_map

/-- Reading a directory of plugins gathers the answers of its directories. -/
theorem folder_eq_gathered (t : FileTree) (p : Project) (interval : Nat) (retainHidden : Bool)
    (path : String) :
    let g := gathered (fun f => (plugin? t p retainHidden f).2) (PluginFolder.all t path)
    (folder t p interval retainHidden path).plugins = g.plugins ∧
      (folder t p interval retainHidden path).summary = g.summary := by
  unfold folder gathered
  dsimp only
  rw [map_answers]
  exact ⟨rfl, rfl⟩

/-! ### Trees -/

theorem GathersFirst.selfNamed {answer : String → Answer} {folders : List String} {g : Gathered}
    (h : GathersFirst answer folders g) : SelfNamed g.plugins := by
  have hdistinct : (keysOf g.plugins).Nodup := nodup_of_sorted h.sorted
  refine ⟨fun e he => ?_, hdistinct⟩
  have hgiven := (h.first e.1).symm.trans (lookup_of_mem hdistinct he)
  obtain ⟨path, -, hpath⟩ := List.exists_of_findSome?_eq_some hgiven
  exact eq_of_beq (Option.filter_eq_some_iff.1 hpath).2

/-- What is taken of a directory stands under its own names, and its counts balance. -/
theorem folderIfThere_facts (t : FileTree) (p : Project) (interval : Nat) (retainHidden : Bool)
    (path : String) :
    SelfNamed (folderIfThere t p interval retainHidden path).plugins ∧
      (folderIfThere t p interval retainHidden path).summary.Balanced := by
  unfold folderIfThere
  split
  · obtain ⟨hplugins, hsummary⟩ := folder_eq_gathered t p interval retainHidden path
    rw [hplugins, hsummary]
    obtain ⟨answers, hrun⟩ := Pool.exists_run (fun f => (plugin? t p retainHidden f).2)
      ⟨PluginFolder.all t path, []⟩
    have hgathers := gathersFirst_of_run hrun
    rw [gather_of_run hrun] at hgathers
    exact ⟨hgathers.selfNamed, hgathers.balanced⟩
  · exact ⟨⟨List.forall_mem_nil _, List.nodup_nil⟩, Summary.balanced_empty⟩

/-- A tree that was scanned has its plugins under their own names, and its counts balance. -/
theorem scan_facts {t : FileTree} {c : Configuration} {root : String} {shared own : Option String}
    {retainHidden : Bool} {catalog : Catalog} {notes : List Note}
    (h : scan t c root shared own retainHidden = .ok (catalog, notes)) :
    catalog.WellNamed ∧ catalog.summary.Balanced := by
  obtain ⟨first, -, h⟩ := bind_eq_ok.1 h
  obtain ⟨second, -, h⟩ := bind_eq_ok.1 h
  have hfirst := folderIfThere_facts t (c.project t.workingPath root t.sources) c.progressInterval
    retainHidden first
  have hsecond := folderIfThere_facts t (c.project t.workingPath root t.sources) c.progressInterval
    retainHidden second
  split at h
  · cases h
  · cases pure_eq_ok.1 h
    exact ⟨⟨hfirst.1, hsecond.1⟩, (Summary.balanced_empty.merge hfirst.2).merge hsecond.2⟩

/-- **Directories are gathered as they are listed, in whatever order their answers come.** -/
theorem gather_in_any_order {answer : String → Answer} {folders : List String}
    {answers : List (String × Answer)} (hrun : Pool.Run answer ⟨folders, []⟩ ⟨[], answers⟩) :
    gather folders answers = gathered answer folders ∧
    GathersFirst answer folders (gather folders answers) ∧
    (∀ others : List Summary, (∀ s ∈ others, s.Balanced) →
      (others.foldl Summary.merge (gather folders answers).summary).Balanced) ∧
    (∀ (t : FileTree) (p : Project) (interval : Nat) (retainHidden : Bool) (path : String),
      folders = PluginFolder.all t path → answer = (fun f => (plugin? t p retainHidden f).2) →
      (folder t p interval retainHidden path).plugins = (gather folders answers).plugins ∧
        (folder t p interval retainHidden path).summary = (gather folders answers).summary) := by
  have hgathers := gathersFirst_of_run hrun
  refine ⟨gather_of_run hrun, hgathers, fun others hothers => hgathers.balanced.mergeAll hothers, ?_⟩
  rintro t p interval retainHidden path rfl rfl
  rw [gather_of_run hrun]
  exact folder_eq_gathered t p interval retainHidden path

/-- Two directories give a plugin of one name, one gives none, and reading another one fails. -/
def trayAnswer (path : String) : Answer :=
  if path == "plugins/tray" then .ok (some (Categories.plainPlugin "Tray" "tray"))
  else if path == "plugins/trayNext" then .ok (some (Categories.plainPlugin "Tray" "trayNext"))
  else if path == "plugins/empty" then .ok none
  else .error .endlessReference

def trayFolders : List String := ["plugins/circle", "plugins/empty", "plugins/tray", "plugins/trayNext"]

/-- The answers from the last directory to the first. -/
theorem tray_gathered_backwards :
    let answers := trayFolders.reverse.map fun path => (path, trayAnswer path)
    Pool.Run trayAnswer ⟨trayFolders, []⟩ ⟨[], answers⟩ ∧
      (gather trayFolders answers).plugins.lookup "Tray" =
        some (Categories.plainPlugin "Tray" "tray") ∧
      (gather trayFolders answers).summary.names = ["plugins/circle", "plugins/empty"].map Path.base := by
  have hrun : Pool.Run trayAnswer ⟨trayFolders, []⟩
      ⟨[], trayFolders.reverse.map fun path => (path, trayAnswer path)⟩ :=
    .head (.arrive "plugins/trayNext" (by decide)) <|
    .head (.arrive "plugins/tray" (by decide)) <|
    .head (.arrive "plugins/empty" (by decide)) <|
    .head (.arrive "plugins/circle" (by decide)) .refl
  obtain ⟨-, hfirst, -, -⟩ := gather_in_any_order hrun
  refine ⟨hrun, ?_, ?_⟩
  · rw [hfirst.first]
    rfl
  · rw [hfirst.skipped]
    rfl

end Catalog
end SettingsHarvest
