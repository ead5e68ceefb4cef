import Mathlib.Data.List.Nodup
import SettingsHarvest.Proofs.Leaves
import SettingsHarvest.Proofs.SameFiles

/-! Sources that are added to a project.

Sources can be added one after another, in any order. A source that cannot be taken in is refused, and the
project stays as it was; one that can is found under its path from then on, unless a file was there before
(`known_adding`). So what a run of additions makes of a project (`known_afterAdding`) is told by the files
it had and the sources that are not refused, and for sources with different paths their order does not
matter: the files found are the same, and with them every answer (`registration_order_irrelevant`). -/
namespace SettingsHarvest
open Syntax

namespace Project

/-- A source is a path and the code under it. -/
abbrev Source := String × String

/-- The project once a source was added, the same if it was refused. -/
def adding (p : Project) (source : Source) : Project :=
  match p.add source.1 source.2 with
  | .ok grown => grown
  | .error _ => p

/-- The project once sources were added, one after another. -/
def afterAdding (p : Project) (sources : List Source) : Project := sources.foldl adding p

/-- The file that a source makes, unless it is refused. -/
def accepted? (p : Project) (source : Source) : Option SourceFile :=
  let file := SourceFile.ofText (p.place source.1) source.2
  if file.exports.isOk then some file else none

variable {p : Project} {source : Source} {sources sources' : List Source}

/-! ### One source -/

/-- What adding a source can do: nothing, or put its file behind those that are known. -/
theorem adding_cases (p : Project) (source : Source) : (p.accepted? source = none ∧ p.adding source = p) ∨
    ∃ file, p.accepted? source = some file ∧
      p.adding source = if (p.known? file.path).isSome then p else { p with known := p.known ++ [file] } := by
  unfold adding accepted? add register
  dsimp only
  generalize SourceFile.ofText (p.place source.1) source.2 = file
  cases file.exports with
  | error f => exact .inl ⟨rfl, rfl⟩
  | ok exports => exact .inr ⟨file, rfl, rfl⟩

/-- Everything but the files that are known stays. -/
theorem adding_eq (p : Project) (source : Source) :
    p.adding source = { p with known := (p.adding source).known } := by
  obtain ⟨-, heq⟩ | ⟨file, -, heq⟩ := adding_cases p source
  · rw [heq]
  · rw [heq]
    split <;> rfl

theorem place_adding : (p.adding source).place = p.place := by
  rw [adding_eq]
  rfl

theorem accepted_adding : (p.adding source).accepted? = p.accepted? := by
  funext other
  rw [accepted?, accepted?, place_adding]

theorem path_of_accepted {file : SourceFile} (h : p.accepted? source = some file) :
    file.path = p.place source.1 := by
  unfold accepted? at h
  dsimp only at h
  split at h
  · cases h
    rfl
  · cases h

/-- A source is found under its path, unless it is refused or a file was there before. -/
theorem known_adding (path : String) : (p.adding source).known? path =
    (p.known? path).or ((p.accepted? source).filter (·.path == path)) := by
  obtain ⟨hnone, heq⟩ | ⟨file, hfile, heq⟩ := adding_cases p source
  · rw [heq, hnone, Option.filter_none, Option.or_none]
  · rw [heq, hfile, Option.filter_some]
    by_cases hthere : (p.known? file.path).isSome = true
    · rw [if_pos hthere]
      by_cases hpath : (file.path == path) = true
      · obtain ⟨found, hfound⟩ := Option.isSome_iff_exists.1 hthere
        rw [eq_of_beq hpath] at hfound
        rw [hfound, Option.some_or]
      · rw [if_neg hpath, Option.or_none]
    · rw [if_neg hthere, known?, List.find?_append, List.find?_singleton]
      rfl

/-! ### A run of sources -/

theorem afterAdding_eq (p : Project) (sources : List Source) :
    p.afterAdding sources = { p with known := (p.afterAdding sources).known } := by
  induction sources generalizing p with
  | nil => rfl
  | cons source rest ih =>
    calc (p.adding source).afterAdding rest
        = { p.adding source with known := ((p.adding source).afterAdding rest).known } := ih _
      _ = { p with known := ((p.adding source).afterAdding rest).known } := by rw [adding_eq]

/-- After a run of additions a file is found under a path if it was there before, and else if it is the
first source for the path that is not refused. -/
theorem known_afterAdding (path : String) : (p.afterAdding sources).known? path =
    (p.known? path).or ((sources.filterMap p.accepted?).find? (·.path == path)) := by
  induction sources generalizing p with
  | nil => rw [List.filterMap_nil, List.find?_nil, Option.or_none, afterAdding, List.foldl_nil]
  | cons source rest ih =>
    rw [show p.afterAdding (source :: rest) = (p.adding source).afterAdding rest from rfl, ih, known_adding,
      accepted_adding, Option.or_assoc]
    congr 1
    cases haccepted : p.accepted? source with
    | none => rw [List.filterMap_cons_none haccepted, Option.filter_none, Option.none_or]
    | some file =>
      rw [List.filterMap_cons_some haccepted, Option.filter_some, List.find?_cons]
      cases file.path == path <;> rfl

/-- The files of sources are at the paths of sources. -/
theorem paths_accepted :
    ((sources.filterMap p.accepted?).map (·.path)).Sublist (sources.map fun s => p.place s.1) := by
  induction sources with
  | nil => exact .slnil
  | cons source rest ih =>
    cases haccepted : p.accepted? source with
    | none =>
      rw [List.filterMap_cons_none haccepted]
      exact ih.cons _
    | some file =>
      rw [List.filterMap_cons_some haccepted, List.map_cons, List.map_cons, path_of_accepted haccepted]
      exact ih.cons_cons _

/-! ### Orders -/

/-- A file is found by its path if no other has the path. -/
theorem find_path_eq_some {files : List SourceFile} (h : (files.map (·.path)).Nodup) {path : String}
    {file : SourceFile} : files.find? (·.path == path) = some file ↔ file ∈ files ∧ file.path = path := by
  constructor
  · intro hfound
    exact ⟨List.mem_of_find?_eq_some hfound, by simpa using List.find?_some hfound⟩
  · rintro ⟨hmem, rfl⟩
    cases hfound : files.find? (·.path == file.path) with
    | none => exact absurd (List.find?_eq_none.1 hfound file hmem) (by simp)
    | some other =>
      have hother : other.path = file.path := by simpa using List.find?_some hfound
      rw [List.inj_on_of_nodup_map h (List.mem_of_find?_eq_some hfound) hmem hother]

theorem find_path_perm {files files' : List SourceFile} (hperm : files.Perm files')
    (h : (files.map (·.path)).Nodup) (path : String) :
    files.find? (·.path == path) = files'.find? (·.path == path) := by
  have h' : (files'.map (·.path)).Nodup := (hperm.map _).nodup_iff.1 h
  exact Option.ext fun file => by rw [find_path_eq_some h, find_path_eq_some h', hperm.mem_iff]

/-- Sources with different paths lead to the same files in every order. -/
theorem sameFiles_afterAdding (hperm : sources.Perm sources')
    (hdistinct : (sources.map fun s => p.place s.1).Nodup) :
    (p.afterAdding sources).SameFiles (p.afterAdding sources') := by
  have hknown : (p.afterAdding sources).known? = (p.afterAdding sources').known? := by
    funext path
    rw [known_afterAdding, known_afterAdding,
      find_path_perm (hperm.filterMap p.accepted?) (paths_accepted.nodup hdistinct)]
  refine ⟨hknown, ?_, ?_, ?_, ?_, ?_, ?_, ?_⟩ <;> rw [afterAdding_eq p sources, afterAdding_eq p sources']

end Project

/-- **The order of sources does not matter.** When sources with different paths are added to a project in
two orders, the same files are found, and whatever is asked of the project is answered alike, in the words
of failures and faults too. -/
theorem registration_order_irrelevant {p : Project} {sources sources' : List Project.Source}
    (hperm : sources.Perm sources') (hdistinct : (sources.map fun s => p.place s.1).Nodup) :
    (∀ path, (p.afterAdding sources).known? path = (p.afterAdding sources').known? path) ∧
      ∀ s : Site,
        (∀ b, (p.afterAdding sources).evaluate s b = (p.afterAdding sources').evaluate s b) ∧
        (p.afterAdding sources).declaration? s = (p.afterAdding sources').declaration? s ∧
        (p.afterAdding sources).denoted? s = (p.afterAdding sources').denoted? s ∧
        (p.afterAdding sources).matchOptions s = (p.afterAdding sources').matchOptions s ∧
        (p.afterAdding sources).inspectDefault s = (p.afterAdding sources').inspectDefault s ∧
        ∀ retainHidden,
          (p.afterAdding sources).extract s retainHidden = (p.afterAdding sources').extract s retainHidden := by
  have h := Project.sameFiles_afterAdding hperm hdistinct
  refine ⟨congrFun h.known, fun s => ⟨fun b => ?_, ?_, ?_, ?_, ?_, fun retainHidden => ?_⟩⟩
  · rw [h.evaluate]
  · rw [h.declaration]
  · rw [h.denoted]
  · rw [h.matchOptions]
  · rw [h.inspectDefault]
  · rw [h.extract]

/-- Two files that import from each other. -/
def mutualSources : List Project.Source :=
  [("first.ts", "import { second } from './second'; export const first = second;"),
    ("second.ts", "import { first } from './first'; export const second = [first];")]

theorem places_mutualSources :
    mutualSources.map (fun s => bareProject.place s.1) = ["/project/first.ts", "/project/second.ts"] := by
  have hfirst : Path.segments "/project/first.ts" = ["", "project", "first.ts"] := by
    simp +decide [Path.segments, String.splitOn, String.splitOnAux]
  have hsecond : Path.segments "/project/second.ts" = ["", "project", "second.ts"] := by
    simp +decide [Path.segments, String.splitOn, String.splitOnAux]
  have hjoined : (mutualSources.map fun s => Path.join bareProject.workingDirectory
      (Path.join bareProject.root s.1)) = ["/project/first.ts", "/project/second.ts"] := by decide +kernel
  have hplaces : mutualSources.map (fun s => bareProject.place s.1) =
      (mutualSources.map fun s => Path.join bareProject.workingDirectory
        (Path.join bareProject.root s.1)).map Path.normalize := List.map_map.symm
  rw [hplaces, hjoined, List.map_cons, List.map_singleton, Path.normalize, Path.normalize, hfirst, hsecond]
  decide +kernel

theorem mutual_sources_in_any_order :
    mutualSources.Perm mutualSources.reverse ∧
      (mutualSources.map fun s => bareProject.place s.1).Nodup ∧
      ∀ s b, (bareProject.afterAdding mutualSources).evaluate s b =
        (bareProject.afterAdding mutualSources.reverse).evaluate s b := by
  have hperm : mutualSources.Perm mutualSources.reverse := mutualSources.reverse_perm.symm
  have hdistinct : (mutualSources.map fun s => bareProject.place s.1).Nodup := by
    rw [places_mutualSources]
    decide
  exact ⟨hperm, hdistinct, fun s => ((registration_order_irrelevant hperm hdistinct).2 s).1⟩

end SettingsHarvest
