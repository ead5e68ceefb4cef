import SettingsHarvest.Syntax.Site

/-! Searching a program.

A search goes through a program with a stack of the sites it has still to visit, so that it can end at
what it looks for. The site on top is taken off, and its parts are put on in its place, the last one
first. So the parts of a site lie above everything that comes after that site, and what lies on a
stack is visited in the order of the document: `Stack.pending_of_next?` says what one step does to
it. Every step leaves one site less to visit, which is why a search ends. -/
namespace SettingsHarvest.Syntax

namespace Site

/-- All parts of a site, unnamed tokens and comments among them. -/
def parts (s : Site) : List Site := s.node.parts.map s.inside

theorem walkAllFrom_eq_flatMap (file : String) (above : List Node) (parts : List Node) :
    walkAllFrom file above parts = parts.flatMap (walkFrom file above) := by
  induction parts with
  | nil => rfl
  | cons n rest ih => rw [walkAllFrom, ih, List.flatMap_cons]

theorem walk_eq_cons (s : Site) : s.walk = s :: s.parts.flatMap walk := by
  obtain ⟨file, above, node⟩ := s
  rw [parts, List.flatMap_map]
  cases node with
  | token _ _ _ => rfl
  | leaf _ _ _ _ => rfl
  | tree k r parts => exact congrArg _ (walkAllFrom_eq_flatMap ..)

end Site

/-- The sites that a search has still to visit, the one on top first. -/
abbrev Stack := List Site

namespace Stack

/-- Puts sites on top, one after another. -/
def pushAll (stack : Stack) (sites : List Site) : Stack :=
  sites.foldl (fun stack s => s :: stack) stack

/-- The site on top, and the stack with the parts of that site in its place. -/
def next? : Stack → Option (Site × Stack)
  | [] => none
  | s :: rest => some (s, pushAll rest s.parts.reverse)

/-- Everything that a search has still to visit: what is on the stack and below it. -/
def pending (stack : Stack) : List Site := stack.flatMap Site.walk

theorem pending_singleton (s : Site) : pending [s] = s.walk := List.flatMap_singleton ..

/-! ### One step -/

theorem pushAll_reverse (stack : Stack) (sites : List Site) :
    stack.pushAll sites.reverse = sites ++ stack := by
  rw [pushAll, List.foldl_flip_cons_eq_append', List.reverse_reverse]

/-- The site that is taken off is the first of those to visit, and all others stay. -/
theorem pending_of_next? {stack rest : Stack} {s : Site} (h : stack.next? = some (s, rest)) :
    stack.pending = s :: rest.pending := by
  cases stack with
  | nil => cases h
  | cons top below =>
    cases h
    rw [pending, pending, pushAll_reverse, List.flatMap_cons, List.flatMap_append, s.walk_eq_cons,
      List.cons_append]

theorem pending_of_next?_none {stack : Stack} (h : stack.next? = none) : stack.pending = [] := by
  cases stack with
  | nil => rfl
  | cons top below => cases h

theorem length_pending_lt {stack rest : Stack} {s : Site} (h : stack.next? = some (s, rest)) :
    rest.pending.length < stack.pending.length := by
  rw [pending_of_next? h]
  exact Nat.lt_succ_self _

/-! ### Whole searches

A search of a given program can be run in a proof: the number of sites to visit bounds it, and that
number is known there. -/

/-- Visits what is on a stack, after what was visited before. -/
@[semireducible]
def visitAll (visited : Array Site) (stack : Stack) : Array Site :=
  match _ : stack.next? with
  | none => visited
  | some (s, rest) => visitAll (visited.push s) rest
termination_by stack.pending.length
decreasing_by exact length_pending_lt ‹_›

/-- Looks for a site with a property and stops at the first one. -/
@[semireducible]
def findFirst? (holds : Site → Bool) (stack : Stack) : Option Site :=
  match _ : stack.next? with
  | none => none
  | some (s, rest) => if holds s then some s else findFirst? holds rest
termination_by stack.pending.length
decreasing_by exact length_pending_lt ‹_›

theorem visitAll_eq (visited : Array Site) (stack : Stack) :
    (stack.visitAll visited).toList = visited.toList ++ stack.pending := by
  fun_induction visitAll visited stack with
  | case1 visited stack h => rw [pending_of_next?_none h, List.append_nil]
  | case2 visited stack s rest h ih =>
    rw [ih, pending_of_next? h, Array.toList_push, List.append_assoc, List.singleton_append]

theorem findFirst?_eq (holds : Site → Bool) (stack : Stack) :
    stack.findFirst? holds = stack.pending.find? holds := by
  fun_induction findFirst? holds stack with
  | case1 stack h => rw [pending_of_next?_none h, List.find?_nil]
  | case2 stack s rest h hs => rw [pending_of_next? h, List.find?_cons_of_pos hs]
  | case3 stack s rest h hs ih => rw [ih, pending_of_next? h, List.find?_cons_of_neg hs]

end Stack

namespace Site

/-- A site and everything below it, as a search comes by it. -/
def visited (s : Site) : List Site := (Stack.visitAll #[] [s]).toList

/-- The first site with a property, be it the site itself or below it. -/
def findFirst? (s : Site) (holds : Site → Bool) : Option Site := Stack.findFirst? holds [s]

theorem visited_eq_walk (s : Site) : s.visited = s.walk := by
  rw [visited, Stack.visitAll_eq, Stack.pending_singleton, List.nil_append]

theorem findFirst?_eq_find? (s : Site) (holds : Site → Bool) :
    s.findFirst? holds = s.walk.find? holds := by
  rw [findFirst?, Stack.findFirst?_eq, Stack.pending_singleton]

end Site
end SettingsHarvest.Syntax
