import Mathlib
import Rehearsal.Proofs.Run

/-!
# What procedures consist of

Most of what is said of a procedure as a whole rests on the kinds of operations that it can carry
out at all, whatever it is answered.

* `Consists`: all operations of a procedure are of a kind, and it has no job for the runner.
* `Operation.Builds`: what generating consists of; `Operation.Reports`: what keeping results and
  telling of an ending consist of.
-/

namespace Rehearsal

open Runner (Job Reply Token)

variable {α β : Type}

/-- Whatever it is answered, all operations of a procedure are of a kind, and it has no job for the
runner. -/
def Consists (P : Operation → Prop) : Procedure α → Prop
  | .done _ => True
  | .act operation next => P operation ∧ ∀ answer, Consists P (next answer)
  | .spawn _ _ _ => False

namespace Operation

/-- Looking up what a project is made from, and working on files. -/
def Builds : Operation → Prop
  | .page _ | .suite _ | .project _ => True
  | .isDirectory _ | .makeDirectory _ | .openFile _ | .fillFile _ _ => True
  | _ => False

/-- Adding rows, and announcing. -/
def Reports : Operation → Prop
  | .freshId | .clock | .addRow _ | .announce _ => True
  | _ => False

end Operation

namespace Consists

variable {P : Operation → Prop}

lemma mono {Q : Operation → Prop} (h : ∀ a, P a → Q a) {p : Procedure α}
    (hp : Consists P p) : Consists Q p := by
  induction p with
  | done a => trivial
  | act a next ih => exact ⟨h a hp.1, fun answer => ih answer (hp.2 answer)⟩
  | spawn job token next => cases hp

lemma bind {c : Procedure α} {f : α → Procedure β} (hc : Consists P c)
    (hf : ∀ a, Consists P (f a)) : Consists P (c >>= f) := by
  induction c with
  | done a => exact hf a
  | act operation next ih => exact ⟨hc.1, fun answer => ih answer (hc.2 answer)⟩
  | spawn job token next => cases hc

lemma bind_call {c : Call α} {f : α → Call β} (hc : Consists P c.run)
    (hf : ∀ a, Consists P (f a).run) : Consists P (c >>= f).run := by
  rw [ExceptT.run_bind]
  refine bind hc fun x => ?_
  cases x with
  | ok a => exact hf a
  | error e => trivial

lemma sure {c : Procedure α} (hc : Consists P c) : Consists P (Call.sure c).run :=
  bind hc fun _ => trivial

lemma ask {a : Operation} (h : P a) : Consists P (Procedure.ask a) := ⟨h, fun _ => trivial⟩

lemma found (e : Error) (x : Option α) : Consists P (Call.found e x).run := by
  cases x <;> trivial

lemma given (x : Except Error α) : Consists P (Call.given x).run := by
  cases x <;> trivial

end Consists

open Operation (Builds Reports)

namespace Call

lemma consists_page (id : Uuid) : Consists Builds (page id).run :=
  .bind_call (.sure (.ask trivial)) fun _ => .found _ _

lemma consists_suite (id : Uuid) : Consists Builds (suite id).run :=
  .bind_call (.sure (.ask trivial)) fun _ => .found _ _

lemma consists_project (id : Uuid) : Consists Builds (project id).run :=
  .bind_call (.sure (.ask trivial)) fun _ => .found _ _

end Call

namespace Generation

lemma consists_makeDirectory (steps : List Segment) : Consists Builds (makeDirectory steps) := by
  refine .bind (.ask trivial) fun result => ?_
  split
  · trivial
  · trivial
  · exact .bind (.ask trivial) fun _ => trivial

lemma consists_makeDirectoriesUp (up : List Segment) : Consists Builds (makeDirectoriesUp up) := by
  induction up with
  | nil => trivial
  | cons s up ih =>
      refine .bind (consists_makeDirectory (s :: up).reverse) fun result => ?_
      split
      · refine ih.bind fun result => ?_
        split
        · exact consists_makeDirectory _
        · trivial
      · trivial

lemma consists_makeDirectories (steps : List Segment) :
    Consists Builds (Call.sure (makeDirectories steps)).run :=
  .sure (consists_makeDirectoriesUp steps.reverse)

lemma consists_orFail (failure : String → Error) (x : Except Refusal α) :
    Consists Builds (orFail failure x).run := by
  cases x <;> trivial

lemma consists_layOut (root : Path) : Consists Builds (layOut root).run := by
  have hall : ∀ ds, Consists Builds (layOutAll root ds).run := by
    intro ds
    induction ds with
    | nil => trivial
    | cons d ds ih =>
        refine .bind_call (consists_makeDirectories _) fun result => ?_
        exact .bind_call (consists_orFail _ result) fun _ => ih
  exact hall Plan.directories

lemma consists_writeArtifact (root : Path) (path content : String) :
    Consists Builds (writeArtifact root path content).run := by
  rw [writeArtifact]
  split_ifs
  · trivial
  · refine .bind_call (consists_makeDirectories _) fun made => ?_
    refine .bind_call (consists_orFail _ made) fun _ => ?_
    refine .bind_call (.sure (.ask trivial)) fun opened => ?_
    refine .bind_call (consists_orFail _ opened) fun _ => ?_
    exact .bind_call (.sure (.ask trivial)) fun _ => trivial

lemma consists_writeAll (g : Generated) (all : List Artifact) :
    Consists Builds (writeAll g all).run := by
  induction all generalizing g with
  | nil => trivial
  | cons a rest ih =>
      exact .bind_call (consists_writeArtifact g.root a.path a.content) fun p => ih _

lemma consists_fetch {get : Uuid → Call α} (h : ∀ id, Consists Builds (get id).run)
    (ids : List Uuid) : Consists Builds (fetch get ids).run := by
  induction ids with
  | nil => trivial
  | cons id ids ih => exact .bind_call (h id) fun _ => .bind_call ih fun _ => trivial

lemma consists_plan [Libraries] (style : Source.Style) (ids : List Uuid) (overrides : Json.Bag) :
    Consists Builds (plan style ids overrides).run := by
  rw [plan]
  split_ifs
  · trivial
  · refine .bind_call (consists_fetch Call.consists_suite ids) fun suites => ?_
    refine .bind_call (consists_fetch Call.consists_page _) fun pages => ?_
    exact .bind_call (.given _) fun _ => trivial

/-- Generating consists of looking things up and of work on files. -/
theorem consists_generate [Libraries] (style : Source.Style) (ids : List Uuid) (root : Path)
    (overrides : Json.Bag) : Consists Builds (generate style ids root overrides).run := by
  rw [generate]
  split_ifs
  · trivial
  · refine .bind_call (consists_plan style ids overrides) fun made => ?_
    refine .bind_call (consists_layOut root) fun _ => ?_
    exact .bind_call (consists_writeAll _ _) fun _ => trivial

end Generation

namespace Run

lemma consists_suiteIds (e : Execution) : Consists Builds (suiteIds e).run := by
  rw [suiteIds]
  split
  · trivial
  · refine .bind_call (Call.consists_project _) fun p => ?_
    split_ifs <;> trivial

lemma consists_addRows (id : Uuid) (credited : List (Uuid × Outcome)) :
    Consists Reports (addRows id credited).run := by
  induction credited with
  | nil => trivial
  | cons c credited ih =>
      refine .bind_call (.sure (.ask trivial)) fun rowId => ?_
      refine .bind_call (.sure (.ask trivial)) fun now => ?_
      exact .bind_call (.ask trivial) fun _ => ih

lemma consists_keepResults (id : Uuid) (suites : List Suite) (report : Option ParsedRun) :
    Consists Reports (keepResults id suites report).run := by
  cases report with
  | none => trivial
  | some run => exact .bind_call (consists_addRows id _) fun _ => .sure (.ask trivial)

lemma consists_tell (id : Uuid) (update : Update) : Consists Reports (tell id update).run := by
  rw [tell]
  split
  · exact .sure (.ask trivial)
  · trivial

end Run

end Rehearsal
