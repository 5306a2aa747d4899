import Mathlib
import Rehearsal.Proofs.Crowd
import Rehearsal.Proofs.FileTree.Site

/-!
# What a procedure secures while others work beside it

A procedure works on a site.  Between its operations others may do anything that spares the site,
and whatever it asks that does not concern files may be answered in any way.

* `Operation.Works`: what an operation answers and makes of a tree; `Operation.Begins`: what it may
  have done while it is **under way**.
* `Secures`: whatever happens, the procedure **keeps to what it is allowed**, hands over no job that
  is not ready, and ends only where a condition holds.
* `Secures.bind`, `Secures.andThen`: procedures made of parts.
* `Secures.spares`: what is secured is secured **whatever others do in the meantime**.
* `Secures.keeps`: what every change keeps holds at the end.
* `Caller.Works`, `Caller.Secure`: the steps of a caller on a tree, and what they keep.
* `Caller.Patient`: a caller that has removed **nothing before it was allowed to**.
-/

namespace Rehearsal

open Runner (Job Reply Token)
open Relation (ReflTransGen)

/-! ## Operations on a tree -/

/-- What trying something comes to: the tree it leads to, or a refusal and no change.  There may be
more reasons to refuse than a tree can show. -/
def FileTree.Tries (t : FileTree) (result : Except Refusal FileTree) (answer : Except Refusal Unit)
    (u : FileTree) : Prop :=
  (result = .ok u ∧ answer = .ok ()) ∨ ∃ r, answer = .error r ∧ u = t

namespace Operation

/-- What an operation may answer, and the tree behind it.  What does not concern files may answer
anything. -/
def Works (t : FileTree) : (a : Operation) → a.Answer → FileTree → Prop
  | .locate path, answer, u =>
    (answer = .ok (path.absolute t.currentPath) ∨ ∃ r, answer = .error r) ∧ u = t
  | .isDirectory steps, answer, u => answer = t.isDirectory steps ∧ u = t
  | .makeDirectory steps, answer, u => t.Tries (t.makeDirectory steps) answer u
  | .openFile path, answer, u => t.Tries (t.openFile path) answer u
  | .fillFile path content, _, u => u = t.fillFile path content
  | .removeTree path, _, u => u = t.removeTree path.segments
  | _, _, u => u = t

/-- What an operation may have done before it answers: a file is filled in parts, and a directory
is removed part by part. -/
def Begins (t : FileTree) : Operation → FileTree → Prop
  | .fillFile path _, u => ∃ part, u = t.fillFile path part
  | .removeTree path, u => ∃ q, FileTree.landing t.current path.segments <+: q ∧ u = t.clear q
  | _, _ => False

/-- An operation that does not concern files. -/
def OffTree : Operation → Prop
  | .locate _ | .isDirectory _ | .makeDirectory _ => False
  | .openFile _ | .fillFile _ _ | .removeTree _ => False
  | _ => True

end Operation

/-- In a world, an operation works on its tree. -/
lemma World.works (w : World) (a : Operation) :
    a.Works w.tree (w.perform a).2 (w.perform a).1.tree := by
  cases a with
  | createRecord e => rcases w.perform_createRecord e with h | h <;> rw [h] <;> rfl
  | updateRecord id u =>
      cases h : w.store.logbook.record? id with
      | none => rw [World.perform_updateRecord_missing h]; rfl
      | some e => rw [World.perform_updateRecord h]; rfl
  | addRow row =>
      rw [perform_addRow_eq]
      cases w.store.logbook.addRow row <;> rfl
  | claimToken id =>
      cases h : w.tokens.get? id with
      | none => rw [w.perform_claimToken_new h]; rfl
      | some t => rw [w.perform_claimToken_found h]; rfl
  | makeDirectory steps =>
      rw [Operation.Works, perform_makeDirectory_eq]
      cases w.tree.makeDirectory steps with
      | ok tree => exact .inl ⟨rfl, rfl⟩
      | error r => exact .inr ⟨r, rfl, rfl⟩
  | openFile path =>
      rw [Operation.Works, perform_openFile_eq]
      cases w.tree.openFile path with
      | ok tree => exact .inl ⟨rfl, rfl⟩
      | error r => exact .inr ⟨r, rfl, rfl⟩
  | locate path => exact ⟨w.tree.locate_cases path, rfl⟩
  | isDirectory steps => exact ⟨rfl, rfl⟩
  | _ => rfl

/-! ## Operations on a site -/

namespace Site

variable {s : Site} {t u : FileTree} {a : Operation}

/-- Work on a site: directories that lead to it or stand in it are made, files in it are written,
and nothing but the whole of it is removed. -/
def Allows (s : Site) : Operation → Prop
  | .makeDirectory steps => steps ≠ [] ∧ ∃ ns, steps <+: s.below ns
  | .openFile path => ∃ ns, ns ≠ [] ∧ path.segments = s.below ns
  | .fillFile path _ => ∃ ns, ns ≠ [] ∧ path.segments = s.below ns
  | .removeTree path => path = s.path
  | _ => True

lemma change_fillFile {path : Path} (h : ∃ ns, ns ≠ [] ∧ path.segments = s.below ns)
    (text : String) : s.Change t (t.fillFile path text) := by
  obtain ⟨ns, hns, hpath⟩ := h
  rcases t.fillFile_cases path text with hsame | ⟨old, hpass, hget, hput⟩
  · rw [hsame]
    exact .none
  · rw [hpath, landing_below] at hget
    rw [hpath] at hpass
    rw [hput, hpath, landing_below]
    exact .write hpass (by simp [content, hget]) fun h => absurd h hns

/-- Whatever is allowed changes the tree as work on the site may. -/
lemma change_of_works (ha : s.Allows a) {answer : a.Answer} (h : a.Works t answer u) :
    s.Change t u := by
  cases a with
  | makeDirectory steps =>
      obtain ⟨hne, ns, hsteps⟩ := ha
      rcases h with ⟨hmake, -⟩ | ⟨r, -, rfl⟩
      · obtain ⟨hpass, hnone, rfl⟩ := FileTree.makeDirectory_eq_ok hmake
        rcases landing_of_isPrefix hsteps hne t.current with hway | ⟨ms, -, rfl⟩
        · exact .ground hway hnone
        · rw [landing_below] at hnone ⊢
          exact .write hpass (FileTree.not_directory hnone) fun _ => rfl
      · exact .none
  | openFile path =>
      obtain ⟨ns, hne, hpath⟩ := ha
      rcases h with ⟨hopen, -⟩ | ⟨r, -, rfl⟩
      · obtain ⟨-, hpass, hget, rfl⟩ := FileTree.openFile_eq_ok hopen
        rw [hpath] at hpass hget ⊢
        rw [landing_below] at hget ⊢
        exact .write hpass hget fun h => absurd h hne
      · exact .none
  | fillFile path content => exact h ▸ change_fillFile ha content
  | removeTree path =>
      cases ha
      rw [Operation.Works] at h
      rcases t.removeTree_cases s.path.segments with hsame | ⟨-, -, hclear⟩
      · rw [h, hsame]
        exact .none
      · rw [h, hclear, landing_path]
        exact .clear List.prefix_rfl
  | locate path => exact h.2 ▸ .none
  | isDirectory steps => exact h.2 ▸ .none
  | _ => exact h ▸ .none

/-- So does what is under way. -/
lemma change_of_begins (ha : s.Allows a) (h : a.Begins t u) : s.Change t u := by
  cases a with
  | fillFile path content =>
      obtain ⟨part, rfl⟩ := h
      exact change_fillFile ha part
  | removeTree path =>
      cases ha
      obtain ⟨q, hq, rfl⟩ := h
      rw [landing_path] at hq
      exact .clear hq
  | _ => cases h

end Site

/-! ## What a procedure secures -/

/-- What a procedure must keep to. -/
structure Rules where
  site : Site
  /-- After what has been done, the site may be removed. -/
  mayRemove : List Deed → Prop
  /-- After what has been done, a job may be handed over. -/
  ready : List Deed → Job → FileTree → Prop
  /-- A job that may be handed over may be so later. -/
  steady : ∀ {deeds job t u}, site.Spares t u → ready deeds job t → ready deeds job u

namespace Rules

/-- The rules of whoever neither removes the site nor hands over a job. -/
def building (s : Site) : Rules := ⟨s, fun _ => False, fun _ _ _ => False, fun _ h => h⟩

/-- What may be done after what has been done. -/
def Allows (r : Rules) (deeds : List Deed) (a : Operation) : Prop :=
  r.site.Allows a ∧ ((∃ path, a = .removeTree path) → r.mayRemove deeds)

/-- What may happen before an operation has answered. -/
def Drift (r : Rules) (a : Operation) : FileTree → FileTree → Prop :=
  ReflTransGen fun t u => r.site.Spares t u ∨ a.Begins t u

/-- An operation that is not done in parts leaves the tree to others until it answers. -/
lemma Drift.spares {r : Rules} {a : Operation} {t u : FileTree} (h : r.Drift a t u)
    (ha : ∀ v v', ¬a.Begins v v') : r.site.Spares t u := by
  induction h with
  | refl => exact .refl t
  | tail _ hstep ih => exact ih.trans (hstep.resolve_right (ha _ _))

/-- What others keep and every change on the site keeps holds until an operation answers. -/
lemma Drift.keeps {r : Rules} {a : Operation} {t u : FileTree} {I : FileTree → Prop}
    (h : r.Drift a t u) (ha : r.site.Allows a)
    (hspares : ∀ {v v'}, r.site.Spares v v' → I v → I v')
    (hchange : ∀ {v v'}, r.site.Change v v' → I v → I v') (hI : I t) : I u := by
  induction h with
  | refl => exact hI
  | tail _ hstep ih =>
      rcases hstep with hstep | hstep
      · exact hspares hstep ih
      · exact hchange (Site.change_of_begins ha hstep) ih

end Rules

variable {α β : Type}

/-- Whatever happens, a procedure keeps to the rules, and where it ends a condition holds. -/
def Secures (r : Rules) (ends : α → List Deed → FileTree → Prop) :
    Procedure α → List Deed → FileTree → Prop
  | .done a, deeds, t => ends a deeds t
  | .act a next, deeds, t => r.Allows deeds a
      ∧ ∀ u, r.Drift a t u → ∀ answer v, a.Works u answer v →
        Secures r ends (next answer) (deeds ++ [.act a answer]) v
  | .spawn job token next, deeds, t => r.ready deeds job t
      ∧ ∀ u, r.site.Spares t u → ∀ reply,
        Secures r ends (next reply) (deeds ++ [.spawn job token] ++ [.reply reply]) u

/-- A condition on what a call comes to, unless it fails. -/
def OnSuccess (ends : α → List Deed → FileTree → Prop) :
    Except Error α → List Deed → FileTree → Prop
  | .ok a => ends a
  | .error _ => fun _ _ => True

namespace Secures

variable {r : Rules} {ends ends' : α → List Deed → FileTree → Prop} {p : Procedure α}
  {deeds : List Deed} {t u : FileTree}

lemma mono (h : Secures r ends p deeds t) (hends : ∀ a ds v, ends a ds v → ends' a ds v) :
    Secures r ends' p deeds t := by
  induction p generalizing deeds t with
  | done a => exact hends _ _ _ h
  | act a next ih => exact ⟨h.1, fun u hu answer v hv => ih answer (h.2 u hu answer v hv)⟩
  | spawn job token next ih => exact ⟨h.1, fun u hu reply => ih reply (h.2 u hu reply)⟩

lemma mono_success {ends ends' : α → List Deed → FileTree → Prop} {c : Call α}
    (h : Secures r (OnSuccess ends) c.run deeds t) (hends : ∀ a ds v, ends a ds v → ends' a ds v) :
    Secures r (OnSuccess ends') c.run deeds t := by
  refine h.mono fun x ds v hx => ?_
  cases x with
  | ok a => exact hends a ds v hx
  | error e => trivial

/-- One procedure and then another. -/
lemma bind {ends : β → List Deed → FileTree → Prop} {f : α → Procedure β}
    (h : Secures r (fun a ds v => Secures r ends (f a) ds v) p deeds t) :
    Secures r ends (p >>= f) deeds t := by
  induction p generalizing deeds t with
  | done a => exact h
  | act a next ih => exact ⟨h.1, fun u hu answer v hv => ih answer (h.2 u hu answer v hv)⟩
  | spawn job token next ih => exact ⟨h.1, fun u hu reply => ih reply (h.2 u hu reply)⟩

/-- One call and then another, as long as nothing fails. -/
lemma andThen {ends : α → List Deed → FileTree → Prop} {ends' : β → List Deed → FileTree → Prop}
    {c : Call α} {f : α → Call β} (hc : Secures r (OnSuccess ends) c.run deeds t)
    (hf : ∀ a ds v, ends a ds v → Secures r (OnSuccess ends') (f a).run ds v) :
    Secures r (OnSuccess ends') (c >>= f).run deeds t := by
  rw [ExceptT.run_bind]
  refine bind (hc.mono fun x ds v hx => ?_)
  cases x with
  | ok a => exact hf a ds v hx
  | error e => trivial

/-- A call whose fault, if there is one, is an answer like any other. -/
lemma outcome {ends : Except Error β → List Deed → FileTree → Prop} {c : Call α}
    {f : Except Error α → Call β}
    (h : Secures r (fun x ds v => Secures r ends (f x).run ds v) c.run deeds t) :
    Secures r ends (Call.outcome c >>= f).run deeds t :=
  bind (bind h)

/-- A procedure that cannot fail. -/
lemma sure (h : Secures r ends p deeds t) :
    Secures r (OnSuccess ends) (Call.sure p).run deeds t :=
  bind h

/-- What does not concern files may be asked at any time. -/
lemma of_offTree {a : Operation} {next : a.Answer → Procedure α} (ha : a.OffTree)
    (h : ∀ answer u, r.site.Spares t u →
      Secures r ends (next answer) (deeds ++ [.act a answer]) u) :
    Secures r ends (.act a next) deeds t := by
  have hallows : r.Allows deeds a := by
    refine ⟨?_, ?_⟩
    · cases a <;> trivial
    · rintro ⟨path, rfl⟩
      cases ha
  have hnothing : ∀ v v', ¬a.Begins v v' := by
    intro v v'
    cases a <;> first | exact id | cases ha
  refine ⟨hallows, fun u hu answer v hv => ?_⟩
  have hsame : v = u := by
    cases a <;> first | exact hv | cases ha
  exact hsame ▸ h answer u (hu.spares hnothing)

/-- What is secured stays so, whatever others do. -/
theorem spares (h : Secures r ends p deeds t) (htu : r.site.Spares t u)
    (hends : ∀ a ds {v v'}, r.site.Spares v v' → ends a ds v → ends a ds v') :
    Secures r ends p deeds u := by
  cases p with
  | done a => exact hends a deeds htu h
  | act a next => exact ⟨h.1, fun v hv => h.2 v (.head (.inl htu) hv)⟩
  | spawn job token next => exact ⟨r.steady htu h.1, fun v hv => h.2 v (htu.trans hv)⟩

/-- What was done before stays done. -/
lemma deeds_isPrefix (h : Secures r ends p deeds t) :
    Secures r (fun a ds v => ends a ds v ∧ deeds <+: ds) p deeds t := by
  induction p generalizing deeds t with
  | done a => exact ⟨h, List.prefix_rfl⟩
  | act a next ih =>
      refine ⟨h.1, fun u hu answer v hv => (ih answer (h.2 u hu answer v hv)).mono ?_⟩
      exact fun _ _ _ hends => ⟨hends.1, (List.prefix_append _ _).trans hends.2⟩
  | spawn job token next ih =>
      refine ⟨h.1, fun u hu reply => (ih reply (h.2 u hu reply)).mono ?_⟩
      refine fun _ _ _ hends => ⟨hends.1, ?_⟩
      exact ((List.prefix_append _ _).trans (List.prefix_append _ _)).trans hends.2

lemma prefix_success {ends : α → List Deed → FileTree → Prop} {c : Call α}
    (h : Secures r (OnSuccess ends) c.run deeds t) :
    Secures r (OnSuccess fun a ds v => ends a ds v ∧ deeds <+: ds) c.run deeds t := by
  refine h.deeds_isPrefix.mono fun x ds v hx => ?_
  cases x with
  | ok a => exact hx
  | error e => trivial

/-- What others keep and every change on the site keeps holds at the end. -/
theorem keeps {I : FileTree → Prop} (h : Secures r ends p deeds t)
    (hspares : ∀ {v v'}, r.site.Spares v v' → I v → I v')
    (hchange : ∀ {v v'}, r.site.Change v v' → I v → I v') (hI : I t) :
    Secures r (fun a ds v => ends a ds v ∧ I v) p deeds t := by
  induction p generalizing deeds t with
  | done a => exact ⟨h, hI⟩
  | act a next ih =>
      refine ⟨h.1, fun u hu answer v hv => ih answer (h.2 u hu answer v hv) ?_⟩
      exact hchange (Site.change_of_works h.1.1 hv) (hu.keeps h.1.1 hspares hchange hI)
  | spawn job token next ih =>
      exact ⟨h.1, fun u hu reply => ih reply (h.2 u hu reply) (hspares hu hI)⟩

/-- Carried on in a world with nobody beside it, a procedure ends where the condition holds, and has
changed nothing outside of its site. -/
theorem of_advance {w v : World} {a : α} (h : Secures r ends p deeds w.tree)
    (hv : w.advance p = (v, .ended a)) :
    (∃ ds, ends a ds v.tree) ∧ r.site.Within w.tree v.tree := by
  induction p generalizing w deeds with
  | done b =>
      cases hv
      exact ⟨⟨deeds, h⟩, .refl _⟩
  | act operation next ih =>
      have hworks := w.works operation
      obtain ⟨hends, hwithin⟩ := ih _ (h.2 w.tree .refl _ _ hworks) hv
      exact ⟨hends, (Site.change_of_works h.1.1 hworks).within.trans hwithin⟩
  | spawn job token next => cases hv

end Secures

/-! ## Callers at work -/

namespace Caller

/-- One step of a caller on a tree.  What does not concern files may be answered in any way, and
what is done in parts may take many steps. -/
inductive Works : FileTree → Caller → FileTree → Caller → Prop
  | act {t u : FileTree} (errand : Errand) (deeds : List Deed) (operation : Operation)
      (next : operation.Answer → Procedure (Except Error Execution)) (answer : operation.Answer)
      (h : operation.Works t answer u) :
      Works t ⟨errand, deeds, .going (.act operation next)⟩ u
        ⟨errand, deeds ++ [.act operation answer], .going (next answer)⟩
  | begin {t u : FileTree} (errand : Errand) (deeds : List Deed) (operation : Operation)
      (next : operation.Answer → Procedure (Except Error Execution)) (h : operation.Begins t u) :
      Works t ⟨errand, deeds, .going (.act operation next)⟩ u
        ⟨errand, deeds, .going (.act operation next)⟩
  | spawn (t : FileTree) (errand : Errand) (deeds : List Deed) (job : Job) (token : Token)
      (next : Reply → Procedure (Except Error Execution)) :
      Works t ⟨errand, deeds, .going (.spawn job token next)⟩ t
        ⟨errand, deeds ++ [.spawn job token], .waiting token next⟩
  | reply (t : FileTree) (errand : Errand) (deeds : List Deed) (token : Token)
      (next : Reply → Procedure (Except Error Execution)) (r : Reply) :
      Works t ⟨errand, deeds, .waiting token next⟩ t ⟨errand, deeds ++ [.reply r], .going (next r)⟩

/-- In a world, a move is a step on its tree. -/
lemma Moves.works {w v : World} {c c' : Caller} {d : Deed} (h : c.Moves w d v c') :
    Works w.tree c v.tree c' := by
  cases h with
  | act errand deeds operation next =>
      exact .act errand deeds operation next _ (w.works operation)
  | spawn errand deeds job token next => exact .spawn _ errand deeds job token next
  | reply errand deeds token next r => exact .reply _ errand deeds token next r

variable {r : Rules} {ends : Except Error Execution → List Deed → FileTree → Prop} {c c' : Caller}
  {t u : FileTree}

/-- Whatever was removed, it was allowed to be by then. -/
def Patient (r : Rules) (c : Caller) : Prop :=
  ∀ ds path answer rest, c.deeds = ds ++ .act (.removeTree path) answer :: rest → r.mayRemove ds

/-- Whatever happens, a caller will keep to the rules; the job that its runner is at work on still
fits the tree. -/
def Secure (r : Rules) (ends : Except Error Execution → List Deed → FileTree → Prop) (c : Caller)
    (t : FileTree) : Prop :=
  match c.stage with
  | .going rest => Secures r ends rest c.deeds t
  | .waiting _ next => (∃ deeds job token, c.deeds = deeds ++ [.spawn job token]
      ∧ r.ready deeds job t) ∧ ∀ u, r.site.Spares t u → ∀ reply,
        Secures r ends (next reply) (c.deeds ++ [.reply reply]) u

namespace Secure

/-- What others do beside it changes nothing about it. -/
lemma spares (h : c.Secure r ends t) (htu : r.site.Spares t u)
    (hends : ∀ a ds {v v'}, r.site.Spares v v' → ends a ds v → ends a ds v') :
    c.Secure r ends u := by
  obtain ⟨errand, deeds, stage⟩ := c
  cases stage with
  | going rest => exact Secures.spares h htu hends
  | waiting token next =>
      obtain ⟨⟨ds, job, token', hds, hready⟩, hreply⟩ := h
      exact ⟨⟨ds, job, token', hds, r.steady htu hready⟩, fun v hv => hreply v (htu.trans hv)⟩

/-- Nor do its own steps, and they change nothing outside of the site. -/
lemma works (h : c.Secure r ends t) (hstep : Works t c u c') :
    c'.Secure r ends u ∧ r.site.Within t u := by
  cases hstep with
  | act errand deeds operation next answer hanswer =>
      exact ⟨h.2 t .refl answer u hanswer, (Site.change_of_works h.1.1 hanswer).within⟩
  | begin errand deeds operation next hbegins =>
      refine ⟨⟨h.1, fun v hv => h.2 v (.head (.inr hbegins) hv)⟩, ?_⟩
      exact (Site.change_of_begins h.1.1 hbegins).within
  | spawn errand deeds job token next =>
      exact ⟨⟨⟨deeds, job, token, rfl, h.1⟩, h.2⟩, .refl t⟩
  | reply errand deeds token next reply =>
      exact ⟨h.2 t (.refl t) reply, .refl t⟩

/-- It is allowed to remove what it is about to remove. -/
lemma mayRemove (h : c.Secure r ends t) {path : Path}
    {next : Unit → Procedure (Except Error Execution)}
    (hstage : c.stage = .going (.act (.removeTree path) next)) : r.mayRemove c.deeds := by
  rw [Secure, hstage] at h
  exact h.1.2 ⟨path, rfl⟩

lemma patient (h : c.Secure r ends t) (hpatient : c.Patient r) (hstep : Works t c u c') :
    c'.Patient r := by
  -- What is not done yet cannot have been the last thing done.
  have hlast : ∀ {d : Deed}, c'.deeds = c.deeds ++ [d] →
      (∀ path answer, d = .act (.removeTree path) answer → r.mayRemove c.deeds) → c'.Patient r := by
    intro d hdeeds hd ds path answer rest hsplit
    rcases rest.eq_nil_or_concat with rfl | ⟨rest, last, rfl⟩
    · obtain ⟨hds, hlast⟩ := List.append_inj' (hdeeds.symm.trans hsplit) rfl
      exact hds ▸ hd path answer (List.singleton_inj.mp hlast)
    · rw [hdeeds, List.concat_eq_append, ← List.cons_append, ← List.append_assoc] at hsplit
      exact hpatient ds path answer rest (List.append_inj' hsplit rfl).1
  cases hstep with
  | act errand deeds operation next answer hanswer =>
      refine hlast rfl fun path answer' hd => ?_
      cases hd
      exact h.mayRemove rfl
  | begin errand deeds operation next hbegins => exact hpatient
  | spawn errand deeds job token next => exact hlast rfl fun _ _ hd => nomatch hd
  | reply errand deeds token next reply => exact hlast rfl fun _ _ hd => nomatch hd

end Secure

end Caller

end Rehearsal
