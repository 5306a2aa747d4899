import Mathlib
import Rehearsal.Proofs.World
import Rehearsal.Run

/-!
# Many callers, one operation at a time

Any number of callers run or cancel one execution.  Each carries its procedure on operation by
operation, and between two operations of one caller the others may do anything.

* `Caller.Moves`: a caller carries out **one operation**, hands a job to the runner, or has the
  runner's reply.
* `Crowd.Step`: some caller moves, or something happens that spares the execution.
* `Touch`: what a caller does to the execution; `View`: what can be seen of the execution.
* `Caller.Moves.turns`: **nothing but a touch changes the view**, and each touch changes it as
  `View.Turns` says.  Proofs about crowds use this and never look at the operations.
-/

namespace Rehearsal

open Runner (Job Reply Token)
open Relation (ReflTransGen)

/-! ## Callers -/

/-- What a caller is there for. -/
inductive Errand where
  | run (settings : RunSettings)
  | cancel

/-- To run the execution. -/
def Errand.IsRun : Errand → Prop
  | .run _ => True
  | .cancel => False

instance : DecidablePred Errand.IsRun
  | .run _ => .isTrue trivial
  | .cancel => .isFalse id

/-- The call that is made on an errand. -/
def Errand.call [Libraries] (id : Uuid) : Errand → Call Execution
  | .run settings => Run.run settings id
  | .cancel => Run.cancel id

/-- A thing done by a caller, or to it. -/
inductive Deed where
  | act (operation : Operation) (answer : operation.Answer)
  | spawn (job : Job) (token : Token)
  | reply (reply : Reply)

/-- How far a caller has come. -/
inductive Stage where
  | going (rest : Procedure (Except Error Execution))
  /-- Its runner is at work, with this token. -/
  | waiting (token : Token) (next : Reply → Procedure (Except Error Execution))

/-- A caller. -/
structure Caller where
  errand : Errand
  /-- What it has done, the first thing first. -/
  deeds : List Deed
  stage : Stage

namespace Caller

/-- A caller that has done nothing yet. -/
def idle [Libraries] (id : Uuid) (errand : Errand) : Caller :=
  ⟨errand, [], .going (errand.call id).run⟩

/-- One move of a caller, by which the world may change. -/
inductive Moves : World → Caller → Deed → World → Caller → Prop
  | act (w : World) (errand : Errand) (deeds : List Deed) (operation : Operation)
      (next : operation.Answer → Procedure (Except Error Execution)) :
      Moves w ⟨errand, deeds, .going (.act operation next)⟩
        (.act operation (w.perform operation).2) (w.perform operation).1
        ⟨errand, deeds ++ [.act operation (w.perform operation).2],
          .going (next (w.perform operation).2)⟩
  | spawn (w : World) (errand : Errand) (deeds : List Deed) (job : Job) (token : Token)
      (next : Reply → Procedure (Except Error Execution)) :
      Moves w ⟨errand, deeds, .going (.spawn job token next)⟩ (.spawn job token) w
        ⟨errand, deeds ++ [.spawn job token], .waiting token next⟩
  | reply (w : World) (errand : Errand) (deeds : List Deed) (token : Token)
      (next : Reply → Procedure (Except Error Execution)) (r : Reply) :
      Moves w ⟨errand, deeds, .waiting token next⟩ (.reply r) w
        ⟨errand, deeds ++ [.reply r], .going (next r)⟩

/-- The call of the caller has returned. -/
def Returned (c : Caller) (x : Except Error Execution) : Prop := c.stage = .going (.done x)

/-- The caller's runner is at work with the token, or will be by the next move. -/
def Employs (c : Caller) (token : Token) : Prop :=
  (∃ next, c.stage = .waiting token next) ∨ ∃ job next, c.stage = .going (.spawn job token next)

/-- Some move, with nobody coming between. -/
def Goes (s t : World × Caller) : Prop := ∃ d, s.2.Moves s.1 d t.1 t.2

/-- What is left of a procedure that cannot go on by itself. -/
def left {α : Type} : World.Rest α → Procedure α
  | .ended x => .done x
  | .waiting job token next => .spawn job token next

/-- A caller may carry its procedure on until it returns or has a job for the runner. -/
lemma goes_of_advance (w : World) (errand : Errand) (deeds : List Deed)
    (rest : Procedure (Except Error Execution)) :
    ∃ more, ReflTransGen Goes (w, ⟨errand, deeds, .going rest⟩)
      ((w.advance rest).1, ⟨errand, deeds ++ more, .going (left (w.advance rest).2)⟩) := by
  induction rest generalizing w deeds with
  | done x => exact ⟨[], by rw [List.append_nil]; exact .refl⟩
  | act operation next ih =>
      obtain ⟨more, hmore⟩ := ih (w.perform operation).2 (w.perform operation).1
        (deeds ++ [.act operation (w.perform operation).2])
      refine ⟨.act operation (w.perform operation).2 :: more, ?_⟩
      rw [List.append_assoc, List.singleton_append] at hmore
      exact .head ⟨_, .act w errand deeds operation next⟩ hmore
  | spawn job token next => exact ⟨[], by rw [List.append_nil]; exact .refl⟩

lemma Moves.errand_eq {w v : World} {c c' : Caller} {d : Deed} (h : c.Moves w d v c') :
    c'.errand = c.errand := by
  cases h <;> rfl

end Caller

/-! ## What is seen of an execution -/

/-- What a caller does to the execution, and what it learns. -/
inductive Touch where
  | create
  | read (found : Option Execution)
  | write (update : Update) (result : Except Error Execution)
  | claim (token : Token)
  | find (token : Option Token)
  | release
  | fire (token : Token)
  | spawn (token : Token)

/-- How a deed touches an execution, if it does.  A token may be anybody's, so every firing and
every job counts. -/
def Deed.touch? (id : Uuid) : Deed → Option Touch
  | .act (.createRecord e) _ => if e.id = id then some .create else none
  | .act (.record k) found => if k = id then some (.read found) else none
  | .act (.updateRecord k u) result => if k = id then some (.write u result) else none
  | .act (.claimToken k) token => if k = id then some (.claim token) else none
  | .act (.findToken k) token => if k = id then some (.find token) else none
  | .act (.releaseToken k) _ => if k = id then some .release else none
  | .act (.fire token) _ => some (.fire token)
  | .spawn _ token => some (.spawn token)
  | _ => none

/-- What can be seen of an execution: its record, its token, and which tokens have fired. -/
structure View where
  record : Option Execution
  token : Option Token
  fired : Token → Bool

/-- What the world shows of an execution. -/
def World.view (w : World) (id : Uuid) : View where
  record := w.store.logbook.record? id
  token := w.tokens.get? id
  fired := w.hasFired

/-- What a touch makes of what can be seen. -/
inductive View.Turns : View → Touch → View → Prop
  | create (v u : View) : Turns v .create u
  | read (v : View) : Turns v (.read v.record) v
  | write (v : View) (update : Update) (now : Instant) {e : Execution} (h : v.record = some e) :
      Turns v (.write update (.ok (e.apply now update)))
        { v with record := some (e.apply now update) }
  /-- There is no record to update. -/
  | lose (v : View) (update : Update) (fault : Error) (h : v.record = none) :
      Turns v (.write update (.error fault)) v
  | claim (v : View) {token : Token} (h : v.token = some token) : Turns v (.claim token) v
  /-- There is no token yet. -/
  | issue (v : View) (token : Token) (h : v.token = none) :
      Turns v (.claim token) { v with token := some token }
  | find (v : View) : Turns v (.find v.token) v
  | release (v : View) : Turns v .release { v with token := none }
  | fire (v : View) (token : Token) :
      Turns v (.fire token) { v with fired := fun t => t == token || v.fired t }
  | spawn (v : View) (token : Token) : Turns v (.spawn token) v

/-- What happens elsewhere leaves the record and the token alone, and takes no firing back. -/
structure View.Spared (v u : View) : Prop where
  record : u.record = v.record
  token : u.token = v.token
  fired : ∀ t, v.fired t = true → u.fired t = true

lemma View.Spared.refl (v : View) : v.Spared v := ⟨rfl, rfl, fun _ h => h⟩

/-- What becomes of the view by a deed: what its touch makes of it, or nothing. -/
def View.After (v : View) (touch : Option Touch) (u : View) : Prop :=
  match touch with
  | some t => v.Turns t u
  | none => u = v

/-- What is done to some execution is a touch of this one, or is not seen here. -/
lemma View.After.of_id {v u : View} {touch : Touch} {k id : Uuid} (hown : k = id → v.Turns touch u)
    (hother : id ≠ k → u = v) : v.After (if k = id then some touch else none) u := by
  split_ifs with hk
  · exact hown hk
  · exact hother (Ne.symm hk)

namespace World

variable (w : World) (id : Uuid)

lemma view_withLogbook (l : Logbook) :
    (w.withLogbook l).view id = { w.view id with record := l.record? id } := rfl

lemma perform_createRecord (e : Execution) : (w.perform (.createRecord e)).1 = w
    ∨ (w.perform (.createRecord e)).1 = w.withLogbook (w.store.logbook.put e.id e) := by
  rw [perform_createRecord_eq, Logbook.create]
  split_ifs
  · exact .inl rfl
  · exact .inr rfl

lemma view_claimToken_new {k : Uuid} (h : w.tokens.get? k = none) :
    (w.perform (.claimToken k)).1.view id
      = { w.view id with token := if id = k then some ⟨w.issued⟩ else w.tokens.get? id } := by
  rw [← Table.get?_put, w.perform_claimToken_new h]
  rfl

lemma view_releaseToken (k : Uuid) : (w.perform (.releaseToken k)).1.view id
    = { w.view id with token := if id = k then none else w.tokens.get? id } := by
  rw [← Table.get?_erase]
  rfl

lemma view_fire (t : Token) : (w.perform (.fire t)).1.view id
    = { w.view id with fired := fun s => s == t || w.hasFired s } := by
  have hfired : (w.perform (.fire t)).1.hasFired = fun s => s == t || w.hasFired s := by
    funext s
    exact List.contains_cons
  rw [← hfired]
  rfl

/-- Where nothing is changed, a touch that changes nothing fits whichever execution it is for. -/
lemma after_same (k : Uuid) {touch : Touch} (h : (w.view k).Turns touch (w.view k)) :
    (w.view id).After (if k = id then some touch else none) (w.view id) :=
  .of_id (fun hk => hk ▸ h) fun _ => rfl

lemma after_updateRecord (k : Uuid) (u : Update) :
    (w.view id).After ((Deed.act (.updateRecord k u) (w.perform (.updateRecord k u)).2).touch? id)
      ((w.perform (.updateRecord k u)).1.view id) := by
  cases hr : w.store.logbook.record? k with
  | none =>
      rw [World.perform_updateRecord_missing hr]
      exact w.after_same id k (.lose _ u _ hr)
  | some e =>
      rw [World.perform_updateRecord hr, view_withLogbook, Logbook.record?_put]
      refine .of_id (fun hk => ?_) fun hk => ?_
      · subst hk
        rw [if_pos rfl]
        exact .write _ u w.now hr
      · rw [if_neg hk]
        rfl

lemma after_claimToken (k : Uuid) :
    (w.view id).After ((Deed.act (.claimToken k) (w.perform (.claimToken k)).2).touch? id)
      ((w.perform (.claimToken k)).1.view id) := by
  cases ht : w.tokens.get? k with
  | some t =>
      rw [w.perform_claimToken_found ht]
      exact w.after_same id k (.claim _ ht)
  | none =>
      rw [view_claimToken_new w id ht, w.perform_claimToken_new ht]
      refine .of_id (fun hk => ?_) fun hk => ?_
      · subst hk
        rw [if_pos rfl]
        exact .issue _ _ ht
      · rw [if_neg hk]
        rfl

/-- **Nothing but a touch changes what can be seen of an execution.** -/
lemma view_perform (operation : Operation) :
    (w.view id).After ((Deed.act operation (w.perform operation).2).touch? id)
      ((w.perform operation).1.view id) := by
  cases operation with
  | record k => exact w.after_same id k (.read _)
  | createRecord e =>
      refine .of_id (fun _ => .create _ _) fun hk => ?_
      rcases w.perform_createRecord e with h | h
      · rw [h]
      · rw [h, view_withLogbook, Logbook.record?_put, if_neg hk]
        rfl
  | updateRecord k u => exact w.after_updateRecord id k u
  | claimToken k => exact w.after_claimToken id k
  | findToken k => exact w.after_same id k (.find _)
  | releaseToken k =>
      rw [view_releaseToken]
      refine .of_id (fun hk => ?_) fun hk => ?_
      · rw [if_pos hk.symm]
        exact .release _
      · rw [if_neg hk]
        rfl
  | fire t =>
      rw [view_fire]
      exact .fire (w.view id) t
  | addRow row =>
      show (w.perform (.addRow row)).1.view id = w.view id
      rw [perform_addRow_eq, Logbook.addRow]
      split_ifs <;> rfl
  | makeDirectory steps =>
      show (w.perform (.makeDirectory steps)).1.view id = w.view id
      rw [perform_makeDirectory_eq]
      cases w.tree.makeDirectory steps <;> rfl
  | openFile path =>
      show (w.perform (.openFile path)).1.view id = w.view id
      rw [perform_openFile_eq]
      cases w.tree.openFile path <;> rfl
  | _ => rfl

end World

/-- A move changes what can be seen of an execution as its touch says, if it touches it. -/
lemma Caller.Moves.turns {w v : World} {c c' : Caller} {d : Deed} (h : c.Moves w d v c')
    (id : Uuid) : (w.view id).After (d.touch? id) (v.view id) := by
  cases h with
  | act errand deeds operation next => exact w.view_perform id operation
  | spawn errand deeds job token next => exact .spawn (w.view id) token
  | reply errand deeds token next r => rfl

/-! ## Crowds -/

/-- A world, and callers who share it. -/
structure Crowd where
  world : World
  callers : List Caller

namespace Crowd

/-- Callers who have done nothing yet. -/
def start [Libraries] (w : World) (id : Uuid) (errands : List Errand) : Crowd :=
  ⟨w, errands.map (Caller.idle id)⟩

/-- Some caller moves. -/
inductive Move : Crowd → Crowd → Prop
  | mk {w v : World} {c c' : Caller} {d : Deed} (before after : List Caller)
      (h : c.Moves w d v c') : Move ⟨w, before ++ c :: after⟩ ⟨v, before ++ c' :: after⟩

/-- A single step. -/
inductive Step (id : Uuid) : Crowd → Crowd → Prop
  | move {s t : Crowd} (h : Move s t) : Step id s t
  /-- Anything else that spares the execution. -/
  | other (w v : World) (callers : List Caller) (h : (w.view id).Spared (v.view id)) :
      Step id ⟨w, callers⟩ ⟨v, callers⟩

/-- What steps lead to. -/
abbrev Steps (id : Uuid) : Crowd → Crowd → Prop := ReflTransGen (Step id)

variable {id : Uuid} {s t : Crowd}

/-- A caller whose call has returned stays as it is. -/
lemma Steps.returned {c : Caller} {x : Except Error Execution} (h : Steps id s t)
    (hc : c ∈ s.callers) (hx : c.Returned x) : c ∈ t.callers := by
  induction h with
  | refl => exact hc
  | tail _ hstep ih =>
      cases hstep with
      | other w v callers _ => exact ih
      | move hmove =>
          obtain ⟨before, after, hmove⟩ := hmove
          rcases List.mem_append.mp ih with hmem | hmem
          · exact List.mem_append_left _ hmem
          · rcases List.mem_cons.mp hmem with rfl | hmem
            · cases hmove <;> cases hx
            · exact List.mem_append_right _ (List.mem_cons_of_mem _ hmem)

/-- A caller may carry its procedure on until it returns or waits for the runner, with nobody
coming between. -/
lemma moves_of_advance (w : World) (before after : List Caller) (errand : Errand)
    (deeds : List Deed) (rest : Procedure (Except Error Execution)) :
    ∃ more, ReflTransGen Move ⟨w, before ++ ⟨errand, deeds, .going rest⟩ :: after⟩
      ⟨(w.advance rest).1, before ++ ⟨errand, deeds ++ more,
        match (w.advance rest).2 with
        | .ended x => .going (.done x)
        | .waiting _ token next => .waiting token next⟩ :: after⟩ := by
  obtain ⟨more, hmore⟩ := Caller.goes_of_advance w errand deeds rest
  have hmoves := hmore.lift (fun s => (⟨s.1, before ++ s.2 :: after⟩ : Crowd))
    fun _ _ ⟨_, h⟩ => Move.mk before after h
  revert hmoves
  cases (w.advance rest).2 with
  | ended x => exact fun hmoves => ⟨more, hmoves⟩
  | waiting job token next =>
      intro hmoves
      refine ⟨more ++ [.spawn job token], hmoves.tail ?_⟩
      rw [← List.append_assoc]
      exact .mk before after (.spawn _ errand _ job token next)

/-- Moves are steps, whatever the execution. -/
lemma steps_of_moves (id : Uuid) (h : ReflTransGen Move s t) : Steps id s t :=
  ReflTransGen.mono (fun _ _ => Step.move) s t h

end Crowd

end Rehearsal
