import Mathlib
import Rehearsal.Proofs.Interleaving
import Rehearsal.Proofs.Consists

/-!
# Tokens are given back

An execution gets a token when it is created, and whoever runs it gives the token back.  Calls on
one execution may overlap, so it is not always the run that claimed a token that gives it back.

* `Posting`: a creation or a run that was accepted.  `Scene.Act`: a step of a scene, and what is
  posted of it.  `Ledger`: any number of steps.
* `Scene.Comes`: **what a step can come to**, for records and for tokens.
* `Accounted`: the invariant.  The records are those of the postings, and what has been run is not
  pending any more.
* `Ledger.tokens_exact`: the tokens that are held are those of the executions that were created and
  that **no run has come back from**.
-/

namespace Rehearsal

open Runner (Job Reply Token)

variable {α : Type}

/-! ## Who touches tokens -/

/-- Everything but claiming a token and giving one back. -/
def Operation.KeepsTokens : Operation → Prop
  | .claimToken _ | .releaseToken _ => False
  | _ => True

lemma Operation.Reports.keepsTokens {a : Operation} (h : a.Reports) : a.KeepsTokens := by
  cases a <;> trivial

namespace World

lemma tokens_perform (w : World) {a : Operation} (h : a.KeepsTokens) :
    (w.perform a).1.tokens = w.tokens := by
  cases a with
  | createRecord e =>
      rw [perform_createRecord_eq]
      cases w.store.logbook.create e <;> rfl
  | updateRecord id u =>
      rw [perform_updateRecord_eq]
      cases w.store.logbook.update w.now id u <;> rfl
  | addRow r =>
      rw [perform_addRow_eq]
      cases w.store.logbook.addRow r <;> rfl
  | makeDirectory steps =>
      rw [perform_makeDirectory_eq]
      cases w.tree.makeDirectory steps <;> rfl
  | openFile path =>
      rw [perform_openFile_eq]
      cases w.tree.openFile path <;> rfl
  | claimToken id => cases h
  | releaseToken id => cases h
  | _ => rfl

lemma tokens_advance (w : World) {p : Procedure α} (h : Consists Operation.KeepsTokens p) :
    (w.advance p).1.tokens = w.tokens := by
  induction p generalizing w with
  | done a => rfl
  | act a next ih => exact (ih _ _ (h.2 _)).trans (w.tokens_perform h.1)
  | spawn job token next => cases h

/-- The executions whose tokens are held. -/
def Holds (w : World) (id : Uuid) : Prop := id ∈ w.tokens.keys

lemma holds_iff {w : World} {id : Uuid} : w.Holds id ↔ ∃ t, w.tokens.get? id = some t :=
  Table.mem_keys_iff

lemma Holds.congr {w v : World} (h : v.tokens = w.tokens) (id : Uuid) :
    v.Holds id ↔ w.Holds id := by
  rw [Holds, Holds, h]

/-- Who claims a token has it, and no other token comes or goes. -/
lemma holds_claimToken (w : World) (id k : Uuid) :
    (w.perform (.claimToken id)).1.Holds k ↔ k = id ∨ w.Holds k := by
  rw [holds_iff, holds_iff]
  cases h : w.tokens.get? id with
  | none =>
      rw [w.perform_claimToken_new h, Table.get?_put]
      by_cases hk : k = id <;> simp [hk]
  | some t =>
      rw [w.perform_claimToken_found h]
      refine ⟨Or.inr, ?_⟩
      rintro (rfl | hk)
      · exact ⟨t, h⟩
      · exact hk

/-- Who gives a token back has none, and no other token comes or goes. -/
lemma holds_erase {w v : World} {id : Uuid} (h : v.tokens = w.tokens.erase id) (k : Uuid) :
    v.Holds k ↔ k ≠ id ∧ w.Holds k := by
  rw [holds_iff, holds_iff, h, Table.get?_erase]
  by_cases hk : k = id <;> simp [hk]

end World

namespace Run

lemma keepsTokens_cancel (id : Uuid) : Consists Operation.KeepsTokens (cancel id).run := by
  refine .bind_call (.bind_call (.sure (.ask trivial)) fun _ => .found _ _) fun e => ?_
  refine .bind_call (.given _) fun status => ?_
  refine .bind_call (.ask trivial) fun updated => ?_
  refine .bind_call (.sure (.ask trivial)) fun token => ?_
  cases token with
  | none => exact .bind_call (.sure (.ask trivial)) fun _ => trivial
  | some t => exact .bind_call (.sure (.ask trivial)) fun _ =>
      .bind_call (.sure (.ask trivial)) fun _ => trivial

lemma keepsTokens_conclude [Libraries] (id : Uuid)
    (result : Except Error (Runner.Outcome × List Suite)) :
    Consists Operation.KeepsTokens (conclude id result).run := by
  rw [conclude_eq]
  refine .bind_call (.sure (.ask trivial)) fun endTime => ?_
  refine .bind_call (.ask trivial) fun recorded => ?_
  have hkeep := consists_keepResults id (ending result).2.2 (ending result).2.1
  refine .bind_call (hkeep.mono fun _ => Operation.Reports.keepsTokens) fun _ => ?_
  exact .bind_call ((consists_tell ..).mono fun _ => Operation.Reports.keepsTokens) fun _ => trivial

/-- The second half of a run gives the token back. -/
lemma tokens_finish [Libraries] {w : World} {id : Uuid} {e : Execution}
    (h : w.store.logbook.record? id = some e) (place : Except Refusal Path)
    (result : Except Error (Runner.Outcome × List Suite)) :
    (w.advance (finish id place result).run).1.tokens = w.tokens.erase id := by
  obtain ⟨v, -, hv, -, -⟩ := advance_conclude h result
  have hsame := w.tokens_advance (keepsTokens_conclude id result)
  rw [hv] at hsame
  rw [finish, World.advance_bind_ok (World.advance_outcome hv), ← hsame]
  cases place <;> rfl

end Run

/-! ## Acts -/

/-- A creation or a run that was accepted. -/
inductive Posting where
  | created (id : Uuid)
  | ran (id : Uuid)
deriving DecidableEq

/-- A call that was accepted is posted; one that was refused, or has not come back, is not. -/
def Posting.of (posting : Execution → Posting) : World.Rest (Except Error Execution) → List Posting
  | .ended (.ok e) => [posting e]
  | _ => []

namespace Scene

/-- A single step, and what is posted of it. -/
inductive Act [Libraries] : Scene → List Posting → Scene → Prop
  | create (w : World) (fs : List Flight) (r : Request) :
      Act ⟨w, fs⟩ (Posting.of (fun e => .created e.id) (w.advance (Run.create r).run).2)
        ⟨(w.advance (Run.create r).run).1, fs⟩
  | cancel (w : World) (fs : List Flight) (id : Uuid) :
      Act ⟨w, fs⟩ [] ⟨(w.advance (Run.cancel id).run).1, fs⟩
  /-- A run up to its runner, or to its end if it does not come so far. -/
  | call (w : World) (fs : List Flight) (settings : RunSettings) (id : Uuid) :
      Act ⟨w, fs⟩ (Posting.of (fun _ => .ran id) (w.advance (Run.run settings id).run).2)
        ⟨(w.advance (Run.run settings id).run).1,
          fs ++ Flight.of id (w.advance (Run.run settings id).run).2⟩
  /-- A run from its runner's reply on. -/
  | reply (w : World) (before : List Flight) (f : Flight) (after : List Flight) (r : Reply) :
      Act ⟨w, before ++ f :: after⟩ (Posting.of (fun _ => .ran f.id) (w.advance (f.next r)).2)
        ⟨(w.advance (f.next r)).1, before ++ Flight.of f.id (w.advance (f.next r)).2 ++ after⟩
  /-- Entities are stored, files change, and time passes. -/
  | edit (w : World) (fs : List Flight) (catalog : Catalog) (tree : FileTree) (now : Instant) :
      Act ⟨w, fs⟩ []
        ⟨{ w with store := { w.store with catalog := catalog }, tree := tree, now := now }, fs⟩

lemma Act.step [Libraries] {s t : Scene} {ds : List Posting} (h : Act s ds t) : Step s t := by
  cases h with
  | create w fs r => exact .create w fs r
  | cancel w fs id => exact .cancel w fs id
  | call w fs settings id => exact .call w fs settings id
  | reply w before f after r => exact .reply w before f after r
  | edit w fs catalog tree now => exact .other w _ fs rfl

/-! ### What an act can come to -/

/-- One record is written, and the others stay. -/
structure Puts (s : Scene) (id : Uuid) (e : Execution) (t : Scene) : Prop where
  record : t.record? id = some e
  elsewhere : ∀ k ≠ id, t.record? k = s.record? k

lemma Puts.of_put {s t : Scene} {id : Uuid} {e : Execution}
    (h : t.world.store.logbook = s.world.store.logbook.put id e) : s.Puts id e t where
  record := by rw [record?, h, Logbook.record?_put, if_pos rfl]
  elsewhere k hk := by rw [record?, h, (Logbook.put_elsewhere _ _ hk).1, record?]

lemma Puts.recorded_iff {s t : Scene} {id : Uuid} {e : Execution} (h : s.Puts id e t) (k : Uuid) :
    (∃ d, t.record? k = some d) ↔ k = id ∨ ∃ d, s.record? k = some d := by
  by_cases hk : k = id
  · subst hk
    exact iff_of_true ⟨e, h.record⟩ (.inl rfl)
  · rw [h.elsewhere k hk, or_iff_right hk]

/-- Where something else than pending is written, nothing comes to be pending. -/
lemma Puts.unpending {s t : Scene} {id : Uuid} {e : Execution} (h : s.Puts id e t)
    (hstatus : e.status ≠ .pending) {k : Uuid}
    (hold : k ≠ id → ∃ d, s.record? k = some d ∧ d.status ≠ .pending) :
    ∃ d, t.record? k = some d ∧ d.status ≠ .pending := by
  by_cases hk : k = id
  · exact ⟨e, hk ▸ h.record, hstatus⟩
  · rw [h.elsewhere k hk]
    exact hold hk

/-- What an act can come to, for records and for tokens. -/
inductive Comes (s : Scene) : List Posting → Scene → Prop
  | nothing {t : Scene} (hrecord : t.record? = s.record?)
      (hholds : ∀ k, t.world.Holds k ↔ s.world.Holds k) : Comes s [] t
  /-- An execution comes into being, with a token. -/
  | creation {t : Scene} {id : Uuid} {e : Execution} (hfree : s.record? id = none)
      (hputs : s.Puts id e t)
      (hholds : ∀ k, t.world.Holds k ↔ k = id ∨ s.world.Holds k) : Comes s [.created id] t
  /-- A pending execution begins, and claims the token. -/
  | beginning {t : Scene} {id : Uuid} {e d : Execution} (hrecord : s.record? id = some d)
      (hpending : d.status = .pending) (hputs : s.Puts id e t) (hstatus : e.status ≠ .pending)
      (hholds : ∀ k, t.world.Holds k ↔ k = id ∨ s.world.Holds k) : Comes s [] t
  /-- An execution is cancelled, and its token stays. -/
  | cancellation {t : Scene} {id : Uuid} {e d : Execution} (hrecord : s.record? id = some d)
      (hputs : s.Puts id e t) (hstatus : e.status ≠ .pending)
      (hholds : ∀ k, t.world.Holds k ↔ s.world.Holds k) : Comes s [] t
  /-- A run comes back, and has given the token back. -/
  | end {t : Scene} {id : Uuid} {e d : Execution} (hrecord : s.record? id = some d)
      (hputs : s.Puts id e t) (hstatus : e.status ≠ .pending)
      (hholds : ∀ k, t.world.Holds k ↔ k ≠ id ∧ s.world.Holds k) : Comes s [.ran id] t

section comes

variable {w : World} {fs : List Flight}

lemma comes_create (r : Request) : Comes ⟨w, fs⟩
    (Posting.of (fun e => .created e.id) (w.advance (Run.create r).run).2)
    ⟨(w.advance (Run.create r).run).1, fs⟩ := by
  rw [Run.advance_create_eq]
  cases Run.admission w.store.catalog r with
  | error fault => exact .nothing rfl fun _ => .rfl
  | ok _ =>
      dsimp only
      cases hr : w.store.logbook.record? w.nextId with
      | some d =>
          rw [Run.advance_enroll_taken r hr]
          exact .nothing rfl fun _ => .rfl
      | none =>
          rw [Run.advance_enroll r hr]
          have hstore := ((Run.recorded w r).perform_claimToken w.nextId).1
          exact .creation (e := Run.enrolled w r) hr (.of_put (congrArg Store.logbook hstore))
            ((Run.recorded w r).holds_claimToken w.nextId)

lemma comes_cancel (id : Uuid) :
    Comes ⟨w, fs⟩ [] ⟨(w.advance (Run.cancel id).run).1, fs⟩ := by
  have htokens := w.tokens_advance (Run.keepsTokens_cancel id)
  rcases Run.advance_cancel_cases w id with ⟨e, v, he, -, hv, hlog⟩ | ⟨-, fault, hv⟩
  · rw [hv] at htokens ⊢
    exact .cancellation he (.of_put hlog) (by simp [Execution.apply]) (World.Holds.congr htokens)
  · rw [hv]
    exact .nothing rfl fun _ => .rfl

section

variable [Libraries]

/-- The second half of a run whose record is there. -/
lemma comes_finish {s : Scene} {id : Uuid} {e d : Execution} (hs : s.record? id = some d)
    (hputs : s.Puts id e ⟨w, fs⟩) (howing : Owing e) (hrows : w.store.logbook.rowsOf id = [])
    (hholds : ∀ k, k ≠ id → (w.Holds k ↔ s.world.Holds k))
    (place : Except Refusal Path) (result : Except Error (Runner.Outcome × List Suite))
    (gs : List Flight) :
    Comes s (Posting.of (fun _ => .ran id) (w.advance (Run.finish id place result).run).2)
      ⟨(w.advance (Run.finish id place result).run).1, gs⟩ := by
  have htokens := Run.tokens_finish hputs.record place result
  obtain ⟨v, ended, hv, hrecord, hterminal, -, helse⟩ :=
    Run.advance_finish_consistent hputs.record howing hrows place result
  rw [hv] at htokens ⊢
  refine .end (e := ended) hs ⟨hrecord, fun k hk => ?_⟩ (Status.ne_of_isTerminal hterminal).1
    fun k => ?_
  · exact (helse k hk).1.trans (hputs.elsewhere k hk)
  · refine (World.holds_erase htokens k).trans ?_
    exact and_congr_right fun hk => hholds k hk

lemma comes_call (hs : Sound ⟨w, fs⟩) (settings : RunSettings) (id : Uuid) :
    Comes ⟨w, fs⟩ (Posting.of (fun _ => .ran id) (w.advance (Run.run settings id).run).2)
      ⟨(w.advance (Run.run settings id).run).1,
        fs ++ Flight.of id (w.advance (Run.run settings id).run).2⟩ := by
  have hholds : ∀ e k, (Run.begun w id e).Holds k ↔ k = id ∨ w.Holds k :=
    fun _ => w.holds_claimToken id
  have hstarts := Run.starts settings w id
  generalize w.advance (Run.run settings id).run = gone at hstarts ⊢
  cases hstarts with
  | @fails e he hpending tree fault =>
      obtain ⟨howing, hrows⟩ := hs.owing_running he hpending
      have hputs : Puts ⟨w, fs⟩ id (Run.running w e)
          ⟨{ Run.begun w id e with tree := tree }, fs⟩ := .of_put rfl
      refine comes_finish (s := ⟨w, fs⟩) he hputs howing hrows (fun k hk => ?_) _ _ _
      exact (hholds e k).trans (or_iff_right hk)
  | @waits e he hpending tree job next hafter =>
      have hstarted : (Run.running w e).status ≠ .pending := by
        simp [Run.running, Run.opening, Execution.apply]
      exact .beginning he hpending (.of_put rfl) hstarted (hholds e)
  | refused fault => exact .nothing rfl fun _ => .rfl
  | @declined e he hcancelled =>
      have hstatus : e.status ≠ .pending := by simp [hcancelled]
      exact .end (e := e) he ⟨he, fun _ _ => rfl⟩ hstatus (World.holds_erase rfl)

/-- With its reply a run comes back. -/
lemma comes_reply {before after : List Flight} {f : Flight}
    (hs : Sound ⟨w, before ++ f :: after⟩) (r : Reply) :
    Comes ⟨w, before ++ f :: after⟩ (Posting.of (fun _ => .ran f.id) (w.advance (f.next r)).2)
      ⟨(w.advance (f.next r)).1,
        before ++ Flight.of f.id (w.advance (f.next r)).2 ++ after⟩ := by
  have hmem : f ∈ before ++ f :: after := List.mem_append_right before List.mem_cons_self
  obtain ⟨e, he, howing, hrows, place, settings, suites, hclose⟩ := hs.due hmem
  rw [hclose]
  have hputs : Puts ⟨w, before ++ f :: after⟩ f.id e ⟨w, before ++ f :: after⟩ :=
    ⟨he, fun _ _ => rfl⟩
  exact comes_finish he hputs howing hrows (fun _ _ => .rfl) place _ _

end

end comes

lemma Act.comes [Libraries] {s t : Scene} {ds : List Posting} (h : Act s ds t) (hs : s.Sound) :
    s.Comes ds t := by
  cases h with
  | create w fs r => exact comes_create r
  | cancel w fs id => exact comes_cancel id
  | call w fs settings id => exact comes_call hs settings id
  | reply w before f after r => exact comes_reply hs r
  | edit w fs catalog tree now => exact .nothing rfl fun _ => .rfl

end Scene

/-! ## Postings and tokens -/

/-- What is known of a scene from the postings that led to it. -/
structure Accounted (ds : List Posting) (s : Scene) : Prop where
  created : ∀ id, Posting.created id ∈ ds ↔ ∃ e, s.record? id = some e
  /-- What a run has come back from is there, and is not pending. -/
  ran : ∀ id, Posting.ran id ∈ ds → ∃ e, s.record? id = some e ∧ e.status ≠ .pending
  held : ∀ id, s.world.Holds id ↔ Posting.created id ∈ ds ∧ Posting.ran id ∉ ds

namespace Accounted

variable {s t : Scene} {ds es : List Posting}

/-- What is pending has a token. -/
lemma holds_pending (h : Accounted ds s) {id : Uuid} {e : Execution} (he : s.record? id = some e)
    (hpending : e.status = .pending) : s.world.Holds id := by
  refine (h.held id).mpr ⟨(h.created id).mpr ⟨e, he⟩, fun hran => ?_⟩
  obtain ⟨d, hd, hstatus⟩ := h.ran id hran
  cases he.symm.trans hd
  exact hstatus hpending

/-- Where a record that is there is written anew, nothing comes into being. -/
lemma created_puts (h : Accounted ds s) {id : Uuid} {e d : Execution}
    (hrecord : s.record? id = some d) (hputs : s.Puts id e t) (k : Uuid) :
    Posting.created k ∈ ds ↔ ∃ c, t.record? k = some c := by
  rw [h.created k, hputs.recorded_iff k]
  refine (or_iff_right_of_imp ?_).symm
  rintro rfl
  exact ⟨d, hrecord⟩

/-- A record that is there is written anew, and is not pending then. -/
lemma rewrite (h : Accounted ds s) {id : Uuid} {e d : Execution} (hrecord : s.record? id = some d)
    (hputs : s.Puts id e t) (hstatus : e.status ≠ .pending)
    (hholds : ∀ k, t.world.Holds k ↔ s.world.Holds k) : Accounted ds t where
  created := h.created_puts hrecord hputs
  ran k hran := hputs.unpending hstatus fun _ => h.ran k hran
  held k := (hholds k).trans (h.held k)

/-- An execution comes into being, with a token. -/
lemma create (h : Accounted ds s) {id : Uuid} {e : Execution} (hfree : s.record? id = none)
    (hputs : s.Puts id e t) (hholds : ∀ k, t.world.Holds k ↔ k = id ∨ s.world.Holds k) :
    Accounted (ds ++ [.created id]) t := by
  have hunrun : Posting.ran id ∉ ds := by
    intro hran
    obtain ⟨d, hd, -⟩ := h.ran id hran
    cases hfree.symm.trans hd
  have hcreated : ∀ k, Posting.created k ∈ ds ++ [.created id] ↔ k = id ∨ .created k ∈ ds := by
    simp [or_comm]
  have hran : ∀ k, Posting.ran k ∈ ds ++ [.created id] ↔ .ran k ∈ ds := by simp
  constructor
  case created =>
    intro k
    rw [hcreated, hputs.recorded_iff k, h.created k]
  case ran =>
    intro k hmem
    have hold := (hran k).mp hmem
    have hk : k ≠ id := by
      rintro rfl
      exact hunrun hold
    rw [hputs.elsewhere k hk]
    exact h.ran k hold
  case held =>
    intro k
    rw [hholds k, h.held k, hcreated, hran]
    by_cases hk : k = id
    · subst hk
      exact iff_of_true (.inl rfl) ⟨.inl rfl, hunrun⟩
    · rw [or_iff_right hk, or_iff_right hk]

/-- A run comes back, and the token is given back. -/
lemma run (h : Accounted ds s) {id : Uuid} {e d : Execution} (hrecord : s.record? id = some d)
    (hputs : s.Puts id e t) (hstatus : e.status ≠ .pending)
    (hholds : ∀ k, t.world.Holds k ↔ k ≠ id ∧ s.world.Holds k) :
    Accounted (ds ++ [.ran id]) t := by
  have hcreated : ∀ k, Posting.created k ∈ ds ++ [.ran id] ↔ .created k ∈ ds := by simp
  have hran : ∀ k, Posting.ran k ∈ ds ++ [.ran id] ↔ k = id ∨ .ran k ∈ ds := by simp [or_comm]
  constructor
  case created => exact fun k => (hcreated k).trans (h.created_puts hrecord hputs k)
  case ran =>
    intro k hmem
    exact hputs.unpending hstatus fun hk => h.ran k (((hran k).mp hmem).resolve_left hk)
  case held =>
    intro k
    rw [hholds k, h.held k, hcreated, hran, not_or]
    exact and_left_comm

/-- **Each step keeps the account.** -/
theorem comes (h : Accounted ds s) (hcomes : s.Comes es t) : Accounted (ds ++ es) t := by
  cases hcomes with
  | nothing hrecord hholds =>
      rw [List.append_nil]
      constructor
      case created => simpa only [hrecord] using h.created
      case ran => simpa only [hrecord] using h.ran
      case held => exact fun k => (hholds k).trans (h.held k)
  | creation hfree hputs hholds => exact h.create hfree hputs hholds
  | @beginning t id e d hrecord hpending hputs hstatus hholds =>
      rw [List.append_nil]
      refine h.rewrite hrecord hputs hstatus fun k => (hholds k).trans ?_
      -- The token that is claimed is the one from the creation.
      refine or_iff_right_of_imp ?_
      rintro rfl
      exact h.holds_pending hrecord hpending
  | cancellation hrecord hputs hstatus hholds =>
      rw [List.append_nil]
      exact h.rewrite hrecord hputs hstatus hholds
  | «end» hrecord hputs hstatus hholds => exact h.run hrecord hputs hstatus hholds

end Accounted

/-- What is posted while a scene changes step by step. -/
inductive Ledger [Libraries] (start : Scene) : List Posting → Scene → Prop
  | start : Ledger start [] start
  | next {ds es : List Posting} {s t : Scene} (h : Ledger start ds s) (act : s.Act es t) :
      Ledger start (ds ++ es) t

namespace Ledger

variable {start s : Scene} {ds : List Posting}

section

variable [Libraries]

lemma sound (h : Ledger start ds s) (hstart : start.Initial) : s.Sound := by
  induction h with
  | start => exact hstart.sound
  | next _ act ih => exact ih.changes (act.step.changes ih)

lemma accounted (h : Ledger start ds s) (hstart : start.Initial)
    (htokens : start.world.tokens = .empty) : Accounted ds s := by
  induction h with
  | start =>
      constructor
      case created =>
        simp [Scene.record?, hstart.1, Logbook.empty, Logbook.record?, Table.get?_empty]
      case ran => simp
      case held => simp [World.Holds, htokens, Table.keys, Table.empty]
  | next h act ih => exact ih.comes (act.comes (h.sound hstart))

/-- **Tokens are given back.**  However calls overlap, the tokens that are held are those of the
executions that were created and that no run has come back from.  So none is held once a run of
each execution has come back. -/
theorem tokens_exact (h : Ledger start ds s) (hstart : start.Initial)
    (htokens : start.world.tokens = .empty) :
    (∀ id, id ∈ s.world.tokens.keys ↔ Posting.created id ∈ ds ∧ Posting.ran id ∉ ds)
      ∧ ((∀ id, Posting.created id ∈ ds → Posting.ran id ∈ ds) → s.world.tokens.keys = []) := by
  have hheld := (h.accounted hstart htokens).held
  refine ⟨hheld, fun hall => List.eq_nil_iff_forall_not_mem.mpr fun id hid => ?_⟩
  obtain ⟨hcreated, hunrun⟩ := (hheld id).mp hid
  exact hunrun (hall id hcreated)

end

section

open scoped Libraries.Lenient

/-- Of two executions the first one has been run, and has failed before it had a runner. -/
theorem tokens_exact_second :
    ∃ ds s, Ledger ⟨Run.demoWorld, []⟩ ds s ∧ Posting.ran ⟨1⟩ ∈ ds
      ∧ ∀ id, id ∈ s.world.tokens.keys ↔ id = ⟨2⟩ := by
  let settings : RunSettings := ⟨⟨"/work"⟩, 1000, .standard⟩
  let first : World := (Run.demoWorld.advance (Run.create (.forProject ⟨5⟩)).run).1
  let second : World := (first.advance (Run.create (.forProject ⟨5⟩)).run).1
  have hfirst : Ledger ⟨Run.demoWorld, []⟩ [.created ⟨1⟩] ⟨first, []⟩ :=
    .next .start (.create Run.demoWorld [] (.forProject ⟨5⟩))
  have hsecond : Ledger ⟨Run.demoWorld, []⟩ [.created ⟨1⟩, .created ⟨2⟩] ⟨second, []⟩ :=
    .next hfirst (.create first [] (.forProject ⟨5⟩))
  have hran : Posting.of (fun _ => .ran ⟨1⟩) (second.advance (Run.run settings ⟨1⟩).run).2
      = [.ran ⟨1⟩] := by decide +kernel
  obtain ⟨ended, hact⟩ : ∃ t, Scene.Act ⟨second, []⟩ [.ran ⟨1⟩] t :=
    ⟨_, hran ▸ Scene.Act.call second [] settings ⟨1⟩⟩
  have hledger := hsecond.next hact
  refine ⟨_, ended, hledger, by decide, fun id => ?_⟩
  rw [(hledger.tokens_exact ⟨rfl, rfl⟩ rfl).1 id]
  simp only [List.cons_append, List.nil_append, List.mem_cons, Posting.created.injEq,
    Posting.ran.injEq, reduceCtorEq, List.not_mem_nil, or_false, false_or]
  constructor
  · rintro ⟨rfl | rfl, hne⟩
    · exact absurd rfl hne
    · rfl
  · rintro rfl
    exact ⟨.inr rfl, by decide⟩

end

end Ledger

end Rehearsal
