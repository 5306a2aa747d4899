import Mathlib
import Rehearsal.Proofs.Sweep

/-!
# What a sweep removes

A workspace has expired once its age has reached the retention.  A sweep does not compute ages: it
compares with one moment, and neither that moment nor the retention can be any number.

* `Due`: a workspace has expired, **in numbers without bounds**.
* `Reaches`: the retention reaches back to a time that can be told.
* `expired_iff_due`: then a sweep goes by the age alone.
* `run_removes`: what is removed, and what is not.
* `run_removes_undue`: a retention that reaches back further keeps less than a shorter one.
-/

namespace Rehearsal.Sweep

/-- The greatest number of seconds that a time can have. -/
def lastSecond : Int := 0x7FFFFFFFFFFFFFFF

/-- A time whose seconds are a number that a time can have. -/
def Told (t : Int) : Prop := minSeconds ≤ t / second ∧ t / second ≤ lastSecond

instance (t : Int) : Decidable (Told t) := inferInstanceAs (Decidable (_ ∧ _))

/-- A directory that has the name of a workspace. -/
structure Candidate (f : Found) : Prop where
  name : ∃ s, f.name = Text.Utf8.encode s ∧ Run.workspaceStart.toList <+: s.toList
  directory : f.kind = .directory

/-- A workspace whose age has reached the retention. -/
structure Due (now : Int) (hours : Nat) (f : Found) : Prop where
  candidate : Candidate f
  age : hours * 3600 * second ≤ now - f.modified

/-- The retention reaches back to a time that can be told. -/
def Reaches (now : Int) (hours : Nat) : Prop := minSeconds ≤ (now - hours * 3600 * second) / second

instance (now : Int) (hours : Nat) : Decidable (Reaches now hours) :=
  inferInstanceAs (Decidable (_ ≤ _))

variable {now : Int} {hours : Nat} {found : List Found} {f : Found}

lemma candidate_iff : Candidate f ↔ (isWorkspace f.name && f.kind == .directory) = true := by
  rw [Bool.and_eq_true, isWorkspace_iff, beq_iff_eq]
  exact ⟨fun h => ⟨h.name, h.directory⟩, fun h => ⟨h.1, h.2⟩⟩

lemma due_iff : Due now hours f ↔ Candidate f ∧ hours * 3600 * second ≤ now - f.modified :=
  ⟨fun h => ⟨h.candidate, h.age⟩, fun h => ⟨h.1, h.2⟩⟩

instance (f : Found) : Decidable (Candidate f) := decidable_of_iff' _ candidate_iff

instance (now : Int) (hours : Nat) (f : Found) : Decidable (Due now hours f) :=
  decidable_of_iff' _ due_iff

lemma expired_iff : expired now hours f = true ↔ Candidate f ∧ f.modified ≤ cutoff now hours := by
  rw [expired, Bool.and_eq_true, ← candidate_iff, decide_eq_true_iff]

/-! ## The moment that decides -/

/-- As long as no number has to be cut off, the moment that decides is the one that is meant. -/
lemma cutoff_of_reaches (hnow : Told now) (h : Reaches now hours) :
    cutoff now hours = now - hours * 3600 * second := by
  obtain ⟨-, hlast⟩ := hnow
  simp only [Reaches, minSeconds, lastSecond, second] at h hlast
  simp only [cutoff, retentionSeconds, maxSeconds, minSeconds, second]
  split_ifs <;> omega

/-- Otherwise it is the epoch, or earlier still in the last second that there is. -/
lemma cutoff_of_not_reaches (hnow : Told now) (h : ¬Reaches now hours) :
    cutoff now hours ≤ 0 ∧ (now / second < lastSecond → cutoff now hours = 0) := by
  obtain ⟨-, hlast⟩ := hnow
  simp only [Reaches, minSeconds, lastSecond, second] at h hlast ⊢
  simp only [cutoff, retentionSeconds, maxSeconds, minSeconds, second]
  split_ifs <;> omega

lemma Reaches.mono {longer : Nat} (h : Reaches now longer) (hle : hours ≤ longer) :
    Reaches now hours := by
  simp only [Reaches, minSeconds, second] at h ⊢
  omega

/-- A sweep goes by the age alone, **unless the retention reaches back too far and the workspace has
not changed since the epoch**. -/
lemma expired_iff_due (hnow : Told now) (h : Reaches now hours ∨ 0 < f.modified) :
    expired now hours f = true ↔ Due now hours f := by
  rw [expired_iff, due_iff]
  refine and_congr_right fun _ => ?_
  by_cases hreaches : Reaches now hours
  · rw [cutoff_of_reaches hnow hreaches]
    exact le_sub_comm
  · have hcutoff := (cutoff_of_not_reaches hnow hreaches).1
    have hchanged := h.resolve_left hreaches
    simp only [Reaches, minSeconds, second] at hreaches ⊢
    omega

/-- Nothing is as old as a retention that reaches back further than times can be told. -/
lemma not_due (h : ¬Reaches now hours) (hf : Told f.modified) : ¬Due now hours f := by
  rintro ⟨-, hage⟩
  obtain ⟨hfirst, -⟩ := hf
  simp only [Reaches, minSeconds, second] at h hfirst hage
  omega

lemma Due.mono {longer : Nat} (h : Due now longer f) (hle : hours ≤ longer) : Due now hours f := by
  refine ⟨h.candidate, le_trans ?_ h.age⟩
  simp only [second]
  omega

/-! ## What is removed -/

lemma sweep_eq {p : Found → Prop} [DecidablePred p]
    (h : ∀ f ∈ found, expired now hours f = true ↔ p f) :
    sweep now hours found = (found.countP (p ·), found.filter (¬p ·)) := by
  have hcount : found.countP (expired now hours) = found.countP (p ·) :=
    List.countP_congr fun f hf => by simpa using h f hf
  have hfilter : (found.filter fun f => !expired now hours f) = found.filter (¬p ·) :=
    List.filter_congr fun f hf => by simp [← h f hf]
  rw [sweep, hcount, hfilter]

/-- **What a sweep removes**, and that it counts what it removes and leaves the rest as it is.

* As long as the retention reaches back to a time that can be told, or everything has changed since
  the epoch, exactly the workspaces that are due are removed.
* Otherwise nothing is due, and the workspaces that have not changed since the epoch are removed
  all the same.
* A longer retention keeps whatever a shorter one keeps, if it is of the first kind. -/
theorem run_removes (path : Path) (hnow : Told now) :
    (Reaches now hours ∨ (∀ f ∈ found, 0 < f.modified) →
        run path now hours (.entries found)
          = (.ok (found.countP (Due now hours ·)), .entries (found.filter (¬Due now hours ·))))
      ∧ (¬Reaches now hours → (∀ f ∈ found, Told f.modified) →
        (∀ f ∈ found, ¬Due now hours f)
          ∧ cutoff now hours ≤ 0 ∧ (now / second < lastSecond → cutoff now hours = 0)
          ∧ run path now hours (.entries found)
            = (.ok (found.countP fun f => Candidate f ∧ f.modified ≤ cutoff now hours),
              .entries (found.filter fun f => ¬(Candidate f ∧ f.modified ≤ cutoff now hours))))
      ∧ ∀ longer, hours ≤ longer → Reaches now longer ∨ (∀ f ∈ found, 0 < f.modified) →
        (sweep now longer found).1 ≤ (sweep now hours found).1
          ∧ (sweep now hours found).2 ⊆ (sweep now longer found).2 := by
  refine ⟨fun h => ?_, fun hreaches htold => ?_, fun longer hle h => ?_⟩
  · have hdue : ∀ f ∈ found, expired now hours f = true ↔ Due now hours f :=
      fun f hf => expired_iff_due hnow (h.imp_right fun hall => hall f hf)
    rw [run, sweep_eq hdue]
  · obtain ⟨hcutoff, hepoch⟩ := cutoff_of_not_reaches hnow hreaches
    refine ⟨fun f hf => not_due hreaches (htold f hf), hcutoff, hepoch, ?_⟩
    rw [run, sweep_eq fun f _ => expired_iff]
  · have hexpired : ∀ f ∈ found, expired now longer f = true → expired now hours f = true := by
      intro f hf hlonger
      have hchanged : Reaches now longer ∨ 0 < f.modified := h.imp_right fun hall => hall f hf
      have hdue := (expired_iff_due hnow hchanged).mp hlonger
      exact (expired_iff_due hnow (hchanged.imp_left fun h => h.mono hle)).mpr (hdue.mono hle)
    refine ⟨List.countP_mono_left hexpired, fun f hf => ?_⟩
    rw [mem_sweep, Bool.eq_false_iff] at hf ⊢
    exact ⟨hf.1, fun hlonger => hf.2 (hexpired f hf.1 hlonger)⟩

/-- Four entries at some time: a workspace of two days, a new one, something else, and a directory
whose name is no text. -/
def motley (now : Int) : List Found :=
  [⟨Text.Utf8.encode "test_old", .directory, now - 48 * 3600 * second⟩,
    ⟨Text.Utf8.encode "test_new", .directory, now⟩,
    ⟨Text.Utf8.encode "keep_me", .directory, 0⟩,
    ⟨[0x74, 0x65, 0x73, 0x74, 0x5F, 0xFF], .directory, 0⟩]

/-- A day later than its last change, a workspace goes. -/
theorem run_removes_old :
    Told (1780000000 * second) ∧ Reaches (1780000000 * second) 24
      ∧ run ⟨"/work"⟩ (1780000000 * second) 24 (.entries (motley (1780000000 * second)))
        = (.ok 1, .entries (motley (1780000000 * second)).tail) := by
  have hnow : Told (1780000000 * second) := by
    decide
  have hreaches : Reaches (1780000000 * second) 24 := by
    decide
  refine ⟨hnow, hreaches, ?_⟩
  rw [(run_removes ⟨"/work"⟩ hnow).1 (.inl hreaches)]
  decide +kernel

/-- **The longest retention there is removes a workspace that is not due**, and that a shorter one
keeps. -/
theorem run_removes_undue :
    ∃ (now : Int) (hours shorter : Nat) (f : Found),
      Told now ∧ Told f.modified ∧ hours < 0x10000000000000000 ∧ shorter < hours
        ∧ ¬Due now hours f
        ∧ run ⟨"/work"⟩ now hours (.entries [f]) = (.ok 1, .entries [])
        ∧ run ⟨"/work"⟩ now shorter (.entries [f]) = (.ok 0, .entries [f]) := by
  refine ⟨1780000000 * second, 0xFFFFFFFFFFFFFFFF, 1000000,
    ⟨Text.Utf8.encode "test_old", .directory, 1780000000 * second - 2000000000 * second⟩,
    ?_, ?_, ?_, ?_, ?_, ?_, ?_⟩
  all_goals decide +kernel

end Rehearsal.Sweep
