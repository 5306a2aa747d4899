import Mathlib
import Rehearsal.Page
import Rehearsal.Event
import Rehearsal.Proofs.Fallible
import Rehearsal.Proofs.Json.Stable
import Rehearsal.Proofs.Instant
import Rehearsal.Proofs.Uuid

/-!
# What is stored is read again

Pages, steps, suites, projects, executions, their results and the messages about them are read from
documents in many spellings and written in one.  For each of them the reader and the writer fit
together (`Page.stable` and its like), since they do so for each field: the lemma of a record takes
the reader apart, states what becomes of every field, and puts the reader together again.

* `SelectorMap.stable`: the selectors of a page come back **in their order**.
* `Event.keeps`: an event is read again among the fields of a message, by the reader that its
  type names.
* `documents_stable`: all of them, for documents.

Two things must be said of what was read.  Untyped values are to be whole, since other numbers are
not treated here, and points in time are to be of years with four digits, since others are
written with a sign (`Suite.Whole`, `Execution.Fine`, `Message.Dated`).
-/

namespace Rehearsal

open Json

/-! ## Identifiers, times and names -/

lemma Uuid.stable : Stable 0 Uuid.reader Uuid.toValue fun _ => True := by
  intro room n u _ _ _
  refine ⟨whole_str _, ?_⟩
  simp only [toValue, Value.toNode, reader, Reader.string, Option.bind_eq_bind, Option.bind_some,
    parse?_text]

lemma Uuid.solid : Solid Uuid.reader Uuid.toValue := solid_of_ne fun _ => Node.noConfusion

lemma Instant.stable : Stable 0 Instant.reader Instant.toValue Instant.Dated := by
  intro room n t _ h hdated
  obtain ⟨s, -, hs⟩ := Option.bind_eq_some_iff.mp h
  refine ⟨whole_str _, ?_⟩
  simp only [toValue, Value.toNode, reader, Reader.string, Option.bind_eq_bind, Option.bind_some,
    parse?_text (sound_of_parse? hs) hdated]

lemma Instant.solid : Solid Instant.reader Instant.toValue := solid_of_ne fun _ => Node.noConfusion

lemma Status.stable : Stable 0 Status.reader Status.toValue fun _ => True :=
  stable_enumerated fun s => by cases s <;> rfl

lemma Browser.stable : Stable 0 Browser.reader Browser.toValue fun _ => True :=
  stable_enumerated fun b => by cases b <;> rfl

/-! ## Pages -/

lemma SelectorKind.stable : Stable 0 (Reader.enumerated SelectorKind.parse?)
    (fun k => .str k.label) fun _ => True :=
  stable_enumerated fun k => by cases k <;> rfl

lemma Selector.stable : Stable 1 Selector.reader Selector.toValue fun _ => True := by
  refine Stable.record (fun _ => ⟨rfl, by decide⟩) ?_
  intro es w hl hroom h _
  simp only [Option.bind_eq_bind, Option.bind_eq_some_iff, Option.pure_def, Option.some.injEq] at h
  obtain ⟨kind, hkind, value, hvalue, rfl⟩ := h
  -- each field comes back, and the record is made of them as it was made before
  have kkind := SelectorKind.stable.required hl hkind trivial hroom rfl
  have kvalue := stable_string.required hl hvalue trivial hroom rfl
  refine ⟨?_, ?_⟩
  · simp only [List.forall_mem_cons]
    exact ⟨kkind.whole, kvalue.whole, by simp⟩
  · simp only [kkind.reads, kvalue.reads, Option.bind_eq_bind, Option.bind_some, Option.pure_def]

lemma WaitCondition.stable :
    Stable 1 WaitCondition.reader WaitCondition.toValue fun _ => True := by
  refine Stable.record (fun _ => ⟨rfl, by decide⟩) ?_
  intro es w hl hroom h _
  simp only [Option.bind_eq_bind, Option.bind_eq_some_iff, Option.pure_def, Option.some.injEq] at h
  obtain ⟨selector, hselector, condition, hcondition, timeout, htimeout, rfl⟩ := h
  have kselector := stable_string.required hl hselector trivial hroom rfl
  have kcondition := stable_string.required hl hcondition trivial hroom rfl
  have ktimeout := stable_word32.defaulted hl htimeout trivial hroom
    ⟨⟨by decide, by decide⟩, rfl⟩ rfl
  refine ⟨?_, ?_⟩
  · simp only [List.forall_mem_cons]
    exact ⟨kselector.whole, kcondition.whole, ktimeout.whole, by simp⟩
  · simp only [kselector.reads, kcondition.reads, ktimeout.reads, Option.bind_eq_bind,
      Option.bind_some, Option.pure_def]

/-- A map has the entries that were put into it, in their order. -/
lemma SelectorMap.entries_of_insertAll {m m' : SelectorMap} {es : List (String × Selector)}
    (h : m.insertAll es = (m', .ok ())) : m'.entries = m.entries ++ es := by
  induction es generalizing m with
  | nil =>
      cases h
      exact (List.append_nil _).symm
  | cons e es ih =>
      obtain ⟨name, s⟩ := e
      rw [SelectorMap.insertAll, SelectorMap.insert] at h
      split_ifs at h with hname
      · cases h
      · rw [ih h, List.append_assoc, List.singleton_append]

lemma SelectorMap.entries_of_ofEntries? {m : SelectorMap} {es : List (String × Selector)}
    (h : ofEntries? es = some m) : m.entries = es := by
  rw [ofEntries?] at h
  split at h
  next hall =>
    cases h
    exact entries_of_insertAll hall
  next => cases h

/-- **The order of selectors is kept.** -/
lemma SelectorMap.stable : Stable 2 SelectorMap.reader SelectorMap.toValue fun _ => True := by
  intro room n m hneed h _
  obtain ⟨raw, hraw, hm⟩ := Option.bind_eq_some_iff.mp h
  have hentries : m.entries = raw := entries_of_ofEntries? hm
  obtain ⟨hwhole, hreads⟩ := Selector.stable.restores_entries hneed hraw (List.Subset.refl raw)
    fun _ _ => trivial
  rw [← hentries] at hwhole hreads hm
  exact ⟨hwhole, Option.bind_eq_some_iff.mpr ⟨_, hreads, hm⟩⟩

lemma SelectorMap.restores_empty {room : Nat} (h : 0 < room) :
    Restores SelectorMap.reader room empty.toValue empty := by
  obtain ⟨room, rfl⟩ := Nat.exists_eq_add_of_le' h
  exact ⟨by simp [toValue, empty], rfl⟩

lemma Page.stable : Stable 3 Page.reader Page.toValue fun _ => True := by
  refine Stable.record (fun _ => ⟨rfl, by decide⟩) ?_
  intro es p hl hroom h _
  simp only [Option.bind_eq_bind, Option.bind_eq_some_iff, Option.pure_def, Option.some.injEq] at h
  obtain ⟨id, hid, name, hname, pattern, hpattern, description, hdescription, selectors,
    hselectors, conditions, hconditions, frame, hframe, rfl⟩ := h
  have hroom0 : 0 ≤ es.room := Nat.zero_le _
  have kid := Uuid.stable.required hl hid trivial hroom0 rfl
  have kname := stable_string.required hl hname trivial hroom0 rfl
  have kpattern := stable_string.required hl hpattern trivial hroom0 rfl
  have kdescription := stable_string.optional solid_string hl hdescription (fun _ _ => trivial)
    hroom0 rfl
  have kselectors := SelectorMap.stable.defaulted hl hselectors trivial hroom
    (SelectorMap.restores_empty (Nat.lt_of_lt_of_le (by decide) hroom)) rfl
  have kconditions := WaitCondition.stable.list.omitted hl hconditions (fun _ _ => trivial) hroom
    List.isEmpty_iff rfl
  have kframe := stable_string.optional solid_string hl hframe (fun _ _ => trivial) hroom0 rfl
  refine ⟨?_, ?_⟩
  · simp only [List.forall_mem_cons]
    exact ⟨kid.whole, kname.whole, kpattern.whole, kdescription.whole, kselectors.whole,
      kconditions.whole, kframe.whole, by simp⟩
  · simp only [kid.reads, kname.reads, kpattern.reads, kdescription.reads, kselectors.reads,
      kconditions.reads, kframe.reads, Option.bind_eq_bind, Option.bind_some, Option.pure_def]

/-! ## Suites -/

lemma StoredStep.stable : Stable 1 StoredStep.reader StoredStep.toValue fun _ => True := by
  refine Stable.record (fun _ => ⟨rfl, by decide⟩) ?_
  intro es s hl hroom h _
  simp only [Option.bind_eq_bind, Option.bind_eq_some_iff, Option.pure_def, Option.some.injEq] at h
  obtain ⟨action, haction, selector, hselector, value, hvalue, description, hdescription, page,
    hpage, rfl⟩ := h
  have kaction := stable_string.required hl haction trivial hroom rfl
  have kselector := stable_string.required hl hselector trivial hroom rfl
  have kvalue := stable_string.optional solid_string hl hvalue (fun _ _ => trivial) hroom rfl
  have kdescription := stable_string.optional solid_string hl hdescription (fun _ _ => trivial)
    hroom rfl
  have kpage := Uuid.stable.optional Uuid.solid hl hpage (fun _ _ => trivial) hroom rfl
  refine ⟨?_, ?_⟩
  · simp only [List.forall_mem_cons]
    exact ⟨kaction.whole, kselector.whole, kvalue.whole, kdescription.whole, kpage.whole, by simp⟩
  · simp only [kaction.reads, kselector.reads, kvalue.reads, kdescription.reads, kpage.reads,
      Option.bind_eq_bind, Option.bind_some, Option.pure_def]

lemma Expectation.stable :
    Stable 1 Expectation.reader Expectation.toValue fun e => e.expected.Whole := by
  refine Stable.record (fun _ => ⟨rfl, by decide⟩) ?_
  intro es e hl hroom h hwhole
  simp only [Option.bind_eq_bind, Option.bind_eq_some_iff, Option.pure_def, Option.some.injEq] at h
  obtain ⟨selector, hselector, expected, hexpected, comparison, hcomparison, rfl⟩ := h
  have kselector := stable_string.required hl hselector trivial hroom rfl
  have kexpected := stable_value.required hl hexpected hwhole hroom rfl
  have kcomparison := stable_string.defaulted hl hcomparison trivial hroom
    ⟨whole_str _, rfl⟩ rfl
  refine ⟨?_, ?_⟩
  · simp only [List.forall_mem_cons]
    exact ⟨kselector.whole, kexpected.whole, kcomparison.whole, by simp⟩
  · simp only [kselector.reads, kexpected.reads, kcomparison.reads, Option.bind_eq_bind,
      Option.bind_some, Option.pure_def]

/-- The untyped values of a case are whole. -/
def Case.Whole (c : Case) : Prop := ∀ es ∈ c.expectations, ∀ e ∈ es, e.expected.Whole

instance : DecidablePred Case.Whole := fun _ => inferInstanceAs (Decidable (∀ es ∈ _, _))

lemma Case.stable : Stable 3 Case.reader Case.toValue Case.Whole := by
  refine Stable.record (fun _ => ⟨rfl, by decide⟩) ?_
  intro es c hl hroom h hwhole
  simp only [Option.bind_eq_bind, Option.bind_eq_some_iff, Option.pure_def, Option.some.injEq] at h
  obtain ⟨id, hid, name, hname, description, hdescription, steps, hsteps, before, hbefore, after,
    hafter, expectations, hexpectations, enabled, henabled, rfl⟩ := h
  have hroom0 : 0 ≤ es.room := Nat.zero_le _
  have kid := Uuid.stable.required hl hid trivial hroom0 rfl
  have kname := stable_string.required hl hname trivial hroom0 rfl
  have kdescription := stable_string.optional solid_string hl hdescription (fun _ _ => trivial)
    hroom0 rfl
  have ksteps := StoredStep.stable.list.defaulted hl hsteps (fun _ _ => trivial) hroom
    (restores_nil (Nat.lt_of_lt_of_le (by decide) hroom)) rfl
  have kbefore := StoredStep.stable.list.optional solid_list hl hbefore (fun _ _ _ _ => trivial)
    hroom rfl
  have kafter := StoredStep.stable.list.optional solid_list hl hafter (fun _ _ _ _ => trivial)
    hroom rfl
  have kexpectations := Expectation.stable.list.optional solid_list hl hexpectations hwhole
    hroom rfl
  have kenabled := stable_bool.defaulted hl henabled trivial hroom0 ⟨whole_bool _, rfl⟩ rfl
  refine ⟨?_, ?_⟩
  · simp only [List.forall_mem_cons]
    exact ⟨kid.whole, kname.whole, kdescription.whole, ksteps.whole, kbefore.whole, kafter.whole,
      kexpectations.whole, kenabled.whole, by simp⟩
  · simp only [kid.reads, kname.reads, kdescription.reads, ksteps.reads, kbefore.reads,
      kafter.reads, kexpectations.reads, kenabled.reads, Option.bind_eq_bind, Option.bind_some,
      Option.pure_def]

/-- The untyped values of a suite are whole. -/
@[mk_iff] structure Suite.Whole (s : Suite) : Prop where
  configuration : ∀ m ∈ s.configuration, m.2.Whole
  cases : ∀ c ∈ s.cases, c.Whole

instance : DecidablePred Suite.Whole := fun s => decidable_of_iff' _ (Suite.whole_iff s)

lemma Suite.stable : Stable 5 Suite.reader Suite.toValue Suite.Whole := by
  refine Stable.record (fun _ => ⟨rfl, by decide⟩) ?_
  intro es s hl hroom h hwhole
  simp only [Option.bind_eq_bind, Option.bind_eq_some_iff, Option.pure_def, Option.some.injEq] at h
  obtain ⟨id, hid, project, hproject, name, hname, description, hdescription, configuration,
    hconfiguration, cases, hcases, rfl⟩ := h
  have hroom0 : 0 ≤ es.room := Nat.zero_le _
  have hroom1 : 1 ≤ es.room := Nat.le_trans (by decide) hroom
  have kid := Uuid.stable.required hl hid trivial hroom0 rfl
  have kproject := Uuid.stable.required hl hproject trivial hroom0 rfl
  have kname := stable_string.required hl hname trivial hroom0 rfl
  have kdescription := stable_string.optional solid_string hl hdescription (fun _ _ => trivial)
    hroom0 rfl
  have kconfiguration := stable_bag.defaulted hl hconfiguration hwhole.configuration hroom1
    (restores_empty hroom1) rfl
  have kcases := Case.stable.list.defaulted hl hcases hwhole.cases hroom (restores_nil hroom1) rfl
  refine ⟨?_, ?_⟩
  · simp only [List.forall_mem_cons]
    exact ⟨kid.whole, kproject.whole, kname.whole, kdescription.whole, kconfiguration.whole,
      kcases.whole, by simp⟩
  · simp only [kid.reads, kproject.reads, kname.reads, kdescription.reads, kconfiguration.reads,
      kcases.reads, Option.bind_eq_bind, Option.bind_some, Option.pure_def]

lemma Project.stable : Stable 2 Project.reader Project.toValue fun _ => True := by
  refine Stable.record (fun _ => ⟨rfl, by decide⟩) ?_
  intro es p hl hroom h _
  simp only [Option.bind_eq_bind, Option.bind_eq_some_iff, Option.pure_def, Option.some.injEq] at h
  obtain ⟨id, hid, name, hname, description, hdescription, suites, hsuites, rfl⟩ := h
  have hroom0 : 0 ≤ es.room := Nat.zero_le _
  have kid := Uuid.stable.required hl hid trivial hroom0 rfl
  have kname := stable_string.required hl hname trivial hroom0 rfl
  have kdescription := stable_string.optional solid_string hl hdescription (fun _ _ => trivial)
    hroom0 rfl
  have ksuites := Uuid.stable.list.defaulted hl hsuites (fun _ _ => trivial) hroom
    (restores_nil hroom) rfl
  refine ⟨?_, ?_⟩
  · simp only [List.forall_mem_cons]
    exact ⟨kid.whole, kname.whole, kdescription.whole, ksuites.whole, by simp⟩
  · simp only [kid.reads, kname.reads, kdescription.reads, ksuites.reads, Option.bind_eq_bind,
      Option.bind_some, Option.pure_def]

/-! ## Executions -/

/-- The runner's document is whole, and the points in time are of the years that are read. -/
@[mk_iff] structure Execution.Fine (e : Execution) : Prop where
  results : ∀ v ∈ e.results, v.Whole
  startTime : ∀ t ∈ e.startTime, t.Dated
  endTime : ∀ t ∈ e.endTime, t.Dated
  createdAt : e.createdAt.Dated
  updatedAt : e.updatedAt.Dated

instance : DecidablePred Execution.Fine := fun e => decidable_of_iff' _ (Execution.fine_iff e)

lemma Execution.stable : Stable 2 Execution.reader Execution.toValue Execution.Fine := by
  refine Stable.record (fun _ => ⟨rfl, by decide⟩) ?_
  intro es e hl hroom h hfine
  obtain ⟨id, hid, h⟩ := Option.bind_eq_some_iff.mp h
  obtain ⟨project, hproject, h⟩ := Option.bind_eq_some_iff.mp h
  obtain ⟨suite, hsuite, h⟩ := Option.bind_eq_some_iff.mp h
  obtain ⟨status, hstatus, h⟩ := Option.bind_eq_some_iff.mp h
  obtain ⟨browser, hbrowser, h⟩ := Option.bind_eq_some_iff.mp h
  obtain ⟨environment, henvironment, h⟩ := Option.bind_eq_some_iff.mp h
  obtain ⟨start, hstart, h⟩ := Option.bind_eq_some_iff.mp h
  obtain ⟨finish, hfinish, h⟩ := Option.bind_eq_some_iff.mp h
  obtain ⟨results, hresults, h⟩ := Option.bind_eq_some_iff.mp h
  obtain ⟨message, hmessage, h⟩ := Option.bind_eq_some_iff.mp h
  obtain ⟨created, hcreated, h⟩ := Option.bind_eq_some_iff.mp h
  obtain ⟨updated, hupdated, h⟩ := Option.bind_eq_some_iff.mp h
  obtain rfl := Option.some.inj h
  have hroom0 : 0 ≤ es.room := Nat.zero_le _
  have kid := Uuid.stable.required hl hid trivial hroom0 rfl
  have kproject := Uuid.stable.required hl hproject trivial hroom0 rfl
  have ksuite := Uuid.stable.nullable Uuid.solid hl hsuite (fun _ _ => trivial) hroom0 rfl
  have kstatus := Status.stable.required hl hstatus trivial hroom0 rfl
  have kbrowser := Browser.stable.required hl hbrowser trivial hroom0 rfl
  have kenvironment := stable_string.sorted.omitted hl henvironment (fun _ _ => trivial) hroom
    List.isEmpty_iff rfl
  have kstart := Instant.stable.orNull Instant.solid hl hstart hfine.startTime hroom0 rfl
  have kfinish := Instant.stable.orNull Instant.solid hl hfinish hfine.endTime hroom0 rfl
  have kresults := stable_value.orNull solid_value hl hresults hfine.results hroom0
    (by cases results <;> rfl)
  have kmessage := stable_string.orNull solid_string hl hmessage (fun _ _ => trivial) hroom0 rfl
  have kcreated := Instant.stable.required hl hcreated hfine.createdAt hroom0 rfl
  have kupdated := Instant.stable.required hl hupdated hfine.updatedAt hroom0 rfl
  refine ⟨?_, ?_⟩
  · simp only [List.forall_mem_cons]
    exact ⟨kid.whole, kproject.whole, ksuite.whole, kstatus.whole, kbrowser.whole,
      kenvironment.whole, kstart.whole, kfinish.whole, by cases results <;> exact kresults.whole,
      kmessage.whole, kcreated.whole, kupdated.whole, by simp⟩
  · simp only [kid.reads, kproject.reads, ksuite.reads, kstatus.reads, kbrowser.reads,
      kenvironment.reads, kstart.reads, kfinish.reads, kresults.reads, kmessage.reads,
      kcreated.reads, kupdated.reads, Option.bind_eq_bind, Option.bind_some, Option.pure_def]

lemma Verdict.stable : Stable 0 (Reader.enumerated Verdict.parse?) (fun v => .str v.name)
    fun _ => True :=
  stable_enumerated fun v => by cases v <;> rfl

lemma CaseResult.stable :
    Stable 1 CaseResult.reader CaseResult.toValue fun r => r.createdAt.Dated := by
  refine Stable.record (fun _ => ⟨rfl, by decide⟩) ?_
  intro es r hl hroom h hdated
  obtain ⟨id, hid, h⟩ := Option.bind_eq_some_iff.mp h
  obtain ⟨execution, hexecution, h⟩ := Option.bind_eq_some_iff.mp h
  obtain ⟨case, hcase, h⟩ := Option.bind_eq_some_iff.mp h
  obtain ⟨verdict, hverdict, h⟩ := Option.bind_eq_some_iff.mp h
  obtain ⟨duration, hduration, h⟩ := Option.bind_eq_some_iff.mp h
  obtain ⟨message, hmessage, h⟩ := Option.bind_eq_some_iff.mp h
  obtain ⟨screenshot, hscreenshot, h⟩ := Option.bind_eq_some_iff.mp h
  obtain ⟨video, hvideo, h⟩ := Option.bind_eq_some_iff.mp h
  obtain ⟨logs, hlogs, h⟩ := Option.bind_eq_some_iff.mp h
  obtain ⟨created, hcreated, h⟩ := Option.bind_eq_some_iff.mp h
  obtain rfl := Option.some.inj h
  have kid := Uuid.stable.required hl hid trivial hroom rfl
  have kexecution := Uuid.stable.required hl hexecution trivial hroom rfl
  have kcase := Uuid.stable.required hl hcase trivial hroom rfl
  have kverdict := Verdict.stable.required hl hverdict trivial hroom rfl
  have kduration := stable_int64.orNull solid_int64 hl hduration (fun _ _ => trivial) hroom rfl
  have kmessage := stable_string.nullable solid_string hl hmessage (fun _ _ => trivial) hroom rfl
  have kscreenshot := stable_string.nullable solid_string hl hscreenshot (fun _ _ => trivial)
    hroom rfl
  have kvideo := stable_string.nullable solid_string hl hvideo (fun _ _ => trivial) hroom rfl
  have klogs := stable_string.nullable solid_string hl hlogs (fun _ _ => trivial) hroom rfl
  have kcreated := Instant.stable.required hl hcreated hdated hroom rfl
  refine ⟨?_, ?_⟩
  · simp only [List.forall_mem_cons]
    exact ⟨kid.whole, kexecution.whole, kcase.whole, kverdict.whole, kduration.whole,
      kmessage.whole, kscreenshot.whole, kvideo.whole, klogs.whole, kcreated.whole, by simp⟩
  · simp only [kid.reads, kexecution.reads, kcase.reads, kverdict.reads, kduration.reads,
      kmessage.reads, kscreenshot.reads, kvideo.reads, klogs.reads, kcreated.reads,
      Option.bind_eq_bind, Option.bind_some, Option.pure_def]

/-! ## Events -/

/-- The time that an event tells is of the years that are read. -/
def Event.Dated : Event → Prop
  | .created _ _ _ _ createdAt => createdAt.Dated
  | _ => True

instance : DecidablePred Event.Dated
  | .created _ _ _ _ createdAt => inferInstanceAs (Decidable createdAt.Dated)
  | .updated .. => isTrue trivial
  | .resultsAvailable .. => isTrue trivial

lemma Event.stable_created : Stable 1 createdReader payload Dated := by
  intro room n e _ h hdated
  obtain ⟨es, hes, h⟩ := Option.bind_eq_some_iff.mp h
  simp only [Option.bind_eq_bind, Option.bind_eq_some_iff, Option.pure_def, Option.some.injEq] at h
  obtain ⟨execution, hexecution, project, hproject, suite, hsuite, browser, hbrowser, created,
    hcreated, rfl⟩ := h
  refine restores_record hes ⟨rfl, by decide⟩ fun hl => ?_
  have hroom : 0 ≤ es.room := Nat.zero_le _
  have kexecution := Uuid.stable.required hl hexecution trivial hroom rfl
  have kproject := Uuid.stable.required hl hproject trivial hroom rfl
  have ksuite := Uuid.stable.nullable Uuid.solid hl hsuite (fun _ _ => trivial) hroom rfl
  have kbrowser := stable_string.required hl hbrowser trivial hroom rfl
  have kcreated := Instant.stable.required hl hcreated hdated hroom rfl
  refine ⟨?_, ?_⟩
  · simp only [List.forall_mem_cons]
    exact ⟨kexecution.whole, kproject.whole, ksuite.whole, kbrowser.whole, kcreated.whole, by simp⟩
  · simp only [kexecution.reads, kproject.reads, ksuite.reads, kbrowser.reads, kcreated.reads,
      Option.bind_eq_bind, Option.bind_some, Option.pure_def]

lemma Event.stable_updated : Stable 1 updatedReader payload Dated := by
  intro room n e _ h _
  obtain ⟨es, hes, h⟩ := Option.bind_eq_some_iff.mp h
  simp only [Option.bind_eq_bind, Option.bind_eq_some_iff, Option.pure_def, Option.some.injEq] at h
  obtain ⟨execution, hexecution, status, hstatus, message, hmessage, rfl⟩ := h
  refine restores_record hes ⟨rfl, by decide⟩ fun hl => ?_
  have hroom : 0 ≤ es.room := Nat.zero_le _
  have kexecution := Uuid.stable.required hl hexecution trivial hroom rfl
  have kstatus := Status.stable.required hl hstatus trivial hroom rfl
  have kmessage := stable_string.nullable solid_string hl hmessage (fun _ _ => trivial) hroom rfl
  refine ⟨?_, ?_⟩
  · simp only [List.forall_mem_cons]
    exact ⟨kexecution.whole, kstatus.whole, kmessage.whole, by simp⟩
  · simp only [kexecution.reads, kstatus.reads, kmessage.reads, Option.bind_eq_bind,
      Option.bind_some, Option.pure_def]

lemma Event.stable_results : Stable 1 resultsReader payload Dated := by
  intro room n e _ h _
  obtain ⟨es, hes, h⟩ := Option.bind_eq_some_iff.mp h
  simp only [Option.bind_eq_bind, Option.bind_eq_some_iff, Option.pure_def, Option.some.injEq] at h
  obtain ⟨execution, hexecution, passed, hpassed, failed, hfailed, total, htotal, rfl⟩ := h
  refine restores_record hes ⟨rfl, by decide⟩ fun hl => ?_
  have hroom : 0 ≤ es.room := Nat.zero_le _
  have kexecution := Uuid.stable.required hl hexecution trivial hroom rfl
  have kpassed := stable_word32.required hl hpassed trivial hroom rfl
  have kfailed := stable_word32.required hl hfailed trivial hroom rfl
  have ktotal := stable_word32.required hl htotal trivial hroom rfl
  refine ⟨?_, ?_⟩
  · simp only [List.forall_mem_cons]
    exact ⟨kexecution.whole, kpassed.whole, kfailed.whole, ktotal.whole, by simp⟩
  · simp only [kexecution.reads, kpassed.reads, kfailed.reads, ktotal.reads, Option.bind_eq_bind,
      Option.bind_some, Option.pure_def]

/-- An event is read again by the reader for its type. -/
lemma Event.stable_payload {type : String} {read : Reader Event}
    (h : payloadReader? type = some read) : Stable 1 read payload Dated := by
  unfold payloadReader? at h
  split_ifs at h <;> cases h
  · exact stable_created
  · exact stable_updated
  · exact stable_results

lemma Event.typeName_eq {type : String} {read : Reader Event} (h : payloadReader? type = some read)
    {room : Nat} {n : Node} {e : Event} (he : read room n = some e) : e.typeName = type := by
  unfold payloadReader? at h
  split_ifs at h with hcreated hupdated hresults <;> cases h
  · simp only [createdReader, Option.bind_eq_bind, Option.bind_eq_some_iff, Option.pure_def,
      Option.some.injEq] at he
    obtain ⟨_, -, _, -, _, -, _, -, _, -, _, -, rfl⟩ := he
    exact hcreated.symm
  · simp only [updatedReader, Option.bind_eq_bind, Option.bind_eq_some_iff, Option.pure_def,
      Option.some.injEq] at he
    obtain ⟨_, -, _, -, _, -, _, -, rfl⟩ := he
    exact hupdated.symm
  · simp only [resultsReader, Option.bind_eq_bind, Option.bind_eq_some_iff, Option.pure_def,
      Option.some.injEq] at he
    obtain ⟨_, -, _, -, _, -, _, -, _, -, rfl⟩ := he
    exact hresults.symm

/-- An event is read again among the fields of a record, whatever else is written there. -/
lemma Event.keeps {names : List String} {fields : List Field} {es : Entries} {e : Event}
    (hl : Layout names fields) (h : ofEntries es = some e) (hdated : e.Dated)
    (hneed : 1 ≤ es.room) (htype : member? "type" fields = some (some (.str e.typeName)))
    (hpayload : member? "payload" fields = some (some e.payload)) :
    Keeps fields es.room (some e.payload) ofEntries e := by
  obtain ⟨read, hread, he⟩ := Option.bind_eq_some_iff.mp h
  obtain ⟨_, _, hname⟩ := Option.bind_eq_some_iff.mp hread
  obtain ⟨_, _, hnode⟩ := Option.bind_eq_some_iff.mp he
  obtain ⟨type, htyped⟩ := exists_of_enumerated hname
  have kpayload := (stable_payload htyped).required hl he hdated hneed hpayload
  have hagain : (written es.room fields).required "type" (Reader.enumerated payloadReader?)
      = some read := by
    simp only [Entries.required, member?_written hl htype, Option.map_some, Option.bind_eq_bind,
      Option.bind_some, typeName_eq htyped hnode]
    exact htyped
  refine ⟨kpayload.whole, ?_⟩
  simp only [ofEntries, hagain, kpayload.reads, Option.bind_eq_bind, Option.bind_some]

/-- The payload of an event is not nested, so that it has a value. -/
lemma Event.isSome_payload (e : Event) (room : Nat) :
    (e.payload.toNode.value? (room + 1)).isSome = true := by
  cases e with
  | created execution project suite browser createdAt => cases suite <;> rfl
  | updated execution status message => cases message <;> rfl
  | resultsAvailable execution passed failed total => rfl

/-- The times that a message tells are of the years that are read. -/
@[mk_iff] structure Message.Dated (m : Message) : Prop where
  event : m.event.Dated
  timestamp : m.timestamp.Dated

instance : DecidablePred Message.Dated := fun m => decidable_of_iff' _ (Message.dated_iff m)

lemma Message.stable : Stable 2 Message.reader Message.toValue Message.Dated := by
  intro room n m hneed h hdated
  obtain ⟨room, rfl⟩ := Nat.exists_eq_add_of_le' hneed
  cases n with
  | obj members =>
      obtain ⟨es, hes, h⟩ := Option.bind_eq_some_iff.mp h
      split_ifs at h
      simp only [Option.bind_eq_bind, Option.bind_eq_some_iff, Option.pure_def,
        Option.some.injEq] at h
      obtain ⟨event, hevent, timestamp, htimestamp, rfl⟩ := h
      have hl : Layout ["type", "payload", "timestamp"]
          (event.fields ++ [("timestamp", some timestamp.toValue)]) := ⟨rfl, by decide⟩
      have hroom : es.room = room + 1 := (Nat.succ.inj (room_of_read hes)).symm
      have kevent := Event.keeps hl hevent hdated.event (by omega) rfl rfl
      have ktimestamp := Instant.stable.required hl htimestamp hdated.timestamp (Nat.zero_le _) rfl
      rw [hroom] at kevent ktimestamp
      have hkeep : membersKeep (room + 1) (memberNodes
          (present (event.fields ++ [("timestamp", some timestamp.toValue)]))) = true := by
        have htype : ((Value.str event.typeName).toNode.value? (room + 1)).isSome = true := rfl
        simp only [membersKeep, Event.fields, List.cons_append, List.nil_append, present,
          memberNodes, List.all_cons, List.all_nil, htype, event.isSome_payload room, Bool.or_true,
          BEq.rfl, Bool.true_or, Bool.and_self]
      refine ⟨whole_record ?_, ?_⟩
      · simp only [Event.fields, List.cons_append, List.nil_append, List.forall_mem_cons]
        exact ⟨by simp, kevent.whole, ktimestamp.whole, by simp⟩
      · have hnames : ["type", "payload", "timestamp"] ⊆ "timestamp" :: Event.fieldNames := by
          decide
        have hrecord := read_record hl hnames (room + 1)
        rw [record, Value.toNode] at hrecord
        simp only [toValue, record, Value.toNode, reader, hrecord, hkeep, if_true, kevent.reads,
          ktimestamp.reads, Option.bind_eq_bind, Option.bind_some, Option.pure_def]
  | _ => cases h

/-! ## Documents -/

/-- **What was stored is read again from what is written of it.**  The document may be spelled in
any way that is read: fields in any order or in an array, unknown or missing ones, identifiers and
times in any form. -/
theorem documents_stable (s : String) :
    (∀ p, decode Page.reader s = some p → decode Page.reader p.toValue.compact = some p)
      ∧ (∀ t, decode StoredStep.reader s = some t →
          decode StoredStep.reader t.toValue.compact = some t)
      ∧ (∀ u, decode Suite.reader s = some u → u.Whole →
          decode Suite.reader u.toValue.compact = some u)
      ∧ (∀ p, decode Project.reader s = some p → decode Project.reader p.toValue.compact = some p)
      ∧ (∀ e, decode Execution.reader s = some e → e.Fine →
          decode Execution.reader e.toValue.compact = some e)
      ∧ (∀ r, decode CaseResult.reader s = some r → r.createdAt.Dated →
          decode CaseResult.reader r.toValue.compact = some r)
      ∧ ∀ m, decode Message.reader s = some m → m.Dated →
          decode Message.reader m.toValue.compact = some m :=
  ⟨fun _ h => Page.stable.decode (by decide) h trivial,
    fun _ h => StoredStep.stable.decode (by decide) h trivial,
    fun _ h hwhole => Suite.stable.decode (by decide) h hwhole,
    fun _ h => Project.stable.decode (by decide) h trivial,
    fun _ h hfine => Execution.stable.decode (by decide) h hfine,
    fun _ h hdated => CaseResult.stable.decode (by decide) h hdated,
    fun _ h hdated => Message.stable.decode (by decide) h hdated⟩

/-- A document that has the fields of everything that is stored, in no particular order or form. -/
def sampleDocument : String :=
  "\x7b\"id\": \"urn:uuid:01900000-0000-7000-8000-00000000000A\", \"name\": \"Login\",
  \"project_id\": \"0190000000007000800000000000000b\", \"description\": null,
  \"url_pattern\": \"https://shop.test\",
  \"selectors\": \x7b\"user\": \x7b\"value\": \"#u\", \"type\": \"css\"\x7d,
    \"go\": [\"id\", \"go\"]\x7d,
  \"action\": \"click\", \"selector\": \"go\",
  \"configuration\": \x7b\"workers\": 2, \"retries\": -1\x7d,
  \"test_cases\": [[\"0190000000007000800000000000000c\", \"Signs in\"]],
  \"test_case_id\": \"0190000000007000800000000000000c\", \"suite_ids\": [],
  \"execution_id\": \"0190000000007000800000000000000d\", \"browser_type\": \"chromium\",
  \"status\": \x7b\"failed\": null\x7d, \"results\": [18446744073709551615],
  \"created_at\": \"2024-02-29 23:59:60.5+01:00\", \"updated_at\": \"2024-03-01T00:00:00Z\",
  \"payload\": [\"0190000000007000800000000000000d\", 1, 2, 3], \"type\": \"results_available\",
  \"timestamp\": \"0000-01-01t00:00:00z\"\x7d"

set_option maxRecDepth 10000 in
/-- One document from which everything can be read, and what was read is read again. -/
theorem documents_stable_sample :
    (∃ p, decode Page.reader sampleDocument = some p
        ∧ decode Page.reader p.toValue.compact = some p)
      ∧ (∃ t, decode StoredStep.reader sampleDocument = some t
        ∧ decode StoredStep.reader t.toValue.compact = some t)
      ∧ (∃ u, decode Suite.reader sampleDocument = some u ∧ u.Whole
        ∧ decode Suite.reader u.toValue.compact = some u)
      ∧ (∃ p, decode Project.reader sampleDocument = some p
        ∧ decode Project.reader p.toValue.compact = some p)
      ∧ (∃ e, decode Execution.reader sampleDocument = some e ∧ e.Fine
        ∧ decode Execution.reader e.toValue.compact = some e)
      ∧ (∃ r, decode CaseResult.reader sampleDocument = some r ∧ r.createdAt.Dated
        ∧ decode CaseResult.reader r.toValue.compact = some r)
      ∧ ∃ m, decode Message.reader sampleDocument = some m ∧ m.Dated
        ∧ decode Message.reader m.toValue.compact = some m := by
  obtain ⟨hpage, hstep, hsuite, hproject, hexecution, hresult, hmessage⟩ :=
    documents_stable sampleDocument
  obtain ⟨p, hp, -⟩ : ∃ p, decode Page.reader sampleDocument = some p ∧ True :=
    decode_of_any (by decide +kernel)
  obtain ⟨t, ht, -⟩ : ∃ t, decode StoredStep.reader sampleDocument = some t ∧ True :=
    decode_of_any (by decide +kernel)
  obtain ⟨u, hu, hwhole⟩ : ∃ u, decode Suite.reader sampleDocument = some u ∧ u.Whole :=
    decode_of_any (by decide +kernel)
  obtain ⟨q, hq, -⟩ : ∃ q, decode Project.reader sampleDocument = some q ∧ True :=
    decode_of_any (by decide +kernel)
  obtain ⟨e, he, hfine⟩ : ∃ e, decode Execution.reader sampleDocument = some e ∧ e.Fine :=
    decode_of_any (by decide +kernel)
  obtain ⟨r, hr, hcreated⟩ :
      ∃ r, decode CaseResult.reader sampleDocument = some r ∧ r.createdAt.Dated :=
    decode_of_any (by decide +kernel)
  obtain ⟨m, hm, hdated⟩ : ∃ m, decode Message.reader sampleDocument = some m ∧ m.Dated :=
    decode_of_any (by decide +kernel)
  exact ⟨⟨p, hp, hpage p hp⟩, ⟨t, ht, hstep t ht⟩, ⟨u, hu, hwhole, hsuite u hu hwhole⟩,
    ⟨q, hq, hproject q hq⟩, ⟨e, he, hfine, hexecution e he hfine⟩,
    ⟨r, hr, hcreated, hresult r hr hcreated⟩, ⟨m, hm, hdated, hmessage m hm hdated⟩⟩

end Rehearsal
