import Mathlib
import Rehearsal.Proofs.Fallible
import Rehearsal.Proofs.Report.Walk

/-!
# What an outcome tells of a case

Of the attempts at a case one counts, the last.  The earlier ones say no more than whether they
were skipped.

* `LastAttempt`: the attempt that counts.
* `Fallback`: **what a case says itself comes first**, its last attempt second.
* `Spec.Took`, `Spec.Message`, `Spec.Screenshot`, `Spec.Video`, `Spec.Output`: where each part of
  an outcome is found.
* `Spec.Tells`: an outcome that has all its parts from there.
* `Spec.ShowsOutput`: the texts of a document's chunks of output.
* `ofSpec_tells`: every outcome is of that kind, and **attempts before the last one can only change
  the verdict**.
-/

namespace Rehearsal.Report

open Json (Value)

/-! ## The attempt that counts -/

/-- The attempt that counts: the last one of the last runner project that made any. -/
inductive LastAttempt : List (List Attempt) → Option Attempt → Prop
  | untried {tests : List (List Attempt)} (h : ∀ as ∈ tests, as = []) : LastAttempt tests none
  | tried (before : List (List Attempt)) (earlier : List Attempt) (a : Attempt)
      {after : List (List Attempt)} (h : ∀ as ∈ after, as = []) :
      LastAttempt (before ++ (earlier ++ [a]) :: after) (some a)

lemma LastAttempt.getLast? {tests : List (List Attempt)} {last : Option Attempt}
    (h : LastAttempt tests last) : tests.flatten.getLast? = last := by
  cases h with
  | untried h => rw [List.flatten_eq_nil_iff.mpr h, List.getLast?_nil]
  | tried before earlier a h =>
      rw [List.flatten_append, List.flatten_cons, List.flatten_eq_nil_iff.mpr h, List.append_nil,
        ← List.append_assoc, List.getLast?_concat]

lemma exists_lastAttempt (tests : List (List Attempt)) : ∃ last, LastAttempt tests last := by
  induction tests using List.reverseRecOn with
  | nil => exact ⟨none, .untried (by simp)⟩
  | append_singleton tests as ih =>
      rcases List.eq_nil_or_concat as with rfl | ⟨earlier, a, rfl⟩
      · -- a project that made no attempt leaves the question to those before it
        obtain ⟨last, hlast⟩ := ih
        refine ⟨last, ?_⟩
        cases hlast with
        | untried h => exact .untried (List.forall_mem_append.mpr ⟨h, by simp⟩)
        | tried before earlier a h =>
            rw [List.append_assoc, List.cons_append]
            exact .tried before earlier a (List.forall_mem_append.mpr ⟨h, by simp⟩)
      · rw [List.concat_eq_append]
        exact ⟨some a, .tried tests earlier a (by simp)⟩

/-! ## Where the parts of an outcome are found -/

/-- A case was skipped: it was attempted, and every attempt was skipped. -/
def Spec.Skipped (s : Spec) : Prop :=
  s.attempts ≠ [] ∧ ∀ a ∈ s.attempts, a.status = some "skipped"

/-- A picture, by its name or by its kind. -/
def Attachment.Picture (x : Attachment) : Prop :=
  x.name = "screenshot" ∨ ∃ kind, x.contentType = some ("image/" ++ kind)

/-- What is found in a case itself, or else in its last attempt. -/
inductive Fallback {α : Type} (own : α → Prop) (last : Option Attempt)
    (tried : Attempt → α → Prop) : α → Prop
  | own {v : α} (h : own v) : Fallback own last tried v
  | tried {a : Attempt} {v : α} (hown : ∀ v, ¬own v) (ha : last = some a) (h : tried a v) :
      Fallback own last tried v

variable (s : Spec) (last : Option Attempt)

/-- The milliseconds that a case took. -/
def Spec.Took : Binary64 → Prop :=
  Fallback (fun x => s.duration = some x) last fun a x => a.duration = some x

/-- The message of a case.  In an attempt the one error comes before the list of errors. -/
def Spec.Message : String → Prop :=
  Fallback (fun m => ∃ f, s.error = some f ∧ f.message = some m) last
    fun a m => First (·.message = none) (·.message = some m) (a.error.toList ++ a.errors)

/-- The path of a screenshot.  A file of the case itself is taken whatever it is. -/
def Spec.Screenshot : String → Prop :=
  Fallback (fun p => First (·.path = none) (·.path = some p) s.attachments) last
    fun a p => First (fun x => x.Picture → x.path = none) (fun x => x.Picture ∧ x.path = some p)
      a.attachments

/-- The path of a video. -/
def Spec.Video : String → Prop :=
  Fallback (fun p => s.video = some p) last
    fun a p => First (fun x => x.name = "video" → x.path = none)
      (fun x => x.name = "video" ∧ x.path = some p) a.attachments

/-- The output of a case, the standard output before the error output.  If the case has a chunk of
its own, be it without text, those of the attempt do not count. -/
inductive Spec.Output : List String → Prop
  | own (h : s.stdout ≠ [] ∨ s.stderr ≠ []) : Output (s.stdout ++ s.stderr)
  | attempt {a : Attempt} (hout : s.stdout = []) (herr : s.stderr = []) (ha : last = some a) :
      Output (a.stdout ++ a.stderr)
  | none (hout : s.stdout = []) (herr : s.stderr = []) (ha : last = none) : Output []

/-- An outcome tells of a case what the case and its last attempt say. -/
structure Spec.Tells (o : Outcome) : Prop where
  failed : o.verdict = .failed ↔ s.ok = false
  skipped : o.verdict = .skipped ↔ s.ok = true ∧ s.Skipped
  passed : o.verdict = .passed ↔ s.ok = true ∧ ¬s.Skipped
  duration : ∀ n, o.duration = some n ↔ ∃ x, s.Took last x ∧ wholeMilliseconds x = n
  message : ∀ m, o.errorMessage = some m ↔ s.ok = false ∧ s.Message last m
  screenshot : ∀ p, o.screenshot = some p ↔ s.Screenshot last p
  video : ∀ p, o.video = some p ↔ s.Video last p
  logs : ∀ t, o.logs = some t ↔ t ≠ "" ∧ ∃ texts, s.Output last texts ∧ String.join texts = t

variable {s last}

/-! ### Verdicts -/

lemma allSkipped_iff : allSkipped s.attempts = true ↔ s.Skipped := by
  simp only [allSkipped, Spec.Skipped, Bool.and_eq_true, Bool.not_eq_true',
    List.isEmpty_eq_false_iff, ne_eq, List.all_eq_true, beq_iff_eq]

lemma verdictOf_eq_failed_iff : verdictOf s = .failed ↔ s.ok = false := by
  rw [verdictOf]
  split_ifs <;> simp_all

lemma verdictOf_eq_skipped_iff : verdictOf s = .skipped ↔ s.ok = true ∧ s.Skipped := by
  rw [verdictOf, ← allSkipped_iff]
  split_ifs <;> simp_all

lemma verdictOf_eq_passed_iff : verdictOf s = .passed ↔ s.ok = true ∧ ¬s.Skipped := by
  rw [verdictOf, ← allSkipped_iff]
  split_ifs <;> simp_all

/-! ### Durations, messages and files -/

/-- A part that is looked for in the case, and then in its last attempt. -/
lemma fallback_iff {α : Type} {own : α → Prop} {tried : Attempt → α → Prop} {x : Option α}
    {f : Attempt → Option α} {v : α} (h : LastAttempt s.tests last)
    (hown : ∀ v, x = some v ↔ own v) (htried : ∀ a v, f a = some v ↔ tried a v) :
    (x <|> s.attempts.getLast?.bind f) = some v ↔ Fallback own last tried v := by
  have hnone : x = none ↔ ∀ v, ¬own v := by
    simp only [Option.eq_none_iff_forall_ne_some, ne_eq, hown]
  rw [Spec.attempts, h.getLast?, Option.orElse_eq_some, Option.bind_eq_some_iff, hown, hnone]
  simp only [htried]
  constructor
  · rintro (hv | ⟨hsilent, a, ha, hv⟩)
    · exact .own hv
    · exact .tried hsilent ha hv
  · rintro (hv | ⟨hsilent, ha, hv⟩)
    · exact .inl hv
    · exact .inr ⟨hsilent, _, ha, hv⟩

lemma durationOf_eq_some_iff (h : LastAttempt s.tests last) {n : Int} :
    durationOf s = some n ↔ ∃ x, s.Took last x ∧ wholeMilliseconds x = n := by
  rw [durationOf, Option.map_eq_some_iff]
  exact exists_congr fun x =>
    and_congr_left' (fallback_iff h (fun _ => Iff.rfl) fun _ _ => Iff.rfl)

lemma messageOf_eq_some_iff (h : LastAttempt s.tests last) {m : String} :
    messageOf s = some m ↔ s.ok = false ∧ s.Message last m := by
  rw [messageOf, Option.ite_none_left_eq_some, Bool.not_eq_true]
  exact and_congr_right' (fallback_iff h (fun _ => Option.bind_eq_some_iff)
    fun _ _ => findSome?_eq_some_iff_first)

lemma startsWith_iff {t lead : String} : t.startsWith lead = true ↔ ∃ rest, t = lead ++ rest := by
  rw [String.startsWith_string_iff]
  constructor
  · rintro ⟨rest, h⟩
    exact ⟨String.ofList rest, String.toList_inj.mp (by simp [h])⟩
  · rintro ⟨rest, rfl⟩
    exact ⟨rest.toList, by simp⟩

lemma isScreenshot_iff {x : Attachment} : isScreenshot x = true ↔ x.Picture := by
  rw [isScreenshot, Attachment.Picture, Bool.or_eq_true, beq_iff_eq]
  cases x.contentType with
  | none => simp
  | some kind => simp only [startsWith_iff, Option.some.injEq]

lemma screenshotOf_eq_some_iff (h : LastAttempt s.tests last) {p : String} :
    screenshotOf s = some p ↔ s.Screenshot last p := by
  refine fallback_iff h (fun _ => findSome?_eq_some_iff_first) fun _ _ => ?_
  simp only [findSome?_filter_eq_some_iff, isScreenshot_iff]

lemma videoOf_eq_some_iff (h : LastAttempt s.tests last) {p : String} :
    videoOf s = some p ↔ s.Video last p := by
  refine fallback_iff h (fun _ => Iff.rfl) fun _ _ => ?_
  simp only [findSome?_filter_eq_some_iff, beq_iff_eq]

/-! ### Output -/

lemma output_outputOf (h : LastAttempt s.tests last) : s.Output last (outputOf s) := by
  rw [outputOf, Spec.attempts, h.getLast?]
  split_ifs with hempty
  · simp only [Bool.and_eq_true, List.isEmpty_iff] at hempty
    cases last with
    | none => exact .none hempty.1 hempty.2 rfl
    | some a => exact .attempt hempty.1 hempty.2 rfl
  · refine .own ?_
    simpa only [Bool.and_eq_true, List.isEmpty_iff, not_and_or] using hempty

lemma Spec.Output.unique {texts texts' : List String} (h : s.Output last texts)
    (h' : s.Output last texts') : texts = texts' := by
  cases h <;> cases h' <;> simp_all

lemma logsOf_eq_some_iff (h : LastAttempt s.tests last) {t : String} : logsOf s = some t
    ↔ t ≠ "" ∧ ∃ texts, s.Output last texts ∧ String.join texts = t := by
  have hlogs : logsOf s = some t ↔ t ≠ "" ∧ String.join (outputOf s) = t := by
    simp only [logsOf, Option.ite_none_left_eq_some, String.isEmpty_iff, Option.some.injEq]
    constructor
    · rintro ⟨hne, rfl⟩
      exact ⟨hne, rfl⟩
    · rintro ⟨hne, rfl⟩
      exact ⟨hne, rfl⟩
  rw [hlogs]
  refine and_congr_right fun _ => ⟨fun ht => ⟨_, output_outputOf h, ht⟩, ?_⟩
  rintro ⟨texts, htexts, rfl⟩
  rw [htexts.unique (output_outputOf h)]

lemma tells_ofSpec (path : List String) (h : LastAttempt s.tests last) :
    s.Tells last (Outcome.ofSpec path s) where
  failed := verdictOf_eq_failed_iff
  skipped := verdictOf_eq_skipped_iff
  passed := verdictOf_eq_passed_iff
  duration _ := durationOf_eq_some_iff h
  message _ := messageOf_eq_some_iff h
  screenshot _ := screenshotOf_eq_some_iff h
  video _ := videoOf_eq_some_iff h
  logs _ := logsOf_eq_some_iff h

/-! ## Output in a document -/

/-- The text of a chunk of output: the chunk itself, or its member `text`.  Any other chunk has
none. -/
inductive ShowsText : Value → String → Prop
  | text (t : String) : ShowsText (.str t) t
  | member {ms : List (String × Value)} {t : String} (h : Json.member? "text" ms = some (.str t)) :
      ShowsText (.obj ms) t
  | other {v : Value} (hstr : ∀ t, v ≠ .str t)
      (hobj : ∀ ms t, v = .obj ms → Json.member? "text" ms ≠ some (.str t)) : ShowsText v ""

/-- The fields of an attempt. -/
def attemptFields : List String :=
  ["status", "duration", "error", "errors", "attachments", "stdout", "stderr"]

/-- The chunks of output of an attempt are taken by their texts, in order. -/
structure Attempt.ShowsOutput (v : Value) (a : Attempt) : Prop where
  stdout : Items ShowsText (v.field? attemptFields "stdout") a.stdout
  stderr : Items ShowsText (v.field? attemptFields "stderr") a.stderr

/-- So are those of a case, and of all attempts at it. -/
structure Spec.ShowsOutput (v : Value) (s : Spec) : Prop where
  stdout : Items ShowsText (v.field? specFields "stdout") s.stdout
  stderr : Items ShowsText (v.field? specFields "stderr") s.stderr
  tests : Items (fun w => Items Attempt.ShowsOutput (w.field? ["results"] "results"))
    (v.field? specFields "tests") s.tests

lemma find?_memberNodes (name : String) (ms : List (String × Value)) :
    (Json.memberNodes ms).find? (fun m => m.1 == some name)
      = (Json.member? name ms).map fun v => (some name, v.toNode) := by
  induction ms with
  | nil => rfl
  | cons m ms ih =>
      obtain ⟨k, v⟩ := m
      rw [Json.memberNodes, Json.member?, List.find?_cons, ih]
      by_cases hk : k = name
      · simp [hk]
      · have hne : (k == name) = false := beq_eq_false_iff_ne.mpr hk
        simp [hk, hne]

lemma showsText_chunkText (v : Value) : ShowsText v (chunkText v.toNode) := by
  cases v with
  | str t => exact .text t
  | obj ms =>
      rw [Value.toNode, chunkText, find?_memberNodes]
      cases h : Json.member? "text" ms with
      | none => exact .other (by simp) (by rintro _ t ⟨⟩; simp [h])
      | some w =>
          cases w with
          | str t => exact .member h
          | _ => exact .other (by simp) (by rintro _ t ⟨⟩; simp [h])
  | _ => exact .other (by simp) (by simp)

lemma showsText_of_chunk {room : Nat} (v : Value) (t : String)
    (h : chunk room v.toNode = some t) : ShowsText v t := by
  obtain rfl := Option.some.inj h
  exact showsText_chunkText v

lemma Attempt.showsOutput_of_reader {room : Nat} (v : Value) (a : Attempt)
    (h : Attempt.reader room v.toNode = some a) : Attempt.ShowsOutput v a := by
  obtain ⟨es, hes, hrest⟩ := Option.bind_eq_some_iff.mp h
  simp only [Option.bind_eq_bind, Option.bind_eq_some_iff, Option.pure_def,
    Option.some.injEq] at hrest
  obtain ⟨_, -, _, -, _, -, _, -, _, -, out, hout, err, herr, rfl⟩ := hrest
  exact ⟨items_of_defaulted hes (by decide) showsText_of_chunk hout,
    items_of_defaulted hes (by decide) showsText_of_chunk herr⟩

lemma showsOutput_of_listReader {room : Nat} (v : Value) (as : List Attempt)
    (h : Attempt.listReader room v.toNode = some as) :
    Items Attempt.ShowsOutput (v.field? ["results"] "results") as := by
  obtain ⟨es, hes, hresults⟩ := Option.bind_eq_some_iff.mp h
  exact items_of_defaulted hes (by decide) Attempt.showsOutput_of_reader hresults

lemma Spec.showsOutput_of_reader {room : Nat} {v : Value} {s : Spec}
    (h : Spec.reader room v.toNode = some s) : Spec.ShowsOutput v s := by
  obtain ⟨es, hes, hrest⟩ := Option.bind_eq_some_iff.mp h
  simp only [Option.bind_eq_bind, Option.bind_eq_some_iff, Option.pure_def,
    Option.some.injEq] at hrest
  obtain ⟨_, -, _, -, _, -, _, -, _, -, _, -, _, -, out, hout, err, herr, tests, htests, rfl⟩ :=
    hrest
  exact ⟨items_of_defaulted hes (by decide) showsText_of_chunk hout,
    items_of_defaulted hes (by decide) showsText_of_chunk herr,
    items_of_defaulted hes (by decide) showsOutput_of_listReader htests⟩

/-! ## Attempts that do not count -/

/-- With the same last attempt, only the verdict can be another. -/
lemma ofSpec_withTests (path : List String) {tests : List (List Attempt)}
    (hs : LastAttempt s.tests last) (ht : LastAttempt tests last) :
    Outcome.ofSpec path { s with tests := tests }
      = { Outcome.ofSpec path s with verdict := verdictOf { s with tests := tests } } := by
  simp only [Outcome.ofSpec, durationOf, messageOf, screenshotOf, videoOf, logsOf, outputOf,
    Spec.attempts, hs.getLast?, ht.getLast?]

/-- The last attempt is one of the attempts. -/
lemma LastAttempt.not_skipped {a : Attempt} (h : LastAttempt s.tests (some a))
    (ha : a.status ≠ some "skipped") : ¬s.Skipped :=
  fun hskipped => ha (hskipped.2 a (List.mem_of_getLast? h.getLast?))

/-- A verdict that does not hang on the earlier attempts. -/
lemma verdictOf_withTests {tests : List (List Attempt)} (hs : LastAttempt s.tests last)
    (ht : LastAttempt tests last)
    (h : s.ok = false ∨ ∃ a, last = some a ∧ a.status ≠ some "skipped") :
    verdictOf { s with tests := tests } = verdictOf s := by
  by_cases hok : s.ok = false
  · rw [verdictOf_eq_failed_iff.mpr hok]
    exact verdictOf_eq_failed_iff.mpr hok
  · obtain ⟨a, rfl, ha⟩ := h.resolve_left hok
    rw [Bool.not_eq_false] at hok
    rw [verdictOf_eq_passed_iff.mpr ⟨hok, hs.not_skipped ha⟩]
    exact verdictOf_eq_passed_iff.mpr ⟨hok, LastAttempt.not_skipped ht ha⟩

/-- **An outcome tells what the case says itself, and for the rest what its last attempt says.**

* Other attempts, in whatever number and of whichever runner project, change no part of it but the
  verdict, and that only between passed and skipped: not if the case failed, and not if its last
  attempt was not skipped.
* In a document the output stands in chunks, which are taken by their texts. -/
theorem ofSpec_tells (path : List String) (s : Spec) :
    ∃ last, LastAttempt s.tests last ∧ s.Tells last (Outcome.ofSpec path s)
      ∧ (∀ tests, LastAttempt tests last →
        Outcome.ofSpec path { s with tests := tests } = { Outcome.ofSpec path s with
            verdict := (Outcome.ofSpec path { s with tests := tests }).verdict }
          ∧ (s.ok = false ∨ (∃ a, last = some a ∧ a.status ≠ some "skipped") →
            Outcome.ofSpec path { s with tests := tests } = Outcome.ofSpec path s))
      ∧ ∀ room v, Spec.reader room (Value.toNode v) = some s → s.ShowsOutput v := by
  obtain ⟨last, hlast⟩ := exists_lastAttempt s.tests
  refine ⟨last, hlast, tells_ofSpec path hlast, fun tests htests => ?_,
    fun room v => Spec.showsOutput_of_reader⟩
  have hrest := ofSpec_withTests path hlast htests
  refine ⟨hrest, fun h => ?_⟩
  rw [hrest, verdictOf_withTests hlast htests h]
  rfl

/-- An attempt that timed out, with a picture of it. -/
def timedOut : Attempt where
  status := some "failed"
  duration := none
  error := some ⟨none⟩
  errors := [⟨none⟩, ⟨some "Timed out"⟩]
  attachments := [⟨"video", none, none⟩, ⟨"page", some "/r/shot.png", some "image/png"⟩]
  stdout := []
  stderr := []

/-- A case that failed twice, and that a second runner project did not attempt. -/
def retried : Spec where
  title := "bad password"
  ok := false
  id := none
  duration := none
  error := none
  attachments := []
  video := none
  stdout := []
  stderr := []
  tests := [[{ timedOut with errors := [⟨some "first try"⟩] }, timedOut], []]

/-- The first try does not matter. -/
theorem ofSpec_tells_retried :
    Outcome.ofSpec [] { retried with tests := [[timedOut]] } = Outcome.ofSpec [] retried
      ∧ (Outcome.ofSpec [] retried).errorMessage = some "Timed out"
      ∧ (Outcome.ofSpec [] retried).screenshot = some "/r/shot.png" := by
  obtain ⟨last, hlast, htells, hsame, -⟩ := ofSpec_tells [] retried
  obtain rfl : some timedOut = last := hlast.getLast?
  refine ⟨(hsame _ (.tried [] [] timedOut (by simp))).2 (.inl rfl),
    (htells.message _).mpr ⟨rfl, .tried (by simp [retried]) rfl ?_⟩,
    (htells.screenshot _).mpr (.tried ?_ rfl ?_)⟩
  · exact ⟨[⟨none⟩, ⟨none⟩], _, [], rfl, by simp, rfl⟩
  · exact fun _ => not_first_nil
  · exact ⟨[⟨"video", none, none⟩], _, [], rfl, by simp, .inr ⟨"png", rfl⟩, rfl⟩

end Rehearsal.Report
