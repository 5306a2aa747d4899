import Mathlib
import Rehearsal.Proofs.Json.Delimit
import Rehearsal.Proofs.Source.Settings

/-!
# A configuration file says what its configuration says

A configuration file has one setting on each line, so two files that are the same agree line by
line.  The line of the reporters holds free texts and whole objects side by side, and is read from
the front: a literal ends itself, and so does an object.

* `Settings.of`: what a configuration says.  Of the options of a reporter it is their text.
* `reporterTexts_append_inj`: the line of the reporters determines them, **one by one**.
* `settings_of_configLines`: the lines determine the settings.
* `configFile_eq_iff`: hence two configurations have one file **just when they say the same**.
-/

namespace Rehearsal.Source

open Text

/-! ## What is said -/

/-- What a configuration file says of a reporter: its name, and the text of its options. -/
def saidOf (r : Reporter) : String × String := (r.name, (Json.Value.obj r.options).compact)

/-- What a configuration says. -/
structure Settings where
  timeout : Nat
  retries : Nat
  workers : Option Nat
  reporters : List (String × String)
  headless : Bool
  viewport : Viewport
  screenshots : Screenshots
  browsers : List Browser
deriving DecidableEq, Repr

/-- What a configuration says. -/
def Settings.of (c : Configuration) : Settings where
  timeout := c.timeout
  retries := c.retries
  workers := c.workers
  reporters := c.reporters.map saidOf
  headless := c.headless
  viewport := c.viewport
  screenshots := c.screenshots
  browsers := c.browsers

/-! ## Reporters -/

/-- What stands behind the name of a reporter. -/
def optionsText (options : Json.Bag) : String :=
  if options.isEmpty then "" else ", " ++ (Json.Value.obj options).compact

lemma reporterText_eq (r : Reporter) :
    reporterText r = "[" ++ quote r.name ++ optionsText r.options ++ "]" := by
  rw [reporterText, optionsText]
  split_ifs <;> simp only [String.append_empty, String.append_assoc]

/-- No other object looks like the one without members. -/
lemma compact_eq_empty_iff {ms : Json.Bag} :
    (Json.Value.obj ms).compact = (Json.Value.obj []).compact ↔ ms = [] := by
  refine ⟨fun h => ?_, fun h => by rw [h]⟩
  cases ms with
  | nil => rfl
  | cons m ms =>
      obtain ⟨name, v⟩ := m
      have hchars := congrArg (fun s => s.toList.length) h
      cases ms <;>
        simp [Json.Value.compact, Json.memberTexts, Json.joinWith, quote, quoteChars] at hchars

/-- The text of the options decides what stands behind the name. -/
lemma optionsText_congr {as bs : Json.Bag}
    (h : (Json.Value.obj as).compact = (Json.Value.obj bs).compact) :
    optionsText as = optionsText bs := by
  have hempty : as = [] ↔ bs = [] := by
    rw [← compact_eq_empty_iff, h, compact_eq_empty_iff]
  simp only [optionsText, List.isEmpty_iff, hempty, h]

/-- Behind the name there is a bracket if there are no options, and a comma otherwise. -/
lemma optionsText_append_inj {as bs : Json.Bag} {r s : List Char}
    (h : (optionsText as).toList ++ ']' :: r = (optionsText bs).toList ++ ']' :: s) :
    (Json.Value.obj as).compact = (Json.Value.obj bs).compact ∧ r = s := by
  cases as with
  | nil =>
      cases bs with
      | nil => exact ⟨rfl, by simpa [optionsText] using h⟩
      | cons b bs => simp [optionsText] at h
  | cons a as =>
      cases bs with
      | nil => simp [optionsText] at h
      | cons b bs =>
          simp only [optionsText, List.isEmpty_cons, Bool.false_eq_true, if_false,
            String.toList_append, List.append_assoc] at h
          obtain ⟨htext, hrest⟩ := Json.compact_obj_append_inj (List.append_cancel_left h)
          exact ⟨htext, (List.cons.inj hrest).2⟩

/-- A reporter ends itself. -/
lemma reporterText_append_inj {p q : Reporter} {r s : List Char}
    (h : (reporterText p).toList ++ r = (reporterText q).toList ++ s) :
    saidOf p = saidOf q ∧ r = s := by
  have hclose : "]".toList = [']'] := rfl
  simp only [reporterText_eq, quote, String.toList_append, String.toList_ofList, hclose,
    List.append_assoc, List.cons_append, List.nil_append] at h
  obtain ⟨hname, h⟩ := quoteChars_append_inj (List.append_cancel_left h)
  obtain ⟨hoptions, hrs⟩ := optionsText_append_inj h
  exact ⟨Prod.ext (String.toList_inj.mp hname) hoptions, hrs⟩

lemma reporterText_congr {p q : Reporter} (h : saidOf p = saidOf q) :
    reporterText p = reporterText q := by
  obtain ⟨hname, hoptions⟩ := Prod.mk.inj h
  rw [reporterText_eq, reporterText_eq, hname, optionsText_congr hoptions]

/-- Reporters behind one another, as they stand in the file. -/
def reporterTexts (rs : List Reporter) : String := Json.joinWith ", " (rs.map reporterText)

lemma reporterTexts_cons (p : Reporter) (rs : List Reporter) :
    reporterTexts (p :: rs)
      = reporterText p ++ if rs.isEmpty then "" else ", " ++ reporterTexts rs := by
  cases rs with
  | nil => exact String.append_empty.symm
  | cons q rs => exact String.append_assoc ..

lemma reporterTexts_cons_ne (p : Reporter) (ps : List Reporter) (r s : List Char) :
    (reporterTexts (p :: ps)).toList ++ r ≠ ']' :: s := by
  simp [reporterTexts_cons, reporterText_eq]

/-- **The line of the reporters determines them.** -/
lemma reporterTexts_append_inj {ps qs : List Reporter} {r s : List Char}
    (h : (reporterTexts ps).toList ++ ']' :: r = (reporterTexts qs).toList ++ ']' :: s) :
    ps.map saidOf = qs.map saidOf := by
  have hnone : ∀ cs, (reporterTexts []).toList ++ cs = cs := fun _ => by
    simp [reporterTexts, Json.joinWith]
  induction ps generalizing qs with
  | nil =>
      rw [hnone] at h
      cases qs with
      | nil => rfl
      | cons q qs => exact (reporterTexts_cons_ne _ _ _ _ h.symm).elim
  | cons p ps ih =>
      cases qs with
      | nil =>
          rw [hnone] at h
          exact (reporterTexts_cons_ne _ _ _ _ h).elim
      | cons q qs =>
          rw [reporterTexts_cons, reporterTexts_cons, String.toList_append, String.toList_append,
            List.append_assoc, List.append_assoc] at h
          obtain ⟨hsaid, h⟩ := reporterText_append_inj h
          rw [List.map_cons, List.map_cons, hsaid]
          -- Behind a reporter there is a bracket if it is the last one, and a comma otherwise.
          cases ps with
          | nil =>
              cases qs with
              | nil => rfl
              | cons q' qs => simp at h
          | cons p' ps =>
              cases qs with
              | nil => simp at h
              | cons q' qs =>
                  simp only [List.isEmpty_cons, Bool.false_eq_true, if_false,
                    String.toList_append, List.append_assoc] at h
                  rw [ih (List.append_cancel_left h)]

lemma reporterTexts_congr {ps qs : List Reporter} (h : ps.map saidOf = qs.map saidOf) :
    reporterTexts ps = reporterTexts qs := by
  have htexts : ps.map reporterText = qs.map reporterText := by
    induction ps generalizing qs with
    | nil => rw [List.map_eq_nil_iff.mp h.symm]
    | cons p ps ih =>
        cases qs with
        | nil => cases h
        | cons q qs =>
            obtain ⟨hpq, hrest⟩ := List.cons.inj h
            rw [List.map_cons, List.map_cons, reporterText_congr hpq, ih hrest]
  rw [reporterTexts, reporterTexts, htexts]

/-! ## Lines -/

section lines

variable {style : Style} {c d : Configuration}

lemma line_inj {depth : Nat} {s t : String} : style.line depth s = style.line depth t ↔ s = t :=
  String.append_right_inj _

/-- The value on a line stands between fixed texts. -/
lemma between_inj {label s t rest : String} : label ++ s ++ rest = label ++ t ++ rest ↔ s = t := by
  rw [String.append_left_inj, String.append_right_inj]

lemma boolText_inj {a b : Bool} : Json.boolText a = Json.boolText b ↔ a = b := by
  cases a <;> cases b <;> decide

lemma screenshotsName_inj {a b : Screenshots} : a.name = b.name ↔ a = b := by
  cases a <;> cases b <;> decide

lemma browserName_inj {a b : Browser} : a.name = b.name ↔ a = b := by
  cases a <;> cases b <;> decide

lemma viewport_inj {v w : Viewport}
    (h : "viewport: \x7b width: " ++ Json.Number.digits v.width
        ++ ", height: " ++ Json.Number.digits v.height ++ " \x7d,"
      = "viewport: \x7b width: " ++ Json.Number.digits w.width
        ++ ", height: " ++ Json.Number.digits w.height ++ " \x7d,") : v = w := by
  have hcomma : ∀ n, ',' ∉ (Json.Number.digits n).toList :=
    fun n hmem => absurd (Json.spelled_digits n _ hmem) (by decide)
  have hsep : ", height: ".toList = ',' :: " height: ".toList := rfl
  have hchars := congrArg String.toList h
  simp only [String.toList_append, List.append_assoc, hsep, List.cons_append] at hchars
  obtain ⟨hwidth, -⟩ := append_cons_inj (hcomma _) (hcomma _) (List.append_cancel_left hchars)
  have hw : v.width = w.width := Json.digits_inj.mp (String.toList_inj.mp hwidth)
  rw [hw, between_inj, Json.digits_inj] at h
  cases v
  cases w
  exact congrArg₂ Viewport.mk hw h

lemma browserLines_inj {a b : Browser} (h : browserLines style a = browserLines style b) :
    a = b := by
  have hname := (List.cons.inj (List.cons.inj h).2).1
  rwa [line_inj, between_inj, quote_inj, browserName_inj] at hname

lemma flatMap_browserLines_inj {bs cs : List Browser}
    (h : bs.flatMap (browserLines style) = cs.flatMap (browserLines style)) : bs = cs := by
  induction bs generalizing cs with
  | nil =>
      cases cs with
      | nil => rfl
      | cons c cs => cases h
  | cons b bs ih =>
      cases cs with
      | nil => cases h
      | cons c cs =>
          have hlength : ∀ b, (browserLines style b).length = 4 := fun _ => rfl
          rw [List.flatMap_cons, List.flatMap_cons] at h
          obtain ⟨hb, hrest⟩ := List.append_inj h ((hlength b).trans (hlength c).symm)
          rw [browserLines_inj hb, ih hrest]

lemma workers_of_configLines (h : configLines style c = configLines style d) :
    c.workers = d.workers := by
  cases hc : c.workers
  all_goals
    cases hd : d.workers
    all_goals
      simp only [configLines, hc, hd, List.cons_append, List.nil_append, List.cons.injEq, line_inj]
        at h
  · rfl
  · simp at h
  · simp at h
  · simp only [between_inj, Json.digits_inj] at h
    obtain ⟨-, -, -, -, -, -, rfl, -⟩ := h
    rfl

/-- **The lines determine the settings.** -/
lemma settings_of_configLines (h : configLines style c = configLines style d) :
    Settings.of c = Settings.of d := by
  have hworkers := workers_of_configLines h
  simp only [configLines, hworkers, List.append_assoc, List.cons_append, List.nil_append,
    List.append_cancel_left_eq, List.cons.injEq, line_inj, between_inj, Json.digits_inj,
    boolText_inj, quote_inj, screenshotsName_inj, true_and] at h
  obtain ⟨htimeout, hretries, hreporters, hheadless, hviewport, hscreenshots, hrest⟩ := h
  have hbrowsers := flatMap_browserLines_inj (List.append_cancel_right hrest)
  have hsaid : c.reporters.map saidOf = d.reporters.map saidOf := by
    refine reporterTexts_append_inj (r := []) (s := []) ?_
    rw [reporterTexts, reporterTexts, hreporters]
  simp only [Settings.of, hworkers, htimeout, hretries, hsaid, hheadless,
    viewport_inj hviewport, hscreenshots, hbrowsers]

lemma configLines_congr (h : Settings.of c = Settings.of d) :
    configLines style c = configLines style d := by
  obtain ⟨htimeout, hretries, hworkers, hreporters, hheadless, hviewport, hscreenshots,
    hbrowsers⟩ := Settings.mk.inj h
  have htexts := reporterTexts_congr hreporters
  rw [reporterTexts, reporterTexts] at htexts
  rw [configLines, configLines, htimeout, hretries, hworkers, htexts, hheadless, hviewport,
    hscreenshots, hbrowsers]

lemma unlines_inj {ls ms : List String} (hl : ∀ l ∈ ls, OneLine l) (hm : ∀ m ∈ ms, OneLine m) :
    unlines ls = unlines ms ↔ ls = ms := by
  refine ⟨fun h => ?_, congrArg unlines⟩
  have hlines := congrArg linesOf h
  rw [linesOf_unlines hl, linesOf_unlines hm] at hlines
  exact List.map_injective_iff.mpr (fun _ _ => String.toList_inj.mp)
    (List.append_cancel_right hlines)

end lines

/-- **Two configurations have one file just when they say the same.** -/
theorem configFile_eq_iff {c d : Configuration} :
    configFile .standard c = configFile .standard d ↔ Settings.of c = Settings.of d := by
  have hindent : OneLine Style.standard.indent := by decide
  rw [configFile, configFile,
    unlines_inj (oneLine_configLines hindent c) (oneLine_configLines hindent d)]
  exact ⟨settings_of_configLines, configLines_congr⟩

end Rehearsal.Source
