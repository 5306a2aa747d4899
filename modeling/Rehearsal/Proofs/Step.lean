import Mathlib
import Rehearsal.Proofs.Source.Faults
import Rehearsal.Proofs.Source.Outline

/-!
# From stored steps to lines of code

A stored step is checked, and what was checked becomes one line of code.

* `Step.Keeps`: what a checked step has of the stored one.
* `StoredStep.checkAll_reports`: steps are taken all together or not at all, and **the first one
  that is not good says why**.
* `Step.compile_settles`: a line says **what is done and to which element**, whatever quotation
  marks, commas or parentheses stand in the texts, and nothing in it ends the line.
-/

namespace Rehearsal

/-! ## Checking -/

/-- What a checked step has of the stored one: all of it, but for a value that its action does not
take. -/
structure Step.Keeps (t : Step) (s : StoredStep) : Prop where
  action : t.action.name = s.action
  value : Source.valueOf t.action
    = if s.action = "type" ∨ s.action = "select" then s.value else none
  selector : t.selector = s.selector
  description : t.description = s.description
  page : t.page = s.page

namespace StoredStep

lemma keeps_of_check {s : StoredStep} {t : Step} (h : s.check = .ok t) : t.Keeps s := by
  obtain ⟨a, ha, h⟩ := bind_eq_ok_iff.mp h
  obtain ⟨hname, hvalue⟩ := Source.action?_eq_ok ha
  split_ifs at h
  cases h
  exact ⟨hname, hvalue, rfl, rfl, rfl⟩

lemma compile_of_check {s : StoredStep} {t : Step} (h : s.check = .ok t) :
    s.compile = .ok t.compile := by
  rw [compile, h]
  rfl

/-- **Steps are taken all together, just when all of them are good.**

* Then each is kept in its place, and compiling them one by one comes to the same as checking and
  compiling each stored step on its own.
* Otherwise the first that is not good is reported, an action outside the six before anything
  else. -/
theorem checkAll_reports (ss : List StoredStep) :
    ((∃ ts, checkAll ss = .ok ts) ↔ ∀ s ∈ ss, s.Good)
      ∧ (∀ ts, checkAll ss = .ok ts → List.Forall₂ Step.Keeps ts ss
          ∧ ss.map compile = ts.map fun t => .ok t.compile)
      ∧ (∀ e, checkAll ss = .error e ↔ First Good (·.Fault e) ss)
      ∧ ∀ s ∈ ss, ∀ e, s.Fault e →
          (s.action ∉ ["click", "type", "select", "hover", "wait", "assert"] →
              e = .unknownAction s.action)
            ∧ (s.action ∈ ["click", "type", "select", "hover", "wait", "assert"] →
              ∃ detail, e = .invalidStep detail) := by
  refine ⟨(checks_checkAll ss).ok_iff, fun ts hts => ?_, fun e => checkAll_eq_error_iff,
    fun s _ e => Fault.report⟩
  have hchecked := checkAll_eq_ok_iff.mp hts
  refine ⟨(hchecked.imp fun _ _ => keeps_of_check).flip, ?_⟩
  rw [← List.forall₂_eq_eq_eq, List.forall₂_map_left_iff, List.forall₂_map_right_iff]
  exact hchecked.imp fun _ _ => compile_of_check

/-- The second step is the first that is not good, and its missing element is not what counts. -/
example : checkAll [.make "click" "#a", .make "drag" "", .make "type" "#b"]
    = .error (.unknownAction "drag") := by
  rfl

end StoredStep

/-! ## Compiling -/

namespace Step

open Source (Line)

/-- The line of a step in a file stands for what is done and to which element. -/
lemma ofStep_eq_iff {a b : Step} :
    Line.ofStep a = Line.ofStep b ↔ a.action = b.action ∧ a.selector = b.selector := by
  obtain ⟨action, selector, -, -⟩ := a
  obtain ⟨action', selector', -, -⟩ := b
  cases action <;> cases action' <;> simp [Line.ofStep, and_comm]

/-- The free texts delimit themselves, so lines that read the same are the same. -/
lemma ofStep_eq_of_compile_eq {a b : Step} (h : a.compile = b.compile) :
    Line.ofStep a = Line.ofStep b := by
  have htext : (Line.ofStep a).text.toList ++ ['\n'] = (Line.ofStep b).text.toList ++ ['\n'] := by
    rw [← Line.text_ofStep, ← Line.text_ofStep, h]
  exact (Line.text_append_inj (Line.sound_ofStep a) (Line.sound_ofStep b) htext).1

lemma printable_compile (s : Step) : Text.Printable s.compile := by
  obtain ⟨action, selector, -, -⟩ := s
  cases action <;>
    simp only [compile, Text.printable_append, Text.printable_quote, and_true] <;>
    decide

/-- **A line says what is done and to which element**: two steps have the same line just when they
have the same action, with its value, and the same selector.  And a line is one line, since it
holds nothing below the space. -/
theorem compile_settles (a b : Step) :
    (a.compile = b.compile ↔ a.action = b.action ∧ a.selector = b.selector)
      ∧ ∀ c ∈ a.compile.toList, 0x20 ≤ c.toNat := by
  refine ⟨⟨fun h => ofStep_eq_iff.mp (ofStep_eq_of_compile_eq h), ?_⟩, printable_compile a⟩
  rintro ⟨haction, hselector⟩
  simp only [compile, haction, hselector]

end Step

end Rehearsal
