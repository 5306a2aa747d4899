import Mathlib
import Rehearsal.Proofs.FileTree.Path
import Rehearsal.Proofs.FileTree.Place

/-!
# Sites: the part of a tree below an absolute path

Whoever works below an absolute path needs the directories that lead there and changes nothing
outside, apart from making such directories.

* `Site.Spares`: what others may do to a tree **without disturbing the site**.
* `Site.Change`, `Site.Within`: what work on the site may do to a tree, and what it leaves alone.
  **Work within one site spares another one** (`Within.spares`).
* `Site.Leads`, `Site.Stands`: paths below the site can be followed; a directory stands there.
* `Site.Tidy`: whatever there is of the site can be reached, so that it can be removed.
-/

namespace Rehearsal

open FileTree (landing passed)

/-- The part of a tree below an absolute path. -/
structure Site where
  path : Path
  absolute : path.isAbsolute = true

namespace Site

variable (s : Site)

/-- The steps of the path, from the top of the tree. -/
def steps : List Segment := Path.stepsOf s.path.text.toList

/-- Where the path leads. -/
def place : Place := landing [] s.steps

/-- The places that lead there. -/
def ancestors : List Place := passed [] s.steps

/-- The steps to something below the path. -/
def below (ns : List String) : List Segment := s.path.segments ++ ns.map .name

/-- What stands below the path. -/
def content (t : FileTree) (ns : List String) : Option Entry := t.get? (s.place ++ ns)

/-- Nothing stands there. -/
def Vacant (t : FileTree) : Prop := ∀ ns, s.content t ns = none

/-- The steps to something below the path can be taken. -/
def Leads (t : FileTree) (ns : List String) : Prop := t.Passable t.current (s.below ns)

/-- There is a directory, and the steps to it can be taken. -/
def Stands (t : FileTree) (ns : List String) : Prop :=
  s.Leads t ns ∧ s.content t ns = some .directory

/-- Whatever is left of the site can be reached. -/
def Tidy (t : FileTree) : Prop := s.Vacant t ∨ s.Stands t []

/-- The way to the site does not lead through the site. -/
def Apart (current : Place) : Prop := ∀ q ∈ current :: s.ancestors, ¬s.place <+: q

variable {s} {t u v : FileTree} {ns : List String}

/-! ## Steps below a site -/

lemma segments_path : s.path.segments = .root :: s.steps :=
  Path.segments_of_isAbsolute s.absolute

lemma landing_path (p : Place) : landing p s.path.segments = s.place := by
  rw [segments_path]
  rfl

lemma passed_path (p : Place) : passed p s.path.segments = p :: s.ancestors := by
  rw [segments_path]
  rfl

@[simp] lemma landing_below (p : Place) (ns : List String) :
    landing p (s.below ns) = s.place ++ ns := by
  rw [below, FileTree.landing_append, landing_path, FileTree.landing_names]

/-- Every place on the way is the first one, or leads to the site, or is in the site. -/
lemma mem_passed_below {p q : Place} : q ∈ passed p (s.below ns)
    ↔ q ∈ p :: s.ancestors ∨ ∃ ms, ms <+: ns ∧ ms ≠ ns ∧ q = s.place ++ ms := by
  rw [below, FileTree.passed_append, List.mem_append, passed_path, landing_path,
    FileTree.mem_passed_names]

lemma below_injective : Function.Injective s.below := fun _ _ h =>
  List.map_injective_iff.mpr (fun _ _ hname => Segment.name.inj hname) (List.append_cancel_left h)

lemma below_nil : s.below [] = s.path.segments := List.append_nil _

/-- A first part of the steps leads towards the site, or to something on the way below it. -/
lemma landing_of_isPrefix {a : List Segment} (h : a <+: s.below ns) (hne : a ≠ []) (p : Place) :
    landing p a ∈ s.ancestors ∨ ∃ ms, ms <+: ns ∧ a = s.below ms := by
  rcases List.prefix_or_prefix_of_prefix h (List.prefix_append _ _) with hpath | ⟨b, rfl⟩
  · by_cases hall : a = s.path.segments
    · exact .inr ⟨[], List.nil_prefix, hall.trans below_nil.symm⟩
    · obtain ⟨b, hb⟩ := hpath
      rw [segments_path] at hall hb
      cases a with
      | nil => exact absurd rfl hne
      | cons first a =>
          obtain ⟨rfl, hsteps⟩ := List.cons.inj hb
          refine .inl ?_
          rw [ancestors, ← hsteps]
          refine FileTree.landing_mem_passed ?_
          rintro rfl
          exact hall ((List.append_nil _).symm.trans hb)
  · rw [below, List.prefix_append_right_inj] at h
    obtain ⟨ms, hms, rfl⟩ := List.prefix_map_iff.mp h
    exact .inr ⟨ms, hms, rfl⟩

namespace Leads

/-- On the way to something below, the site is passed. -/
lemma content_of_isPrefix (h : s.Leads t ns) {ms : List String} (hms : ms <+: ns) (hne : ms ≠ ns) :
    s.content t ms = some .directory :=
  h.directories _ (mem_passed_below.mpr (.inr ⟨ms, hms, hne, rfl⟩))

lemma of_isPrefix (h : s.Leads t ns) {ms : List String} (hms : ms <+: ns) : s.Leads t ms := by
  obtain ⟨rest, rfl⟩ := hms
  have hsteps : s.below (ms ++ rest) = s.below ms ++ rest.map .name := by
    rw [below, below, List.map_append, List.append_assoc]
  rw [Leads, hsteps, FileTree.passable_append] at h
  exact h.1

lemma stands_of_isPrefix (h : s.Leads t ns) {ms : List String} (hms : ms <+: ns) (hne : ms ≠ ns) :
    s.Stands t ms :=
  ⟨h.of_isPrefix hms, h.content_of_isPrefix hms hne⟩

lemma keeps (h : s.Leads t ns) (htu : t.Keeps u) : s.Leads u ns := by
  rw [Leads, htu.current]
  exact h.mono fun r _ => htu.directories r

end Leads

namespace Stands

/-- A directory stands in directories. -/
lemma of_isPrefix (h : s.Stands t ns) {ms : List String} (hms : ms <+: ns) : s.Stands t ms := by
  by_cases hne : ms = ns
  · exact hne ▸ h
  · exact h.1.stands_of_isPrefix hms hne

lemma keeps (h : s.Stands t ns) (htu : t.Keeps u) : s.Stands u ns :=
  ⟨h.1.keeps htu, htu.directories _ h.2⟩

end Stands

/-! ## What others may do -/

variable (s) in
/-- The site and the way to it are not disturbed. -/
structure Spares (t u : FileTree) : Prop where
  current : u.current = t.current
  leading : ∀ q ∈ t.current :: s.ancestors, t.get? q = some .directory →
    u.get? q = some .directory
  content : ∀ ns, s.content u ns = s.content t ns

namespace Spares

lemma refl (t : FileTree) : s.Spares t t := ⟨rfl, fun _ _ h => h, fun _ => rfl⟩

lemma trans (h : s.Spares t u) (h' : s.Spares u v) : s.Spares t v where
  current := h'.current.trans h.current
  leading q hq hd := h'.leading q (h.current ▸ hq) (h.leading q hq hd)
  content ns := (h'.content ns).trans (h.content ns)

lemma leads (h : s.Spares t u) (hl : s.Leads t ns) : s.Leads u ns := by
  rw [Leads, h.current]
  refine hl.mono fun q hq hd => ?_
  rcases mem_passed_below.mp hq with hq | ⟨ms, -, -, rfl⟩
  · exact h.leading q hq hd
  · exact (h.content ms).trans hd

lemma stands (h : s.Spares t u) (hs : s.Stands t ns) : s.Stands u ns :=
  ⟨h.leads hs.1, (h.content ns).trans hs.2⟩

lemma vacant (h : s.Spares t u) (hv : s.Vacant t) : s.Vacant u :=
  fun ns => (h.content ns).trans (hv ns)

lemma tidy (h : s.Spares t u) (ht : s.Tidy t) : s.Tidy u := ht.imp h.vacant h.stands

end Spares

/-! ## What work on a site may do -/

variable (s) in
/-- A single change by work on the site. -/
inductive Change (t : FileTree) : FileTree → Prop
  | none : Change t t
  /-- A directory that leads to the site is made. -/
  | ground {q : Place} (hq : q ∈ s.ancestors) (h : t.get? q = none) :
      Change t (t.put q .directory)
  /-- Something is put where no directory is. -/
  | write {ns : List String} {e : Entry} (hlead : s.Leads t ns)
      (h : s.content t ns ≠ some .directory) (he : ns = [] → e = .directory) :
      Change t (t.put (s.place ++ ns) e)
  /-- A part of the site is removed. -/
  | clear {q : Place} (hq : s.place <+: q) : Change t (t.clear q)

variable (s) in
/-- Outside of the site, nothing is done but making directories that lead there. -/
structure Within (t u : FileTree) : Prop where
  current : u.current = t.current
  outside : ∀ q, ¬s.place <+: q → u.get? q = t.get? q
    ∨ q ∈ s.ancestors ∧ t.get? q = none ∧ u.get? q = some .directory

namespace Within

lemma refl (t : FileTree) : s.Within t t := ⟨rfl, fun _ _ => .inl rfl⟩

lemma trans (h : s.Within t u) (h' : s.Within u v) : s.Within t v := by
  refine ⟨h'.current.trans h.current, fun q hq => ?_⟩
  rcases h'.outside q hq with hsame' | ⟨hmem, hnone, hdirectory⟩
  · rw [hsame']
    exact h.outside q hq
  · rcases h.outside q hq with hsame | ⟨-, -, hmade⟩
    · exact .inr ⟨hmem, hsame ▸ hnone, hdirectory⟩
    · cases hmade.symm.trans hnone

/-- **Work within one site spares another one** that has the same places lead to it. -/
theorem spares {s' : Site} (h : s'.Within t u) (hways : ∀ q ∈ s'.ancestors, q ∈ s.ancestors)
    (happart : s.Apart t.current)
    (hleading : ∀ q ∈ t.current :: s.ancestors, ¬s'.place <+: q)
    (hdisjoint : ∀ ns, ¬s'.place <+: s.place ++ ns) : s.Spares t u where
  current := h.current
  leading q hq hd := by
    rcases h.outside q (hleading q hq) with hsame | ⟨-, -, hmade⟩
    · exact hsame.trans hd
    · exact hmade
  content ns := by
    rcases h.outside _ (hdisjoint ns) with hsame | ⟨hmem, -, -⟩
    · exact hsame
    · have hway : s.place ++ ns ∈ t.current :: s.ancestors :=
        List.mem_cons_of_mem _ (hways _ hmem)
      exact absurd (List.prefix_append _ ns) (happart _ hway)

end Within

namespace Change

lemma within (h : s.Change t u) : s.Within t u := by
  cases h with
  | none => exact .refl t
  | @ground q hq hnone =>
      refine ⟨rfl, fun r _ => ?_⟩
      have hne := FileTree.not_directory hnone
      rw [FileTree.get?_put (FileTree.ne_nil_of_get? hne)]
      split_ifs with hr
      · exact .inr ⟨hr ▸ hq, hr ▸ hnone, rfl⟩
      · exact .inl rfl
  | write hlead hne he =>
      refine ⟨rfl, fun r hr => .inl ?_⟩
      rw [FileTree.get?_put (FileTree.ne_nil_of_get? hne), if_neg]
      rintro rfl
      exact hr (List.prefix_append _ _)
  | @clear q hq =>
      refine ⟨rfl, fun r hr => .inl ?_⟩
      by_cases hnil : q = []
      · rw [hnil, List.prefix_nil] at hq
        exact absurd (hq ▸ List.nil_prefix) hr
      · rw [FileTree.get?_clear hnil, if_neg fun hqr => hr (hq.trans hqr)]

/-- Whatever is changed, what is left of the site can be reached. -/
theorem tidy (h : s.Change t u) (happart : s.Apart t.current) (ht : s.Tidy t) : s.Tidy u := by
  cases h with
  | none => exact ht
  | @ground q hq hnone =>
      have hne := FileTree.not_directory hnone
      refine ht.imp (fun hvacant ns => ?_) fun hstands => hstands.keeps (FileTree.keeps_put hne _)
      rw [content, FileTree.get?_put (FileTree.ne_nil_of_get? hne), if_neg]
      · exact hvacant ns
      · rintro rfl
        exact happart _ (List.mem_cons_of_mem _ hq) (List.prefix_append _ ns)
  | @write ns e hlead hne he =>
      have hkeeps := FileTree.keeps_put hne e
      refine .inr ?_
      by_cases hns : ns = []
      · subst hns
        refine ⟨hlead.keeps hkeeps, ?_⟩
        rw [content, FileTree.get?_put (FileTree.ne_nil_of_get? hne), if_pos rfl, he rfl]
      · exact (hlead.stands_of_isPrefix List.nil_prefix (Ne.symm hns)).keeps hkeeps
  | @clear q hq =>
      have hnil : q ≠ [] := by
        rintro rfl
        rw [List.prefix_nil] at hq
        exact happart t.current List.mem_cons_self (hq ▸ List.nil_prefix)
      by_cases hplace : q = s.place
      · refine .inl fun ns => ?_
        rw [content, FileTree.get?_clear hnil, if_pos (hplace ▸ List.prefix_append _ ns)]
      · refine ht.imp (fun hvacant ns => ?_) fun hstands => ⟨?_, ?_⟩
        · rw [content, FileTree.get?_clear hnil]
          split_ifs
          · rfl
          · exact hvacant ns
        · refine hstands.1.mono fun r hr hd => ?_
          rw [below_nil, passed_path] at hr
          rw [FileTree.get?_clear hnil, if_neg fun hqr => happart r hr (hq.trans hqr)]
          exact hd
        · rw [content, FileTree.get?_clear hnil, if_neg]
          · exact hstands.2
          · rw [List.append_nil]
            exact fun hqp => hplace (hqp.eq_of_length_le hq.length_le)

end Change

/-- What can be reached can be removed. -/
lemma vacant_removeTree (happart : s.Apart t.current) (ht : s.Tidy t) :
    s.Vacant (t.removeTree s.path.segments) := by
  rcases ht with hvacant | hstands
  · rcases t.removeTree_cases s.path.segments with hsame | ⟨-, hdirectory, -⟩
    · rw [hsame]
      exact hvacant
    · rw [landing_path, ← List.append_nil s.place] at hdirectory
      cases hdirectory.symm.trans (hvacant [])
  · have hpass : t.Passable t.current s.path.segments := below_nil ▸ hstands.1
    have hdirectory : t.get? (landing t.current s.path.segments) = some .directory := by
      rw [landing_path, ← List.append_nil s.place]
      exact hstands.2
    have hnil : s.place ≠ [] := fun h => happart t.current List.mem_cons_self (h ▸ List.nil_prefix)
    intro ns
    rw [FileTree.removeTree_eq hpass hdirectory, landing_path, content, FileTree.get?_clear hnil,
      if_pos (List.prefix_append _ ns)]

end Site

end Rehearsal
