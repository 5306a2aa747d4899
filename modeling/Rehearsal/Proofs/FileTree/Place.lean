import Mathlib
import Rehearsal.FileTree

/-!
# Where steps lead and what the operations on files do there

Steps lead to the same place in every tree; what differs is whether they can be taken.

* `FileTree.walk_eq_ok_iff`: steps can be taken **just when every place that they pass is a
  directory** and every name fits.
* `FileTree.locate_eq_ok_iff`: which paths can be told from the top.
* `FileTree.makeDirectory_eq_ok`, `openFile_eq_ok`, `fillFile_cases`, `removeTree_cases`: what each
  operation does, as **one change at the place where its steps lead**.
* `FileTree.Keeps`: a tree that has the directories of another one, and perhaps more.
-/

namespace Rehearsal

/-- Where a step leads. -/
def Segment.follow (p : Place) : Segment → Place
  | .root => []
  | .here => p
  | .up => p.dropLast
  | .name n => p ++ [n]

/-- A step that a file system takes. -/
def Segment.Fits : Segment → Prop
  | .name n => n.utf8ByteSize ≤ FileTree.maxName
  | _ => True

namespace FileTree

/-! ## Landings -/

/-- Where steps lead from a place. -/
def landing (p : Place) (steps : List Segment) : Place := steps.foldl Segment.follow p

/-- The places that steps are taken from. -/
def passed (p : Place) : List Segment → List Place
  | [] => []
  | s :: rest => p :: passed (Segment.follow p s) rest

lemma landing_append (p : Place) (a b : List Segment) :
    landing p (a ++ b) = landing (landing p a) b := List.foldl_append

lemma passed_append (p : Place) (a b : List Segment) :
    passed p (a ++ b) = passed p a ++ passed (landing p a) b := by
  induction a generalizing p with
  | nil => rfl
  | cons s a ih => exact congrArg (p :: ·) (ih (Segment.follow p s))

/-- What a first part of the steps leads to is passed on the way. -/
lemma landing_mem_passed {p : Place} {a b : List Segment} (h : b ≠ []) :
    landing p a ∈ passed p (a ++ b) := by
  obtain ⟨s, rest, rfl⟩ := List.exists_cons_of_ne_nil h
  rw [passed_append]
  exact List.mem_append_right _ List.mem_cons_self

lemma landing_names (p : Place) (ns : List String) : landing p (ns.map .name) = p ++ ns := by
  induction ns generalizing p with
  | nil => exact (List.append_nil p).symm
  | cons n ns ih =>
      have hstep : landing p ((n :: ns).map .name) = landing (p ++ [n]) (ns.map .name) := rfl
      rw [hstep, ih, List.append_assoc, List.singleton_append]

/-- On the way down names, every shorter list of them is passed. -/
lemma mem_passed_names {p q : Place} {ns : List String} :
    q ∈ passed p (ns.map .name) ↔ ∃ ms, ms <+: ns ∧ ms ≠ ns ∧ q = p ++ ms := by
  induction ns generalizing p with
  | nil =>
      refine iff_of_false List.not_mem_nil ?_
      rintro ⟨ms, hms, hne, -⟩
      exact hne (List.prefix_nil.mp hms)
  | cons n ns ih =>
      have hpassed : passed p ((n :: ns).map .name) = p :: passed (p ++ [n]) (ns.map .name) := rfl
      rw [hpassed, List.mem_cons, ih]
      constructor
      · rintro (rfl | ⟨ms, hms, hne, rfl⟩)
        · exact ⟨[], List.nil_prefix, (List.cons_ne_nil n ns).symm, (List.append_nil q).symm⟩
        · have hmore : n :: ms <+: n :: ns := List.cons_prefix_cons.mpr ⟨rfl, hms⟩
          refine ⟨n :: ms, hmore, fun h => hne (List.cons.inj h).2, ?_⟩
          rw [List.append_assoc, List.singleton_append]
      · rintro ⟨ms, hms, hne, rfl⟩
        cases ms with
        | nil => exact .inl (List.append_nil p)
        | cons m ms =>
            obtain ⟨rfl, hrest⟩ := List.cons_prefix_cons.mp hms
            refine .inr ⟨ms, hrest, fun h => hne (congrArg _ h), ?_⟩
            rw [List.append_assoc, List.singleton_append]

/-! ## Walks -/

section walk

variable {t u : FileTree} {p q : Place} {steps : List Segment}

/-- Steps that can be taken from a place. -/
structure Passable (t : FileTree) (p : Place) (steps : List Segment) : Prop where
  directories : ∀ r ∈ passed p steps, t.get? r = some .directory
  fits : ∀ s ∈ steps, s.Fits

lemma passable_append {a b : List Segment} :
    t.Passable p (a ++ b) ↔ t.Passable p a ∧ t.Passable (landing p a) b := by
  constructor
  · rintro ⟨hdirectories, hfits⟩
    rw [passed_append, List.forall_mem_append] at hdirectories
    rw [List.forall_mem_append] at hfits
    exact ⟨⟨hdirectories.1, hfits.1⟩, ⟨hdirectories.2, hfits.2⟩⟩
  · rintro ⟨⟨hdirectories, hfits⟩, ⟨hdirectories', hfits'⟩⟩
    refine ⟨?_, List.forall_mem_append.mpr ⟨hfits, hfits'⟩⟩
    rw [passed_append, List.forall_mem_append]
    exact ⟨hdirectories, hdirectories'⟩

lemma passable_cons {s : Segment} : t.Passable p (s :: steps)
    ↔ t.get? p = some .directory ∧ s.Fits ∧ t.Passable (Segment.follow p s) steps := by
  constructor
  · rintro ⟨hdirectories, hfits⟩
    obtain ⟨hp, hrest⟩ := List.forall_mem_cons.mp hdirectories
    obtain ⟨hs, hfits⟩ := List.forall_mem_cons.mp hfits
    exact ⟨hp, hs, hrest, hfits⟩
  · rintro ⟨hp, hs, hrest, hfits⟩
    exact ⟨List.forall_mem_cons.mpr ⟨hp, hrest⟩, List.forall_mem_cons.mpr ⟨hs, hfits⟩⟩

/-- A step that fits is taken from a directory. -/
lemma walk_cons {s : Segment} (hp : t.get? p = some .directory) (hs : s.Fits) :
    t.walk p (s :: steps) = t.walk (Segment.follow p s) steps := by
  cases s with
  | name n => rw [walk.eq_def, hp]; exact if_pos hs
  | root | here | up => rw [walk.eq_def, hp]; rfl

/-- Steps can be taken just when every place that they pass is a directory and every name fits. -/
theorem walk_eq_ok_iff : t.walk p steps = .ok q ↔ t.Passable p steps ∧ landing p steps = q := by
  induction steps generalizing p with
  | nil =>
      refine ⟨fun h => ⟨⟨?_, ?_⟩, Except.ok.inj h⟩, fun h => congrArg _ h.2⟩
      · exact fun r hr => absurd hr List.not_mem_nil
      · exact fun s hs => absurd hs List.not_mem_nil
  | cons s rest ih =>
      have hlanding : landing p (s :: rest) = landing (Segment.follow p s) rest := rfl
      rw [passable_cons, hlanding]
      by_cases hp : t.get? p = some .directory
      · by_cases hs : s.Fits
        · rw [walk_cons hp hs, ih, and_assoc, and_iff_right hp, and_iff_right hs]
        · refine iff_of_false ?_ fun h => hs h.1.2.1
          cases s with
          | name n =>
              have hn : ¬n.utf8ByteSize ≤ maxName := hs
              simp [walk.eq_def, hp, hn]
          | root | here | up => exact absurd trivial hs
      · refine iff_of_false ?_ fun h => hp h.1.1
        match hget : t.get? p with
        | none => simp [walk.eq_def, hget]
        | some (.file content) => simp [walk.eq_def, hget]
        | some .directory => exact absurd hget hp

lemma place_eq_ok_iff :
    t.place steps = .ok q ↔ t.Passable t.current steps ∧ landing t.current steps = q :=
  walk_eq_ok_iff

/-- A tree with the directories of another one. -/
structure Keeps (t u : FileTree) : Prop where
  current : u.current = t.current
  directories : ∀ q, t.get? q = some .directory → u.get? q = some .directory

/-- Directories that stay let the same steps pass. -/
lemma Passable.mono (h : t.Passable p steps)
    (hkeep : ∀ r ∈ passed p steps, t.get? r = some .directory → u.get? r = some .directory) :
    u.Passable p steps :=
  ⟨fun r hr => hkeep r hr (h.directories r hr), h.fits⟩

end walk

/-! ## Changes at a place -/

section change

variable {t : FileTree} {p : Place}

lemma get?_top (t : FileTree) : t.get? [] = some .directory := if_pos rfl

lemma not_directory (h : t.get? p = none) : t.get? p ≠ some .directory := by
  rw [h]
  exact fun h => by cases h

lemma ne_nil_of_get? (h : t.get? p ≠ some .directory) : p ≠ [] := by
  rintro rfl
  exact h t.get?_top

lemma get?_put (hp : p ≠ []) (e : Entry) (q : Place) :
    (t.put p e).get? q = if q = p then some e else t.get? q := by
  by_cases hq : q = []
  · rw [hq, get?_top, get?_top, if_neg hp.symm]
  · rw [get?, if_neg hq, put, Table.get?_put, get?, if_neg hq]

lemma get?_clear (hp : p ≠ []) (q : Place) :
    (t.clear p).get? q = if p <+: q then none else t.get? q := by
  by_cases hq : q = []
  · rw [hq, get?_top, get?_top, if_neg fun h => hp (List.prefix_nil.mp h)]
  · rw [get?, if_neg hq, clear, Table.get?_filterKeys, get?, if_neg hq]
    by_cases h : p <+: q
    · simp [h]
    · simp [h]

/-- Something put where no directory is takes no directory away. -/
lemma keeps_put (h : t.get? p ≠ some .directory) (e : Entry) : t.Keeps (t.put p e) := by
  refine ⟨rfl, fun q hq => ?_⟩
  rw [get?_put (ne_nil_of_get? h)]
  split_ifs with hqp
  · exact absurd (hqp ▸ hq) h
  · exact hq

end change

/-! ## Operations -/

section operations

variable {t u : FileTree} {steps : List Segment} {path : Path}

/-- There is a path from the top just for a path that is not empty, and for a relative one only
while the place where it begins stands. -/
lemma locate_eq_ok_iff {located : Path} : t.locate path = .ok located ↔
    path.text ≠ "" ∧ (path.isAbsolute = true ∨ t.isDirectoryAt t.current = true)
      ∧ path.absolute t.currentPath = located := by
  rw [locate]
  by_cases hempty : path.text = ""
  · simp [hempty]
  · cases path.isAbsolute <;> cases t.isDirectoryAt t.current <;> simp [hempty]

/-- What there is a path to is where the path leads. -/
lemma locate_cases (t : FileTree) (path : Path) :
    t.locate path = .ok (path.absolute t.currentPath) ∨ ∃ r, t.locate path = .error r := by
  cases h : t.locate path with
  | ok located => exact .inl (congrArg _ (locate_eq_ok_iff.mp h).2.2.symm)
  | error r => exact .inr ⟨r, rfl⟩

/-- A directory is made where nothing stands. -/
lemma makeDirectory_eq_ok (h : t.makeDirectory steps = .ok u) :
    t.Passable t.current steps ∧ t.get? (landing t.current steps) = none
      ∧ u = t.put (landing t.current steps) .directory := by
  rw [makeDirectory] at h
  split_ifs at h
  match hplace : t.place steps with
  | .error r => rw [hplace] at h; cases h
  | .ok p =>
      obtain ⟨hpass, rfl⟩ := place_eq_ok_iff.mp hplace
      simp only [hplace] at h
      split_ifs at h with hsome
      rw [Bool.not_eq_true, Option.isSome_eq_false_iff, Option.isNone_iff_eq_none] at hsome
      exact ⟨hpass, hsome, (Except.ok.inj h).symm⟩

/-- A file is opened where no directory stands, by a path that may lead to a file. -/
lemma openFile_eq_ok (h : t.openFile path = .ok u) :
    path.needsDirectory = false ∧ t.Passable t.current path.segments
      ∧ t.get? (landing t.current path.segments) ≠ some .directory
      ∧ u = t.put (landing t.current path.segments) (.file "") := by
  rw [openFile] at h
  split_ifs at h with husable hneeds
  match hplace : t.place path.segments with
  | .error r => rw [hplace] at h; cases h
  | .ok p =>
      obtain ⟨hpass, rfl⟩ := place_eq_ok_iff.mp hplace
      simp only [hplace] at h
      split_ifs at h with hdirectory
      rw [Bool.not_eq_true] at hneeds
      exact ⟨hneeds, hpass, fun hd => hdirectory (decide_eq_true hd), (Except.ok.inj h).symm⟩

/-- A file is filled where a path leads to one. -/
lemma fillFile_cases (t : FileTree) (path : Path) (content : String) :
    t.fillFile path content = t ∨ ∃ old, t.Passable t.current path.segments
      ∧ t.get? (landing t.current path.segments) = some (.file old)
      ∧ t.fillFile path content = t.put (landing t.current path.segments) (.file content) := by
  rw [fillFile]
  match hplace : t.place path.segments with
  | .error r => exact .inl rfl
  | .ok p =>
      obtain ⟨hpass, rfl⟩ := place_eq_ok_iff.mp hplace
      match hget : t.get? (landing t.current path.segments) with
      | none => simp [hget]
      | some .directory => simp [hget]
      | some (.file old) => exact .inr ⟨old, hpass, rfl, by simp [hget]⟩

lemma fillFile_eq {old : String} (hpass : t.Passable t.current path.segments)
    (h : t.get? (landing t.current path.segments) = some (.file old)) (content : String) :
    t.fillFile path content = t.put (landing t.current path.segments) (.file content) := by
  rw [fillFile, place_eq_ok_iff.mpr ⟨hpass, rfl⟩]
  simp only [h]

/-- What steps lead to is removed with everything below it, if it is a directory. -/
lemma removeTree_cases (t : FileTree) (steps : List Segment) :
    t.removeTree steps = t ∨ t.Passable t.current steps
      ∧ t.get? (landing t.current steps) = some .directory
      ∧ t.removeTree steps = t.clear (landing t.current steps) := by
  rw [removeTree]
  match hplace : t.place steps with
  | .error r => exact .inl rfl
  | .ok p =>
      obtain ⟨hpass, rfl⟩ := place_eq_ok_iff.mp hplace
      by_cases hd : t.get? (landing t.current steps) = some .directory
      · exact .inr ⟨hpass, hd, by simp [isDirectoryAt, hd]⟩
      · exact .inl (by simp [isDirectoryAt, hd])

lemma removeTree_eq (hpass : t.Passable t.current steps)
    (h : t.get? (landing t.current steps) = some .directory) :
    t.removeTree steps = t.clear (landing t.current steps) := by
  rw [removeTree, place_eq_ok_iff.mpr ⟨hpass, rfl⟩]
  simp [isDirectoryAt, h]

lemma isDirectory_eq_true (h : t.isDirectory steps = true) :
    t.Passable t.current steps ∧ t.get? (landing t.current steps) = some .directory := by
  rw [isDirectory, Bool.and_eq_true] at h
  match hplace : t.place steps with
  | .error r => rw [hplace] at h; cases h.2
  | .ok p =>
      obtain ⟨hpass, rfl⟩ := place_eq_ok_iff.mp hplace
      simp only [hplace] at h
      exact ⟨hpass, of_decide_eq_true h.2⟩

/-- A file is read where a path leads to it. -/
lemma read?_eq_some {content : String} (hneeds : path.needsDirectory = false)
    (hpass : t.Passable t.current path.segments)
    (h : t.get? (landing t.current path.segments) = some (.file content)) :
    t.read? path = some content := by
  rw [read?, hneeds, place_eq_ok_iff.mpr ⟨hpass, rfl⟩]
  simp only [Bool.false_eq_true, if_false, h]

end operations

end FileTree

end Rehearsal
