import Mathlib
import Rehearsal.Generation

/-!
# The steps of paths that are put together

What a path leads to is read off its steps, so all that is said of paths is said of their steps.

* `Path.segments_join`: below a path, the steps of a relative one are **added at the end**.
* `Path.segments_absolute_join`: so it is when a path is written from the top of the tree; **what
  comes before a last name does not depend on the name**.
* `Path.segments_of_confined`: a path that stays below its root is a list of names.
-/

namespace Rehearsal.Path

/-! ## Pieces -/

lemma pieces_of_notMem {cs : List Char} (h : '/' ∉ cs) : pieces cs = [cs] := by
  induction cs with
  | nil => rfl
  | cons c cs ih =>
      rw [List.mem_cons, not_or] at h
      rw [pieces, if_neg (Ne.symm h.1), ih h.2]

lemma pieces_ne_nil (cs : List Char) : pieces cs ≠ [] := by
  fun_cases pieces cs <;> simp_all

/-- A slash separates the pieces before it from those behind it. -/
lemma pieces_slash (cs ds : List Char) : pieces (cs ++ '/' :: ds) = pieces cs ++ pieces ds := by
  induction cs with
  | nil => rfl
  | cons c cs ih =>
      by_cases hc : c = '/'
      · rw [List.cons_append, pieces, if_pos hc, ih, pieces, if_pos hc, List.cons_append]
      · rw [List.cons_append, pieces, if_neg hc, ih, pieces, if_neg hc]
        cases hp : pieces cs with
        | nil => exact absurd hp (pieces_ne_nil cs)
        | cons p ps => rfl

lemma pieces_append {cs ds : List Char} (h : '/' ∉ cs) :
    pieces (cs ++ '/' :: ds) = cs :: pieces ds := by
  rw [pieces_slash, pieces_of_notMem h, List.singleton_append]

/-- No piece has a slash in it. -/
lemma slash_notMem_of_mem_pieces {cs piece : List Char} (h : piece ∈ pieces cs) :
    '/' ∉ piece := by
  induction cs generalizing piece with
  | nil =>
      obtain rfl := List.mem_singleton.mp h
      exact List.not_mem_nil
  | cons c cs ih =>
      rw [pieces] at h
      split_ifs at h with hc
      · rcases List.mem_cons.mp h with rfl | h
        · exact List.not_mem_nil
        · exact ih h
      · cases hp : pieces cs with
        | nil => exact absurd hp (pieces_ne_nil cs)
        | cons p ps =>
            rw [hp] at h ih
            rcases List.mem_cons.mp h with rfl | h
            · rw [List.mem_cons, not_or]
              exact ⟨Ne.symm hc, ih List.mem_cons_self⟩
            · exact ih (List.mem_cons_of_mem _ h)

/-! ## Steps -/

/-- The steps that the pieces of a text stand for. -/
def stepsOf (cs : List Char) : List Segment := (pieces cs).filterMap step?

lemma stepsOf_slash (cs ds : List Char) : stepsOf (cs ++ '/' :: ds) = stepsOf cs ++ stepsOf ds := by
  rw [stepsOf, pieces_slash, List.filterMap_append, ← stepsOf, ← stepsOf]

/-- A slash at the end counts for nothing. -/
lemma stepsOf_append_slash (cs : List Char) : stepsOf (cs ++ ['/']) = stepsOf cs :=
  (stepsOf_slash cs []).trans (List.append_nil _)

/-- A step to a name that a path can hold, or upwards. -/
def Plain (s : Segment) : Prop :=
  s = .up ∨ ∃ n, s = .name n ∧ '/' ∉ n.toList ∧ n.toList ≠ [] ∧ n.toList ≠ ['.']
    ∧ n.toList ≠ ['.', '.']

lemma plain_of_mem_stepsOf {cs : List Char} {s : Segment} (h : s ∈ stepsOf cs) : Plain s := by
  obtain ⟨piece, hpiece, hs⟩ := List.mem_filterMap.mp h
  rw [step?] at hs
  split_ifs at hs with hempty hdot hup
  · cases hs
    exact .inl rfl
  · cases hs
    refine .inr ⟨_, rfl, ?_⟩
    rw [String.toList_ofList]
    exact ⟨slash_notMem_of_mem_pieces hpiece, hempty, hdot, hup⟩

/-- A plain step is what its text stands for. -/
lemma stepsOf_stepText {s : Segment} (h : Plain s) : stepsOf (stepText s).toList = [s] := by
  rcases h with rfl | ⟨n, rfl, hslash, hempty, hdot, hup⟩
  · decide
  · rw [stepText, stepsOf, pieces_of_notMem hslash, List.filterMap_cons, step?, if_neg hempty,
      if_neg hdot, if_neg hup, String.ofList_toList, List.filterMap_nil]

lemma head?_stepText_ne {s : Segment} (h : Plain s) : (stepText s).toList.head? ≠ some '/' := by
  rcases h with rfl | ⟨n, rfl, hslash, -⟩
  · decide
  · exact fun hhead => hslash (List.mem_of_mem_head? hhead)

lemma isAbsolute_iff {p : Path} : p.isAbsolute = true ↔ p.text.toList.head? = some '/' := by
  rw [isAbsolute, beq_iff_eq]

lemma segments_of_isAbsolute {p : Path} (h : p.isAbsolute = true) :
    p.segments = .root :: stepsOf p.text.toList := by
  rw [segments, if_pos h, stepsOf]

/-- Where a path begins, if it says so. -/
def start (p : Path) : List Segment :=
  if p.isAbsolute then [.root]
  else if (pieces p.text.toList).head? = some ['.'] then [.here]
  else []

lemma segments_eq (p : Path) : p.segments = p.start ++ stepsOf p.text.toList := by
  rw [segments, start, stepsOf]
  split_ifs <;> rfl

/-- Apart from where it begins, a path is its steps. -/
lemma filter_segments (p : Path) :
    (p.segments.filter fun s => s != .root && s != .here) = stepsOf p.text.toList := by
  have hplain : (stepsOf p.text.toList).filter (fun s => s != .root && s != .here)
      = stepsOf p.text.toList := by
    refine List.filter_eq_self.mpr fun s hs => ?_
    rcases plain_of_mem_stepsOf hs with rfl | ⟨n, rfl, -⟩ <;> rfl
  rw [segments]
  split_ifs
  · rw [List.filter_cons_of_neg (by decide)]
    exact hplain
  · rw [List.filter_cons_of_neg (by decide)]
    exact hplain
  · exact hplain

/-! ## Paths below a path -/

section join

variable {p : Path} {below : String}

/-- What is joined to a path that says something is a slash or no slash between two texts. -/
lemma text_join (hp : p.text.toList ≠ []) (hbelow : below.toList.head? ≠ some '/') :
    (∃ cs, p.text.toList = cs ++ ['/'] ∧ (p.join below).text.toList = cs ++ '/' :: below.toList)
      ∨ (p.join below).text.toList = p.text.toList ++ '/' :: below.toList := by
  have hempty : p.text.isEmpty = false := by
    rw [Bool.eq_false_iff, ne_eq, String.isEmpty_iff]
    rintro h
    rw [h] at hp
    exact hp rfl
  rw [join, if_neg hbelow]
  split_ifs with hlast
  · rw [hempty, Bool.false_or, beq_iff_eq] at hlast
    obtain ⟨cs, hcs⟩ := List.getLast?_eq_some_iff.mp hlast
    refine .inl ⟨cs, hcs, ?_⟩
    rw [String.toList_append, hcs, List.append_assoc, List.singleton_append]
  · refine .inr ?_
    have hslash : "/".toList = ['/'] := rfl
    rw [String.toList_append, String.toList_append, hslash, List.append_assoc,
      List.singleton_append]

lemma head?_text_join (hp : p.text.toList ≠ []) (hbelow : below.toList.head? ≠ some '/') :
    (p.join below).text.toList.head? = p.text.toList.head? := by
  rcases text_join hp hbelow with ⟨cs, hcs, htext⟩ | htext
  · rw [htext, hcs]
    cases cs <;> rfl
  · rw [htext, List.head?_append_of_ne_nil _ hp]

lemma ne_nil_of_isAbsolute (hp : p.isAbsolute = true) : p.text.toList ≠ [] := by
  intro h
  rw [isAbsolute_iff, h] at hp
  cases hp

lemma isAbsolute_join (hp : p.isAbsolute = true) (hbelow : below.toList.head? ≠ some '/') :
    (p.join below).isAbsolute = true := by
  rw [isAbsolute_iff, head?_text_join (ne_nil_of_isAbsolute hp) hbelow]
  exact isAbsolute_iff.mp hp

/-- A path that says nothing adds nothing. -/
lemma join_of_empty (hp : p.text.toList = []) (hbelow : below.toList.head? ≠ some '/') :
    p.join below = ⟨below⟩ := by
  have hnone : p.text = "" := String.toList_eq_nil_iff.mp hp
  rw [join, if_neg hbelow, hnone]
  rfl

lemma isAbsolute_join_iff (hbelow : below.toList.head? ≠ some '/') :
    (p.join below).isAbsolute = true ↔ p.isAbsolute = true := by
  rw [isAbsolute_iff, isAbsolute_iff]
  by_cases hp : p.text.toList = []
  · rw [join_of_empty hp hbelow, hp]
    exact iff_of_false hbelow (by simp)
  · rw [head?_text_join hp hbelow]

/-- The steps of what is joined come behind the others. -/
lemma stepsOf_join (hp : p.text.toList ≠ []) (hbelow : below.toList.head? ≠ some '/') :
    stepsOf (p.join below).text.toList = stepsOf p.text.toList ++ stepsOf below.toList := by
  rcases text_join hp hbelow with ⟨cs, hcs, htext⟩ | htext
  · rw [htext, stepsOf_slash, hcs, stepsOf_append_slash]
  · rw [htext, stepsOf_slash]

lemma head?_pieces_slash (cs ds : List Char) :
    (pieces (cs ++ '/' :: ds)).head? = (pieces cs).head? := by
  rw [pieces_slash, List.head?_append_of_ne_nil _ (pieces_ne_nil cs)]

/-- What is joined begins where the path begins. -/
lemma start_join (hp : p.text.toList ≠ []) (hbelow : below.toList.head? ≠ some '/') :
    (p.join below).start = p.start := by
  have hpieces : (pieces (p.join below).text.toList).head? = (pieces p.text.toList).head? := by
    rcases text_join hp hbelow with ⟨cs, hcs, htext⟩ | htext
    · rw [htext, hcs, head?_pieces_slash, head?_pieces_slash]
    · rw [htext, head?_pieces_slash]
  rw [start, start, isAbsolute, isAbsolute, head?_text_join hp hbelow, hpieces]

/-- Below a path that says something, the steps of a relative one are added at the end. -/
lemma segments_join (hp : p.text.toList ≠ []) (hbelow : below.toList.head? ≠ some '/') :
    (p.join below).segments = p.segments ++ stepsOf below.toList := by
  rw [segments_eq, segments_eq, start_join hp hbelow, stepsOf_join hp hbelow, List.append_assoc]

end join

/-! ## Confined paths -/

/-- The names on a path. -/
def names (p : Path) : List String :=
  p.segments.filterMap fun s => match s with
    | .name n => some n
    | _ => none

section confined

variable {path : String}

/-- A path that stays below its root is a list of names. -/
lemma segments_of_confined (h : Generation.confined path = true) :
    segments ⟨path⟩ = (names ⟨path⟩).map .name := by
  rw [Generation.confined, List.all_eq_true] at h
  rw [names]
  generalize segments ⟨path⟩ = steps at h
  induction steps with
  | nil => rfl
  | cons s steps ih =>
      obtain ⟨hs, hsteps⟩ := List.forall_mem_cons.mp h
      cases s with
      | name n => rw [List.filterMap_cons, List.map_cons, ← ih hsteps]
      | root | here | up => cases hs

lemma head?_of_confined (h : Generation.confined path = true) :
    path.toList.head? ≠ some '/' := by
  intro hhead
  have habsolute : (Path.mk path).isAbsolute = true := isAbsolute_iff.mpr hhead
  rw [Generation.confined, segments_of_isAbsolute habsolute, List.all_cons] at h
  cases h

lemma stepsOf_of_confined (h : Generation.confined path = true) :
    stepsOf path.toList = (names ⟨path⟩).map .name := by
  have hsegments := segments_of_confined h
  have hrelative : ¬(Path.mk path).isAbsolute = true :=
    fun habsolute => head?_of_confined h (isAbsolute_iff.mp habsolute)
  rw [segments, if_neg hrelative] at hsegments
  split_ifs at hsegments with hdot
  · cases hnames : names ⟨path⟩ with
    | nil => rw [hnames] at hsegments; cases hsegments
    | cons n ns => rw [hnames] at hsegments; cases hsegments
  · exact hsegments

/-- Below a root, a confined path adds its names. -/
lemma segments_join_of_confined {root : Path} (h : Generation.confined path = true) :
    (root.join path).segments = root.segments ++ (names ⟨path⟩).map .name := by
  by_cases hroot : root.text.toList = []
  · have hempty : root.segments = [] := by
      rw [segments_eq, start, isAbsolute, hroot]
      rfl
    rw [join_of_empty hroot (head?_of_confined h), segments_of_confined h, hempty]
    rfl
  · rw [segments_join hroot (head?_of_confined h), stepsOf_of_confined h]

lemma up_mem_stepsOf {cs : List Char} : .up ∈ stepsOf cs ↔ ['.', '.'] ∈ pieces cs := by
  constructor
  · intro h
    obtain ⟨piece, hpiece, hs⟩ := List.mem_filterMap.mp h
    rw [step?] at hs
    split_ifs at hs with _ _ hup
    · exact hup ▸ hpiece
    · cases hs
  · exact fun h => List.mem_filterMap.mpr ⟨_, h, rfl⟩

/-- A path stays below its root just when it neither begins at the top nor with a dot that stands
alone, and never goes up. -/
lemma confined_iff : Generation.confined path = true ↔ path.toList.head? ≠ some '/'
    ∧ (pieces path.toList).head? ≠ some ['.'] ∧ ['.', '.'] ∉ pieces path.toList := by
  have hhead : (Path.mk path).isAbsolute = true ↔ path.toList.head? = some '/' := isAbsolute_iff
  rw [← up_mem_stepsOf, ne_eq, ← hhead, Generation.confined, segments_eq, start, List.all_append,
    Bool.and_eq_true]
  constructor
  · rintro ⟨hstart, hsteps⟩
    refine ⟨fun habsolute => ?_, fun hdot => ?_, fun hup => ?_⟩
    · rw [if_pos habsolute] at hstart
      cases hstart
    · rw [if_pos hdot] at hstart
      split_ifs at hstart <;> cases hstart
    · cases List.all_eq_true.mp hsteps _ hup
  · rintro ⟨habsolute, hdot, hup⟩
    rw [if_neg habsolute, if_neg hdot]
    refine ⟨rfl, List.all_eq_true.mpr fun s hs => ?_⟩
    rcases plain_of_mem_stepsOf hs with rfl | ⟨n, rfl, -⟩
    · exact absurd hs hup
    · rfl

/-- The only path that stays below its root and has no name on it is the empty one. -/
lemma eq_empty_of_names (h : Generation.confined path = true) (hnames : names ⟨path⟩ = []) :
    path = "" := by
  have hsteps := stepsOf_of_confined h
  rw [hnames, List.map_nil, stepsOf, List.filterMap_eq_nil_iff] at hsteps
  obtain ⟨hslash, hdot, -⟩ := confined_iff.mp h
  cases hpath : path.toList with
  | nil => exact String.toList_eq_nil_iff.mp hpath
  | cons c cs =>
      rw [hpath] at hslash hdot hsteps
      have hc : c ≠ '/' := fun hc => hslash (congrArg some hc)
      obtain ⟨piece, rest, hpieces⟩ := List.exists_cons_of_ne_nil (pieces_ne_nil cs)
      rw [pieces, if_neg hc, hpieces] at hdot hsteps
      have hnone := hsteps (c :: piece) List.mem_cons_self
      rw [step?, if_neg (List.cons_ne_nil c piece), if_neg fun h => hdot (congrArg some h)] at hnone
      split_ifs at hnone

end confined

/-! ## Clean paths -/

/-- A piece that stands for a name. -/
def Naming (piece : List Char) : Prop := piece ≠ [] ∧ piece ≠ ['.'] ∧ piece ≠ ['.', '.']

/-- What is longer than two characters stands for a name. -/
lemma naming_of_length {piece : List Char} (h : 2 < piece.length) : Naming piece := by
  refine ⟨?_, ?_, ?_⟩
  all_goals
    rintro rfl
    simp at h

/-- Between its slashes the text has names and nothing else. -/
def Clean (path : String) : Prop := ∀ piece ∈ pieces path.toList, Naming piece

lemma intercalate_pieces (cs : List Char) : ['/'].intercalate (pieces cs) = cs := by
  induction cs with
  | nil => rfl
  | cons c cs ih =>
      obtain ⟨p, ps, hp⟩ := List.exists_cons_of_ne_nil (pieces_ne_nil cs)
      rw [hp] at ih
      rw [pieces, hp]
      split_ifs with hc
      · rw [List.intercalate_cons_cons, ih, hc]
        rfl
      · cases ps with
        | nil =>
            rw [List.intercalate_singleton] at ih ⊢
            rw [ih]
        | cons q qs =>
            rw [List.intercalate_cons_cons] at ih ⊢
            rw [List.cons_append, List.cons_append, ih]

namespace Clean

variable {path other : String}

lemma segments (h : Clean path) :
    segments ⟨path⟩ = (pieces path.toList).map fun piece => .name (String.ofList piece) := by
  obtain ⟨p, ps, hp⟩ := List.exists_cons_of_ne_nil (pieces_ne_nil path.toList)
  have hfirst : Naming p := h p (hp ▸ List.mem_cons_self)
  have hrelative : ¬(Path.mk path).isAbsolute = true := by
    rw [isAbsolute_iff]
    intro hhead
    obtain ⟨cs, hcs⟩ : ∃ cs, path.toList = '/' :: cs := List.head?_eq_some_iff.mp hhead
    rw [hcs, pieces, if_pos rfl] at hp
    exact hfirst.1 (List.cons.inj hp).1.symm
  have hdot : ¬(pieces path.toList).head? = some ['.'] := by
    rw [hp, List.head?_cons]
    exact fun h => hfirst.2.1 (Option.some.inj h)
  rw [Path.segments, if_neg hrelative, if_neg hdot]
  refine List.filterMap_eq_map_iff_forall_eq_some.mpr fun piece hpiece => ?_
  obtain ⟨hempty, hdot, hup⟩ := h piece hpiece
  rw [step?, if_neg hempty, if_neg hdot, if_neg hup]

lemma names (h : Clean path) : names ⟨path⟩ = (pieces path.toList).map String.ofList := by
  rw [Path.names, h.segments, List.filterMap_map]
  exact List.filterMap_eq_map_iff_forall_eq_some.mpr fun _ _ => rfl

lemma confined (h : Clean path) : Generation.confined path = true := by
  rw [Generation.confined, h.segments, List.all_map, List.all_eq_true]
  exact fun _ _ => rfl

lemma names_ne_nil (h : Clean path) : Path.names ⟨path⟩ ≠ [] := by
  rw [h.names]
  exact fun hnil => pieces_ne_nil _ (List.map_eq_nil_iff.mp hnil)

/-- The names on a clean path tell the path. -/
theorem eq_of_names_eq (h : Clean path) (h' : Clean other)
    (hnames : Path.names ⟨path⟩ = Path.names ⟨other⟩) : path = other := by
  rw [h.names, h'.names] at hnames
  have hpieces : pieces path.toList = pieces other.toList :=
    List.map_injective_iff.mpr (fun _ _ => String.ofList_inj.mp) hnames
  refine String.toList_inj.mp ?_
  rw [← intercalate_pieces path.toList, hpieces, intercalate_pieces]

end Clean

/-! ## Paths from the top of the tree -/

/-- Plain steps are added one by one. -/
lemma segments_follow {p : Path} (hp : p.isAbsolute = true) {steps : List Segment}
    (h : ∀ s ∈ steps, Plain s) :
    (p.follow steps).isAbsolute = true ∧ (p.follow steps).segments = p.segments ++ steps := by
  induction steps generalizing p with
  | nil => exact ⟨hp, (List.append_nil _).symm⟩
  | cons s steps ih =>
      obtain ⟨hs, hsteps⟩ := List.forall_mem_cons.mp h
      obtain ⟨habsolute, hsegments⟩ := ih (isAbsolute_join hp (head?_stepText_ne hs)) hsteps
      refine ⟨habsolute, hsegments.trans ?_⟩
      rw [segments_join (ne_nil_of_isAbsolute hp) (head?_stepText_ne hs), stepsOf_stepText hs,
        List.append_assoc, List.singleton_append]

/-- The steps to a directory, from the top of the tree. -/
def directorySteps (dir current : Path) : List Segment :=
  (if dir.isAbsolute then [] else stepsOf current.text.toList) ++ stepsOf dir.text.toList

section name

variable {dir : Path} {n : String}

/-- A name that is joined is the last step. -/
lemma stepsOf_join_name (hn : Plain (.name n)) :
    stepsOf (dir.join n).text.toList = stepsOf dir.text.toList ++ [.name n] := by
  have hhead : n.toList.head? ≠ some '/' := head?_stepText_ne (s := .name n) hn
  by_cases hdir : dir.text.toList = []
  · rw [join_of_empty hdir hhead, hdir]
    exact stepsOf_stepText (s := .name n) hn
  · rw [stepsOf_join hdir hhead]
    exact congrArg _ (stepsOf_stepText (s := .name n) hn)

/-- No slash comes behind a name that is joined. -/
lemma getLast?_join_name (hn : Plain (.name n)) :
    (dir.join n).text.toList.getLast? ≠ some '/' := by
  obtain ⟨hslash, hempty⟩ : '/' ∉ n.toList ∧ n.toList ≠ [] := by
    obtain h | ⟨m, hm, hslash, hempty, -⟩ := hn
    · cases h
    · cases hm
      exact ⟨hslash, hempty⟩
  obtain ⟨c, cs, hcs⟩ := List.exists_cons_of_ne_nil hempty
  have hlast : ∀ ds : List Char, (ds ++ '/' :: n.toList).getLast? = n.toList.getLast? := by
    intro ds
    simp [hcs, List.getLast?_append, List.getLast?_cons]
  have hname : n.toList.getLast? ≠ some '/' := fun h => hslash (List.mem_of_getLast? h)
  have hhead : n.toList.head? ≠ some '/' := head?_stepText_ne (s := .name n) hn
  by_cases hdir : dir.text.toList = []
  · rw [join_of_empty hdir hhead]
    exact hname
  · rcases text_join hdir hhead with ⟨ds, -, htext⟩ | htext
    · rwa [htext, hlast]
    · rwa [htext, hlast]

end name

/-- Written from the top of the tree, a path to a name in a directory leads to the directory and
then to the name. -/
theorem segments_absolute_join {dir current : Path} {n : String}
    (hcurrent : current.isAbsolute = true) (hn : Plain (.name n)) :
    ((dir.join n).absolute current).isAbsolute = true
      ∧ ((dir.join n).absolute current).segments
        = .root :: (directorySteps dir current ++ [.name n]) := by
  have hlast : ((dir.join n).text.toList.getLast? == some '/') = false :=
    beq_eq_false_iff_ne.mpr (getLast?_join_name hn)
  have habsolute : (dir.join n).isAbsolute = dir.isAbsolute :=
    Bool.eq_iff_iff.mpr (isAbsolute_join_iff (head?_stepText_ne (s := .name n) hn))
  have hplain : ∀ s ∈ stepsOf dir.text.toList ++ [.name n], Plain s :=
    fun s hs => (List.mem_append.mp hs).elim plain_of_mem_stepsOf
      fun hs => List.mem_singleton.mp hs ▸ hn
  -- The top of the tree may be written with one slash or with two.
  have htop : ∀ top : Path, top.isAbsolute = true → top.segments = [.root] →
      (top.follow (stepsOf dir.text.toList ++ [.name n])).isAbsolute = true
        ∧ (top.follow (stepsOf dir.text.toList ++ [.name n])).segments
          = .root :: (stepsOf dir.text.toList ++ [.name n]) := by
    intro top htop hsegments
    obtain ⟨hfollow, hall⟩ := segments_follow htop hplain
    exact ⟨hfollow, by rw [hall, hsegments, List.singleton_append]⟩
  rw [absolute]
  simp only [hlast, Bool.false_eq_true, if_false, filter_segments, stepsOf_join_name hn, habsolute,
    directorySteps]
  by_cases hdir : dir.isAbsolute = true
  · simp only [hdir, Bool.not_true, Bool.false_eq_true, if_false, if_true, List.nil_append]
    split_ifs
    · exact htop ⟨"//"⟩ (by decide) (by decide)
    · exact htop ⟨"/"⟩ (by decide) (by decide)
  · simp only [hdir, Bool.not_false, Bool.false_eq_true, if_true, if_false, List.append_assoc]
    rw [← List.cons_append, ← segments_of_isAbsolute hcurrent]
    exact segments_follow hcurrent hplain

end Rehearsal.Path
