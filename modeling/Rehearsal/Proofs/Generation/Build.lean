import Mathlib
import Rehearsal.Proofs.Generation
import Rehearsal.Proofs.Secures

/-!
# What generating builds

Whatever others do that spares the site, the operations that build a project do what they are there
for.

* `Site.Grows`: directories may be new, and nothing else.
* `Site.Written`: a file has been written, in parts perhaps.
* `Site.Holds`: some files have been written, and **nothing else is new but the directories that
  they need**.
* `Generation.secures_makeDirectories`, `Generation.secures_writeArtifact`: one lemma for each
  operation.  They lead to `Generation.secures_layOutAll` and `Generation.secures_writeAll`.
-/

namespace Rehearsal

namespace Site

variable {s : Site} {G G' : List String → Prop} {t u v : FileTree} {ns : List String}

variable (s) in
/-- Nothing new is on the site but directories at certain places, or on the way to the site. -/
structure Grows (G : List String → Prop) (t u : FileTree) : Prop where
  leads : ∀ ns, s.Leads t ns → s.Leads u ns
  content : ∀ ns, s.content u ns = s.content t ns
    ∨ (G ns ∨ s.place ++ ns ∈ s.ancestors)
      ∧ s.content t ns = none ∧ s.content u ns = some .directory

namespace Grows

lemma of_spares (h : s.Spares t u) : s.Grows G t u :=
  ⟨fun _ => h.leads, fun ns => .inl (h.content ns)⟩

lemma trans (h : s.Grows G t u) (h' : s.Grows G u v) : s.Grows G t v := by
  refine ⟨fun ns hns => h'.leads ns (h.leads ns hns), fun ns => ?_⟩
  rcases h'.content ns with hsame' | ⟨hplace, hnone, hmade⟩
  · rw [hsame']
    exact h.content ns
  · rcases h.content ns with hsame | ⟨-, -, hdirectory⟩
    · exact .inr ⟨hplace, hsame ▸ hnone, hmade⟩
    · cases hdirectory.symm.trans hnone

lemma mono (h : s.Grows G t u) (hG : ∀ ns, G ns → G' ns) : s.Grows G' t u :=
  ⟨h.leads, fun ns => (h.content ns).imp_right fun hmade => ⟨hmade.1.imp_left (hG ns), hmade.2⟩⟩

/-- What is there stays as it is. -/
lemma content_of_some (h : s.Grows G t u) {e : Entry} (he : s.content t ns = some e) :
    s.content u ns = some e := by
  rcases h.content ns with hsame | ⟨-, hnone, -⟩
  · exact hsame.trans he
  · cases he.symm.trans hnone

lemma stands (h : s.Grows G t u) (hs : s.Stands t ns) : s.Stands u ns :=
  ⟨h.leads ns hs.1, h.content_of_some hs.2⟩

/-- A directory is made. -/
lemma put {q : Place} (hnone : t.get? q = none)
    (hq : q ∈ s.ancestors ∨ ∃ ms, G ms ∧ q = s.place ++ ms) :
    s.Grows G t (t.put q .directory) := by
  have hne := FileTree.not_directory hnone
  refine ⟨fun ns hns => hns.keeps (FileTree.keeps_put hne _), fun ns => ?_⟩
  rw [Site.content, Site.content, FileTree.get?_put (FileTree.ne_nil_of_get? hne)]
  split_ifs with hplace
  · refine .inr ⟨?_, hplace ▸ hnone, rfl⟩
    rcases hq with hway | ⟨ms, hms, rfl⟩
    · exact .inr (hplace ▸ hway)
    · exact .inl (List.append_cancel_left hplace ▸ hms)
  · exact .inl rfl

end Grows

variable (s) in
/-- A file has been given a text, and nothing else has changed on the site. -/
structure Written (ns : List String) (text : String) (t u : FileTree) : Prop where
  free : s.content t ns ≠ some .directory
  leads : ∀ ms, s.Leads t ms → s.Leads u ms
  reached : s.Leads u ns
  file : s.content u ns = some (.file text)
  others : ∀ ms ≠ ns, s.content u ms = s.content t ms

namespace Written

variable {text : String} {path : Path}

lemma of_open (hpath : path.segments = s.below ns) (h : t.openFile path = .ok u) :
    s.Written ns "" t u := by
  obtain ⟨-, hpass, hget, rfl⟩ := FileTree.openFile_eq_ok h
  rw [hpath] at hpass hget ⊢
  rw [landing_below] at hget ⊢
  have hkeeps := FileTree.keeps_put hget (.file "")
  have hput := FileTree.get?_put (t := t) (FileTree.ne_nil_of_get? hget) (.file "")
  constructor
  case free => exact hget
  case leads => exact fun ms hms => hms.keeps hkeeps
  case reached => exact Leads.keeps hpass hkeeps
  case file => rw [content, hput, if_pos rfl]
  case others =>
    intro ms hms
    rw [content, content, hput, if_neg fun h => hms (List.append_cancel_left h)]

lemma spares (h : s.Written ns text t u) (huv : s.Spares u v) : s.Written ns text t v where
  free := h.free
  leads ms hms := huv.leads (h.leads ms hms)
  reached := huv.leads h.reached
  file := (huv.content ns).trans h.file
  others ms hms := (huv.content ms).trans (h.others ms hms)

lemma fill (h : s.Written ns text t u) (hpath : path.segments = s.below ns) (text' : String) :
    s.Written ns text' t (u.fillFile path text') := by
  have hget : u.get? (FileTree.landing u.current path.segments) = some (.file text) := by
    rw [hpath, landing_below]
    exact h.file
  have hpass : u.Passable u.current path.segments := hpath ▸ h.reached
  have hne : u.get? (FileTree.landing u.current path.segments) ≠ some .directory := by
    rw [hget]
    exact fun h => by cases h
  rw [FileTree.fillFile_eq hpass hget]
  have hkeeps := FileTree.keeps_put hne (.file text')
  have hput := FileTree.get?_put (t := u) (FileTree.ne_nil_of_get? hne) (.file text')
  rw [hpath, landing_below] at hkeeps hput ⊢
  constructor
  case free => exact h.free
  case leads => exact fun ms hms => (h.leads ms hms).keeps hkeeps
  case reached => exact h.reached.keeps hkeeps
  case file => rw [content, hput, if_pos rfl]
  case others =>
    intro ms hms
    rw [content, hput, if_neg fun h => hms (List.append_cancel_left h)]
    exact h.others ms hms

end Written

end Site

/-! ## Directories -/

namespace Generation

variable {r : Rules} {deeds : List Deed} {t : FileTree} {ns : List String} {a : List Segment}

lemma secures_make (ha : a <+: r.site.below ns) (hne : a ≠ []) :
    Secures r (fun x _ u => r.site.Grows (· <+: ns) t u
        ∧ (x = .ok () → ∀ ms, a = r.site.below ms → r.site.Stands u ms))
      (Procedure.makeDirectory a) deeds t := by
  refine ⟨⟨⟨hne, ns, ha⟩, by rintro ⟨_, ⟨⟩⟩⟩, fun u hu answer v hv => ?_⟩
  have hgrows : r.site.Grows (· <+: ns) t u := .of_spares (hu.spares fun _ _ => id)
  rcases hv with ⟨hmake, rfl⟩ | ⟨refusal, rfl, rfl⟩
  · obtain ⟨hpass, hnone, rfl⟩ := FileTree.makeDirectory_eq_ok hmake
    refine ⟨hgrows.trans (.put hnone ?_), ?_⟩
    · refine (Site.landing_of_isPrefix ha hne u.current).imp_right ?_
      rintro ⟨ms, hms, rfl⟩
      exact ⟨ms, hms, Site.landing_below _ ms⟩
    · rintro - ms rfl
      have hdirectory := FileTree.not_directory hnone
      refine ⟨Site.Leads.keeps hpass (FileTree.keeps_put hdirectory _), ?_⟩
      rw [Site.content, FileTree.get?_put (FileTree.ne_nil_of_get? hdirectory),
        Site.landing_below, if_pos rfl]
  · exact ⟨hgrows, fun h => by cases h⟩

lemma secures_look (a : List Segment) :
    Secures r (fun x _ u => r.site.Spares t u
        ∧ (x = true → ∀ ms, a = r.site.below ms → r.site.Stands u ms))
      (Procedure.isDirectory a) deeds t := by
  refine ⟨⟨trivial, by rintro ⟨_, ⟨⟩⟩⟩, fun u hu answer v hv => ?_⟩
  obtain ⟨rfl, rfl⟩ := hv
  refine ⟨hu.spares fun _ _ => id, ?_⟩
  rintro h ms rfl
  obtain ⟨hpass, hget⟩ := FileTree.isDirectory_eq_true h
  rw [Site.landing_below] at hget
  exact ⟨hpass, hget⟩

/-- Making one directory. -/
lemma secures_makeDirectory (ha : a <+: r.site.below ns) (hne : a ≠ []) :
    Secures r (fun x _ u => r.site.Grows (· <+: ns) t u
        ∧ (x = .ok () → ∀ ms, a = r.site.below ms → r.site.Stands u ms))
      (makeDirectory a) deeds t := by
  refine (secures_make ha hne).mono ?_ |>.bind
  rintro x ds u ⟨hgrows, hstands⟩
  match x with
  | .ok () => exact ⟨hgrows, fun _ => hstands rfl⟩
  | .error .missing => exact ⟨hgrows, fun h => by cases h⟩
  | .error .notDirectory | .error .occupied | .error .isDirectory | .error .unusableName
  | .error .emptyPath =>
      refine (secures_look a).mono ?_ |>.bind
      rintro present ds v ⟨hspares, hstands⟩
      refine ⟨hgrows.trans (.of_spares hspares), fun h => hstands ?_⟩
      cases present with
      | true => rfl
      | false => cases h

/-- Making a directory and those that lead to it. -/
lemma secures_makeDirectoriesUp {up : List Segment} (ha : up.reverse <+: r.site.below ns) :
    Secures r (fun x _ u => r.site.Grows (· <+: ns) t u
        ∧ (x = .ok () → ∀ ms, up.reverse = r.site.below ms → r.site.Stands u ms))
      (makeDirectoriesUp up) deeds t := by
  induction up generalizing deeds t with
  | nil =>
      refine ⟨.of_spares (.refl t), ?_⟩
      rintro - ms h
      rw [Site.below, Site.segments_path] at h
      cases h
  | cons step up ih =>
      have hne : (step :: up).reverse ≠ [] := by simp
      have hup : up.reverse <+: r.site.below ns := by
        rw [List.reverse_cons] at ha
        exact (List.prefix_append _ _).trans ha
      refine (secures_makeDirectory ha hne).mono ?_ |>.bind
      rintro x ds u ⟨hgrows, hstands⟩
      cases x with
      | ok => exact ⟨hgrows, hstands⟩
      | error refusal =>
          cases refusal with
          | missing =>
              refine (ih hup).mono ?_ |>.bind
              rintro y ds v ⟨hgrows', -⟩
              cases y with
              | ok =>
                  refine (secures_makeDirectory ha hne).mono ?_
                  rintro z ds v' ⟨hgrows'', hstands⟩
                  exact ⟨(hgrows.trans hgrows').trans hgrows'', hstands⟩
              | error refusal => exact ⟨hgrows.trans hgrows', fun h => by cases h⟩
          | _ => exact ⟨hgrows, hstands⟩

lemma secures_makeDirectories (ns : List String) :
    Secures r (fun x _ u => r.site.Grows (· <+: ns) t u ∧ (x = .ok () → r.site.Stands u ns))
      (makeDirectories (r.site.below ns)) deeds t := by
  have hreverse : (r.site.below ns).reverse.reverse = r.site.below ns := List.reverse_reverse _
  have hbegins : (r.site.below ns).reverse.reverse <+: r.site.below ns := by
    rw [hreverse]
  exact (secures_makeDirectoriesUp hbegins).mono fun x ds u h =>
    ⟨h.1, fun hx => h.2 hx ns hreverse⟩

lemma secures_orFail {α : Type} (failure : String → Error) (x : Except Refusal α) :
    Secures r (OnSuccess fun a ds u => x = .ok a ∧ ds = deeds ∧ u = t) (orFail failure x).run
      deeds t := by
  cases x with
  | ok a => exact ⟨rfl, rfl, rfl⟩
  | error refusal => trivial

/-- The directories that lead to directories with the given paths. -/
def Leading (directories : List String) (ns : List String) : Prop :=
  ∃ d ∈ directories, ns <+: Path.names ⟨d⟩

lemma secures_layOutAll {directories : List String} (h : ∀ d ∈ directories, confined d = true) :
    Secures r (OnSuccess fun _ _ u => r.site.Grows (Leading directories) t u
        ∧ ∀ d ∈ directories, r.site.Stands u (Path.names ⟨d⟩))
      (layOutAll r.site.path directories).run deeds t := by
  induction directories generalizing deeds t with
  | nil => exact ⟨.of_spares (.refl t), fun d hd => absurd hd List.not_mem_nil⟩
  | cons d directories ih =>
      obtain ⟨hd, hrest⟩ := List.forall_mem_cons.mp h
      have hsegments : (r.site.path.join d).segments = r.site.below (Path.names ⟨d⟩) :=
        Path.segments_join_of_confined hd
      rw [layOutAll, hsegments]
      refine Secures.andThen (secures_makeDirectories _).sure ?_
      rintro x ds u ⟨hgrows, hstands⟩
      refine Secures.andThen (secures_orFail _ x) ?_
      rintro _ _ _ ⟨rfl, rfl, rfl⟩
      refine (ih hrest).mono_success ?_
      rintro _ ds v ⟨hgrows', hstands'⟩
      refine ⟨(hgrows.mono ?_).trans (hgrows'.mono ?_), List.forall_mem_cons.mpr ⟨?_, hstands'⟩⟩
      · exact fun ns hns => ⟨d, List.mem_cons_self, hns⟩
      · exact fun ns ⟨d', hd', hns⟩ => ⟨d', List.mem_cons_of_mem _ hd', hns⟩
      · exact hgrows'.stands (hstands rfl)

/-! ## Files -/

/-- Opening a file and filling it, with anything that spares the site in between. -/
lemma secures_openFile {path : Path} (hne : ns ≠ []) (hpath : path.segments = r.site.below ns) :
    Secures r (fun x _ u => x = .ok () → path.needsDirectory = false
        ∧ ∃ mid, r.site.Spares t mid ∧ r.site.Written ns "" mid u)
      (Procedure.ask (.openFile path)) deeds t := by
  refine ⟨⟨⟨ns, hne, hpath⟩, by rintro ⟨_, ⟨⟩⟩⟩, fun u hu answer v hv => ?_⟩
  rcases hv with ⟨hopen, rfl⟩ | ⟨refusal, rfl, rfl⟩
  · exact fun _ => ⟨(FileTree.openFile_eq_ok hopen).1, u, hu.spares fun _ _ => id,
      .of_open hpath hopen⟩
  · intro h
    cases h

lemma secures_fillFile {path : Path} {mid : FileTree} {old : String} (hne : ns ≠ [])
    (hpath : path.segments = r.site.below ns) (h : r.site.Written ns old mid t) (text : String) :
    Secures r (fun _ _ u => r.site.Written ns text mid u)
      (Procedure.ask (.fillFile path text)) deeds t := by
  refine ⟨⟨⟨ns, hne, hpath⟩, by rintro ⟨_, ⟨⟩⟩⟩, fun u hu answer v hv => ?_⟩
  -- However much has been written already, the file is there.
  have hpart : ∃ part, r.site.Written ns part mid u := by
    clear hv
    induction hu with
    | refl => exact ⟨old, h⟩
    | tail _ hstep ih =>
        obtain ⟨part, hwritten⟩ := ih
        rcases hstep with hspares | ⟨part', rfl⟩
        · exact ⟨part, hwritten.spares hspares⟩
        · exact ⟨part', hwritten.fill hpath part'⟩
  obtain ⟨part, hwritten⟩ := hpart
  rw [hv]
  exact hwritten.fill hpath text

/-- Writing one file, and making the directories that lead to it. -/
lemma secures_writeArtifact {path : String} (h : confined path = true)
    (hne : Path.names ⟨path⟩ ≠ []) (text : String) :
    Secures r (OnSuccess fun p _ u => p = r.site.path.join path ∧ p.needsDirectory = false
        ∧ ∃ mid, r.site.Grows (· <+: (Path.names ⟨path⟩).dropLast) t mid
          ∧ r.site.Written (Path.names ⟨path⟩) text mid u)
      (writeArtifact r.site.path path text).run deeds t := by
  have hsegments : (r.site.path.join path).segments = r.site.below (Path.names ⟨path⟩) :=
    Path.segments_join_of_confined h
  have hparent : (r.site.path.join path).segments.dropLast
      = r.site.below (Path.names ⟨path⟩).dropLast := by
    rw [hsegments, Site.below, Site.below,
      List.dropLast_append_of_ne_nil fun h => hne (List.map_eq_nil_iff.mp h), List.map_dropLast]
  rw [writeArtifact]
  simp only [h, Bool.not_true, Bool.false_eq_true, if_false, hparent]
  refine Secures.andThen (secures_makeDirectories _).sure ?_
  rintro x ds u ⟨hgrows, -⟩
  refine Secures.andThen (secures_orFail _ x) ?_
  rintro _ _ _ ⟨rfl, rfl, rfl⟩
  refine Secures.andThen (secures_openFile hne hsegments).sure ?_
  rintro x ds v hopened
  refine Secures.andThen (secures_orFail _ x) ?_
  rintro _ _ _ ⟨rfl, rfl, rfl⟩
  obtain ⟨hneeds, mid, hspares, hwritten⟩ := hopened rfl
  refine Secures.andThen (secures_fillFile hne hsegments hwritten text).sure ?_
  rintro _ ds v' hfilled
  exact ⟨rfl, hneeds, mid, hgrows.trans (.of_spares hspares), hfilled⟩

end Generation

/-- The names on the path of a file. -/
def Artifact.names (a : Artifact) : List String := Path.names ⟨a.path⟩

namespace Site

variable {s : Site} {t u v : FileTree} {all : List Artifact}

variable (s) in
/-- Files have been written, and nothing else is new on the site but directories for them. -/
structure Holds (all : List Artifact) (t u : FileTree) : Prop where
  leads : ∀ ns, s.Leads t ns → s.Leads u ns
  free : ∀ a ∈ all, s.content t a.names ≠ some .directory
  reached : ∀ a ∈ all, s.Leads u a.names
  files : ∀ a ∈ all, s.content u a.names = some (.file a.content)
  plain : ∀ a ∈ all, (s.path.join a.path).needsDirectory = false
  rest : ∀ ns, (∀ a ∈ all, ns ≠ a.names) → s.content u ns = s.content t ns
    ∨ ((∃ a ∈ all, ns <+: a.names.dropLast) ∨ s.place ++ ns ∈ s.ancestors)
      ∧ s.content t ns = none ∧ s.content u ns = some .directory

namespace Holds

lemma nil (t : FileTree) : s.Holds [] t t := by
  constructor
  case leads => exact fun _ h => h
  case rest => exact fun _ _ => .inl rfl
  all_goals exact fun a ha => absurd ha List.not_mem_nil

/-- One more file, for which there was no place before. -/
lemma cons {a : Artifact} {mid w : FileTree} (hgrows : s.Grows (· <+: a.names.dropLast) t mid)
    (hwritten : s.Written a.names a.content mid u)
    (hplain : (s.path.join a.path).needsDirectory = false) (hnew : ∀ b ∈ all, a.names ≠ b.names)
    (h : s.Holds all u w) : s.Holds (a :: all) t w := by
  have hkept : ∀ {ns}, s.content t ns = some .directory → s.content mid ns = some .directory :=
    fun h => hgrows.content_of_some h
  have hown : s.content w a.names = some (.file a.content) := by
    rcases h.rest a.names hnew with hsame | ⟨-, hnone, -⟩
    · rw [hsame, hwritten.file]
    · cases hwritten.file.symm.trans hnone
  constructor
  case leads => exact fun ns hns => h.leads ns (hwritten.leads ns (hgrows.leads ns hns))
  case free =>
    refine List.forall_mem_cons.mpr ⟨fun hd => hwritten.free (hkept hd), fun b hb hd => ?_⟩
    refine h.free b hb ?_
    rw [hwritten.others _ (Ne.symm (hnew b hb))]
    exact hkept hd
  case reached =>
    exact List.forall_mem_cons.mpr ⟨h.leads _ hwritten.reached, h.reached⟩
  case files => exact List.forall_mem_cons.mpr ⟨hown, h.files⟩
  case plain => exact List.forall_mem_cons.mpr ⟨hplain, h.plain⟩
  case rest =>
    intro ns hns
    obtain ⟨hne, hrest⟩ := List.forall_mem_cons.mp hns
    rcases h.rest ns hrest with hsame | ⟨hplace, hnone, hmade⟩
    · rw [hsame, hwritten.others ns hne]
      refine (hgrows.content ns).imp_right fun hmade => ⟨hmade.1.imp_left fun hns => ?_, hmade.2⟩
      exact ⟨a, List.mem_cons_self, hns⟩
    · rw [hwritten.others ns hne] at hnone
      refine .inr ⟨hplace.imp_left ?_, ?_, hmade⟩
      · exact fun ⟨b, hb, hns⟩ => ⟨b, List.mem_cons_of_mem _ hb, hns⟩
      · rcases hgrows.content ns with hsame | ⟨-, hnone', -⟩
        · exact hsame ▸ hnone
        · exact hnone'

end Holds

end Site

namespace Generation

variable {r : Rules} {deeds : List Deed} {t : FileTree} {all : List Artifact}

/-- What is handed on after files have been written. -/
def record (g : Generated) (all : List Artifact) : Generated :=
  all.foldl (fun g a => g.add a.kind (g.root.join a.path)) g

lemma root_add (g : Generated) (kind : ArtifactKind) (p : Path) : (g.add kind p).root = g.root := by
  cases kind <;> rfl

/-- Writing files whose paths have different names. -/
lemma secures_writeAll {g : Generated} (hroot : g.root = r.site.path)
    (hclean : ∀ a ∈ all, Path.Clean a.path) (hnodup : (all.map Artifact.names).Nodup) :
    Secures r (OnSuccess fun g' _ u => g' = record g all ∧ r.site.Holds all t u)
      (writeAll g all).run deeds t := by
  induction all generalizing g deeds t with
  | nil => exact ⟨rfl, .nil t⟩
  | cons a all ih =>
      obtain ⟨ha, hrest⟩ := List.forall_mem_cons.mp hclean
      obtain ⟨hnew, hnodup⟩ := List.nodup_cons.mp hnodup
      rw [writeAll, hroot]
      refine Secures.andThen (secures_writeArtifact ha.confined ha.names_ne_nil a.content) ?_
      rintro _ ds u ⟨rfl, hplain, mid, hgrows, hwritten⟩
      refine (ih ((root_add ..).trans hroot) hrest hnodup).mono_success ?_
      rintro _ ds v ⟨rfl, hholds⟩
      refine ⟨by rw [← hroot]; rfl, .cons hgrows hwritten hplain (fun b hb hab => ?_) hholds⟩
      exact hnew (hab ▸ List.mem_map_of_mem hb)

end Generation

end Rehearsal
