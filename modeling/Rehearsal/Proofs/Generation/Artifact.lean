import Mathlib
import Rehearsal.Proofs.Generation
import Rehearsal.Proofs.Secures

/-!
# One file below a root

A file is written by the text of its path, and checked by the steps of that path.  Whatever the
text is, nothing outside the root is touched but directories that lead there.

* `Procedure.ComesTo`: what a procedure may come to, when **any operation may be refused** and one
  that is done in parts may be broken off.
* `FileTree.Paved`: directories have been made on a way, and nothing else.
* `FileTree.Wrote`: a file has been written, and nothing else but directories on the way to it.
* `Generation.writeArtifact_contained`: which paths are refused, and what happens otherwise.
-/

namespace Rehearsal

open FileTree (landing)

/-! ## What a procedure comes to -/

namespace Procedure

variable {α β : Type}

/-- What a procedure may come to on a tree: its result, or none if an operation was broken off, and
the tree it leaves. -/
inductive ComesTo : Procedure α → FileTree → Option α → FileTree → Prop
  | done (a : α) (t : FileTree) : ComesTo (.done a) t (some a) t
  | act {a : Operation} {next : a.Answer → Procedure α} {answer : a.Answer} {x : Option α}
      {t u v : FileTree} (hworks : a.Works t answer u) (h : ComesTo (next answer) u x v) :
      ComesTo (.act a next) t x v
  | broken {a : Operation} {next : a.Answer → Procedure α} {t u : FileTree} (h : a.Begins t u) :
      ComesTo (.act a next) t none u

namespace ComesTo

variable {p : Procedure α} {t u v : FileTree} {x : Option α} {y : Option β}

/-- What happens in a world is one of the things that may happen. -/
lemma of_advance {w w' : World} {a : α} (h : w.advance p = (w', .ended a)) :
    ComesTo p w.tree (some a) w'.tree := by
  induction p generalizing w with
  | done b =>
      cases h
      exact .done a _
  | act operation next ih => exact .act (w.works operation) (ih _ h)
  | spawn job token next => cases h

/-- One procedure and then another. -/
lemma of_bind {f : α → Procedure β} (h : ComesTo (p >>= f) t y v) :
    (∃ a u, ComesTo p t (some a) u ∧ ComesTo (f a) u y v) ∨ (y = none ∧ ComesTo p t none v) := by
  induction p generalizing t with
  | done a => exact .inl ⟨a, t, .done a t, h⟩
  | act operation next ih =>
      cases h with
      | act hworks h =>
          rcases ih _ h with ⟨a, u, hp, hf⟩ | ⟨hy, hp⟩
          · exact .inl ⟨a, u, .act hworks hp, hf⟩
          · exact .inr ⟨hy, .act hworks hp⟩
      | broken hbegins => exact .inr ⟨rfl, .broken hbegins⟩
  | spawn job token next => cases h

lemma of_pure {a : α} (h : ComesTo (pure a : Procedure α) t x u) : x = some a ∧ u = t := by
  cases h
  exact ⟨rfl, rfl⟩

/-- One procedure that is carried out to its end, and then another. -/
lemma of_bind_whole {f : α → Procedure β} (hp : ∀ u, ¬ComesTo p t none u)
    (h : ComesTo (p >>= f) t y v) : ∃ a u, ComesTo p t (some a) u ∧ ComesTo (f a) u y v :=
  (of_bind h).resolve_right fun hbroken => hp v hbroken.2

lemma works_of_ask {a : Operation} {answer : a.Answer} (h : ComesTo (.ask a) t (some answer) u) :
    a.Works t answer u := by
  cases h with
  | act hworks h =>
      cases h
      exact hworks

lemma begins_of_ask {a : Operation} (h : ComesTo (.ask a) t none u) : a.Begins t u := by
  cases h with
  | act hworks h => cases h
  | broken hbegins => exact hbegins

/-- One call and then another, unless the first one fails. -/
lemma of_andThen {c : Call α} {f : α → Call β} {z : Option (Except Error β)}
    (h : ComesTo (c >>= f).run t z v) :
    (∃ a u, ComesTo c.run t (some (.ok a)) u ∧ ComesTo (f a).run u z v)
      ∨ (∃ e, z = some (.error e) ∧ ComesTo c.run t (some (.error e)) v)
      ∨ (z = none ∧ ComesTo c.run t none v) := by
  rw [ExceptT.run_bind] at h
  rcases of_bind h with ⟨result, u, hc, hf⟩ | hbroken
  · cases result with
    | ok a => exact .inl ⟨a, u, hc, hf⟩
    | error e =>
        obtain ⟨rfl, rfl⟩ := of_pure hf
        exact .inr (.inl ⟨e, rfl, hc⟩)
  · exact .inr (.inr hbroken)

lemma of_sure {z : Option (Except Error α)} (h : ComesTo (Call.sure p).run t z v) :
    (∃ a, z = some (.ok a) ∧ ComesTo p t (some a) v) ∨ (z = none ∧ ComesTo p t none v) := by
  rcases of_bind h with ⟨a, u, hp, hdone⟩ | hbroken
  · obtain ⟨rfl, rfl⟩ := of_pure hdone
    exact .inl ⟨a, rfl, hp⟩
  · exact .inr hbroken

end ComesTo

end Procedure

/-! ## Ways -/

namespace FileTree

/-- Where the first parts of some steps lead. -/
def OnWay (p : Place) (steps : List Segment) (q : Place) : Prop :=
  ∃ a, a ≠ [] ∧ a <+: steps ∧ q = landing p a

/-- Directories have been made where nothing stood, on the way that some steps take, and nothing
else has changed. -/
structure Paved (steps : List Segment) (t u : FileTree) : Prop where
  current : u.current = t.current
  entries : ∀ q, u.get? q = t.get? q
    ∨ (t.get? q = none ∧ u.get? q = some .directory ∧ OnWay t.current steps q)

namespace Paved

variable {steps steps' : List Segment} {t u v : FileTree}

lemma refl (t : FileTree) : Paved steps t t := ⟨rfl, fun _ => .inl rfl⟩

lemma trans (h : Paved steps t u) (h' : Paved steps u v) : Paved steps t v := by
  refine ⟨h'.current.trans h.current, fun q => ?_⟩
  rcases h.entries q with hsame | hmade
  · rw [← hsame, ← h.current]
    exact h'.entries q
  · rcases h'.entries q with hsame' | ⟨hnone, -⟩
    · exact .inr ⟨hmade.1, hsame'.trans hmade.2.1, hmade.2.2⟩
    · cases hnone.symm.trans hmade.2.1

lemma mono (h : Paved steps t u) (hsteps : steps <+: steps') : Paved steps' t u := by
  refine ⟨h.current, fun q => (h.entries q).imp_right ?_⟩
  rintro ⟨hnone, hmade, a, hne, ha, hq⟩
  exact ⟨hnone, hmade, a, hne, ha.trans hsteps, hq⟩

lemma make {a : List Segment} (hne : a ≠ []) (h : t.makeDirectory a = .ok u) : Paved a t u := by
  obtain ⟨-, hnone, rfl⟩ := makeDirectory_eq_ok h
  refine ⟨rfl, fun q => ?_⟩
  rw [get?_put (ne_nil_of_get? (not_directory hnone))]
  split_ifs with hq
  · exact .inr ⟨hq ▸ hnone, rfl, a, hne, List.prefix_rfl, hq⟩
  · exact .inl rfl

/-- What was no directory and is none now has not changed. -/
lemma directory (h : Paved steps t u) {q : Place} (hq : t.get? q = some .directory) :
    u.get? q = some .directory := by
  rcases h.entries q with hsame | ⟨-, hmade, -⟩
  · exact hsame.trans hq
  · exact hmade

end Paved

/-- A path without a step upwards is a list of names, wherever it begins. -/
lemma segments_of_up_notMem {path : Path} (h : .up ∉ path.segments) :
    ∃ ms : List String, path.segments = path.start ++ ms.map Segment.name := by
  have hnames : Path.stepsOf path.text.toList ∈ Set.range (List.map Segment.name) := by
    rw [Set.range_list_map]
    intro s hs
    rcases Path.plain_of_mem_stepsOf hs with rfl | ⟨n, rfl, -⟩
    · refine absurd ?_ h
      rw [Path.segments_eq]
      exact List.mem_append_right _ hs
    · exact ⟨n, rfl⟩
  obtain ⟨ms, hms⟩ := hnames
  exact ⟨ms, by rw [Path.segments_eq, hms]⟩

/-- Then whatever is on the way is above the place that the steps lead to. -/
lemma isPrefix_of_onWay {p q : Place} {path : Path} {ns : List String}
    (hup : .up ∉ path.segments) (hns : ns ≠ [])
    (h : OnWay p (path.segments ++ ns.map Segment.name).dropLast q) :
    q <+: landing p (path.segments ++ ns.map Segment.name)
      ∧ q ≠ landing p (path.segments ++ ns.map Segment.name) := by
  obtain ⟨ms, hms⟩ := segments_of_up_notMem hup
  obtain ⟨a, hne, ha, rfl⟩ := h
  have hlanding : ∀ ks : List String,
      landing p (path.start ++ ks.map Segment.name) = landing p path.start ++ ks := by
    intro ks
    rw [landing_append, landing_names]
  have hsteps : path.segments ++ ns.map Segment.name
      = path.start ++ (ms ++ ns).map Segment.name := by
    rw [hms, List.map_append, List.append_assoc]
  have hall : ms ++ ns ≠ [] := List.append_ne_nil_of_right_ne_nil ms hns
  rw [hsteps, List.dropLast_append_of_ne_nil (by simpa using hall), ← List.map_dropLast] at ha
  -- A path begins with one step at most that is no name.
  have hstart : path.start <+: a := by
    refine List.prefix_of_prefix_length_le (List.prefix_append _ _) ha ?_
    refine le_trans ?_ (List.length_pos_iff_ne_nil.mpr hne)
    rw [Path.start]
    split_ifs <;> simp
  obtain ⟨b, rfl⟩ := hstart
  rw [List.prefix_append_right_inj] at ha
  obtain ⟨js, hjs, rfl⟩ := List.prefix_map_iff.mp ha
  rw [hsteps, hlanding, hlanding, List.prefix_append_right_inj, ne_eq,
    List.append_right_inj]
  refine ⟨hjs.trans (List.dropLast_prefix _), fun heq => ?_⟩
  have hlength := hjs.length_le
  have hpos := List.length_pos_iff_ne_nil.mpr hall
  rw [heq, List.length_dropLast] at hlength
  omega

/-- A file has been given a text, and nothing else has changed but directories on the way to it. -/
structure Wrote (path : Path) (text : String) (t u : FileTree) : Prop where
  free : t.get? (landing t.current path.segments) ≠ some .directory
  file : u.get? (landing t.current path.segments) = some (.file text)
  read : u.read? path = some text
  others : ∀ q ≠ landing t.current path.segments, u.get? q = t.get? q
    ∨ (t.get? q = none ∧ u.get? q = some .directory ∧ OnWay t.current path.segments.dropLast q)

/-- A file that was opened is given a text. -/
lemma fillFile_of_openFile {path : Path} {t u : FileTree} (h : t.openFile path = .ok u)
    (text : String) : t.get? (landing t.current path.segments) ≠ some .directory
      ∧ (u.fillFile path text).read? path = some text
      ∧ ∀ q, (u.fillFile path text).get? q
        = if q = landing t.current path.segments then some (.file text) else t.get? q := by
  obtain ⟨hneeds, hpass, hfree, rfl⟩ := openFile_eq_ok h
  have hopened : ∀ old q, (t.put (landing t.current path.segments) (.file old)).get? q
      = if q = landing t.current path.segments then some (.file old) else t.get? q :=
    fun old => get?_put (ne_nil_of_get? hfree) _
  have hpassable : ∀ old, (t.put (landing t.current path.segments) (.file old)).Passable
      t.current path.segments :=
    fun old => hpass.mono fun q _ hq => (keeps_put hfree _).directories q hq
  have hfile : ∀ old, (t.put (landing t.current path.segments) (.file old)).get?
      (landing t.current path.segments) = some (.file old) := fun old => by
    rw [hopened, if_pos rfl]
  have hne : (t.put (landing t.current path.segments) (.file "")).get?
      (landing t.current path.segments) ≠ some .directory := by
    rw [hfile]
    exact fun h => by cases h
  have hfill := fillFile_eq (hpassable "") (hfile "") text
  have hget : ∀ q, ((t.put (landing t.current path.segments) (.file "")).fillFile path text).get? q
      = if q = landing t.current path.segments then some (.file text) else t.get? q := by
    intro q
    rw [hfill]
    refine (get?_put (ne_nil_of_get? hne) _ q).trans ?_
    rw [hopened]
    split_ifs <;> rfl
  refine ⟨hfree, ?_, hget⟩
  refine read?_eq_some hneeds ?_ ?_
  · rw [hfill]
    exact (hpassable "").mono fun q _ hq => (keeps_put hne _).directories q hq
  · rw [hfill] at hget ⊢
    exact (hget _).trans (if_pos rfl)

lemma Paved.wrote {path : Path} {t u v : FileTree} (h : Paved path.segments.dropLast t u)
    (hopen : u.openFile path = .ok v) (text : String) :
    Wrote path text t (v.fillFile path text) := by
  obtain ⟨hfree, hread, hget⟩ := fillFile_of_openFile hopen text
  rw [h.current] at hfree hget
  constructor
  case free => exact fun hdirectory => hfree (h.directory hdirectory)
  case file => rw [hget, if_pos rfl]
  case read => exact hread
  case others =>
    intro q hq
    rw [hget, if_neg hq]
    exact h.entries q

end FileTree

/-! ## Making directories -/

namespace Generation

open Procedure (ComesTo)
open FileTree (Paved OnWay)

variable {t u : FileTree}

/-- Whether a directory is there or not, looking for it changes nothing. -/
lemma comesTo_isDirectory {a : List Segment} {r : Refusal} {x : Option (Except Refusal Unit)}
    (h : ComesTo (Procedure.isDirectory a >>= fun present =>
      return if present then .ok () else .error r) t x u) : x ≠ none ∧ u = t := by
  obtain ⟨answer, v, hask, hdone⟩ := ComesTo.of_bind_whole (fun _ => ComesTo.begins_of_ask) h
  obtain ⟨-, rfl⟩ := ComesTo.works_of_ask hask
  obtain ⟨rfl, rfl⟩ := ComesTo.of_pure hdone
  exact ⟨Option.some_ne_none _, rfl⟩

lemma paved_makeDirectory {a : List Segment} (hne : a ≠ []) {x : Option (Except Refusal Unit)}
    (h : ComesTo (makeDirectory a) t x u) : x ≠ none ∧ Paved a t u := by
  obtain ⟨answer, v, hask, hnext⟩ := ComesTo.of_bind_whole (fun _ => ComesTo.begins_of_ask) h
  rcases ComesTo.works_of_ask hask with ⟨hmake, rfl⟩ | ⟨r, rfl, rfl⟩
  · obtain ⟨rfl, rfl⟩ := ComesTo.of_pure hnext
    exact ⟨Option.some_ne_none _, .make hne hmake⟩
  · cases r with
    | missing =>
        obtain ⟨rfl, rfl⟩ := ComesTo.of_pure hnext
        exact ⟨Option.some_ne_none _, .refl _⟩
    | _ =>
        obtain ⟨hx, rfl⟩ := comesTo_isDirectory hnext
        exact ⟨hx, .refl _⟩

/-- Directories are made one by one, each of them on the way to the last. -/
lemma paved_makeDirectoriesUp {up : List Segment} {x : Option (Except Refusal Unit)}
    (h : ComesTo (makeDirectoriesUp up) t x u) : x ≠ none ∧ Paved up.reverse t u := by
  induction up generalizing t x u with
  | nil =>
      obtain ⟨rfl, rfl⟩ := ComesTo.of_pure h
      exact ⟨Option.some_ne_none _, .refl _⟩
  | cons s up ih =>
      have hne : (s :: up).reverse ≠ [] := by simp
      have hway : up.reverse <+: (s :: up).reverse := by
        rw [List.reverse_cons]
        exact List.prefix_append _ _
      obtain ⟨answer, v, hfirst, hnext⟩ :=
        ComesTo.of_bind_whole (fun _ h => (paved_makeDirectory hne h).1 rfl) h
      obtain ⟨-, hpaved⟩ := paved_makeDirectory hne hfirst
      match answer, hnext with
      | .error .missing, hnext =>
          obtain ⟨answer', v', hup, hlast⟩ := ComesTo.of_bind_whole (fun _ h => (ih h).1 rfl) hnext
          have hpaved' := hpaved.trans ((ih hup).2.mono hway)
          cases answer' with
          | ok _ =>
              obtain ⟨hx, hmade⟩ := paved_makeDirectory hne hlast
              exact ⟨hx, hpaved'.trans hmade⟩
          | error r =>
              obtain ⟨rfl, rfl⟩ := ComesTo.of_pure hlast
              exact ⟨Option.some_ne_none _, hpaved'⟩
      | .ok (), hnext | .error .notDirectory, hnext | .error .occupied, hnext
      | .error .isDirectory, hnext | .error .unusableName, hnext
      | .error .emptyPath, hnext =>
          obtain ⟨rfl, rfl⟩ := ComesTo.of_pure hnext
          exact ⟨Option.some_ne_none _, hpaved⟩

lemma paved_makeDirectories {steps : List Segment} {x : Option (Except Refusal Unit)}
    (h : ComesTo (makeDirectories steps) t x u) : x ≠ none ∧ Paved steps t u := by
  have hup := paved_makeDirectoriesUp h
  rwa [List.reverse_reverse] at hup

/-! ## Writing the file -/

/-- Something is tried that is carried out to its end, and a refusal is a fault. -/
lemma comesTo_orFail {p : Procedure (Except Refusal Unit)} {failure : String → Error} {α : Type}
    {f : Unit → Call α} {z : Option (Except Error α)} (hp : ∀ v, ¬ComesTo p t none v)
    (h : ComesTo (Call.sure p >>= fun result => orFail failure result >>= f).run t z u) :
    (∃ v, ComesTo p t (some (.ok ())) v ∧ ComesTo (f ()).run v z u)
      ∨ ∃ r, z = some (.error (failure r.text)) ∧ ComesTo p t (some (.error r)) u := by
  have hsure : ∀ {y v}, ComesTo (Call.sure p).run t y v →
      ∃ result, y = some (.ok result) ∧ ComesTo p t (some result) v :=
    fun h => (ComesTo.of_sure h).resolve_right fun hnone => hp _ hnone.2
  rcases ComesTo.of_andThen h with ⟨result, v, htry, hnext⟩ | ⟨e, -, htry⟩ | ⟨-, htry⟩
  · obtain ⟨_, ⟨⟩, htry⟩ := hsure htry
    cases result with
    | ok _ => exact .inl ⟨v, htry, hnext⟩
    | error r =>
        obtain ⟨rfl, rfl⟩ := ComesTo.of_pure hnext
        exact .inr ⟨r, rfl, htry⟩
  · obtain ⟨_, ⟨⟩, -⟩ := hsure htry
  · obtain ⟨_, ⟨⟩, -⟩ := hsure htry

/-- A path that could lead out of the root is refused at once. -/
lemma comesTo_writeArtifact_escaping {root : Path} {path content : String}
    {x : Option (Except Error Path)} (hpath : confined path = false)
    (h : ComesTo (writeArtifact root path content).run t x u) :
    x = some (.error (.escapingArtifact path)) ∧ u = t := by
  simp only [writeArtifact, hpath, Bool.not_false, if_true] at h
  exact ComesTo.of_pure h

/-- Otherwise directories are made; then the file system is in the way, or the file is opened and
given its text, or a part of it. -/
lemma comesTo_writeArtifact {root : Path} {path content : String}
    {x : Option (Except Error Path)} (hpath : confined path = true)
    (h : ComesTo (writeArtifact root path content).run t x u) :
    ((∃ detail, x = some (.error (.fileSystem detail)))
        ∧ Paved (root.join path).segments.dropLast t u)
      ∨ (∃ v w, Paved (root.join path).segments.dropLast t v
        ∧ v.openFile (root.join path) = .ok w
        ∧ ((x = none ∧ ∃ part, u = w.fillFile (root.join path) part)
          ∨ (x = some (.ok (root.join path)) ∧ u = w.fillFile (root.join path) content))) := by
  simp only [writeArtifact, hpath, Bool.not_true, Bool.false_eq_true, if_false] at h
  have hmakes : ∀ v, ¬ComesTo (makeDirectories (root.join path).segments.dropLast) t none v :=
    fun _ hmade => (paved_makeDirectories hmade).1 rfl
  rcases comesTo_orFail hmakes h with ⟨v, hmade, h⟩ | ⟨r, rfl, hmade⟩
  · have hpaved := (paved_makeDirectories hmade).2
    rcases comesTo_orFail (fun _ => ComesTo.begins_of_ask) h with ⟨w, hopen, h⟩ | ⟨r, rfl, hopen⟩
    · obtain ⟨hopened, -⟩ | ⟨_, ⟨⟩, -⟩ := ComesTo.works_of_ask hopen
      refine .inr ⟨v, w, hpaved, hopened, ?_⟩
      rcases ComesTo.of_andThen h with ⟨_, u', hfill, hdone⟩ | ⟨e, -, hfill⟩ | ⟨rfl, hfill⟩
      · obtain ⟨_, -, hfill⟩ | ⟨⟨⟩, -⟩ := ComesTo.of_sure hfill
        obtain ⟨rfl, rfl⟩ := ComesTo.of_pure hdone
        exact .inr ⟨rfl, ComesTo.works_of_ask hfill⟩
      · obtain ⟨_, ⟨⟩, -⟩ | ⟨⟨⟩, -⟩ := ComesTo.of_sure hfill
      · obtain ⟨_, ⟨⟩, -⟩ | ⟨-, hfill⟩ := ComesTo.of_sure hfill
        exact .inl ⟨rfl, ComesTo.begins_of_ask hfill⟩
    · obtain ⟨-, ⟨⟩⟩ | ⟨_, -, rfl⟩ := ComesTo.works_of_ask hopen
      exact .inl ⟨⟨_, rfl⟩, hpaved⟩
  · exact .inl ⟨⟨_, rfl⟩, (paved_makeDirectories hmade).2⟩

/-! ## Nothing outside the root -/

/-- A path that could lead out of a root: it begins at the top, or with a dot that stands alone, or
goes up somewhere. -/
def Escapes (path : String) : Prop :=
  path.toList.head? = some '/' ∨ (Path.pieces path.toList).head? = some ['.']
    ∨ ['.', '.'] ∈ Path.pieces path.toList

lemma escapes_iff {path : String} : Escapes path ↔ confined path = false := by
  rw [← Bool.not_eq_true, Path.confined_iff, Escapes]
  tauto

/-- No file can be opened by a path that ends where the root does. -/
lemma needsDirectory_join_empty (root : Path) : (root.join "").needsDirectory = true := by
  have hrelative : "".toList.head? ≠ some '/' := by
    decide
  have hlast : ∀ cs : List Char,
      (Path.pieces (cs ++ '/' :: "".toList)).getLast? = some [] := fun cs => by
    rw [Path.pieces_slash]
    exact List.getLast?_concat
  by_cases hroot : root.text.toList = []
  · rw [Path.join_of_empty hroot hrelative]
    rfl
  · rcases Path.text_join hroot hrelative with ⟨cs, -, htext⟩ | htext
    · rw [Path.needsDirectory, htext, hlast]
      rfl
    · rw [Path.needsDirectory, htext, hlast]
      rfl

/-- So a file that is opened has a name below the root. -/
lemma exists_names_of_openFile {root : Path} {path : String} (hpath : confined path = true)
    (h : t.openFile (root.join path) = .ok u) :
    ∃ n ns, (root.join path).segments = root.segments ++ (n :: ns).map Segment.name := by
  have hsegments : (root.join path).segments = root.segments ++ (Path.names ⟨path⟩).map .name :=
    Path.segments_join_of_confined hpath
  cases hnames : Path.names ⟨path⟩ with
  | nil =>
      obtain ⟨hneeds, -⟩ := FileTree.openFile_eq_ok h
      rw [Path.eq_empty_of_names hpath hnames, needsDirectory_join_empty] at hneeds
      cases hneeds
  | cons n ns => exact ⟨n, ns, hnames ▸ hsegments⟩

/-- What writing a file below a root comes to. -/
structure Contained (root : Path) (path content : String) (t : FileTree)
    (x : Option (Except Error Path)) (u : FileTree) : Prop where
  /-- Paths that could lead out of the root are refused, and no others. -/
  refused : (∃ detail, x = some (.error (.invalidOutputPath detail))) ↔ Escapes path
  untouched : Escapes path → u = t
  /-- The path of a file that was written goes on from the root, by one name at least. -/
  below : ∀ p, x = some (.ok p) → p = root.join path
    ∧ ∃ n ns, p.segments = root.segments ++ (n :: ns).map Segment.name
  wrote : ∀ p, x = some (.ok p) → FileTree.Wrote p content t u
  /-- Without a step upwards in the root, the directories on the way are those above the file. -/
  above : ∀ p, x = some (.ok p) → .up ∉ root.segments →
    ∀ q, OnWay t.current p.segments.dropLast q →
      q <+: landing t.current p.segments ∧ q ≠ landing t.current p.segments
  /-- If the file system is in the way, nothing but directories is new outside the root. -/
  outside : x = none ∨ (∃ detail, x = some (.error (.fileSystem detail))) →
    ∀ q, u.get? q = t.get? q ∨ (t.get? q = none ∧ u.get? q = some .directory)
      ∨ ∃ n ns, q = landing t.current root.segments ++ n :: ns

lemma contained_of_escapes {root : Path} {path content : String}
    {x : Option (Except Error Path)} (hpath : Escapes path)
    (h : ComesTo (writeArtifact root path content).run t x u) :
    Contained root path content t x u := by
  obtain ⟨rfl, rfl⟩ := comesTo_writeArtifact_escaping (escapes_iff.mp hpath) h
  constructor
  case refused => exact iff_of_true ⟨_, rfl⟩ hpath
  case untouched => exact fun _ => rfl
  case below => rintro p ⟨⟩
  case wrote => rintro p ⟨⟩
  case above => rintro p ⟨⟩
  case outside => exact fun _ q => .inl rfl

lemma contained_of_paved {root : Path} {path content detail : String}
    (hpath : ¬Escapes path) (h : Paved (root.join path).segments.dropLast t u) :
    Contained root path content t (some (.error (.fileSystem detail))) u := by
  constructor
  case refused => exact iff_of_false (by rintro ⟨_, ⟨⟩⟩) hpath
  case untouched => exact fun h => absurd h hpath
  case below => rintro p ⟨⟩
  case wrote => rintro p ⟨⟩
  case above => rintro p ⟨⟩
  case outside => exact fun _ q => (h.entries q).imp_right fun hmade => .inl ⟨hmade.1, hmade.2.1⟩

/-- A file with a name below the root is the one thing that is written there. -/
lemma contained_of_wrote {root : Path} {path content text : String} {x : Option (Except Error Path)}
    (hpath : ¬Escapes path)
    (hx : x = none ∨ (x = some (.ok (root.join path)) ∧ text = content)) {n : String}
    {ns : List String}
    (hsegments : (root.join path).segments = root.segments ++ (n :: ns).map Segment.name)
    (h : FileTree.Wrote (root.join path) text t u) : Contained root path content t x u := by
  have hok : ∀ p, x = some (.ok p) → p = root.join path ∧ text = content := by
    rintro p hp
    obtain rfl | ⟨rfl, htext⟩ := hx
    · cases hp
    · cases hp
      exact ⟨rfl, htext⟩
  have hplace : landing t.current (root.join path).segments
      = landing t.current root.segments ++ n :: ns := by
    rw [hsegments, FileTree.landing_append, FileTree.landing_names]
  constructor
  case refused =>
    refine iff_of_false ?_ hpath
    rintro ⟨detail, rfl⟩
    obtain hnone | ⟨hsome, -⟩ := hx
    · cases hnone
    · cases hsome
  case untouched => exact fun h => absurd h hpath
  case below =>
    intro p hp
    obtain ⟨rfl, -⟩ := hok p hp
    exact ⟨rfl, n, ns, hsegments⟩
  case wrote =>
    intro p hp
    obtain ⟨rfl, rfl⟩ := hok p hp
    exact h
  case above =>
    intro p hp hup q hq
    obtain ⟨rfl, -⟩ := hok p hp
    rw [hsegments] at hq ⊢
    exact FileTree.isPrefix_of_onWay hup (List.cons_ne_nil n ns) hq
  case outside =>
    intro _ q
    by_cases hq : q = landing t.current (root.join path).segments
    · exact .inr (.inr ⟨n, ns, hq.trans hplace⟩)
    · exact (h.others q hq).imp_right fun hmade => .inl ⟨hmade.1, hmade.2.1⟩

/-- Writing comes to an end in every world, and changes nothing but files. -/
lemma exists_result?_writeArtifact (w : World) (root : Path) (path content : String) :
    ∃ x tree, w.result? (writeArtifact root path content) = ({ w with tree := tree }, some x)
      ∧ ComesTo (writeArtifact root path content).run w.tree (some x) tree := by
  have hends : ∃ tree x, w.advance (writeArtifact root path content).run
      = ({ w with tree := tree }, .ended x) := by
    cases hpath : confined path with
    | true =>
        obtain ⟨tree, x, hx, -⟩ := writes_writeArtifact root content hpath w
        exact ⟨tree, x, hx⟩
    | false =>
        refine ⟨w.tree, .error (.escapingArtifact path), ?_⟩
        simp only [writeArtifact, hpath, Bool.not_false, if_true]
        rfl
  obtain ⟨tree, x, hx⟩ := hends
  exact ⟨x, tree, by rw [World.result?, hx], ComesTo.of_advance hx⟩

/-- **Whatever its path says, a file that is written stays below its root.**  In every world writing
comes to an end, and whatever may come of it, also where operations are refused or broken off, is
contained. -/
theorem writeArtifact_contained (root : Path) (path content : String) :
    (∀ w : World, ∃ x tree,
        w.result? (writeArtifact root path content) = ({ w with tree := tree }, some x)
          ∧ ComesTo (writeArtifact root path content).run w.tree (some x) tree)
      ∧ ∀ t x u, ComesTo (writeArtifact root path content).run t x u →
        Contained root path content t x u := by
  refine ⟨fun w => exists_result?_writeArtifact w root path content, fun t x u h => ?_⟩
  by_cases hescapes : Escapes path
  · exact contained_of_escapes hescapes h
  have hpath : confined path = true := by
    rw [← Bool.not_eq_false, ← escapes_iff]
    exact hescapes
  rcases comesTo_writeArtifact hpath h with ⟨⟨detail, rfl⟩, hpaved⟩ | ⟨v, w, hpaved, hopen, hfill⟩
  · exact contained_of_paved hescapes hpaved
  obtain ⟨n, ns, hsegments⟩ := exists_names_of_openFile hpath hopen
  rcases hfill with ⟨rfl, part, rfl⟩ | ⟨rfl, rfl⟩
  · exact contained_of_wrote hescapes (.inl rfl) hsegments (hpaved.wrote hopen part)
  · exact contained_of_wrote hescapes (.inr ⟨rfl, rfl⟩) hsegments (hpaved.wrote hopen content)

/-- Where there is nothing yet, a file is written below a root that is told from the place where
relative paths begin; a path that goes up is refused. -/
theorem writeArtifact_contained_data :
    (∃ tree, World.bare.result?
          (writeArtifact ⟨"out"⟩ "tests/./data.json" "[]")
        = ({ World.bare with tree := tree }, some (.ok ⟨"out/tests/./data.json"⟩))
      ∧ tree.read? ⟨"out/tests/./data.json"⟩ = some "[]")
      ∧ ∃ detail, World.bare.result? (writeArtifact ⟨"out"⟩ "tests/../x.ts" "")
        = (World.bare, some (.error (.invalidOutputPath detail))) := by
  constructor
  · obtain ⟨hends, hcontained⟩ := writeArtifact_contained ⟨"out"⟩ "tests/./data.json" "[]"
    obtain ⟨x, tree, hresult, hcomes⟩ := hends World.bare
    have hrun : (World.bare.result?
        (writeArtifact ⟨"out"⟩ "tests/./data.json" "[]")).2
          = some (.ok ⟨"out/tests/./data.json"⟩) := by
      rfl
    rw [hresult] at hrun
    cases hrun
    exact ⟨tree, hresult, ((hcontained _ _ _ hcomes).wrote _ rfl).read⟩
  · obtain ⟨hends, hcontained⟩ := writeArtifact_contained ⟨"out"⟩ "tests/../x.ts" ""
    obtain ⟨x, tree, hresult, hcomes⟩ := hends World.bare
    have hescapes : Escapes "tests/../x.ts" := .inr (.inr (by decide))
    have hrefused := (hcontained _ _ _ hcomes).refused.mpr hescapes
    have huntouched := (hcontained _ _ _ hcomes).untouched hescapes
    obtain ⟨detail, hx⟩ := hrefused
    cases hx
    cases huntouched
    exact ⟨detail, hresult⟩

end Generation

end Rehearsal
