import Mathlib
import Rehearsal.Store
import Rehearsal.Proofs.Fallible

/-!
# What holds of every store

Stores are filled by calls, starting from nothing, and some facts hold of all that come about.

* `Catalog.Sound`: every page is **valid and stands under its own identifier**.
* `Logbook.Sound`: every row belongs to a record.
* `Store.Reachable`: what calls can lead to.  Both facts hold there
  (`Store.Reachable.catalog_sound`, `Store.Reachable.logbook_sound`).
-/

namespace Rehearsal

/-- What is contained can be found. -/
lemma Table.contains_iff {κ α : Type} [DecidableEq κ] {t : Table κ α} {k : κ} :
    t.contains k = true ↔ ∃ a, t.get? k = some a := by
  simp [Table.contains, Option.isSome_iff_exists]

/-- What is found under a key is its entry, of which there is only one. -/
lemma Table.get?_eq_some_iff {κ α : Type} [DecidableEq κ] {t : Table κ α} {k : κ} {a : α} :
    t.get? k = some a ↔ (k, a) ∈ t.entries := by
  constructor
  · intro h
    obtain ⟨e, he, rfl⟩ := Option.map_eq_some_iff.mp h
    have hkey : e.1 = k := by simpa using List.find?_some he
    exact hkey ▸ List.mem_of_find?_eq_some he
  · intro h
    have hsome : (t.entries.find? fun x => x.1 = k).isSome :=
      List.find?_isSome.mpr ⟨(k, a), h, by simp⟩
    obtain ⟨e, he⟩ := Option.isSome_iff_exists.mp hsome
    have hkey : e.1 = k := by simpa using List.find?_some he
    have hentry : e = (k, a) :=
      List.inj_on_of_nodup_map t.distinct (List.mem_of_find?_eq_some he) h hkey
    rw [Table.get?, he, hentry]
    rfl

/-- Keys are what values stand under. -/
lemma Table.mem_keys_iff {κ α : Type} [DecidableEq κ] {t : Table κ α} {k : κ} :
    k ∈ t.keys ↔ ∃ a, t.get? k = some a := by
  simp [Table.keys, Table.get?_eq_some_iff]

/-- Values are what stands under some key. -/
lemma Table.mem_values_iff {κ α : Type} [DecidableEq κ] {t : Table κ α} {a : α} :
    a ∈ t.values ↔ ∃ k, t.get? k = some a := by
  simp [Table.values, Table.get?_eq_some_iff]

/-- With things put one after the other, each under its own key. -/
def Table.putAll {κ α : Type} [DecidableEq κ] (key : α → κ) (t : Table κ α) (as : List α) :
    Table κ α :=
  as.foldl (fun t a => t.put (key a) a) t

/-! ## The catalog -/

namespace Catalog

/-- Suites that are put change the suites only. -/
lemma foldl_putSuite (suites : List Suite) (c : Catalog) :
    suites.foldl putSuite c = { c with suites := c.suites.putAll Suite.id suites } := by
  induction suites generalizing c with
  | nil => rfl
  | cons s ss ih => exact ih (c.putSuite s)

/-- Projects that are put change the projects only. -/
lemma foldl_putProject (projects : List Project) (c : Catalog) :
    projects.foldl putProject c = { c with projects := c.projects.putAll Project.id projects } := by
  induction projects generalizing c with
  | nil => rfl
  | cons p ps ih => exact ih (c.putProject p)

variable [Libraries]

/-- Pages are valid and stand under their own identifiers. -/
def Sound (c : Catalog) : Prop :=
  ∀ (id : Uuid) (p : Page), c.page? id = some p → p.id = id ∧ p.validate = .ok ()

lemma sound_empty : Sound empty := by
  intro id p h
  cases h

/-- Only the pages matter. -/
lemma Sound.congr {c d : Catalog} (hc : c.Sound) (h : d.pages = c.pages) : d.Sound := by
  intro id p hp
  rw [page?, h] at hp
  exact hc id p hp

/-- A page is taken only if it is valid. -/
lemma Sound.putPage {c d : Catalog} {p : Page} (hc : c.Sound) (h : c.putPage p = .ok d) :
    d.Sound := by
  obtain ⟨_, hvalid, h⟩ := bind_eq_ok_iff.mp h
  cases h
  intro id q hq
  rw [page?, Table.get?_put] at hq
  split_ifs at hq with hid
  · cases hq
    exact ⟨hid.symm, hvalid⟩
  · exact hc id q hq

lemma Sound.putPages {c : Catalog} (hc : c.Sound) (ps : List Page) : (c.putPages ps).1.Sound := by
  induction ps generalizing c with
  | nil => exact hc
  | cons p ps ih =>
      cases hp : c.putPage p with
      | ok d =>
          simp only [Catalog.putPages, hp]
          exact ih (hc.putPage hp)
      | error e =>
          simp only [Catalog.putPages, hp]
          exact hc

/-- A bundle keeps the catalog sound, also when it is given up half way. -/
lemma Sound.load {c : Catalog} (hc : c.Sound) (b : Bundle) : (c.load b).1.Sound := by
  have hpages := hc.putPages b.pages
  rw [Catalog.load]
  cases h : c.putPages b.pages with
  | mk d result =>
      rw [h] at hpages
      cases result with
      | ok _ =>
          have hrest : (b.projects.foldl putProject (b.suites.foldl putSuite d)).pages
              = d.pages := by
            rw [foldl_putProject, foldl_putSuite]
          exact hpages.congr hrest
      | error _ => exact hpages

end Catalog

/-! ## The logbook -/

namespace Logbook

/-- Rows belong to records. -/
def Sound (l : Logbook) : Prop :=
  ∀ r ∈ l.rows, ∃ e, l.record? r.execution = some e

lemma sound_empty : Sound empty := by
  intro r hr
  cases hr

lemma rowsOf_eq_nil {l : Logbook} {id : Uuid} (hl : l.Sound) (hid : l.record? id = none) :
    l.rowsOf id = [] := by
  refine List.filter_eq_nil_iff.mpr fun r hr hrid => ?_
  obtain ⟨e, he⟩ := hl r hr
  rw [beq_iff_eq.mp hrid, hid] at he
  cases he

/-- With a record under its identifier, in place of the one that was there. -/
def put (l : Logbook) (id : Uuid) (e : Execution) : Logbook :=
  { l with records := l.records.put id e }

/-- With more rows. -/
def addRows (l : Logbook) (rows : List CaseResult) : Logbook := { l with rows := l.rows ++ rows }

/-- What is found after a record was put is what was put, or what was there. -/
@[simp] lemma record?_put (l : Logbook) (id k : Uuid) (e : Execution) :
    (l.put id e).record? k = if k = id then some e else l.record? k :=
  Table.get?_put l.records id k e

@[simp] lemma rowsOf_put (l : Logbook) (id k : Uuid) (e : Execution) :
    (l.put id e).rowsOf k = l.rowsOf k := rfl

/-- Putting a record changes nothing elsewhere. -/
lemma put_elsewhere (l : Logbook) {id k : Uuid} (e : Execution) (hk : k ≠ id) :
    (l.put id e).record? k = l.record? k ∧ (l.put id e).rowsOf k = l.rowsOf k :=
  ⟨(l.record?_put id k e).trans (if_neg hk), rfl⟩

@[simp] lemma record?_addRows (l : Logbook) (rows : List CaseResult) (k : Uuid) :
    (l.addRows rows).record? k = l.record? k := rfl

@[simp] lemma rowsOf_addRows (l : Logbook) (rows : List CaseResult) (k : Uuid) :
    (l.addRows rows).rowsOf k = l.rowsOf k ++ rows.filter fun r => r.execution == k :=
  List.filter_append ..

/-- Rows of one execution come after the rows that it has. -/
lemma rowsOf_addRows_self {rows : List CaseResult} {id : Uuid}
    (h : ∀ r ∈ rows, r.execution = id) (l : Logbook) :
    (l.addRows rows).rowsOf id = l.rowsOf id ++ rows := by
  have hall : rows.filter (fun r => r.execution == id) = rows := by
    refine List.filter_eq_self.mpr fun r hr => ?_
    rw [h r hr, beq_self_eq_true]
  rw [rowsOf_addRows, hall]

/-- Another execution does not get them. -/
lemma rowsOf_addRows_of_ne {rows : List CaseResult} {id k : Uuid}
    (h : ∀ r ∈ rows, r.execution = id) (hk : k ≠ id) (l : Logbook) :
    (l.addRows rows).rowsOf k = l.rowsOf k := by
  have hnone : rows.filter (fun r => r.execution == k) = [] := by
    refine List.filter_eq_nil_iff.mpr fun r hr hrk => ?_
    rw [beq_iff_eq, h r hr] at hrk
    exact hk hrk.symm
  rw [rowsOf_addRows, hnone, List.append_nil]

/-- A record that is put takes no record away. -/
lemma Sound.put {l : Logbook} (hl : l.Sound) (id : Uuid) (e : Execution) : (l.put id e).Sound := by
  intro r hr
  rw [record?_put]
  split_ifs
  · exact ⟨e, rfl⟩
  · exact hl r hr

lemma Sound.create {l m : Logbook} {e : Execution} (hl : l.Sound) (h : l.create e = .ok m) :
    m.Sound := by
  rw [Logbook.create] at h
  split_ifs at h
  cases h
  exact hl.put e.id e

lemma Sound.update {l m : Logbook} {now : Instant} {id : Uuid} {u : Update} {e : Execution}
    (hl : l.Sound) (h : l.update now id u = .ok (m, e)) : m.Sound := by
  rw [Logbook.update] at h
  split at h
  · cases h
  · cases h
    exact hl.put id _

lemma Sound.addRow {l m : Logbook} {r : CaseResult} (hl : l.Sound) (h : l.addRow r = .ok m) :
    m.Sound := by
  rw [Logbook.addRow] at h
  split_ifs at h with hr
  cases h
  intro s hs
  rcases List.mem_append.mp hs with hs | hs
  · exact hl s hs
  · obtain rfl := List.mem_singleton.mp hs
    exact Table.contains_iff.mp hr

end Logbook

/-! ## Stores -/

namespace Store

variable [Libraries]

/-- What calls can lead to, whether they are refused or not. -/
def Reachable (s : Store) : Prop := ∃ calls, s = Store.empty.callAll calls

/-- A call keeps the catalog sound. -/
lemma catalog_sound_call {s : Store} (hs : s.catalog.Sound) (now : Instant) (c : Call) :
    (s.call now c).1.catalog.Sound := by
  have hlog : ∀ l : Except Error Logbook, (s.withLogbook l).1.catalog = s.catalog := by
    intro l
    cases l <;> rfl
  cases c with
  | putPage p =>
      cases h : s.catalog.putPage p with
      | ok d => simpa only [call, h, withCatalog] using hs.putPage h
      | error e => simpa only [call, h, withCatalog] using hs
  | putSuite x => exact hs.congr rfl
  | putProject p => exact hs.congr rfl
  | load b => exact hs.load b
  | create e => simpa only [call, hlog] using hs
  | update id u => simpa only [call, hlog] using hs
  | addRow r => simpa only [call, hlog] using hs

/-- A call keeps the logbook sound. -/
lemma logbook_sound_call {s : Store} (hs : s.logbook.Sound) (now : Instant) (c : Call) :
    (s.call now c).1.logbook.Sound := by
  have hcat : ∀ d : Except Error Catalog, (s.withCatalog d).1.logbook = s.logbook := by
    intro d
    cases d <;> rfl
  cases c with
  | putPage p => simpa only [call, hcat] using hs
  | putSuite x => simpa only [call, hcat] using hs
  | putProject p => simpa only [call, hcat] using hs
  | load b => exact hs
  | create e =>
      cases h : s.logbook.create e with
      | ok l => simpa only [call, h, withLogbook] using hs.create h
      | error e => simpa only [call, h, withLogbook] using hs
  | update id u =>
      cases h : s.logbook.update now id u with
      | ok l => simpa only [call, h, withLogbook, Except.map] using hs.update h
      | error e => simpa only [call, h, withLogbook, Except.map] using hs
  | addRow r =>
      cases h : s.logbook.addRow r with
      | ok l => simpa only [call, h, withLogbook] using hs.addRow h
      | error e => simpa only [call, h, withLogbook] using hs

/-- What holds of nothing and is kept by every call holds of every store. -/
lemma Reachable.induction {P : Store → Prop} (hempty : P Store.empty)
    (hcall : ∀ s now c, P s → P (s.call now c).1) {s : Store} (hs : s.Reachable) : P s := by
  obtain ⟨calls, rfl⟩ := hs
  have hall : ∀ s : Store, P s → P (s.callAll calls) := by
    induction calls with
    | nil => exact fun _ hs => hs
    | cons c cs ih => exact fun s hs => ih _ (hcall s c.1 c.2 hs)
  exact hall _ hempty

theorem Reachable.catalog_sound {s : Store} (hs : s.Reachable) : s.catalog.Sound :=
  hs.induction (P := fun s => s.catalog.Sound) Catalog.sound_empty
    fun _ now c h => catalog_sound_call h now c

theorem Reachable.logbook_sound {s : Store} (hs : s.Reachable) : s.logbook.Sound :=
  hs.induction (P := fun s => s.logbook.Sound) Logbook.sound_empty
    fun _ now c h => logbook_sound_call h now c

end Store

end Rehearsal
