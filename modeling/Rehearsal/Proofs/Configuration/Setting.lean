import Mathlib
import Rehearsal.Configuration
import Rehearsal.Proofs.Fallible
import Rehearsal.Proofs.Json.Field

/-!
# Single settings

Eight keys are recognised.  Under each of them a value says a setting, or it is refused, and then
the key decides what is reported.

* `Key`: the keys, each with the part of a configuration that it sets (`Key.get`, `Key.put`).
* `Key.Says`: **what a value says under a key**, in terms of the value alone.
* `Key.Refuses`: what is reported of a value that says nothing there.
* `Key.decode_eq_ok_iff`, `Key.decode_eq_error_iff`: the readers of the configuration decide just
  that.
-/

namespace Rehearsal

open Json (Value Bag)

/-! ## What values say -/

/-- An object or an array with two numbers of 32 bits. -/
structure Viewport.Says (v : Value) (p : Viewport) : Prop where
  fits : v.Fits ["width", "height"]
  width : v.field? ["width", "height"] "width" = some (.num (.int p.width))
  height : v.field? ["width", "height"] "height" = some (.num (.int p.height))
  width_lt : p.width < 0x100000000
  height_lt : p.height < 0x100000000

/-- A browser is written as its name, or as an object with that name and nothing in it. -/
inductive Browser.Says : Value → Browser → Prop
  | name (b : Browser) : Says (.str b.name) b
  | member (b : Browser) : Says (.obj [(b.name, .null)]) b

/-- A reporter is a name, or a list of a name, perhaps its options, and whatever follows them. -/
inductive Reporter.Says : Value → Reporter → Prop
  | name (s : String) : Says (.str s) ⟨s, []⟩
  | alone (s : String) : Says (.arr [.str s]) ⟨s, []⟩
  | options (s : String) (options : Bag) (rest : List Value) :
      Says (.arr (.str s :: .obj options :: rest)) ⟨s, options⟩

/-- What is reported of a value that is no reporter. -/
inductive Reporter.Refused : Value → Error → Prop
  | options (s : String) (v : Value) (rest : List Value) (h : ∀ options, v ≠ .obj options) :
      Refused (.arr (.str s :: v :: rest)) (.badReporterOptions s)
  | unnamed (items : List Value) (h : ∀ s, items.head? ≠ some (.str s)) :
      Refused (.arr items) .unnamedReporter
  | other (v : Value) (hname : ∀ s, v ≠ .str s) (hlist : ∀ items, v ≠ .arr items) :
      Refused v (.badReporter v.compact)

namespace Configuration

/-- The value is a natural number.  What does not fit 64 bits is read as a real number, and that is
none. -/
def SaysNatural (v : Value) (n : Nat) : Prop := v = .num (.int n)

/-- The value is a natural number of 32 bits. -/
def SaysNatural32 (v : Value) (n : Nat) : Prop := n < 0x100000000 ∧ SaysNatural v n

/-- What is reported of a value that is no natural number of 32 bits. -/
inductive Refused32 (key : String) : Value → Error → Prop
  | other (v : Value) (h : ∀ n, ¬SaysNatural v n) :
      Refused32 key v (.illTyped key "a non-negative integer")
  | large (n : Nat) (h : 0x100000000 ≤ n) :
      Refused32 key (.num (.int n)) (.illTyped key "a 32-bit integer")

/-- The keys that are recognised. -/
inductive Key where
  | timeout
  | retries
  | headless
  | viewport
  | screenshot
  | reporter
  | browsers
  | workers
deriving DecidableEq

namespace Key

def name : Key → String
  | timeout => "timeout"
  | retries => "retries"
  | headless => "headless"
  | viewport => "viewport"
  | screenshot => "screenshot"
  | reporter => "reporter"
  | browsers => "browsers"
  | workers => "workers"

/-- The names of all keys. -/
def names : List String :=
  ["timeout", "retries", "headless", "viewport", "screenshot", "reporter", "browsers", "workers"]

/-- What is set under a key. -/
def Setting : Key → Type
  | timeout => Nat
  | retries => Nat
  | headless => Bool
  | viewport => Viewport
  | screenshot => Screenshots
  | reporter => List Reporter
  | browsers => List Browser
  | workers => Option Nat

/-- The part of a configuration that a key sets. -/
def get : (k : Key) → Configuration → k.Setting
  | timeout, c => c.timeout
  | retries, c => c.retries
  | headless, c => c.headless
  | viewport, c => c.viewport
  | screenshot, c => c.screenshots
  | reporter, c => c.reporters
  | browsers, c => c.browsers
  | workers, c => c.workers

/-- The configuration with another setting under a key. -/
def put : (k : Key) → Configuration → k.Setting → Configuration
  | timeout, c, x => { c with timeout := x }
  | retries, c, x => { c with retries := x }
  | headless, c, x => { c with headless := x }
  | viewport, c, x => { c with viewport := x }
  | screenshot, c, x => { c with screenshots := x }
  | reporter, c, x => { c with reporters := x }
  | browsers, c, x => { c with browsers := x }
  | workers, c, x => { c with workers := x }

/-- The reader for a key. -/
def decode : (k : Key) → Value → Except Error k.Setting
  | timeout, v => natural "timeout" v
  | retries, v => natural32 "retries" v
  | headless, v => truth "headless" v
  | viewport, v => viewportOf "viewport" v
  | screenshot, v => screenshotsOf "screenshot" v
  | reporter, v => reportersOf "reporter" v
  | browsers, v => browsersOf "browsers" v
  | workers, v => (natural32 "workers" v).map some

/-- What a value says under a key. -/
def Says : (k : Key) → Value → k.Setting → Prop
  | timeout, v, n => SaysNatural v n
  | retries, v, n => SaysNatural32 v n
  | headless, v, b => v = .bool b
  | viewport, v, p => Viewport.Says v p
  | screenshot, v, s => v = .str (Screenshots.name s)
  | reporter, v, rs => ∃ items, v = .arr items ∧ List.Forall₂ Reporter.Says items rs
  | browsers, v, bs => bs ≠ [] ∧ ∃ items, v = .arr items ∧ List.Forall₂ Browser.Says items bs
  | workers, v, o => ∃ n, o = some n ∧ SaysNatural32 v n

/-- What is reported of a value that says nothing under a key. -/
inductive Refuses : Key → Value → Error → Prop
  | timeout (v : Value) (h : ∀ n, ¬SaysNatural v n) :
      Refuses timeout v (.illTyped "timeout" "a non-negative integer")
  | retries (v : Value) (e : Error) (h : Refused32 "retries" v e) : Refuses retries v e
  | headless (v : Value) (h : ∀ b, v ≠ .bool b) :
      Refuses headless v (.illTyped "headless" "a boolean")
  | viewport (v : Value) (h : ∀ p, ¬Viewport.Says v p) :
      Refuses viewport v (.illTyped "viewport" "\x7bwidth, height\x7d")
  | screenshot (v : Value) (h : ∀ s, v ≠ .str (Screenshots.name s)) :
      Refuses screenshot v (.illTyped "screenshot" "off, on or only-on-failure")
  | reporters (v : Value) (h : ∀ items, v ≠ .arr items) :
      Refuses reporter v (.illTyped "reporter" "a list of reporters")
  /-- Of several items that are no reporters the first is reported. -/
  | reporter (items : List Value) (e : Error)
      (h : First (fun i => ∃ r, Reporter.Says i r) (Reporter.Refused · e) items) :
      Refuses reporter (.arr items) e
  | browsers (v : Value)
      (h : ¬∃ items bs, v = .arr items ∧ List.Forall₂ Browser.Says items bs) :
      Refuses browsers v (.illTyped "browsers" "a list of chromium, firefox or webkit")
  | noBrowser : Refuses browsers (.arr []) (.illTyped "browsers" "a non-empty list")
  | workers (v : Value) (e : Error) (h : Refused32 "workers" v e) : Refuses workers v e

/-! ## Keys and configurations -/

lemma name_injective {k l : Key} (h : k.name = l.name) : k = l := by
  cases k <;> cases l <;> first | rfl | exact absurd h (by decide)

lemma mem_names_iff {key : String} : key ∈ names ↔ ∃ k : Key, k.name = key := by
  constructor
  · intro h
    simp only [names, List.mem_cons, List.not_mem_nil, or_false] at h
    rcases h with rfl | rfl | rfl | rfl | rfl | rfl | rfl | rfl
    · exact ⟨timeout, rfl⟩
    · exact ⟨retries, rfl⟩
    · exact ⟨headless, rfl⟩
    · exact ⟨viewport, rfl⟩
    · exact ⟨screenshot, rfl⟩
    · exact ⟨reporter, rfl⟩
    · exact ⟨browsers, rfl⟩
    · exact ⟨workers, rfl⟩
  · rintro ⟨k, rfl⟩
    cases k <;> decide

lemma get_put (k : Key) (c : Configuration) (x : k.Setting) : k.get (k.put c x) = x := by
  cases k <;> rfl

/-- A key sets nothing but its own part. -/
lemma get_put_of_ne {k l : Key} (h : l ≠ k) (c : Configuration) (x : k.Setting) :
    l.get (k.put c x) = l.get c := by
  cases k <;> cases l <;> first | rfl | exact absurd rfl h

/-- A setting is taken by the reader for its key. -/
lemma set_name (k : Key) (c : Configuration) (v : Value) :
    c.set k.name v = (k.decode v).map (k.put c) := by
  cases k with
  | workers =>
      simp only [name, set, decode]
      cases natural32 "workers" v <;> rfl
  | _ => rfl

end Key

/-- A key that is not recognised has no influence. -/
lemma set_of_notMem {key : String} (h : key ∉ Key.names) (c : Configuration) (v : Value) :
    c.set key v = .ok c := by
  simp only [Key.names, List.mem_cons, List.not_mem_nil, or_false, not_or] at h
  simp only [set, h, if_false]

/-! ## Readers -/

lemma natural_eq_ok_iff {key : String} {v : Value} {n : Nat} :
    natural key v = .ok n ↔ SaysNatural v n := by
  rw [SaysNatural]
  constructor
  · intro h
    simp only [natural] at h
    split at h
    · next m =>
        split_ifs at h with hm
        cases h
        rw [Int.toNat_of_nonneg hm]
    · cases h
  · rintro rfl
    simp [natural]

lemma natural_eq_error_iff {key : String} {v : Value} {e : Error} :
    natural key v = .error e
      ↔ (∀ n, ¬SaysNatural v n) ∧ .illTyped key "a non-negative integer" = e := by
  refine eq_error_iff_of_only (fun _ => natural_eq_ok_iff) fun d hd => ?_
  simp only [natural] at hd
  split at hd
  · split_ifs at hd
    exact Except.error.inj hd
  · exact Except.error.inj hd

lemma natural32_eq_ok_iff {key : String} {v : Value} {n : Nat} :
    natural32 key v = .ok n ↔ SaysNatural32 v n := by
  rw [natural32, bind_eq_ok_iff, SaysNatural32]
  constructor
  · rintro ⟨m, hm, h⟩
    split_ifs at h with hlt
    cases h
    exact ⟨hlt, natural_eq_ok_iff.mp hm⟩
  · rintro ⟨hlt, hn⟩
    exact ⟨n, natural_eq_ok_iff.mpr hn, if_pos hlt⟩

lemma natural32_eq_error_iff {key : String} {v : Value} {e : Error} :
    natural32 key v = .error e ↔ Refused32 key v e := by
  rw [natural32, bind_eq_error_iff, natural_eq_error_iff]
  constructor
  · rintro (⟨h, rfl⟩ | ⟨n, hn, h⟩)
    · exact .other v h
    · split_ifs at h with hlt
      obtain rfl : v = .num (.int n) := natural_eq_ok_iff.mp hn
      cases h
      exact .large n (Nat.not_lt.mp hlt)
  · rintro (⟨_, h⟩ | ⟨n, h⟩)
    · exact .inl ⟨h, rfl⟩
    · exact .inr ⟨n, natural_eq_ok_iff.mpr rfl, if_neg (Nat.not_lt.mpr h)⟩

lemma truth_eq_ok_iff {key : String} {v : Value} {b : Bool} :
    truth key v = .ok b ↔ v = .bool b := by
  cases v <;> simp [truth]

lemma truth_eq_error_iff {key : String} {v : Value} {e : Error} :
    truth key v = .error e ↔ (∀ b, v ≠ .bool b) ∧ .illTyped key "a boolean" = e := by
  refine eq_error_iff_of_only (fun _ => truth_eq_ok_iff) fun d hd => ?_
  cases v <;> first | exact Except.error.inj hd | cases hd

lemma decode_viewport_iff {v : Value} {p : Viewport} :
    v.decode Viewport.reader = some p ↔ Viewport.Says v p := by
  rw [Value.decode, Viewport.reader, Json.maxDepth, Option.bind_eq_bind, Option.bind_eq_some_iff]
  have hwidth : "width" ∈ ["width", "height"] := by decide
  have hheight : "height" ∈ ["width", "height"] := by decide
  constructor
  · rintro ⟨es, hes, h⟩
    simp only [Option.bind_eq_bind, Option.bind_eq_some_iff, Option.pure_def,
      Option.some.injEq] at h
    obtain ⟨w, hw, n, hn, rfl⟩ := h
    obtain ⟨_, hfield, hw⟩ := (Json.required_eq_some_iff hes hwidth).mp hw
    obtain ⟨hwlt, rfl⟩ := Json.word32_eq_some_iff.mp hw
    obtain ⟨_, hfield', hn⟩ := (Json.required_eq_some_iff hes hheight).mp hn
    obtain ⟨hnlt, rfl⟩ := Json.word32_eq_some_iff.mp hn
    exact ⟨Json.fits_of_read hes, hfield, hfield', hwlt, hnlt⟩
  · intro h
    obtain ⟨es, hes⟩ := Json.exists_read_iff.mpr h.fits
    refine ⟨es, hes, ?_⟩
    rw [(Json.required_eq_some_iff hes hwidth).mpr
        ⟨_, h.width, Json.word32_eq_some_iff.mpr ⟨h.width_lt, rfl⟩⟩,
      (Json.required_eq_some_iff hes hheight).mpr
        ⟨_, h.height, Json.word32_eq_some_iff.mpr ⟨h.height_lt, rfl⟩⟩]
    rfl

lemma viewportOf_eq_ok_iff {key : String} {v : Value} {p : Viewport} :
    viewportOf key v = .ok p ↔ Viewport.Says v p := by
  rw [viewportOf, ← decode_viewport_iff]
  cases v.decode Viewport.reader <;> simp

lemma viewportOf_eq_error_iff {key : String} {v : Value} {e : Error} :
    viewportOf key v = .error e
      ↔ (∀ p, ¬Viewport.Says v p) ∧ .illTyped key "\x7bwidth, height\x7d" = e := by
  refine eq_error_iff_of_only (fun _ => viewportOf_eq_ok_iff) fun d hd => ?_
  rw [viewportOf] at hd
  split at hd
  · cases hd
  · exact Except.error.inj hd

lemma parse?_eq_some_iff {s : String} {m : Screenshots} :
    Screenshots.parse? s = some m ↔ s = m.name := by
  constructor
  · intro h
    rw [Screenshots.parse?] at h
    split_ifs at h <;> cases h <;> assumption
  · rintro rfl
    cases m <;> rfl

lemma screenshotsOf_eq_ok_iff {key : String} {v : Value} {m : Screenshots} :
    screenshotsOf key v = .ok m ↔ v = .str m.name := by
  cases v with
  | str s =>
      simp only [screenshotsOf, Value.str.injEq, ← parse?_eq_some_iff]
      cases Screenshots.parse? s <;> simp
  | _ => simp [screenshotsOf]

lemma screenshotsOf_eq_error_iff {key : String} {v : Value} {e : Error} :
    screenshotsOf key v = .error e
      ↔ (∀ m : Screenshots, v ≠ .str m.name)
        ∧ .illTyped key "off, on or only-on-failure" = e := by
  refine eq_error_iff_of_only (fun _ => screenshotsOf_eq_ok_iff) fun d hd => ?_
  simp only [screenshotsOf] at hd
  split at hd
  · split at hd
    · cases hd
    · exact Except.error.inj hd
  · exact Except.error.inj hd

/-! ### Lists -/

lemma ofValue_eq_ok_iff {v : Value} {r : Reporter} :
    Reporter.ofValue v = .ok r ↔ Reporter.Says v r := by
  constructor
  · intro h
    simp only [Reporter.ofValue] at h
    split at h <;> cases h
    · exact .name _
    · exact .alone _
    · exact .options _ _ _
  · rintro (s | s | ⟨s, options, rest⟩) <;> rfl

lemma ofValue_eq_error_iff {v : Value} {e : Error} :
    Reporter.ofValue v = .error e ↔ Reporter.Refused v e := by
  constructor
  · intro h
    simp only [Reporter.ofValue] at h
    split at h <;> cases h
    · next s tail hnil hoptions =>
        cases tail with
        | nil => exact absurd rfl hnil
        | cons v rest => exact .options s v rest fun o ho => hoptions o rest (ho ▸ rfl)
    · next items _ _ hname =>
        refine .unnamed items fun s hs => ?_
        obtain ⟨rest, rfl⟩ := List.head?_eq_some_iff.mp hs
        exact hname s rest rfl
    · next hname _ _ _ hlist => exact .other v hname hlist
  · rintro (⟨s, v, rest, h⟩ | ⟨items, h⟩ | ⟨v, hname, hlist⟩)
    · cases v <;> first | rfl | exact absurd rfl (h _)
    · cases items with
      | nil => rfl
      | cons i items => cases i <;> first | rfl | exact absurd rfl (h _)
    · cases v <;> first | rfl | exact absurd rfl (hname _) | exact absurd rfl (hlist _)

lemma ofValues_eq_ok_iff {vs : List Value} {rs : List Reporter} :
    Reporter.ofValues vs = .ok rs ↔ List.Forall₂ Reporter.Says vs rs := by
  induction vs generalizing rs with
  | nil => cases rs <;> simp [Reporter.ofValues]
  | cons v vs ih =>
      rw [Reporter.ofValues, bind_eq_ok_iff]
      constructor
      · rintro ⟨r, hr, h⟩
        obtain ⟨rs, hrs, h⟩ := bind_eq_ok_iff.mp h
        cases h
        exact .cons (ofValue_eq_ok_iff.mp hr) (ih.mp hrs)
      · intro h
        cases h with
        | cons hr hrs =>
            refine ⟨_, ofValue_eq_ok_iff.mpr hr, ?_⟩
            rw [ih.mpr hrs]
            rfl

/-- The first item that is no reporter is reported. -/
lemma ofValues_eq_error_iff {vs : List Value} {e : Error} :
    Reporter.ofValues vs = .error e
      ↔ First (fun v => ∃ r, Reporter.Says v r) (Reporter.Refused · e) vs := by
  induction vs with
  | nil => simp [Reporter.ofValues, not_first_nil]
  | cons v vs ih =>
      rw [first_cons]
      exact bind_eq_error_iff_of ofValue_eq_error_iff (exists_congr fun _ => ofValue_eq_ok_iff)
        fun _ _ => bind_ok_eq_error_iff.trans ih

lemma reportersOf_eq_ok_iff {key : String} {v : Value} {rs : List Reporter} :
    reportersOf key v = .ok rs ↔ ∃ items, v = .arr items ∧ List.Forall₂ Reporter.Says items rs := by
  cases v <;> simp [reportersOf, ofValues_eq_ok_iff]

lemma reportersOf_eq_error_iff {key : String} {v : Value} {e : Error} :
    reportersOf key v = .error e
      ↔ (∀ items, v ≠ .arr items) ∧ .illTyped key "a list of reporters" = e
        ∨ ∃ items, v = .arr items
            ∧ First (fun v => ∃ r, Reporter.Says v r) (Reporter.Refused · e) items := by
  cases v <;> simp [reportersOf, ofValues_eq_error_iff]

lemma ofName?_eq_some_iff {s : String} {b : Browser} :
    Browser.ofName? s = some b ↔ s = b.name := by
  constructor
  · intro h
    rw [Browser.ofName?] at h
    split_ifs at h <;> cases h <;> assumption
  · rintro rfl
    cases b <;> rfl

lemma reader_browser_iff {room : Nat} {v : Value} {b : Browser} :
    Browser.reader (room + 1) v.toNode = some b ↔ Browser.Says v b := by
  constructor
  · intro h
    cases v with
    | str s =>
        obtain rfl := ofName?_eq_some_iff.mp h
        exact .name b
    | obj ms =>
        -- one member, with null in it
        match ms, h with
        | [(s, .null)], h =>
            obtain rfl := ofName?_eq_some_iff.mp h
            exact .member b
    | _ => cases h
  · rintro (_ | _)
    · exact ofName?_eq_some_iff.mpr rfl
    · exact ofName?_eq_some_iff.mpr rfl

lemma decode_browsers_iff {v : Value} {bs : List Browser} :
    v.decode (Json.Reader.list Browser.reader) = some bs
      ↔ ∃ items, v = .arr items ∧ List.Forall₂ Browser.Says items bs := by
  rw [Value.decode, Json.maxDepth, Json.list_eq_some_iff]
  simp only [reader_browser_iff]

lemma browsersOf_eq_ok_iff {key : String} {v : Value} {bs : List Browser} :
    browsersOf key v = .ok bs
      ↔ bs ≠ [] ∧ ∃ items, v = .arr items ∧ List.Forall₂ Browser.Says items bs := by
  rw [browsersOf, ← decode_browsers_iff]
  split
  · next h => simp [h]
  · next h =>
      rw [h]
      simp
  · next cs hne h =>
      rw [h, Except.ok.injEq, Option.some.injEq]
      refine ⟨?_, And.right⟩
      rintro rfl
      exact ⟨hne, rfl⟩

lemma browsersOf_eq_error_iff {key : String} {v : Value} {e : Error} :
    browsersOf key v = .error e
      ↔ (¬∃ items bs, v = .arr items ∧ List.Forall₂ Browser.Says items bs)
            ∧ .illTyped key "a list of chromium, firefox or webkit" = e
        ∨ v = .arr [] ∧ .illTyped key "a non-empty list" = e := by
  have hempty : v.decode (Json.Reader.list Browser.reader) = some [] ↔ v = .arr [] := by
    rw [decode_browsers_iff]
    simp
  have hnone : v.decode (Json.Reader.list Browser.reader) = none
      ↔ ¬∃ items bs, v = .arr items ∧ List.Forall₂ Browser.Says items bs := by
    rw [Option.eq_none_iff_forall_ne_some, exists_comm]
    simp only [ne_eq, decode_browsers_iff, not_exists]
  rw [browsersOf, ← hempty, ← hnone]
  split
  · next h => simp [h]
  · next h => simp [h]
  · next bs hne h =>
      have hbs : bs ≠ [] := fun heq => hne heq
      simp [h, hbs]

namespace Key

/-- A value is taken just when it says something. -/
theorem decode_eq_ok_iff {k : Key} {v : Value} {x : k.Setting} :
    k.decode v = .ok x ↔ k.Says v x := by
  cases k with
  | timeout => exact natural_eq_ok_iff
  | retries => exact natural32_eq_ok_iff
  | headless => exact truth_eq_ok_iff
  | viewport => exact viewportOf_eq_ok_iff
  | screenshot => exact screenshotsOf_eq_ok_iff
  | reporter => exact reportersOf_eq_ok_iff
  | browsers => exact browsersOf_eq_ok_iff
  | workers =>
      refine map_eq_ok_iff.trans ⟨?_, ?_⟩
      · rintro ⟨n, hn, rfl⟩
        exact ⟨n, rfl, natural32_eq_ok_iff.mp hn⟩
      · rintro ⟨n, rfl, hn⟩
        exact ⟨n, natural32_eq_ok_iff.mpr hn, rfl⟩

/-- What is reported of a value that is not taken. -/
theorem decode_eq_error_iff {k : Key} {v : Value} {e : Error} :
    k.decode v = .error e ↔ k.Refuses v e := by
  constructor
  · intro h
    cases k with
    | timeout =>
        obtain ⟨hnone, rfl⟩ := natural_eq_error_iff.mp h
        exact .timeout v hnone
    | retries => exact .retries v e (natural32_eq_error_iff.mp h)
    | headless =>
        obtain ⟨hnone, rfl⟩ := truth_eq_error_iff.mp h
        exact .headless v hnone
    | viewport =>
        obtain ⟨hnone, rfl⟩ := viewportOf_eq_error_iff.mp h
        exact .viewport v hnone
    | screenshot =>
        obtain ⟨hnone, rfl⟩ := screenshotsOf_eq_error_iff.mp h
        exact .screenshot v hnone
    | reporter =>
        rcases reportersOf_eq_error_iff.mp h with ⟨hnone, rfl⟩ | ⟨items, rfl, hfirst⟩
        · exact .reporters v hnone
        · exact .reporter items e hfirst
    | browsers =>
        rcases browsersOf_eq_error_iff.mp h with ⟨hnone, rfl⟩ | ⟨rfl, rfl⟩
        · exact .browsers v hnone
        · exact .noBrowser
    | workers => exact .workers v e (natural32_eq_error_iff.mp (map_eq_error_iff.mp h))
  · intro h
    cases h with
    | timeout _ h => exact natural_eq_error_iff.mpr ⟨h, rfl⟩
    | retries _ _ h => exact natural32_eq_error_iff.mpr h
    | headless _ h => exact truth_eq_error_iff.mpr ⟨h, rfl⟩
    | viewport _ h => exact viewportOf_eq_error_iff.mpr ⟨h, rfl⟩
    | screenshot _ h => exact screenshotsOf_eq_error_iff.mpr ⟨h, rfl⟩
    | reporters _ h => exact reportersOf_eq_error_iff.mpr (.inl ⟨h, rfl⟩)
    | reporter items _ h =>
        have hitems : reportersOf "reporter" (.arr items) = .error e :=
          reportersOf_eq_error_iff.mpr (.inr ⟨items, rfl, h⟩)
        exact hitems
    | browsers _ h => exact browsersOf_eq_error_iff.mpr (.inl ⟨h, rfl⟩)
    | noBrowser => exact browsersOf_eq_error_iff.mpr (.inr ⟨rfl, rfl⟩)
    | workers _ _ h => exact map_eq_error_iff.mpr (natural32_eq_error_iff.mpr h)

end Key

end Configuration

end Rehearsal
