import Mathlib
import Rehearsal.Proofs.Configuration.Setting

/-!
# Bags of settings, one over the other

A configuration is made of the defaults and any number of bags.  Each bag is gone through in the
order of its names, and what it says replaces what was said before.

* `get_of_set`: **one setting changes its own part and no other.**
* `get_of_overlay`, `get_of_overlayAll`: what a bag, and what many bags, make of each part.
* `overlay_eq_error_iff`, `overlayAll_eq_error_iff`: the first setting that is refused is reported,
  and in a sorted bag that is the one whose key comes first (`first_illSet_iff`).
* `merged_settings`: the last bag that has a key decides, yet everything is checked.
-/

namespace Rehearsal.Configuration

open Json (Value Bag member? Sorted)

variable {c d : Configuration} {bag : Bag} {bags : List Bag} {e : Error}

/-! ## One setting -/

/-- If the key is recognised, the value says something under it. -/
def WellSet (m : String × Value) : Prop := ∀ k : Key, k.name = m.1 → ∃ x, k.Says m.2 x

/-- The key is recognised, and the value is refused under it. -/
def IllSet (m : String × Value) (e : Error) : Prop := ∃ k : Key, k.name = m.1 ∧ k.Refuses m.2 e

lemma wellSet_name {k : Key} {v : Value} : WellSet (k.name, v) ↔ ∃ x, k.Says v x := by
  refine ⟨fun h => h k rfl, fun h l hl => ?_⟩
  obtain rfl := Key.name_injective hl
  exact h

lemma illSet_name {k : Key} {v : Value} : IllSet (k.name, v) e ↔ k.Refuses v e := by
  refine ⟨?_, fun h => ⟨k, rfl, h⟩⟩
  rintro ⟨l, hl, h⟩
  obtain rfl := Key.name_injective hl
  exact h

lemma set_ok_iff {m : String × Value} : (∃ d, c.set m.1 m.2 = .ok d) ↔ WellSet m := by
  obtain ⟨key, v⟩ := m
  by_cases hkey : key ∈ Key.names
  · obtain ⟨k, rfl⟩ := Key.mem_names_iff.mp hkey
    rw [wellSet_name, Key.set_name]
    simp only [map_eq_ok_iff, Key.decode_eq_ok_iff]
    exact ⟨fun ⟨_, x, hx, _⟩ => ⟨x, hx⟩, fun ⟨x, hx⟩ => ⟨_, x, hx, rfl⟩⟩
  · refine iff_of_true ⟨c, set_of_notMem hkey c v⟩ fun k hk => ?_
    exact absurd (Key.mem_names_iff.mpr ⟨k, hk⟩) hkey

lemma set_eq_error_iff {m : String × Value} : c.set m.1 m.2 = .error e ↔ IllSet m e := by
  obtain ⟨key, v⟩ := m
  by_cases hkey : key ∈ Key.names
  · obtain ⟨k, rfl⟩ := Key.mem_names_iff.mp hkey
    rw [illSet_name, Key.set_name, map_eq_error_iff, Key.decode_eq_error_iff]
  · rw [set_of_notMem hkey]
    refine iff_of_false (by simp) fun ⟨k, hk, _⟩ => ?_
    exact hkey (Key.mem_names_iff.mpr ⟨k, hk⟩)

/-- One setting changes its own part and no other. -/
lemma get_of_set {key : String} {v : Value} (h : c.set key v = .ok d) (k : Key) :
    if k.name = key then k.Says v (k.get d) else k.get d = k.get c := by
  by_cases hkey : key ∈ Key.names
  · obtain ⟨l, rfl⟩ := Key.mem_names_iff.mp hkey
    rw [Key.set_name, map_eq_ok_iff] at h
    obtain ⟨x, hx, rfl⟩ := h
    split_ifs with hk
    · obtain rfl := Key.name_injective hk
      rw [Key.get_put]
      exact Key.decode_eq_ok_iff.mp hx
    · refine Key.get_put_of_ne ?_ c x
      rintro rfl
      exact hk rfl
  · rw [set_of_notMem hkey] at h
    cases h
    rw [if_neg fun hk => hkey (Key.mem_names_iff.mpr ⟨k, hk⟩)]

/-! ## One bag -/

/-- What becomes of a part: it is what the value says, or as before where there is none. -/
def Key.Settles (k : Key) (o : Option Value) (before after : k.Setting) : Prop :=
  match o with
  | some v => k.Says v after
  | none => after = before

/-- **What a bag makes of each part**, if no name stands in it twice. -/
lemma get_of_overlay (hnodup : (bag.map Prod.fst).Nodup) (h : c.overlay bag = .ok d) (k : Key) :
    k.Settles (member? k.name bag) (k.get c) (k.get d) := by
  induction bag generalizing c with
  | nil =>
      cases h
      rfl
  | cons m bag ih =>
      obtain ⟨key, v⟩ := m
      rw [List.map_cons, List.nodup_cons] at hnodup
      obtain ⟨c', hset, h⟩ := bind_eq_ok_iff.mp h
      have hstep := get_of_set hset k
      have hmore := ih hnodup.2 h
      rw [member?]
      by_cases hk : k.name = key
      · -- the rest of the bag does not have the key
        rw [Json.member?_of_notMem (hk ▸ hnodup.1)] at hmore
        rw [if_pos hk] at hstep
        have hlast : k.get d = k.get c' := hmore
        rw [if_pos hk.symm, Key.Settles, hlast]
        exact hstep
      · rw [if_neg hk] at hstep
        rw [if_neg (Ne.symm hk), ← hstep]
        exact hmore

lemma overlay_ok_iff : (∃ d, c.overlay bag = .ok d) ↔ ∀ m ∈ bag, WellSet m := by
  induction bag generalizing c with
  | nil => simp [overlay]
  | cons m bag ih =>
      rw [List.forall_mem_cons]
      exact bind_ok_iff_of set_ok_iff fun _ => ih

/-- The first setting of a bag that is refused is reported. -/
lemma overlay_eq_error_iff : c.overlay bag = .error e ↔ First WellSet (IllSet · e) bag := by
  induction bag generalizing c with
  | nil => simp [overlay, not_first_nil]
  | cons m bag ih =>
      rw [first_cons]
      exact bind_eq_error_iff_of set_eq_error_iff set_ok_iff fun _ _ => ih

/-- Keys that are not recognised have no influence. -/
lemma overlay_filter (c : Configuration) (bag : Bag) :
    c.overlay (bag.filter fun m => m.1 ∈ Key.names) = c.overlay bag := by
  induction bag generalizing c with
  | nil => rfl
  | cons m bag ih =>
      by_cases hm : m.1 ∈ Key.names
      · simp only [List.filter_cons, hm, decide_true, if_true, overlay, ih]
      · simp only [List.filter_cons, hm, decide_false, Bool.false_eq_true, if_false, overlay, ih,
          set_of_notMem hm]
        rfl

/-! ## Many bags -/

/-- What the last bag that has a name says there. -/
def lastSetting (name : String) (bags : List Bag) : Option Value :=
  bags.reverse.findSome? (member? name)

lemma lastSetting_cons (name : String) (bag : Bag) (bags : List Bag) :
    lastSetting name (bag :: bags) = (lastSetting name bags).or (member? name bag) := by
  simp [lastSetting, List.findSome?_append]

/-- What comes later replaces what came before. -/
lemma Key.Settles.trans {k : Key} {o o' : Option Value} {x y z : k.Setting}
    (h : k.Settles o x y) (h' : k.Settles o' y z) : k.Settles (o'.or o) x z := by
  cases o' with
  | some v => exact h'
  | none =>
      obtain rfl : z = y := h'
      exact h

/-- **What many bags make of each part.** -/
lemma get_of_overlayAll (hnodup : ∀ bag ∈ bags, (bag.map Prod.fst).Nodup)
    (h : c.overlayAll bags = .ok d) (k : Key) :
    k.Settles (lastSetting k.name bags) (k.get c) (k.get d) := by
  induction bags generalizing c with
  | nil =>
      cases h
      rfl
  | cons bag bags ih =>
      obtain ⟨hbag, hmore⟩ := List.forall_mem_cons.mp hnodup
      obtain ⟨c', hc', h⟩ := bind_eq_ok_iff.mp h
      rw [lastSetting_cons]
      exact (get_of_overlay hbag hc' k).trans (ih hmore h)

lemma overlayAll_ok_iff :
    (∃ d, c.overlayAll bags = .ok d) ↔ ∀ bag ∈ bags, ∀ m ∈ bag, WellSet m := by
  induction bags generalizing c with
  | nil => simp [overlayAll]
  | cons bag bags ih =>
      rw [List.forall_mem_cons]
      exact bind_ok_iff_of overlay_ok_iff fun _ => ih

/-- The first bag with a setting that is refused decides, and in it the first of them. -/
lemma overlayAll_eq_error_iff :
    c.overlayAll bags = .error e
      ↔ First (fun bag => ∀ m ∈ bag, WellSet m) (First WellSet (IllSet · e)) bags := by
  induction bags generalizing c with
  | nil => simp [overlayAll, not_first_nil]
  | cons bag bags ih =>
      rw [first_cons]
      exact bind_eq_error_iff_of overlay_eq_error_iff overlay_ok_iff fun _ _ => ih

lemma overlayAll_filter (c : Configuration) (bags : List Bag) :
    c.overlayAll (bags.map (List.filter fun m => m.1 ∈ Key.names)) = c.overlayAll bags := by
  induction bags generalizing c with
  | nil => rfl
  | cons bag bags ih => simp only [List.map_cons, overlayAll, overlay_filter, ih]

/-! ## Sorted bags -/

lemma nodup_of_sorted (h : Sorted bag) : (bag.map Prod.fst).Nodup :=
  List.pairwise_map.mpr (h.imp fun hlt => hlt.ne)

/-- A bag is accepted just when each key that it has is. -/
def WellBag (bag : Bag) : Prop :=
  ∀ (k : Key) (v : Value), member? k.name bag = some v → ∃ x, k.Says v x

/-- Of the keys under which a bag is refused, the one whose name comes first is reported. -/
def IllBag (e : Error) (bag : Bag) : Prop :=
  ∃ (k : Key) (v : Value), member? k.name bag = some v ∧ k.Refuses v e
    ∧ ∀ (l : Key) (w : Value), l.name < k.name → member? l.name bag = some w → ∃ x, l.Says w x

lemma forall_wellSet_iff (h : Sorted bag) : (∀ m ∈ bag, WellSet m) ↔ WellBag bag := by
  constructor
  · intro hall k v hv
    exact hall _ (Json.mem_of_member? hv) k rfl
  · rintro hall ⟨key, v⟩ hm k rfl
    exact hall k v (Json.member?_of_mem (nodup_of_sorted h) hm)

lemma first_illSet_iff (h : Sorted bag) : First WellSet (IllSet · e) bag ↔ IllBag e bag := by
  have hnodup := nodup_of_sorted h
  constructor
  · rintro ⟨before, ⟨key, v⟩, after, rfl, hfine, k, rfl, hrefused⟩
    refine ⟨k, v, Json.member?_of_mem hnodup (by simp), hrefused, fun l w hlt hw => ?_⟩
    -- a name that is less stands before
    have hlater := List.pairwise_cons.mp (List.pairwise_append.mp h).2.1
    rcases List.mem_append.mp (Json.mem_of_member? hw) with hmem | hmem
    · exact hfine _ hmem l rfl
    · rcases List.mem_cons.mp hmem with heq | hmem
      · exact absurd (congrArg Prod.fst heq) hlt.ne
      · exact absurd (hlater.1 _ hmem) (lt_asymm hlt)
  · rintro ⟨k, v, hv, hrefused, hfine⟩
    obtain ⟨before, after, rfl⟩ := List.append_of_mem (Json.mem_of_member? hv)
    refine ⟨before, (k.name, v), after, rfl, ?_, k, rfl, hrefused⟩
    rintro ⟨key, w⟩ hm l rfl
    have hlt : l.name < k.name := (List.pairwise_append.mp h).2.2 _ hm _ List.mem_cons_self
    exact hfine l w hlt (Json.member?_of_mem hnodup (List.mem_append_left _ hm))

/-- **The last bag that has a key decides, yet everything is checked.**

* Bags are accepted just when every key that is recognised has something to say in every one of
  them, also where a later bag has that key.
* Then each part is what the last bag with its key says, and the default where there is none, and
  there is a browser.
* Keys that are not recognised have no influence.
* Otherwise the first bag that cannot be accepted decides, and in it the key whose name comes
  first. -/
theorem merged_settings (h : ∀ bag ∈ bags, Sorted bag) :
    ((∃ c, merged bags = .ok c) ↔ ∀ bag ∈ bags, WellBag bag)
      ∧ (∀ c, merged bags = .ok c →
          (∀ k : Key, k.Settles (lastSetting k.name bags) (k.get default) (k.get c))
            ∧ c.browsers ≠ [])
      ∧ merged (bags.map (List.filter fun m => m.1 ∈ Key.names)) = merged bags
      ∧ ∀ e, merged bags = .error e ↔ First WellBag (IllBag e) bags := by
  refine ⟨?_, fun c hc => ?_, overlayAll_filter default bags, fun e => ?_⟩
  · rw [merged, overlayAll_ok_iff]
    exact forall₂_congr fun bag hbag => forall_wellSet_iff (h bag hbag)
  · have hparts := get_of_overlayAll (fun bag hbag => nodup_of_sorted (h bag hbag)) hc
    refine ⟨hparts, ?_⟩
    have hbrowsers := hparts .browsers
    cases hlast : lastSetting Key.browsers.name bags with
    | some v =>
        rw [hlast] at hbrowsers
        exact hbrowsers.1
    | none =>
        rw [hlast] at hbrowsers
        have hdefault : c.browsers = default.browsers := hbrowsers
        rw [hdefault]
        simp [default]
  · rw [merged, overlayAll_eq_error_iff]
    exact first_congr (fun bag hbag => forall_wellSet_iff (h bag hbag))
      fun bag hbag => first_illSet_iff (h bag hbag)

/-- Two bags that have a key in common. -/
theorem merged_settings_suite_and_caller :
    let suite : Bag :=
      [("retries", .num (.int 0)), ("timeout", .num (.int 10000)), ("unknown", .str "kept out")]
    let caller : Bag :=
      [("browsers", .arr [.str "firefox", .str "webkit"]), ("headless", .bool false),
        ("timeout", .num (.int 5000))]
    (∀ bag ∈ [suite, caller], Sorted bag)
      ∧ ∃ c, merged [suite, caller] = .ok c ∧ c.timeout = 5000 ∧ c.retries = 0
          ∧ c.headless = false ∧ c.browsers = [.firefox, .webkit] ∧ c.workers = none := by
  intro suite caller
  have hsorted : ∀ bag ∈ [suite, caller], Sorted bag := by
    simp only [suite, caller, Sorted, String.lt_iff_toList_lt]
    decide
  obtain ⟨c, hc⟩ : ∃ c, merged [suite, caller] = .ok c := ⟨_, rfl⟩
  have hparts := ((merged_settings hsorted).2.1 c hc).1
  have hset : ∀ (k : Key) (v : Value) (x : k.Setting),
      lastSetting k.name [suite, caller] = some v → k.decode v = .ok x → k.get c = x := by
    intro k v x hlast hx
    have hk := hparts k
    rw [hlast] at hk
    exact Except.ok.inj ((Key.decode_eq_ok_iff.mpr hk).symm.trans hx)
  exact ⟨hsorted, c, hc, hset .timeout _ _ rfl rfl, hset .retries _ _ rfl rfl,
    hset .headless _ _ rfl rfl, hset .browsers _ _ rfl rfl, hparts .workers⟩

example : merged [[("browsers", .arr []), ("timeout", .str "fast")], [("retries", .bool true)]]
    = .error (.illTyped "browsers" "a non-empty list") := rfl

end Rehearsal.Configuration
