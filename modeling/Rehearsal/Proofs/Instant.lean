import Mathlib
import Rehearsal.Instant
import Rehearsal.Proofs.Json.Number
import Rehearsal.Proofs.Text.Name

/-!
# The written form of points in time

* `dateOf_spec`: **every day has a date, and is the day of that date**.  A day is found within four
  centuries, then among the years of them (`yearOf_spec`), then among the months of its year
  (`month_spec`).
* `sound_of_parse?`: what was read has no more than one second of nanoseconds, except in a leap
  second, which follows the 59th second of a minute.
* `parse?_text`: such a point in time **is read back** from what is written of it, if its year has
  four digits.  (Longer years are written with a sign, and are not treated here.)
-/

namespace Rehearsal.Instant

/-! ## The calendar -/

/-- A date of the calendar. -/
structure IsDate (y : Int) (m d : Nat) : Prop where
  month : 1 ≤ m ∧ m ≤ 12
  day : 1 ≤ d ∧ d ≤ daysInMonth y m

/-- The days of four centuries, before each year of them. -/
def daysBefore (y : Int) : Int := 365 * y + y / 4 - y / 100

/-- The year of a day among those of four centuries. -/
def yearOf (day : Int) : Int := (day - day / 1460 + day / 36524 - day / 146096) / 365

/-- Each day of four centuries lies in its year, and is the leap day of a leap year if it is the
366th. -/
lemma yearOf_spec {z : Int} (h : 0 ≤ z) (h' : z < 146097) :
    0 ≤ yearOf z ∧ yearOf z ≤ 399 ∧ 0 ≤ z - daysBefore (yearOf z)
      ∧ z - daysBefore (yearOf z) ≤ 365
      ∧ (z - daysBefore (yearOf z) = 365 → (yearOf z + 1) % 4 = 0
          ∧ ((yearOf z + 1) % 100 = 0 → (yearOf z + 1) % 400 = 0)) := by
  generalize hy : yearOf z = y
  rw [yearOf] at hy
  rw [daysBefore]
  by_cases hlast : z = 146096
  · subst hlast
    subst hy
    decide
  · -- within a century, the year is found among four years at a time
    obtain ⟨f, hf⟩ : ∃ f, f = z / 36524 := ⟨_, rfl⟩
    have hg : z / 146096 = 0 := by omega
    obtain ⟨r, hr⟩ : ∃ r, z = 36524 * f + r := ⟨z - 36524 * f, by omega⟩
    have hr0 : 0 ≤ r ∧ r < 36524 := by omega
    have hf' : 0 ≤ f ∧ f ≤ 3 := by omega
    obtain ⟨e, he⟩ : ∃ e, e = (24 * f + r) / 1460 := ⟨_, rfl⟩
    have he' : z / 1460 = 25 * f + e := by omega
    obtain ⟨x, hx⟩ : ∃ x, x = (r - e) / 365 := ⟨_, rfl⟩
    have hyx : y = 100 * f + x := by omega
    have hx0 : 0 ≤ x ∧ x ≤ 99 := by omega
    have hfour : x / 4 ≤ e ∧ e ≤ x / 4 + 1 := by omega
    have hcentury : y / 100 = f := by omega
    have hyfour : y / 4 = 25 * f + x / 4 := by omega
    refine ⟨by omega, by omega, by omega, by omega, fun hleap => ?_⟩
    obtain ⟨q, k, hq, hk⟩ : ∃ q k, x = 4 * q + k ∧ 0 ≤ k ∧ k ≤ 3 :=
      ⟨x / 4, x % 4, by omega, by omega, by omega⟩
    have hx4 : x / 4 = q := by omega
    have hr365 : r = 365 * x + q + 365 := by omega
    have hk3 : k = 3 := by omega
    exact ⟨by omega, by omega⟩

/-- The month of a day of the year, and its day of the month, both counted from March. -/
lemma month_spec {doy mp d : Int} (h : 0 ≤ doy) (h' : doy ≤ 365) (hmp : mp = (5 * doy + 2) / 153)
    (hd : d = doy - (153 * mp + 2) / 5 + 1) :
    0 ≤ mp ∧ mp ≤ 11 ∧ 1 ≤ d ∧ d ≤ 31 ∧ (mp = 1 ∨ mp = 3 ∨ mp = 6 ∨ mp = 8 → d ≤ 30)
      ∧ (mp = 11 → d ≤ 29 ∧ (d = 29 → doy = 365)) := by
  have hmp0 : 0 ≤ mp ∧ mp ≤ 11 := by omega
  omega

lemma isLeapYear_iff (y : Int) :
    isLeapYear y = true ↔ y % 4 = 0 ∧ (y % 100 = 0 → y % 400 = 0) := by
  simp only [isLeapYear, Bool.or_eq_true, Bool.and_eq_true, beq_iff_eq, bne_iff_ne]
  omega

/-- The last day of a month. -/
lemma le_daysInMonth {y : Int} {m d : Nat} (h : d ≤ 31)
    (hshort : m = 4 ∨ m = 6 ∨ m = 9 ∨ m = 11 → d ≤ 30)
    (hfebruary : m = 2 → d ≤ 29 ∧ (d = 29 → isLeapYear y = true)) : d ≤ daysInMonth y m := by
  rw [daysInMonth]
  split_ifs with hm hleap hm'
  · exact (hfebruary hm).1
  · refine Nat.le_of_lt_succ (lt_of_le_of_ne (hfebruary hm).1 fun hd => hleap ?_)
    exact (hfebruary hm).2 hd
  · refine hshort ?_
    simpa [or_assoc] using hm'
  · exact h

/-- **Every day has a date, and is the day of that date.** -/
theorem dateOf_spec (day : Int) : ∃ y m d, dateOf day = (y, m, d) ∧ IsDate y m d
    ∧ dayNumber y m d = day := by
  -- the parts of the date are named as they are found, from the four centuries down to the day
  obtain ⟨era, hera⟩ : ∃ era, era = (day + 719468) / 146097 := ⟨_, rfl⟩
  obtain ⟨z, hz⟩ : ∃ z, z = day + 719468 - era * 146097 := ⟨_, rfl⟩
  obtain ⟨year, hyeareq⟩ : ∃ year, year = yearOf z := ⟨_, rfl⟩
  obtain ⟨doy, hdoyeq⟩ : ∃ doy, doy = z - daysBefore year := ⟨_, rfl⟩
  have hspec := yearOf_spec (z := z) (by omega) (by omega)
  rw [← hyeareq, ← hdoyeq] at hspec
  obtain ⟨hyear0, hyear399, hdoy, hdoy', hleap⟩ := hspec
  obtain ⟨mp, hmp⟩ : ∃ mp, mp = (5 * doy + 2) / 153 := ⟨_, rfl⟩
  obtain ⟨d, hd⟩ : ∃ d, d = doy - (153 * mp + 2) / 5 + 1 := ⟨_, rfl⟩
  obtain ⟨m, hm⟩ : ∃ m, m = if mp < 10 then mp + 3 else mp - 9 := ⟨_, rfl⟩
  obtain ⟨hmp0, hmp11, hd1, hd31, hshort, hlast⟩ := month_spec hdoy hdoy' hmp hd
  have hdate : dateOf day = (if m ≤ 2 then year + era * 400 + 1 else year + era * 400,
      m.toNat, d.toNat) := by
    subst hm hd hmp hdoyeq hyeareq hz hera
    rfl
  have hm12 : 1 ≤ m ∧ m ≤ 12 := by split_ifs at hm <;> omega
  refine ⟨_, _, _, hdate, ⟨by omega, by omega, ?_⟩, ?_⟩
  · -- counted from March, the short months are the second, fourth, seventh and ninth
    refine le_daysInMonth (by omega) (fun h => ?_) fun h => ?_
    · have hmonth : mp = 1 ∨ mp = 3 ∨ mp = 6 ∨ mp = 8 := by split_ifs at hm <;> omega
      have hd30 := hshort hmonth
      omega
    · have hmonth : mp = 11 := by split_ifs at hm <;> omega
      obtain ⟨hd29, hdoy365⟩ := hlast hmonth
      refine ⟨by omega, fun h29 => ?_⟩
      obtain ⟨hfour, hhundred⟩ := hleap (hdoy365 (by omega))
      rw [if_pos (by omega), isLeapYear_iff]
      constructor <;> omega
  · have hmarch : (if m.toNat ≤ 2 then
          (if m ≤ 2 then year + era * 400 + 1 else year + era * 400) - 1
        else if m ≤ 2 then year + era * 400 + 1 else year + era * 400) = year + era * 400 := by
      split_ifs <;> omega
    have hmonth : ((m.toNat : Int) + 9) % 12 = mp := by split_ifs at hm <;> omega
    have hera400 : (year + era * 400) / 400 = era := by omega
    simp only [dayNumber, hmarch, hmonth, hera400, Int.add_sub_cancel]
    rw [daysBefore] at hdoyeq
    clear hdate hmarch hm
    omega

/-! ## Digits -/

/-- The digits of a number are read back, and no more than they are. -/
lemma takeDigits_append {ds : List Char} (h : ∀ c ∈ ds, c.isDigit = true) (more acc : Nat)
    (rest : List Char) : takeDigits (ds.length + more) acc (ds ++ rest)
      = takeDigits more (ds.foldl (fun n c => n * 10 + (c.toNat - 48)) acc) rest := by
  induction ds generalizing acc with
  | nil => rw [List.length_nil, Nat.zero_add, List.nil_append, List.foldl_nil]
  | cons c ds ih =>
      obtain ⟨hc, hds⟩ := List.forall_mem_cons.mp h
      rw [List.length_cons, Nat.add_right_comm, List.cons_append, takeDigits, if_pos hc, ih hds,
        List.foldl_cons]

/-- A number that fits its width is written with as many digits, which stand for it. -/
lemma padded_spec {width n : Nat} (hwidth : 0 < width) (h : n < 10 ^ width) :
    (padded width n).toList.length = width ∧ (∀ c ∈ (padded width n).toList, c.isDigit = true)
      ∧ (padded width n).toList.foldl (fun n c => n * 10 + (c.toNat - 48)) 0 = n := by
  have hlength : (Nat.toDigits 10 n).length ≤ width :=
    (Nat.length_toDigits_le_iff (by decide) hwidth).mpr h
  have hzeros : ∀ k, (List.replicate k '0').foldl (fun n c => n * 10 + (c.toNat - 48)) 0 = 0 := by
    intro k
    induction k with
    | zero => rfl
    | succ k ih => exact ih
  rw [padded, String.toList_ofList]
  refine ⟨by simp; omega, List.forall_mem_append.mpr ⟨?_, ?_⟩, ?_⟩
  · intro c hc
    rw [List.eq_of_mem_replicate hc]
    rfl
  · exact fun c hc => Nat.isDigit_of_mem_toDigits (by decide) (by decide) hc
  · rw [List.foldl_append, hzeros, Json.foldl_toDigits]

/-- A digit is not blank. -/
lemma isBlank_of_isDigit {c : Char} (h : c.isDigit = true) : Text.isBlank c = false := by
  rw [← Bool.not_eq_true]
  intro hblank
  have hletter := Text.not_isAlnum_of_isBlank hblank
  rw [Text.isAlnum, Char.isAlphanum, h, Bool.or_true] at hletter
  cases hletter

lemma trimLeft_cons {c : Char} (h : Text.isBlank c = false) (cs : List Char) :
    Text.trimLeft (c :: cs) = c :: cs :=
  List.dropWhile_cons_of_neg (by simp [h])

/-- What is written with so many digits begins with one of them. -/
lemma padded_begins {width n : Nat} (hwidth : 0 < width) (h : n < 10 ^ width) :
    ∃ c cs, (padded width n).toList = c :: cs ∧ c.isDigit = true := by
  obtain ⟨hlength, hdigits, -⟩ := padded_spec hwidth h
  obtain ⟨c, cs, hcs⟩ := List.exists_cons_of_length_pos (hlength ▸ hwidth)
  exact ⟨c, cs, hcs, hdigits c (hcs ▸ List.mem_cons_self)⟩

lemma takeDigits_padded {width n : Nat} (hwidth : 0 < width) (h : n < 10 ^ width)
    (rest : List Char) : takeDigits width 0 ((padded width n).toList ++ rest) = (n, rest) := by
  obtain ⟨hlength, hdigits, hvalue⟩ := padded_spec hwidth h
  have htake := takeDigits_append hdigits 0 0 rest
  rwa [hlength, hvalue, Nat.add_zero, takeDigits] at htake

lemma number_padded {width n : Nat} (hwidth : 0 < width) (h : n < 10 ^ width)
    (rest : List Char) : number width ((padded width n).toList ++ rest) = some (n, rest) := by
  obtain ⟨c, cs, hcs, hc⟩ := padded_begins hwidth h
  have htake := takeDigits_padded hwidth h rest
  rw [hcs, List.cons_append] at htake ⊢
  simp only [number, trimLeft_cons (isBlank_of_isDigit hc), hc, if_true, htake]

lemma year_padded {n : Nat} (h : n < 10 ^ 4) (rest : List Char) :
    year ((padded 4 n).toList ++ rest) = some ((n : Int), rest) := by
  obtain ⟨c, cs, hcs, hc⟩ := padded_begins (by decide) h
  have hnumber := number_padded (by decide) h rest
  rw [hcs, List.cons_append] at hnumber ⊢
  rw [year, trimLeft_cons (isBlank_of_isDigit hc)]
  split
  next heq =>
    cases heq
    exact absurd hc (by decide)
  next heq =>
    cases heq
    exact absurd hc (by decide)
  next => rw [hnumber, Option.map_some]

lemma mark_cons {m : Char} (h : Text.isBlank m = false) (rest : List Char) :
    mark m (m :: rest) = some ((), rest) := by
  simp only [mark, trimLeft_cons h, if_true]

/-! ## Fractions of a second -/

/-- A fraction is read with as many digits as were written. -/
lemma fraction_padded {width n : Nat} (hwidth : 0 < width) (hnine : width ≤ 9)
    (h : n < 10 ^ width) {rest : List Char} (hrest : Json.Stops Char.isDigit rest) :
    fraction ('.' :: ((padded width n).toList ++ rest)) = some (n * 10 ^ (9 - width), rest) := by
  obtain ⟨hlength, hdigits, hvalue⟩ := padded_spec hwidth h
  obtain ⟨c, cs, hcs, -⟩ := padded_begins hwidth h
  have hsome : (padded width n).toList.isEmpty = false := by
    rw [hcs]
    rfl
  have hused : (padded width n).toList.take 9 = (padded width n).toList :=
    List.take_of_length_le (hlength.trans_le hnine)
  have htake : takeDigits 9 0 (padded width n).toList = (n, []) := by
    have hmore := takeDigits_append hdigits (9 - width) 0 []
    rw [hlength, hvalue, Nat.add_sub_of_le hnine, List.append_nil] at hmore
    rw [hmore]
    cases 9 - width <;> rfl
  have hdrop : ((padded width n).toList ++ rest).drop width = rest :=
    List.drop_left' hlength
  simp only [fraction, Json.takeWhile_append_stop hdigits hrest, hsome, Bool.false_eq_true,
    if_false, hused, htake, hlength, hdrop, Nat.pow_eq]

/-- **The fewest digits that are exact are enough.** -/
lemma fraction_fractionText {n : Nat} (h : n < nanosPerSecond) {rest : List Char}
    (hrest : Json.Stops Char.isDigit rest) (hpoint : rest.head? ≠ some '.') :
    fraction ((fractionText n).toList ++ rest) = some (n, rest) := by
  rw [nanosPerSecond] at h
  have hpadded : ∀ {width k : Nat}, 0 < width → width ≤ 9 → k < 10 ^ width →
      n = k * 10 ^ (9 - width) →
      fraction (("." ++ padded width k).toList ++ rest) = some (n, rest) := by
    intro width k hwidth hnine hk hn
    simp only [String.toList_append, String.reduceToList, List.cons_append, List.nil_append, hn]
    exact fraction_padded hwidth hnine hk hrest
  rw [fractionText]
  split_ifs with hzero hmillis hmicros
  · rw [hzero]
    refine fraction.eq_2 rest fun cs hcs => hpoint ?_
    rw [hcs, List.head?_cons]
  · exact hpadded (by decide) (by decide) (by omega) (by omega)
  · exact hpadded (by decide) (by decide) (by omega) (by omega)
  · exact hpadded (by decide) (by decide) (by omega) (by omega)

lemma offset_universal : offset ['Z'] = some (0, []) := by
  decide

/-! ## Reading what was written -/

/-- A point in time is less than a second past its second, or less than two in a leap second,
which follows the 59th second of a minute. -/
structure Sound (t : Instant) : Prop where
  nanos_lt : t.nanos < 2 * nanosPerSecond
  leap : nanosPerSecond ≤ t.nanos → t.second % 60 = 59

/-- The year in universal time. -/
def calendarYear (t : Instant) : Int := (dateOf (t.second / (secondsPerDay : Int))).1

/-- The year has four digits and no sign. -/
def Dated (t : Instant) : Prop := 0 ≤ t.calendarYear ∧ t.calendarYear ≤ 9999

instance : DecidablePred Dated := fun _ => inferInstanceAs (Decidable (_ ∧ _))

/-- What stands in the written form of a time of a date. -/
lemma text_eq {t : Instant} {y m d : Nat}
    (h : dateOf (t.second / (secondsPerDay : Int)) = (↑y, m, d)) (hy : y ≤ 9999) : t.text.toList
      = (padded 4 y).toList ++ '-' :: ((padded 2 m).toList ++ '-' :: ((padded 2 d).toList
        ++ 'T' :: ((padded 2 ((t.second % (secondsPerDay : Int)).toNat / 3600)).toList
        ++ ':' :: ((padded 2 ((t.second % (secondsPerDay : Int)).toNat / 60 % 60)).toList
        ++ ':' :: ((padded 2 ((t.second % (secondsPerDay : Int)).toNat % 60
          + t.nanos / nanosPerSecond)).toList
        ++ ((fractionText (t.nanos % nanosPerSecond)).toList ++ ['Z'])))))) := by
  have hyear : yearText (y : Int) = padded 4 y := by
    rw [yearText, if_pos (by simpa using hy), Int.natAbs_natCast]
  simp only [text, h, hyear, String.toList_append, String.reduceToList, List.append_assoc,
    List.cons_append, List.nil_append]

/-- The seconds of a day are its hours, minutes and seconds, and a leap second is one that a
minute has too many. -/
lemma timeOfDay {t : Instant} (h : t.Sound) {day : Int} {s : Nat}
    (hday : day = t.second / (secondsPerDay : Int))
    (hs : s = (t.second % (secondsPerDay : Int)).toNat) :
    s / 3600 < 24 ∧ s % 60 + t.nanos / nanosPerSecond ≤ 60
      ∧ (s % 60 + t.nanos / nanosPerSecond) / 60 = t.nanos / nanosPerSecond
      ∧ day * (secondsPerDay : Int) + ↑(s / 3600) * 3600 + ↑(s / 60 % 60) * 60
        + ↑(s % 60 + t.nanos / nanosPerSecond - t.nanos / nanosPerSecond) = t.second := by
  obtain ⟨hnanos, hleap⟩ := h
  rw [nanosPerSecond] at *
  rw [secondsPerDay] at *
  have hminute : t.second % 60 = ((s % 60 : Nat) : Int) := by omega
  have hlate : t.nanos / 1000000000 = 0 ∨ t.nanos / 1000000000 = 1 ∧ s % 60 = 59 := by omega
  clear hleap hnanos
  refine ⟨by omega, by omega, by omega, by omega⟩

/-- **A point in time is read back.** -/
theorem parse?_text {t : Instant} (h : t.Sound) (hdated : t.Dated) : parse? t.text = some t := by
  obtain ⟨y, m, d, hdate, hd, hday⟩ := dateOf_spec (t.second / (secondsPerDay : Int))
  rw [Dated, calendarYear, hdate] at hdated
  obtain ⟨y, rfl⟩ := Int.eq_ofNat_of_zero_le hdated.1
  have hy : y ≤ 9999 := Int.ofNat_le.mp hdated.2
  have hmonth := hd.month
  have hdays := hd.day
  have hmonthDays : daysInMonth y m ≤ 31 := by
    rw [daysInMonth]
    split_ifs <;> decide
  obtain ⟨hhour, hlate, hleap, hsecond⟩ := timeOfDay h hday rfl
  have hfraction : t.nanos % nanosPerSecond < nanosPerSecond := Nat.mod_lt _ (by decide)
  rw [parse?, text_eq hdate hy]
  generalize (t.second % (secondsPerDay : Int)).toNat = s at *
  rw [parseChars?]
  refine Option.bind_eq_some_iff.mpr ⟨_, year_padded (by omega) _, ?_⟩
  refine Option.bind_eq_some_iff.mpr ⟨_, mark_cons (by decide) _, ?_⟩
  refine Option.bind_eq_some_iff.mpr ⟨_, number_padded (by decide) (by omega) _, ?_⟩
  refine Option.bind_eq_some_iff.mpr ⟨_, mark_cons (by decide) _, ?_⟩
  refine Option.bind_eq_some_iff.mpr ⟨_, number_padded (by decide) (by omega) _, ?_⟩
  refine (if_pos (by rfl)).trans ?_
  refine Option.bind_eq_some_iff.mpr ⟨_, rfl, ?_⟩
  refine Option.bind_eq_some_iff.mpr ⟨_, number_padded (by decide) (by omega) _, ?_⟩
  refine Option.bind_eq_some_iff.mpr ⟨_, mark_cons (by decide) _, ?_⟩
  refine Option.bind_eq_some_iff.mpr ⟨_, number_padded (by decide) (by omega) _, ?_⟩
  refine Option.bind_eq_some_iff.mpr ⟨_, mark_cons (by decide) _, ?_⟩
  refine Option.bind_eq_some_iff.mpr ⟨_, number_padded (by decide) (by omega) _, ?_⟩
  refine Option.bind_eq_some_iff.mpr
    ⟨_, fraction_fractionText hfraction (Json.Stops.cons rfl) (by decide), ?_⟩
  refine Option.bind_eq_some_iff.mpr ⟨_, offset_universal, ?_⟩
  have hyears : minYear ≤ (y : Int) ∧ (y : Int) ≤ maxYear := by
    rw [minYear, maxYear]
    omega
  have hvalid : (minYear ≤ (y : Int) && y ≤ maxYear && 1 ≤ m && m ≤ 12 && 1 ≤ d
      && d ≤ daysInMonth y m && s / 3600 < 24 && s / 60 % 60 < 60
      && s % 60 + t.nanos / nanosPerSecond ≤ 60 && Int.natAbs 0 < secondsPerDay
      && (Text.trimLeft []).isEmpty) = true := by
    have hminute : s / 60 % 60 < 60 := Nat.mod_lt _ (by decide)
    have hplain : Int.natAbs 0 < secondsPerDay := by decide
    simp only [hyears.1, hyears.2, hmonth.1, hmonth.2, hdays.1, hdays.2, hhour, hminute, hlate,
      hplain, decide_true, Bool.and_self]
    rfl
  have hnanos : t.nanos % nanosPerSecond + t.nanos / nanosPerSecond * nanosPerSecond = t.nanos :=
    Nat.mod_add_div' _ _
  dsimp only
  rw [hvalid]
  simp only [hleap, Int.sub_zero, hsecond, hdate, hyears.1, hyears.2, decide_true,
    Bool.and_self, Bool.not_true, Bool.false_eq_true, if_true, if_false, hnanos]

/-! ## Reading anything -/

/-- So many digits do not make more than there is below the next power of ten. -/
lemma takeDigits_lt (width acc : Nat) (cs : List Char) :
    (takeDigits width acc cs).1 < (acc + 1) * 10 ^ cs.length := by
  have hstop : ∀ {acc : Nat} {cs : List Char}, acc < (acc + 1) * 10 ^ cs.length :=
    fun {acc _} => (Nat.lt_succ_self acc).trans_le (Nat.le_mul_of_pos_right _ (by positivity))
  induction width generalizing acc cs with
  | zero => exact hstop
  | succ width ih =>
      cases cs with
      | nil => exact hstop
      | cons c cs =>
          rw [takeDigits]
          split_ifs with hc
          · have hdigit : c.toNat - 48 ≤ 9 := by
              have hnine : c.toNat ≤ 57 := (Char.isDigit_iff_toNat.mp hc).2
              omega
            calc _ < (acc * 10 + (c.toNat - 48) + 1) * 10 ^ cs.length := ih _ _
              _ ≤ (acc + 1) * 10 * 10 ^ cs.length := by gcongr; omega
              _ = (acc + 1) * 10 ^ (c :: cs).length := by
                rw [List.length_cons, pow_succ', mul_assoc]
          · exact hstop

lemma fraction_lt {cs rest : List Char} {n : Nat} (h : fraction cs = some (n, rest)) :
    n < nanosPerSecond := by
  unfold fraction at h
  split at h
  next cs =>
    dsimp only at h
    split_ifs at h
    cases h
    generalize hused : (cs.takeWhile Char.isDigit).take 9 = used
    have hlength : used.length ≤ 9 := hused ▸ List.length_take_le _ _
    calc (takeDigits 9 0 used).1 * 10 ^ (9 - used.length)
        < (0 + 1) * 10 ^ used.length * 10 ^ (9 - used.length) := by
          gcongr
          exact takeDigits_lt 9 0 used
      _ = nanosPerSecond := by
          rw [Nat.zero_add, one_mul, ← pow_add, Nat.add_sub_of_le hlength, nanosPerSecond]
          rfl
  next =>
    cases h
    decide

/-- Offsets are whole minutes. -/
lemma offset_mod {cs rest : List Char} {off : Int} (h : offset cs = some (off, rest)) :
    off % 60 = 0 := by
  have hamount : ∀ {cs rest : List Char} {n : Nat}, offset.amount cs = some (n, rest) →
      (n : Int) % 60 = 0 := by
    intro cs rest n h
    simp only [offset.amount, Option.bind_eq_bind, Option.bind_eq_some_iff, Option.pure_def,
      Option.some.injEq, Prod.mk.injEq] at h
    obtain ⟨⟨hours, -⟩, -, ⟨minutes, -⟩, -, rfl, -⟩ := h
    push_cast
    omega
  unfold offset at h
  split at h
  next => cases h
  next c cs _ =>
    split_ifs at h
    · cases h
      rfl
    · cases h
      rfl
    · obtain ⟨⟨n, _⟩, hn, heq⟩ := Option.map_eq_some_iff.mp h
      cases heq
      exact hamount hn
    · obtain ⟨⟨n, _⟩, hn, heq⟩ := Option.map_eq_some_iff.mp h
      cases heq
      have hwhole := hamount hn
      omega

theorem sound_of_parse? {s : String} {t : Instant} (h : parse? s = some t) : t.Sound := by
  rw [parse?, parseChars?] at h
  obtain ⟨⟨y, cs⟩, -, h⟩ := Option.bind_eq_some_iff.mp h
  obtain ⟨⟨_, cs⟩, -, h⟩ := Option.bind_eq_some_iff.mp h
  obtain ⟨⟨m, cs⟩, -, h⟩ := Option.bind_eq_some_iff.mp h
  obtain ⟨⟨_, cs⟩, -, h⟩ := Option.bind_eq_some_iff.mp h
  obtain ⟨⟨d, cs⟩, -, h⟩ := Option.bind_eq_some_iff.mp h
  dsimp only at h
  split at h
  next =>
    split_ifs at h
    rotate_left
    · cases h
    obtain ⟨cs, -, h⟩ := Option.bind_eq_some_iff.mp h
    obtain ⟨⟨hours, cs⟩, -, h⟩ := Option.bind_eq_some_iff.mp h
    obtain ⟨⟨_, cs⟩, -, h⟩ := Option.bind_eq_some_iff.mp h
    obtain ⟨⟨minutes, cs⟩, -, h⟩ := Option.bind_eq_some_iff.mp h
    obtain ⟨⟨_, cs⟩, -, h⟩ := Option.bind_eq_some_iff.mp h
    obtain ⟨⟨seconds, cs⟩, -, h⟩ := Option.bind_eq_some_iff.mp h
    obtain ⟨⟨nanos, cs⟩, hfraction, h⟩ := Option.bind_eq_some_iff.mp h
    obtain ⟨⟨off, cs⟩, hoffset, h⟩ := Option.bind_eq_some_iff.mp h
    dsimp only at h hfraction hoffset
    split_ifs at h with hvalid hyears
    cases h
    have hseconds : seconds ≤ 60 := by
      simp only [Bool.not_eq_true', Bool.not_eq_false, Bool.and_eq_true, decide_eq_true_eq]
        at hvalid
      exact hvalid.1.1.2
    have hnanos := fraction_lt hfraction
    have hoff := offset_mod hoffset
    rw [nanosPerSecond] at hnanos
    refine ⟨?_, fun hleap => ?_⟩
    · dsimp only
      rw [nanosPerSecond]
      omega
    · dsimp only at hleap ⊢
      rw [nanosPerSecond] at hleap
      have hlate : seconds = 60 := by omega
      rw [hlate, secondsPerDay]
      omega
  next => cases h

end Rehearsal.Instant
