import AccountGroups.Instant.Reading
import Mathlib.Data.List.TakeWhile

/-!
# Instants that texts give

Whatever text an instant is read from, it is an instant of the calendar, with a leap second only at
the end of a minute. Each such instant is written as a text from which it is read again.
-/

namespace AccountGroups

namespace Text

theorem isBlank_of_isDigit {c : Char} (h : c.isDigit = true) : isBlank c = false := by
  simp only [Char.isDigit, Bool.and_eq_true, decide_eq_true_eq] at h
  have hlow : 48 ≤ c.toNat := UInt32.le_iff_toNat_le.1 h.1
  have hhigh : c.toNat ≤ 57 := UInt32.le_iff_toNat_le.1 h.2
  simp only [isBlank, Bool.or_eq_false_iff, Bool.and_eq_false_iff, decide_eq_false_iff_not,
    beq_eq_false_iff_ne]
  omega

theorem trimLeft_cons {c : Char} (h : isBlank c = false) (cs : List Char) :
    trimLeft (c :: cs) = c :: cs := by
  simp [trimLeft, h]

theorem trimLeft_padded (width n : Nat) (rest : List Char) :
    trimLeft (padded width n ++ rest) = padded width n ++ rest := by
  obtain ⟨d, ds, hds, hd⟩ := padded_eq_cons width n
  rw [hds, List.cons_append, trimLeft_cons (isBlank_of_isDigit hd)]

end Text

namespace Instant

open Text

/-- A second of a day of the calendar. The nanoseconds of a leap second count on from the last
second of a minute. -/
structure Proper (i : Instant) : Prop where
  month : 1 ≤ i.month ∧ i.month ≤ 12
  day : 1 ≤ i.day ∧ i.day ≤ daysIn i.year i.month
  second : i.second < 86400
  nano : i.nano < 1000000000 ∨ (i.nano < 2000000000 ∧ i.second % 60 = 59)

/-- A proper instant of a year that instants may have. -/
structure Valid (i : Instant) : Prop extends i.Proper where
  year : isYear i.year = true

theorem daysIn_le (year : Int) (month : Nat) : daysIn year month ≤ 31 := by
  grind [daysIn]

theorem le_daysIn (year : Int) (month : Nat) : 28 ≤ daysIn year month := by
  grind [daysIn]

theorem number_padded {width n : Nat} (hwidth : 0 < width) (hn : n < Nat.pow 10 width)
    (rest : List Char) : number width (padded width n ++ rest) = some (n, rest) := by
  have hlength := length_padded hwidth hn
  have htake : (padded width n ++ rest).take width = padded width n := List.take_left' hlength
  have hdigits : (padded width n).takeWhile Char.isDigit = padded width n :=
    List.takeWhile_eq_self_iff.2 fun c hc => isDigit_of_mem_padded hc
  obtain ⟨d, ds, hds, -⟩ := padded_eq_cons width n
  rw [number, htake, hdigits]
  rw [hds]
  simp only
  rw [← hds, ofDigits_padded, List.drop_left]

theorem bounded_padded {least most n : Nat} (hn : least ≤ n ∧ n ≤ most) (hmost : most < 100)
    (rest : List Char) : bounded least most (padded 2 n ++ rest) = some (n, rest) := by
  have hnumber := number_padded (by decide : 0 < 2) (by omega : n < 10 ^ 2) rest
  simp only [bounded, trimLeft_padded, hnumber, hn, if_true, and_self]

theorem mark_cons {c : Char} (h : isBlank c = false) (rest : List Char) :
    mark c (c :: rest) = some rest := by
  simp only [mark, trimLeft_cons h, if_true]

/-- Digits are taken as far as they go. -/
theorem someDigits_padded (width n : Nat) {c : Char} (hc : c.isDigit = false) (rest : List Char) :
    someDigits (padded width n ++ c :: rest) = some (padded width n, c :: rest) := by
  have hall : ∀ d ∈ padded width n, d.isDigit = true := fun d hd => isDigit_of_mem_padded hd
  obtain ⟨d, ds, hds, -⟩ := padded_eq_cons width n
  simp only [someDigits, List.takeWhile_append_of_pos hall, List.dropWhile_append_of_pos hall,
    List.takeWhile_cons, List.dropWhile_cons, hc, Bool.false_eq_true, if_false, List.append_nil]
  rw [hds]

theorem yearNumber_of_isDigit {c : Char} (h : c.isDigit = true) (cs : List Char) :
    yearNumber (c :: cs) = (number 4 (c :: cs)).map fun r => ((r.1 : Int), r.2) := by
  rw [yearNumber, trimLeft_cons (isBlank_of_isDigit h)]
  split
  · next heq =>
    cases heq
    cases h
  · next heq =>
    cases heq
    cases h
  · rfl

theorem yearNumber_yearText (year : Int) (rest : List Char) :
    yearNumber (yearText year ++ '-' :: rest) = some (year, '-' :: rest) := by
  unfold yearText
  split
  · next h =>
    have hsmall : year.toNat < 10 ^ 4 := by omega
    have hnumber := number_padded (by decide : 0 < 4) hsmall ('-' :: rest)
    have hcast : (year.toNat : Int) = year := Int.toNat_of_nonneg h.1
    obtain ⟨d, ds, hds, hd⟩ := padded_eq_cons 4 year.toNat
    rw [hds] at hnumber ⊢
    rw [List.cons_append, yearNumber_of_isDigit hd, ← List.cons_append, hnumber, Option.map_some,
      hcast]
  · next h =>
    have hdigits := someDigits_padded 4 year.natAbs (by decide : '-'.isDigit = false) rest
    split
    · next hneg =>
      have hcast : -(year.natAbs : Int) = year := by omega
      rw [List.cons_append, yearNumber, trimLeft_cons (by decide)]
      simp only [hdigits, Option.map_some, ofDigits_padded, hcast]
    · next hpos =>
      have hcast : (year.natAbs : Int) = year := by omega
      rw [List.cons_append, yearNumber, trimLeft_cons (by decide)]
      simp only [hdigits, Option.map_some, ofDigits_padded, hcast]

theorem fraction_padded {width k : Nat} (hwidth : 0 < width) (hnine : width ≤ 9)
    (hk : k < Nat.pow 10 width) (rest : List Char) :
    fraction ('.' :: padded width k ++ 'Z' :: rest) =
      some (k * Nat.pow 10 (9 - width), 'Z' :: rest) := by
  have hdigits := someDigits_padded width k (by decide : 'Z'.isDigit = false) rest
  have hlength := length_padded hwidth hk
  have htake : (padded width k).take 9 = padded width k := List.take_of_length_le (by omega)
  simp only [fraction, List.cons_append, hdigits, Option.map_some, htake, ofDigits_padded, hlength]

theorem fraction_fractionText {nano : Nat} (h : nano < 1000000000) (rest : List Char) :
    fraction (fractionText nano ++ 'Z' :: rest) = some (nano, 'Z' :: rest) := by
  unfold fractionText
  split
  · next hzero =>
    rw [hzero]
    rfl
  split
  · next hmilli =>
    have hlt : nano / 1000000 < 1000 := by omega
    have hnano : nano / 1000000 * 1000000 = nano := by omega
    have hfraction := fraction_padded (by decide : 0 < 3) (by decide) hlt rest
    exact hfraction.trans (congrArg (fun n => some (n, 'Z' :: rest)) hnano)
  split
  · next hmicro =>
    have hlt : nano / 1000 < 1000000 := by omega
    have hnano : nano / 1000 * 1000 = nano := by omega
    have hfraction := fraction_padded (by decide : 0 < 6) (by decide) hlt rest
    exact hfraction.trans (congrArg (fun n => some (n, 'Z' :: rest)) hnano)
  · have hfraction := fraction_padded (by decide : 0 < 9) (by decide) h rest
    exact hfraction.trans (congrArg (fun n => some (n, 'Z' :: rest)) (Nat.mul_one nano))

theorem date_dateText {i : Instant} (h : i.Valid) (rest : List Char) :
    date (dateText i ++ rest) = some ((i.year, i.month, i.day), rest) := by
  have hdays : i.day ≤ 31 := le_trans h.day.2 (daysIn_le _ _)
  simp only [date, dateText, List.append_assoc, List.cons_append, yearNumber_yearText,
    mark_cons (by decide : isBlank '-' = false), bounded_padded h.month (by decide),
    bounded_padded ⟨h.day.1, hdays⟩ (by decide), Option.bind_eq_bind, Option.bind_some]

theorem time_timeText {i : Instant} (h : i.Valid) (rest : List Char) :
    time (timeText i ++ 'Z' :: rest) = some ((i.second, i.nano), 'Z' :: rest) := by
  have hsecond := h.second
  have hhour : 0 ≤ i.second / 3600 ∧ i.second / 3600 ≤ 23 := by omega
  have hminute : 0 ≤ i.second / 60 % 60 ∧ i.second / 60 % 60 ≤ 59 := by omega
  have hlast : 0 ≤ i.second % 60 + i.nano / 1000000000 ∧
      i.second % 60 + i.nano / 1000000000 ≤ 60 := by
    have := h.nano
    omega
  have htime : timeOf (i.second / 3600) (i.second / 60 % 60)
      (i.second % 60 + i.nano / 1000000000) (i.nano % 1000000000) = (i.second, i.nano) := by
    have := h.nano
    unfold timeOf
    split
    all_goals
      rw [Prod.mk.injEq]
      omega
  simp only [time, timeText, List.append_assoc, List.cons_append,
    mark_cons (by decide : isBlank ':' = false), bounded_padded hhour (by decide),
    bounded_padded hminute (by decide), bounded_padded hlast (by decide),
    fraction_fractionText (by omega : i.nano % 1000000000 < 1000000000), Option.bind_eq_bind,
    Option.bind_some, htime]

theorem minusOffset_zero {i : Instant} (h : i.second < 86400) : minusOffset i 0 = i := by
  simp only [minusOffset, Int.sub_zero, Int.toNat_natCast]
  rw [if_neg (by omega), if_neg (by omega)]

/-- An instant is read from the text that it is written as. -/
theorem ofText?_rfc3339 {i : Instant} (h : i.Valid) : ofText? i.rfc3339 = some i := by
  have hdate := date_dateText h ('T' :: (timeText i ++ ['Z']))
  have htime := time_timeText h []
  have hseparator : separator ('T' :: (timeText i ++ ['Z'])) = some (timeText i ++ ['Z']) := rfl
  have hoffset : offset (trimLeft ['Z']) = some (0, []) := by decide
  have hend : trimLeft [] = [] := rfl
  simp only [ofText?, rfc3339, String.toList_ofList, List.append_assoc, List.cons_append, hdate,
    hseparator, htime, hoffset, hend, Option.bind_eq_bind, Option.bind_some,
    minusOffset_zero h.second, h.year, h.day.2]
  rfl

theorem bounds_of_bounded {least most n : Nat} {cs rest : List Char}
    (h : bounded least most cs = some (n, rest)) : least ≤ n ∧ n ≤ most := by
  unfold bounded at h
  split at h
  · split at h
    · next hn =>
      cases h
      exact hn
    · cases h
  · cases h

theorem isDigit_of_someDigits {cs ds rest : List Char} (h : someDigits cs = some (ds, rest)) :
    ∀ c ∈ ds, c.isDigit = true := by
  unfold someDigits at h
  split at h
  · cases h
  · cases h
    exact fun c hc => List.all_eq_true.1 List.all_takeWhile c hc

theorem lt_of_fraction {cs rest : List Char} {nano : Nat} (h : fraction cs = some (nano, rest)) :
    nano < 1000000000 := by
  unfold fraction at h
  split at h
  · obtain ⟨⟨ds, after⟩, hds, heq⟩ := Option.map_eq_some_iff.1 h
    have hdigits : ∀ c ∈ ds.take 9, c.isDigit = true :=
      fun c hc => isDigit_of_someDigits hds c (List.mem_of_mem_take hc)
    have hlt := ofDigits_lt hdigits
    have hnine : (ds.take 9).length ≤ 9 := List.length_take_le 9 ds
    obtain ⟨rfl, -⟩ := Prod.mk.inj heq
    have hadd := Nat.pow_add 10 (ds.take 9).length (9 - (ds.take 9).length)
    rw [Nat.add_sub_cancel' hnine] at hadd
    calc
      ofDigits (ds.take 9) * Nat.pow 10 (9 - (ds.take 9).length)
        < Nat.pow 10 (ds.take 9).length * Nat.pow 10 (9 - (ds.take 9).length) :=
          Nat.mul_lt_mul_of_pos_right hlt (Nat.pow_pos (by decide))
      _ = Nat.pow 10 9 := hadd.symm
  · cases h
    decide

theorem offsetTime_mod {cs rest : List Char} {n : Nat} (h : offsetTime cs = some (n, rest)) :
    n % 60 = 0 := by
  unfold offsetTime at h
  repeat' split at h
  all_goals cases h
  omega

/-- Offsets are whole minutes. -/
theorem offset_mod {cs rest : List Char} {n : Int} (h : offset cs = some (n, rest)) :
    n % 60 = 0 := by
  unfold offset at h
  split at h
  · cases h
  split at h
  · cases h
    rfl
  split at h
  · cases h
    rfl
  split at h
  · obtain ⟨⟨m, after⟩, hm, heq⟩ := Option.map_eq_some_iff.1 h
    have hmod := offsetTime_mod hm
    obtain ⟨rfl, -⟩ := Prod.mk.inj heq
    simp only
    omega
  split at h
  · obtain ⟨⟨m, after⟩, hm, heq⟩ := Option.map_eq_some_iff.1 h
    have hmod := offsetTime_mod hm
    obtain ⟨rfl, -⟩ := Prod.mk.inj heq
    simp only
    omega
  · cases h

theorem Proper.withSecond {i : Instant} (h : i.Proper) {second : Nat} (hsecond : second < 86400)
    (hmod : second % 60 = i.second % 60) : Proper { i with second := second } where
  month := h.month
  day := h.day
  second := hsecond
  nano := h.nano.imp_right fun hnano => ⟨hnano.1, hmod.trans hnano.2⟩

theorem Proper.nextDay {i : Instant} (h : i.Proper) :
    (nextDay i).Proper ∧ (nextDay i).second = i.second := by
  have hmonth := h.month
  have hday := h.day
  unfold Instant.nextDay
  split
  · next hlt =>
    have hnext : 1 ≤ i.day + 1 ∧ i.day + 1 ≤ daysIn i.year i.month := by omega
    exact ⟨⟨hmonth, hnext, h.second, h.nano⟩, rfl⟩
  split
  · next hlt =>
    have hnext : 1 ≤ i.month + 1 ∧ i.month + 1 ≤ 12 := by omega
    have hfirst : 1 ≤ daysIn i.year (i.month + 1) := le_trans (by decide) (le_daysIn _ _)
    exact ⟨⟨hnext, ⟨le_rfl, hfirst⟩, h.second, h.nano⟩, rfl⟩
  · have hfirst : 1 ≤ daysIn (i.year + 1) 1 := le_trans (by decide) (le_daysIn _ _)
    exact ⟨⟨⟨le_rfl, (by decide : 1 ≤ 12)⟩, ⟨le_rfl, hfirst⟩, h.second, h.nano⟩, rfl⟩

theorem Proper.previousDay {i : Instant} (h : i.Proper) :
    (previousDay i).Proper ∧ (previousDay i).second = i.second := by
  have hmonth := h.month
  have hday := h.day
  unfold Instant.previousDay
  split
  · next hlt =>
    have hprevious : 1 ≤ i.day - 1 ∧ i.day - 1 ≤ daysIn i.year i.month := by omega
    exact ⟨⟨hmonth, hprevious, h.second, h.nano⟩, rfl⟩
  split
  · next hlt =>
    have hprevious : 1 ≤ i.month - 1 ∧ i.month - 1 ≤ 12 := by omega
    have hlast : 1 ≤ daysIn i.year (i.month - 1) := le_trans (by decide) (le_daysIn _ _)
    exact ⟨⟨hprevious, ⟨hlast, le_rfl⟩, h.second, h.nano⟩, rfl⟩
  · exact ⟨⟨⟨(by decide : 1 ≤ 12), le_rfl⟩, ⟨(by decide : 1 ≤ 31), le_rfl⟩, h.second, h.nano⟩, rfl⟩

theorem Proper.minusOffset {i : Instant} (h : i.Proper) {offset : Int} (hmod : offset % 60 = 0)
    (hlt : offset.natAbs < 86400) : (minusOffset i offset).Proper := by
  have hsecond := h.second
  unfold Instant.minusOffset
  simp only
  split
  · obtain ⟨hday, hsame⟩ := h.previousDay
    exact hday.withSecond (by omega) (by omega)
  split
  · obtain ⟨hday, hsame⟩ := h.nextDay
    exact hday.withSecond (by omega) (by omega)
  · exact h.withSecond (by omega) (by omega)

theorem proper_timeOf {year : Int} {month day hour minute second nano : Nat}
    (hmonth : 1 ≤ month ∧ month ≤ 12) (hday : 1 ≤ day ∧ day ≤ daysIn year month)
    (hhour : hour ≤ 23) (hminute : minute ≤ 59) (hsecond : second ≤ 60)
    (hnano : nano < 1000000000) :
    Proper ⟨year, month, day, (timeOf hour minute second nano).1,
      (timeOf hour minute second nano).2⟩ := by
  unfold timeOf
  split
  · exact ⟨hmonth, hday, by simp only; omega, by simp only; omega⟩
  · exact ⟨hmonth, hday, by simp only; omega, .inl hnano⟩

theorem bounds_of_date {cs rest : List Char} {year : Int} {month day : Nat}
    (h : date cs = some ((year, month, day), rest)) :
    (1 ≤ month ∧ month ≤ 12) ∧ 1 ≤ day := by
  simp only [date, Option.bind_eq_bind, Option.bind_eq_some_iff] at h
  obtain ⟨_, _, _, _, m, hm, _, _, d, hd, heq⟩ := h
  cases heq
  exact ⟨bounds_of_bounded hm, (bounds_of_bounded hd).1⟩

theorem proper_of_time {cs rest : List Char} {year : Int} {month day second nano : Nat}
    (hmonth : 1 ≤ month ∧ month ≤ 12) (hday : 1 ≤ day ∧ day ≤ daysIn year month)
    (h : time cs = some ((second, nano), rest)) : Proper ⟨year, month, day, second, nano⟩ := by
  simp only [time, Option.bind_eq_bind, Option.bind_eq_some_iff] at h
  obtain ⟨hour, hh, _, _, minute, hm, _, _, last, hl, ns, hn, heq⟩ := h
  have hproper := proper_timeOf hmonth hday (bounds_of_bounded hh).2 (bounds_of_bounded hm).2
    (bounds_of_bounded hl).2 (lt_of_fraction hn)
  rw [Option.some.injEq, Prod.mk.injEq] at heq
  rw [heq.1] at hproper
  exact hproper

/-- Whatever a text says, the instant that is read from it is one of the calendar. -/
theorem valid_of_ofText? {text : String} {i : Instant} (h : ofText? text = some i) : i.Valid := by
  simp only [ofText?, Option.bind_eq_bind, Option.bind_eq_some_iff] at h
  obtain ⟨⟨⟨year, month, day⟩, cs⟩, hdate, cs', -, ⟨⟨second, nano⟩, ds⟩, htime, ⟨distance, es⟩,
    hoffset, h⟩ := h
  obtain ⟨hmonth, hday⟩ := bounds_of_date hdate
  split at h
  · next hbounds =>
    obtain ⟨-, -, hdays, hdistance⟩ := hbounds
    have hproper := proper_of_time hmonth ⟨hday, hdays⟩ htime
    split at h
    · next hyear =>
      cases h
      exact ⟨hproper.minusOffset (offset_mod hoffset) hdistance, hyear⟩
    · cases h
  · cases h

end Instant

end AccountGroups
