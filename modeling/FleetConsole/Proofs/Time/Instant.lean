import FleetConsole.Proofs.Text.Digits
import FleetConsole.Proofs.Time.Calendar
import FleetConsole.Time.Instant

/-!
# Instants from their texts

An instant that was read lies in the years that can be represented, and only the last second of a
minute can be a leap second (`isProper_of_ofText?`). Such an instant is read back from its exact
text (`ofText?_text`), whatever the form was in which it was read: the text has every part in full,
and the parts of the date and of the time of day are those of valid dates and times.
-/

namespace FleetConsole.Instant

open Text

/-- What is true of every instant that can be read. -/
structure IsProper (t : Instant) : Prop where
  least : leastSecond ≤ t.seconds
  greatest : t.seconds ≤ greatestSecond
  nanos : t.nanos < 2000000000
  leap : 1000000000 ≤ t.nanos → t.seconds % 60 = 59

/-! ### Parts of the text -/

theorem field?_padZeros {width n : Nat} (hwidth : 0 < width) (hn : n < Nat.pow 10 width)
    (rest : List Char) : field? width (padZeros width n ++ rest) = some (n, rest) := by
  have hdigits : ∀ c ∈ padZeros width n, c.isDigit = true := fun c hc => isDigit_of_mem_padZeros hc
  have hlength := length_padZeros hwidth hn
  have htake : (padZeros width n ++ rest).take width = padZeros width n := by
    rw [List.take_append_of_le_length hlength.ge, List.take_of_length_le hlength.le]
  have hrun : (padZeros width n).takeWhile Char.isDigit = padZeros width n :=
    List.takeWhile_eq_self_iff.2 hdigits
  have hne : (padZeros width n).isEmpty = false := by
    simp [padZeros_ne_nil]
  simp only [field?, dropBlank_digits_append hdigits (padZeros_ne_nil width n), htake, hrun, hne]
  rw [decimalValue_padZeros, List.drop_left]
  rfl

theorem field?_two {n : Nat} (hn : n < 100) (rest : List Char) :
    field? 2 (padZeros 2 n ++ rest) = some (n, rest) :=
  field?_padZeros (by decide) hn rest

theorem mark?_cons {mark : Char} (hmark : isBlank mark = false) (rest : List Char) :
    mark? mark (mark :: rest) = some rest := by
  rw [mark?, dropBlank_cons hmark]
  exact if_pos rfl

theorem year?_of_isDigit {c : Char} (hc : c.isDigit = true) (cs : List Char) :
    year? (c :: cs) = (field? 4 (c :: cs)).map fun r => ((r.1 : Int), r.2) := by
  simp only [year?, dropBlank_cons (isBlank_of_isDigit hc)]
  split
  · next heq =>
    cases heq
    exact absurd hc (by decide)
  · next heq =>
    cases heq
    exact absurd hc (by decide)
  · rfl

theorem year?_yearText (year : Int) {rest : List Char} (hrest : NoDigit rest) :
    year? (yearText year ++ rest) = some (year, rest) := by
  have hdigits : ∀ c ∈ padZeros 4 year.natAbs, c.isDigit = true :=
    fun c hc => isDigit_of_mem_padZeros hc
  have hne : (padZeros 4 year.natAbs).isEmpty = false := by
    simp [padZeros_ne_nil]
  rw [yearText]
  split_ifs with hfour hsign
  · have hbound : year.natAbs < Nat.pow 10 4 := show year.natAbs < 10000 by omega
    have hfield := field?_padZeros (by decide) hbound rest
    cases hyear : padZeros 4 year.natAbs with
    | nil => exact absurd hyear (padZeros_ne_nil _ _)
    | cons c cs =>
      rw [hyear] at hfield hdigits
      rw [List.cons_append, year?_of_isDigit (hdigits c List.mem_cons_self), ← List.cons_append,
        hfield]
      simp only [Option.map_some]
      congr 2
      omega
  all_goals
    rw [List.cons_append, year?, dropBlank_cons (by decide)]
    simp only [takeWhile_isDigit_append hdigits hrest, hne, decimalValue_padZeros, List.drop_left,
      Bool.false_eq_true, if_false, Option.map_some]
    congr 2
    omega

theorem fraction?_point {ds rest : List Char} (hds : ∀ c ∈ ds, c.isDigit = true)
    (hrest : NoDigit rest) (hne : ds ≠ []) (hlength : ds.length ≤ 9) :
    fraction? ('.' :: ds ++ rest) = some (decimalValue ds * Nat.pow 10 (9 - ds.length), rest) := by
  have hempty : ds.isEmpty = false := by simp [hne]
  simp only [List.cons_append, fraction?, takeWhile_isDigit_append hds hrest, hempty,
    Bool.false_eq_true, if_false, List.take_of_length_le hlength, List.drop_left]

theorem fraction?_fractionText {nanos : Nat} (hnanos : nanos < 1000000000) (rest : List Char)
    (hrest : NoDigit rest) (hpoint : rest.head? ≠ some '.') :
    fraction? (fractionText nanos ++ rest) = some (nanos, rest) := by
  have hpadded : ∀ width n bound scale, 0 < width → width ≤ 9 → Nat.pow 10 width = bound →
      Nat.pow 10 (9 - width) = scale → n < bound →
      fraction? ('.' :: padZeros width n ++ rest) = some (n * scale, rest) := by
    intro width n bound scale hpos hwidth hbound hscale hn
    have hlength := length_padZeros hpos (hbound ▸ hn)
    rw [fraction?_point (fun c hc => isDigit_of_mem_padZeros hc) hrest (padZeros_ne_nil width n)
      (by omega), decimalValue_padZeros, hlength, hscale]
  rw [fractionText]
  split_ifs with hzero hmilli hmicro
  · rw [hzero, List.nil_append]
    cases rest with
    | nil => rfl
    | cons c rest =>
      have hc : c ≠ '.' := by simpa using hpoint
      rw [fraction?]
      simp [hc]
  · rw [hpadded 3 _ 1000 1000000 (by decide) (by decide) rfl rfl (by omega)]
    congr 2
    omega
  · rw [hpadded 6 _ 1000000 1000 (by decide) (by decide) rfl rfl (by omega)]
    congr 2
    omega
  · rw [hpadded 9 _ 1000000000 1 (by decide) (by decide) rfl rfl hnanos]
    congr 2
    omega

/-! ### Instants that are read -/

theorem fraction?_lt {cs rest : List Char} {nanos : Nat}
    (hread : fraction? cs = some (nanos, rest)) : nanos < 1000000000 := by
  unfold fraction? at hread
  split at hread
  · next cs =>
    simp only [Option.ite_none_left_eq_some, Option.some.injEq, Prod.mk.injEq] at hread
    obtain ⟨-, rfl, -⟩ := hread
    generalize hkept : (cs.takeWhile Char.isDigit).take 9 = kept
    have hlength : kept.length ≤ 9 := hkept ▸ List.length_take_le _ _
    have hvalue : decimalValue kept < Nat.pow 10 kept.length := by
      apply decimalValue_lt
      intro c hc
      rw [← hkept] at hc
      exact List.mem_takeWhile_imp (List.mem_of_mem_take hc)
    calc decimalValue kept * Nat.pow 10 (9 - kept.length)
        < Nat.pow 10 kept.length * Nat.pow 10 (9 - kept.length) :=
          Nat.mul_lt_mul_of_pos_right hvalue (Nat.pow_pos (by decide))
      _ = 1000000000 := by
          refine (Nat.pow_add 10 kept.length (9 - kept.length)).symm.trans ?_
          rw [show kept.length + (9 - kept.length) = 9 by omega]
  · cases hread
    decide

theorem hoursMinutes?_minutes {cs rest : List Char} {n : Nat}
    (hread : hoursMinutes? cs = some (n, rest)) : n % 60 = 0 := by
  simp only [hoursMinutes?, Option.bind_eq_bind, Option.bind_eq_some_iff, Prod.exists,
    Option.ite_none_right_eq_some, Option.some.injEq, Prod.mk.injEq] at hread
  obtain ⟨hours, cs, -, minutes, cs, -, -, hn, -⟩ := hread
  omega

/-- An offset is a whole number of minutes, so it does not move the second. -/
theorem offset?_minutes {cs rest : List Char} {offset : Int}
    (hread : offset? cs = some (offset, rest)) : offset % 60 = 0 := by
  unfold offset? at hread
  split at hread
  · cases hread
  split_ifs at hread
  · cases hread
    rfl
  · simp only [Option.map_eq_some_iff, Prod.exists, Prod.mk.injEq] at hread
    obtain ⟨n, rest, hn, rfl, -⟩ := hread
    have hminutes := hoursMinutes?_minutes hn
    omega
  · simp only [Option.map_eq_some_iff, Prod.exists, Prod.mk.injEq] at hread
    obtain ⟨n, rest, hn, rfl, -⟩ := hread
    have hminutes := hoursMinutes?_minutes hn
    omega
  · split at hread
    · simp only [Option.ite_none_right_eq_some, Option.some.injEq, Prod.mk.injEq] at hread
      rw [← hread.2.1]
      rfl
    · cases hread

theorem isProper_of_ofLocal? {date : Date} {time : TimeOfDay} {offset : Int} {t : Instant}
    (hnanos : time.nanos < 1000000000) (hoffset : offset % 60 = 0)
    (hread : ofLocal? date time offset = some t) : IsProper t := by
  simp only [ofLocal?, Option.ite_none_right_eq_some, Option.some.injEq] at hread
  obtain ⟨hexists, hrange, rfl⟩ := hread
  refine ⟨hrange.1, hrange.2, ?_, ?_⟩
  · dsimp only
    split_ifs <;> dsimp only <;> omega
  -- Second 60 is kept as 59, and neither the time of day nor the offset moves it from there.
  · dsimp only
    split_ifs with hsecond
    · intro _
      dsimp only
      omega
    · intro hleap
      exact absurd hnanos (Nat.not_lt.2 hleap)

theorem isProper_of_ofChars? {cs : List Char} {t : Instant} (hread : ofChars? cs = some t) :
    IsProper t := by
  simp only [ofChars?, Option.bind_eq_bind, Option.bind_eq_some_iff, Prod.exists] at hread
  obtain ⟨date, cs, -, cs, -, time, cs, htime, offset, cs, hoffset, hread⟩ := hread
  split_ifs at hread
  apply isProper_of_ofLocal? ?_ (offset?_minutes hoffset) hread
  simp only [timeOfDay?, Option.bind_eq_bind, Option.bind_eq_some_iff, Prod.exists] at htime
  obtain ⟨hour, cs, -, cs, -, minute, cs, -, cs, -, second, cs, -, nanos, cs, hfraction, htime⟩ :=
    htime
  cases htime
  exact fraction?_lt hfraction

/-! ### Instants that were written -/

theorem noDigit_cons {c : Char} (hc : c.isDigit = false) (cs : List Char) : NoDigit (c :: cs) := by
  intro d hd
  cases hd
  exact hc

theorem date?_eq {date : Date} (hmonth : date.month < 100) (hday : date.day < 100)
    (rest : List Char) :
    date? (yearText date.year ++ ('-' :: padZeros 2 date.month ++ ('-' :: padZeros 2 date.day ++
      rest))) = some (date, rest) := by
  have hdash : ∀ cs, NoDigit ('-' :: cs) := noDigit_cons (by decide)
  simp only [date?, List.cons_append, year?_yearText date.year (hdash _),
    mark?_cons (show isBlank '-' = false by decide), field?_two hmonth, field?_two hday,
    Option.bind_eq_bind, Option.bind_some]
  rfl

theorem timeOfDay?_eq {time : TimeOfDay} (hhour : time.hour < 100) (hminute : time.minute < 100)
    (hsecond : time.second < 100) (hnanos : time.nanos < 1000000000) :
    timeOfDay? (padZeros 2 time.hour ++ (':' :: padZeros 2 time.minute ++ (':' ::
      padZeros 2 time.second ++ (fractionText time.nanos ++ ['Z'])))) = some (time, ['Z']) := by
  simp only [timeOfDay?, List.cons_append, mark?_cons (show isBlank ':' = false by decide),
    field?_two hhour, field?_two hminute, field?_two hsecond,
    fraction?_fractionText hnanos ['Z'] (noDigit_cons (by decide) []) (by decide),
    Option.bind_eq_bind, Option.bind_some]
  rfl

/-- The time of day of an instant in universal time. -/
def timeOfDay (t : Instant) : TimeOfDay :=
  let ofDay := (t.seconds % 86400).toNat
  let leap := 1000000000 ≤ t.nanos
  ⟨ofDay / 3600, ofDay / 60 % 60, ofDay % 60 + (if leap then 1 else 0),
    if leap then t.nanos - 1000000000 else t.nanos⟩

theorem ofLocal?_eq {t : Instant} (hproper : IsProper t) :
    ofLocal? (Date.ofDays (t.seconds / 86400)) (timeOfDay t) 0 = some t := by
  obtain ⟨hleast, hgreatest, hnanos, hleap⟩ := hproper
  have hvalid := Date.isValid_ofDays (t.seconds / 86400)
  have hyear : leastYear ≤ (Date.ofDays (t.seconds / 86400)).year ∧
      (Date.ofDays (t.seconds / 86400)).year ≤ greatestYear := by
    have hfirst : leastSecond = Date.toDays (Date.newYear leastYear) * 86400 := rfl
    have hlast : greatestSecond + 1 = Date.toDays (Date.newYear (greatestYear + 1)) * 86400 := by
      decide
    constructor
    · apply Date.le_year_of_toDays_le hvalid
      rw [Date.toDays_ofDays]
      omega
    · apply Date.year_le_of_toDays_lt hvalid
      rw [Date.toDays_ofDays]
      omega
  have htime : (timeOfDay t).hour < 24 ∧ (timeOfDay t).minute < 60 ∧ (timeOfDay t).second ≤ 60 := by
    simp only [timeOfDay]
    refine ⟨by omega, by omega, ?_⟩
    split_ifs <;> omega
  simp only [ofLocal?, Option.ite_none_right_eq_some, Option.some.injEq]
  refine ⟨⟨hvalid, hyear, htime⟩, ?_⟩
  rw [Date.toDays_ofDays]
  have hparts : (if (timeOfDay t).second = 60 then (59, (timeOfDay t).nanos + 1000000000)
      else ((timeOfDay t).second, (timeOfDay t).nanos)) =
      ((t.seconds % 60).toNat, t.nanos) := by
    by_cases hsecond : 1000000000 ≤ t.nanos
    · have hlast := hleap hsecond
      simp only [timeOfDay, if_pos hsecond]
      rw [if_pos (by omega), Prod.mk.injEq]
      omega
    · simp only [timeOfDay, if_neg hsecond]
      rw [if_neg (by omega), Prod.mk.injEq]
      omega
  have hseconds : t.seconds / 86400 * 86400 + 3600 * ((timeOfDay t).hour : Int) +
      60 * ((timeOfDay t).minute : Int) + ((t.seconds % 60).toNat : Int) - 0 = t.seconds := by
    simp only [timeOfDay]
    omega
  rw [hparts, hseconds]
  exact ⟨⟨hleast, hgreatest⟩, rfl⟩

theorem chars_exact (t : Instant) : chars .exact t =
    yearText (Date.ofDays (t.seconds / 86400)).year ++
      ('-' :: padZeros 2 (Date.ofDays (t.seconds / 86400)).month ++
      ('-' :: padZeros 2 (Date.ofDays (t.seconds / 86400)).day ++
      ('T' :: (padZeros 2 (timeOfDay t).hour ++ (':' :: padZeros 2 (timeOfDay t).minute ++
      (':' :: padZeros 2 (timeOfDay t).second ++
      (fractionText (timeOfDay t).nanos ++ ['Z']))))))) := by
  simp only [chars, timeOfDay, List.append_assoc, List.cons_append, if_true]

/-- An instant that can be read is read from its exact text. -/
theorem ofText?_text {t : Instant} (hproper : IsProper t) : ofText? (t.text .exact) = some t := by
  have hvalid := Date.isValid_ofDays (t.seconds / 86400)
  rw [Date.isValid, decide_eq_true_iff] at hvalid
  obtain ⟨-, hmonth, -, hday⟩ := hvalid
  have hlength : Date.daysInMonth (Date.ofDays (t.seconds / 86400)).year
      (Date.ofDays (t.seconds / 86400)).month ≤ 31 := by
    rw [Date.daysInMonth]
    split_ifs <;> decide
  have htime : (timeOfDay t).hour < 100 ∧ (timeOfDay t).minute < 100 ∧
      (timeOfDay t).second < 100 ∧ (timeOfDay t).nanos < 1000000000 := by
    have hnanos := hproper.nanos
    simp only [timeOfDay]
    refine ⟨by omega, by omega, ?_, ?_⟩ <;> split_ifs <;> omega
  obtain ⟨hhour, hminute, hsecond, hnanos⟩ := htime
  rw [ofText?, text, String.toList_ofList, chars_exact, ofChars?]
  have hdate : (Date.ofDays (t.seconds / 86400)).month < 100 ∧
      (Date.ofDays (t.seconds / 86400)).day < 100 := by
    omega
  have hmark : ∀ cs, timeMark? ('T' :: cs) = some cs := by
    intro cs
    rw [timeMark?, if_pos (.inl rfl)]
  have hzone : offset? (dropBlank ['Z']) = some (0, []) := by decide
  have hend : (dropBlank []).isEmpty = true := rfl
  simp only [date?_eq hdate.1 hdate.2, hmark, timeOfDay?_eq hhour hminute hsecond hnanos, hzone,
    hend, ofLocal?_eq hproper, Option.bind_eq_bind, Option.bind_some, if_true]

example : (Instant.mk 1483228799 1500000000).text .exact = "2016-12-31T23:59:60.500Z" := by
  decide +kernel

theorem isProper_of_ofText? {s : String} {t : Instant} (hread : ofText? s = some t) : IsProper t :=
  isProper_of_ofChars? hread

end FleetConsole.Instant
