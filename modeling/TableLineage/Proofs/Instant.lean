import Mathlib.Data.String.Basic
import Mathlib.Order.Monotone.Basic
import TableLineage.Instant

/-! Texts of instants that sort as the instants do: every part of the date and of the time has a
fixed number of digits, the greatest first, so the order of the characters is the order in time. -/
namespace TableLineage.Instant

open List

/-! ### Days and dates -/

/-- The year of a day within an era of 400 years. -/
def yearInEra (n : Nat) : Nat := (n - n / 1460 + n / 36524 - n / 146096) / 365

/-- The first day of a year within its era. -/
def yearStart (y : Nat) : Nat := 365 * y + y / 4 - y / 100

theorem yearInEra_monotone : Monotone yearInEra := by
  refine monotone_nat_of_le_succ fun n => ?_
  have centuries (k : Nat) : k / 146096 = k / 36524 / 4 := by omega
  rw [yearInEra, yearInEra, centuries, centuries]
  apply Nat.div_le_div_right
  omega

variable {m n width : Nat}

theorem exists_century (inEra : n < 146097) :
    ∃ c, n / 36524 - n / 146096 = c ∧ c ≤ 3 ∧ 36524 * c ≤ n ∧ n ≤ 36524 * c + 36524 := by
  refine ⟨_, rfl, ?_⟩
  have era : n / 146096 = n / 36524 / 4 := by omega
  have few : n / 36524 ≤ 4 := by omega
  omega

theorem div_fourYears {c q rest : Nat} (parts : n = 36524 * c + 1461 * q + rest) :
    n / 1460 = 25 * c + q + (24 * c + q + rest) / 1460 := by
  have whole : n = (24 * c + q + rest) + 1460 * (25 * c + q) := by omega
  rw [whole, Nat.add_mul_div_left _ _ (by omega), Nat.add_comm]

/-- Days are counted by centuries, by groups of four years and by years. The last year of a group
may have one day more, which the quotients make up for. -/
theorem yearInEra_eq {c q r d : Nat} (parts : n = 36524 * c + 1461 * q + (365 * r + d))
    (century : n / 36524 - n / 146096 = c) (few : c ≤ 3) (fewer : q ≤ 24) (three : r ≤ 3) (fits : d ≤ 365)
    (leap : d = 365 → r = 3) : yearInEra n = 100 * c + 4 * q + r := by
  obtain ⟨carry, carried⟩ : ∃ u, (24 * c + q + (365 * r + d)) / 1460 = u := ⟨_, rfl⟩
  have enough : carry ≤ d ∧ d ≤ carry + 364 := by
    subst carried
    constructor
    · by_cases first : d = 0
      · have none := Nat.div_eq_of_lt (show 24 * c + q + (365 * r + d) < 1460 by omega)
        omega
      · have one := Nat.div_lt_of_lt_mul (show 24 * c + q + (365 * r + d) < 1460 * 2 by omega)
        omega
    · by_cases last : d = 365
      · have lastYear := leap last
        have one := (Nat.le_div_iff_mul_le (by omega)).2 (show 1 * 1460 ≤ 24 * c + q + (365 * r + d) by omega)
        omega
      · omega
  have fours := div_fourYears parts
  rw [carried] at fours
  have ordered : n / 146096 ≤ n / 36524 := Nat.div_le_div_left (by omega) (by omega)
  have value : n - n / 1460 + n / 36524 - n / 146096 = 365 * (100 * c + 4 * q + r) + (d - carry) := by
    rw [fours]
    generalize n / 146096 = x at *
    generalize n / 36524 = y at *
    omega
  rw [yearInEra, value, Nat.mul_add_div (by omega), Nat.div_eq_of_lt (by omega), Nat.add_zero]

/-- A day stands in its year: at most 365 days after its start. -/
theorem yearStart_yearInEra (inEra : n < 146097) :
    yearInEra n ≤ 399 ∧ yearStart (yearInEra n) ≤ n ∧ n ≤ yearStart (yearInEra n) + 365 := by
  obtain ⟨c, century, few, start, stop⟩ := exists_century inEra
  obtain ⟨q, rest, group, fewer, bound⟩ : ∃ q rest, n = 36524 * c + 1461 * q + rest ∧ q ≤ 24 ∧ rest ≤ 1460 := by
    refine ⟨(n - 36524 * c) / 1461, (n - 36524 * c) % 1461, ?_⟩
    clear century
    omega
  obtain ⟨r, d, rfl, three, fits, leap⟩ : ∃ r d, rest = 365 * r + d ∧ r ≤ 3 ∧ d ≤ 365 ∧ (d = 365 → r = 3) := by
    refine ⟨min (rest / 365) 3, rest - 365 * min (rest / 365) 3, ?_⟩
    clear century start stop
    omega
  have year := yearInEra_eq group century few fewer three fits leap
  have first : yearStart (yearInEra n) = 36524 * c + 1461 * q + 365 * r := by
    have fours : (100 * c + 4 * q + r) / 4 = 25 * c + q := by omega
    have hundreds : (100 * c + 4 * q + r) / 100 = c := by omega
    rw [year, yearStart, fours, hundreds]
    omega
  omega

/-- The month of a day of a year that starts with March. -/
def monthInYear (k : Nat) : Nat := (5 * k + 2) / 153

def dayInMonth (k : Nat) : Nat := k - (153 * monthInYear k + 2) / 5 + 1

theorem dayInMonth_lt {k l : Nat} (less : k < l) :
    monthInYear k < monthInYear l ∨ monthInYear k = monthInYear l ∧ dayInMonth k < dayInMonth l := by
  simp only [monthInYear, dayInMonth]
  omega

/-- The months of all years up to a date. -/
def Date.months (d : Date) : Int := 12 * d.year + d.month

theorem dateOfDay_parts {day era : Int} (parts : day + 719468 = 146097 * era + n) (inEra : n < 146097) :
    let k := n - yearStart (yearInEra n)
    (dateOfDay day).months = 12 * (yearInEra n + era * 400) + monthInYear k + 3 ∧ (dateOfDay day).day = dayInMonth k ∧
      1 ≤ (dateOfDay day).month ∧ (dateOfDay day).month ≤ 12 := by
  intro k
  have same : (day + 719468).fdiv 146097 = era := by
    rw [Int.fdiv_eq_ediv_of_nonneg _ (by omega)]
    omega
  have rest : (day + 719468 - era * 146097).toNat = n := by omega
  have date : dateOfDay day = ⟨if monthInYear k < 10 then yearInEra n + era * 400 else yearInEra n + era * 400 + 1,
      if monthInYear k < 10 then monthInYear k + 3 else monthInYear k - 9, dayInMonth k⟩ := by
    simp only [dateOfDay, same, rest]
    rfl
  have year : monthInYear k ≤ 11 := by
    have inYear := (yearStart_yearInEra inEra).2.2
    rw [monthInYear]
    omega
  rw [date]
  by_cases early : monthInYear k < 10
  · simp only [if_pos early, Date.months, true_and]
    omega
  · simp only [if_neg early, Date.months, true_and]
    omega

theorem exists_era (day : Int) : ∃ era : Int, ∃ n : Nat, day + 719468 = 146097 * era + n ∧ n < 146097 :=
  ⟨(day + 719468) / 146097, ((day + 719468) % 146097).toNat, by omega⟩

theorem dateOfDay_bounds (day : Int) :
    1 ≤ (dateOfDay day).month ∧ (dateOfDay day).month ≤ 12 ∧ (dateOfDay day).day ≤ 31 := by
  obtain ⟨era, n, parts, inEra⟩ := exists_era day
  obtain ⟨_, last, first, month⟩ := dateOfDay_parts parts inEra
  refine ⟨first, month, ?_⟩
  rw [last, dayInMonth, monthInYear]
  omega

/-- Later days have later dates. -/
theorem dateOfDay_lt {a b : Int} (less : a < b) : (dateOfDay a).months < (dateOfDay b).months ∨
    (dateOfDay a).months = (dateOfDay b).months ∧ (dateOfDay a).day < (dateOfDay b).day := by
  obtain ⟨era, n, parts, inEra⟩ := exists_era a
  obtain ⟨era', n', parts', inEra'⟩ := exists_era b
  obtain ⟨months, day, _⟩ := dateOfDay_parts parts inEra
  obtain ⟨months', day', _⟩ := dateOfDay_parts parts' inEra'
  obtain ⟨years, start, stop⟩ := yearStart_yearInEra inEra
  have start' := (yearStart_yearInEra inEra').2.1
  have inYear : monthInYear (n - yearStart (yearInEra n)) ≤ 11 := by
    rw [monthInYear]
    omega
  rw [months, months', day, day']
  rcases Int.lt_or_le era era' with earlier | same
  · omega
  · have sameEra : era = era' := by omega
    have lessInEra : n < n' := by omega
    have ordered := yearInEra_monotone (Nat.le_of_lt lessInEra)
    rcases Nat.lt_or_eq_of_le ordered with earlier | sameYear
    · omega
    · rw [← sameYear] at start' ⊢
      have lessInYear := dayInMonth_lt (Nat.sub_lt_sub_right start lessInEra)
      omega

/-! ### Texts -/

/-- Date and time to the nanosecond, with all digits of the fraction. -/
def stamp (t : Instant) : String :=
  String.ofList (t.dateText ++ 'T' :: t.clockText ++ '.' :: digits 9 t.subsecond ++ ['Z'])

theorem length_digits (width n : Nat) : (digits width n).length = width := by
  induction width generalizing n with
  | zero => rfl
  | succ width ih => rw [digits, length_append, ih, length_singleton]

theorem append_lt_append {xs ys : List Char} (less : xs < ys) (same : xs.length = ys.length) (us vs : List Char) :
    xs ++ us < ys ++ vs := by
  induction xs generalizing ys with
  | nil =>
    rw [eq_nil_of_length_eq_zero same.symm] at less
    exact absurd less (List.lt_irrefl _)
  | cons x xs ih =>
    cases ys with
    | nil => exact absurd same (Nat.succ_ne_zero _)
    | cons y ys =>
      rw [cons_append, cons_append, cons_lt_cons_iff]
      rcases cons_lt_cons_iff.1 less with first | ⟨equal, rest⟩
      · exact .inl first
      · exact .inr ⟨equal, ih rest (Nat.succ.inj same)⟩

theorem digits_lt (less : n < m) (fits : m < 10 ^ width) : digits width n < digits width m := by
  induction width generalizing n m with
  | zero => omega
  | succ width ih =>
    rw [digits, digits]
    rcases Nat.lt_or_ge (n / 10) (m / 10) with higher | same
    · rw [Nat.pow_succ] at fits
      exact append_lt_append (ih higher (by omega)) ((length_digits ..).trans (length_digits ..).symm) _ _
    · have equal : n / 10 = m / 10 := by omega
      have last : ∀ i < 10, ∀ j < 10, i < j → Text.hexDigit i < Text.hexDigit j := by decide
      rw [equal]
      exact append_left_lt (cons_lt_cons_iff.2
        (.inl (last _ (Nat.mod_lt _ (by omega)) _ (Nat.mod_lt _ (by omega)) (by omega))))

/-- Numbers of one width are compared first and what comes after them next. -/
theorem digits_append_lt {us vs : List Char} (fits : m < 10 ^ width) (less : n < m ∨ n = m ∧ us < vs) :
    digits width n ++ us < digits width m ++ vs := by
  rcases less with less | ⟨rfl, less⟩
  · exact append_lt_append (digits_lt less fits) ((length_digits ..).trans (length_digits ..).symm) _ _
  · exact append_left_lt less

/-- The same with a character between them. -/
theorem digits_cons_lt {us vs : List Char} (c : Char) (fits : m < 10 ^ width) (less : n < m ∨ n = m ∧ us < vs) :
    digits width n ++ c :: us < digits width m ++ c :: vs :=
  digits_append_lt fits (less.imp_right (And.imp_right cons_lt_cons_self.2))

theorem parts_lt {a b : Instant} (less : a.nanos < b.nanos) :
    a.date.months < b.date.months ∨ a.date.months = b.date.months ∧ (a.date.day < b.date.day ∨
      a.date.day = b.date.day ∧ (a.secondOfDay < b.secondOfDay ∨
        a.secondOfDay = b.secondOfDay ∧ a.subsecond < b.subsecond)) := by
  have floor (n : Int) {k : Int} (positive : 0 < k) : n.fdiv k = n / k ∧ n.fmod k = n % k :=
    ⟨Int.fdiv_eq_ediv_of_nonneg n (Int.le_of_lt positive), Int.fmod_eq_emod_of_nonneg n (Int.le_of_lt positive)⟩
  simp only [date, secondOfDay, subsecond, seconds, floor _ (show (0 : Int) < 86400 by decide),
    floor _ (show (0 : Int) < 1000000000 by decide)]
  rcases Int.lt_or_le (a.nanos / 1000000000 / 86400) (b.nanos / 1000000000 / 86400) with earlier | same
  · rcases dateOfDay_lt earlier with months | ⟨months, day⟩
    · exact .inl months
    · exact .inr ⟨months, .inl day⟩
  · have sameDay : a.nanos / 1000000000 / 86400 = b.nanos / 1000000000 / 86400 := by omega
    rw [sameDay]
    refine .inr ⟨rfl, .inr ⟨rfl, ?_⟩⟩
    omega

/-- Within the years of four digits, the stamps are ordered as the instants. -/
theorem stamp_lt {a b : Instant} (less : a.nanos < b.nanos) (start : 0 ≤ a.date.year) (stop : b.date.year ≤ 9999) :
    a.stamp < b.stamp := by
  have order := parts_lt less
  obtain ⟨first, last, days⟩ : 1 ≤ a.date.month ∧ a.date.month ≤ 12 ∧ a.date.day ≤ 31 := dateOfDay_bounds _
  obtain ⟨first', last', days'⟩ : 1 ≤ b.date.month ∧ b.date.month ≤ 12 ∧ b.date.day ≤ 31 := dateOfDay_bounds _
  have seconds : b.secondOfDay < 86400 := by
    rw [secondOfDay, Int.fmod_eq_emod_of_nonneg _ (by omega)]
    omega
  have nanos : b.subsecond < 1000000000 := by
    rw [subsecond, Int.fmod_eq_emod_of_nonneg _ (by omega)]
    omega
  -- What is compared by months and by seconds is compared part by part.
  have clock : a.secondOfDay < b.secondOfDay ∨ a.secondOfDay = b.secondOfDay ∧ a.subsecond < b.subsecond →
      a.secondOfDay / 3600 < b.secondOfDay / 3600 ∨ a.secondOfDay / 3600 = b.secondOfDay / 3600 ∧
        (a.secondOfDay / 60 % 60 < b.secondOfDay / 60 % 60 ∨ a.secondOfDay / 60 % 60 = b.secondOfDay / 60 % 60 ∧
          (a.secondOfDay % 60 < b.secondOfDay % 60 ∨
            a.secondOfDay % 60 = b.secondOfDay % 60 ∧ a.subsecond < b.subsecond)) := by
    omega
  have calendar {p : Prop} (order : a.date.months < b.date.months ∨ a.date.months = b.date.months ∧ p) :
      a.date.year.toNat < b.date.year.toNat ∨ a.date.year.toNat = b.date.year.toNat ∧
        (a.date.month < b.date.month ∨ a.date.month = b.date.month ∧ p) := by
    simp only [Date.months] at order
    rcases order with earlier | ⟨same, later⟩
    · omega
    · exact .inr ⟨by omega, .inr ⟨by omega, later⟩⟩
  have year := calendar (order.imp_right (And.imp_right (Or.imp_right (And.imp_right clock))))
  rw [String.lt_iff_toList_lt, stamp, stamp, String.toList_ofList, String.toList_ofList]
  simp only [dateText, clockText, append_assoc, cons_append]
  refine digits_cons_lt _ (by omega) (year.imp_right (And.imp_right fun month => ?_))
  refine digits_cons_lt _ (by omega) (month.imp_right (And.imp_right fun day => ?_))
  refine digits_cons_lt _ (by omega) (day.imp_right (And.imp_right fun hour => ?_))
  refine digits_cons_lt _ (by omega) (hour.imp_right (And.imp_right fun minute => ?_))
  refine digits_cons_lt _ (by omega) (minute.imp_right (And.imp_right fun second => ?_))
  refine digits_cons_lt _ (by omega) (second.imp_right (And.imp_right fun fraction => ?_))
  exact digits_append_lt (by omega) (.inl fraction)

theorem stamp_lt_iff {a b : Instant} (start : 0 ≤ a.date.year) (stop : a.date.year ≤ 9999) (start' : 0 ≤ b.date.year)
    (stop' : b.date.year ≤ 9999) : a.stamp < b.stamp ↔ a.nanos < b.nanos := by
  refine ⟨fun ordered => ?_, fun less => stamp_lt less start stop'⟩
  by_contra notLess
  rcases Int.lt_or_eq_of_le (Int.not_lt.1 notLess) with less | same
  · exact lt_asymm ordered (stamp_lt less start' stop)
  · rw [show a = b from congrArg Instant.mk same.symm] at ordered
    exact lt_irrefl _ ordered

end TableLineage.Instant
