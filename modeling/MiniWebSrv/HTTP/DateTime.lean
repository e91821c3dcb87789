import MiniWebSrv.HTTP.RespSources
import MiniWebSrv.Lib.Calendar

/-! # Dates in headers

`Header::FormatDateTime` and `Header::GetDateTime`, over the calendar which `gmtime_r`, `timegm`
and `strftime` are for. A timestamp is a whole number of seconds.
-/

namespace MiniWebSrv.HTTP

open Calendar RespSource

/-- `tm`, without the fields which nothing looks at. -/
structure Tm where
  tmSec : Int
  tmMin : Int
  tmHour : Int
  tmMday : Int
  tmMon : Int
  tmYear : Int
  tmWday : Int
  deriving DecidableEq, Repr

/-- The day of a timestamp. -/
def utcDate (timestamp : Int) : Date := Date.ofDayNumber (timestamp / 86400)

namespace TimeUtils

/-- `gmtime_r`, which fails where `tm_year` is too small for the year. -/
def gmTime (timestamp : Int) : Option Tm :=
  let date := utcDate timestamp
  let second := timestamp % 86400
  let tmYear := date.year - 1900
  if -2147483648 ≤ tmYear ∧ tmYear ≤ 2147483647 then
    some
      { tmSec := second % 60
        tmMin := second / 60 % 60
        tmHour := second / 3600
        tmMday := date.day + 1
        tmMon := date.month
        tmYear := tmYear
        tmWday := (timestamp / 86400 + 4) % 7 }
  else
    none

/-- `timegm`: every field but the month may be out of its range, and the month wraps around into
    another year. -/
def timeGM (tm : Tm) : Int :=
  let year := tm.tmYear + 1900 + tm.tmMon / 12
  let days := daysBeforeYear year + ((monthLengths year).take (tm.tmMon % 12).toNat).sum +
    (tm.tmMday - 1)
  ((days * 24 + tm.tmHour) * 60 + tm.tmMin) * 60 + tm.tmSec

end TimeUtils

namespace Header

/-! ## FormatDateTime -/

def dayNames : List (List Byte) :=
  [text "Sun", text "Mon", text "Tue", text "Wed", text "Thu", text "Fri", text "Sat"]

def monthNames : List (List Byte) :=
  [text "Jan", text "Feb", text "Mar", text "Apr", text "May", text "Jun", text "Jul",
    text "Aug", text "Sep", text "Oct", text "Nov", text "Dec"]

/-- `%a` and `%b` -/
def abbreviation (names : List (List Byte)) (n : Int) : List Byte :=
  if 0 ≤ n then names.getD n.toNat (text "?") else text "?"

/-- `%Y` -/
def decimalInt (n : Int) : List Byte :=
  if 0 ≤ n then decimalDigits n.toNat else ch '-' :: decimalDigits n.natAbs

/-- `%d`, `%H`, `%M` and `%S` -/
def twoDigits (n : Int) : List Byte :=
  if 0 ≤ n ∧ n < 10 then ch '0' :: decimalInt n else decimalInt n

/-- `%a, %d %b %Y %H:%M:%S GMT` -/
def dateText (tm : Tm) : List Byte :=
  abbreviation dayNames tm.tmWday ++ text ", " ++ twoDigits tm.tmMday ++ text " " ++
    abbreviation monthNames tm.tmMon ++ text " " ++ decimalInt (tm.tmYear + 1900) ++ text " " ++
    twoDigits tm.tmHour ++ text ":" ++ twoDigits tm.tmMin ++ text ":" ++ twoDigits tm.tmSec ++
    text " GMT"

/-- The string which `FormatDateTime` leaves in its buffer; a date which is too long for the 30
    bytes leaves them undefined. -/
def formatDateTime (timestamp : Int) : Option (List Byte) :=
  match TimeUtils.gmTime timestamp with
  | some tm => if (dateText tm).length < 30 then some (dateText tm) else none
  | none => some []

/-! ## GetDateTime -/

/-- `atoi`, for numbers which an `int` can tell. -/
def atoi (string : List Byte) : Int :=
  let start := string.dropWhile isSpace
  match start with
  | c :: rest =>
      if c = ch '-' then -(decimal (rest.takeWhile isDigit) : Int)
      else if c = ch '+' then decimal (rest.takeWhile isDigit)
      else decimal (start.takeWhile isDigit)
  | [] => 0

/-- The switch over the month. -/
def monthOf (first second third : Byte) : Int :=
  if first = ch 'A' then
    if second = ch 'p' then 3 else if second = ch 'u' then 7 else -1
  else if first = ch 'D' then
    11
  else if first = ch 'F' then
    2
  else if first = ch 'J' then
    if second = ch 'a' then 0
    else if third = ch 'l' then 6
    else if third = ch 'n' then 5
    else -1
  else if first = ch 'M' then
    if third = ch 'r' then 2 else if third = ch 'y' then 4 else -1
  else if first = ch 'N' then
    10
  else if first = ch 'O' then
    9
  else if first = ch 'S' then
    8
  else
    -1

/-- The fields at their places in a string of 29 bytes. -/
def dateFields (value : List Byte) : Tm where
  tmMday := atoi (value.drop 5)
  tmYear := atoi (value.drop 12) - 1900
  tmHour := atoi (value.drop 17)
  tmMin := atoi (value.drop 20)
  tmSec := atoi (value.drop 23)
  tmMon := monthOf (value.getD 8 0) (value.getD 9 0) (value.getD 10 0)
  tmWday := 0

/-- `GetDateTime` on a value without NUL bytes, with the text of its `FormatException`. -/
def getDateTime (value : List Byte) : Except String Int :=
  if value.length ≠ 29 then
    .error "DateTime has invalid length"
  else
    let tm := dateFields value
    if tm.tmYear = 0 ∨ tm.tmMon = 1 then
      .error "DateTime is invalid"
    else
      let retTime := TimeUtils.timeGM tm
      if retTime ≠ -1 then .ok retTime else .error "DateTime is invalid"

/-! ## Numbers in a text -/

theorem decimalDigits_eq (n : Nat) :
    decimalDigits n =
      (if n < 10 then [] else decimalDigits (n / 10)) ++ [UInt8.ofNat (48 + n % 10)] := by
  have digit : ∀ d, d < 10 → ch d.digitChar = UInt8.ofNat (48 + d) := by
    intro d small
    rw [ch, Nat.toNat_digitChar_of_lt_ten small, Nat.toUInt8]
  unfold decimalDigits
  split
  · rename_i single
    rw [Nat.toDigits_of_lt_base single, Nat.mod_eq_of_lt single]
    exact congrArg (· :: []) (digit n single)
  · rename_i more
    rw [Nat.toDigits_of_base_le (by decide) (by omega), List.map_append, List.map_singleton,
      digit _ (Nat.mod_lt n (by decide))]

theorem isDigit_digit {d : Nat} (small : d < 10) : isDigit (UInt8.ofNat (48 + d)) = true := by
  have all : ∀ d, d < 10 → isDigit (UInt8.ofNat (48 + d)) = true := by decide +kernel
  exact all d small

theorem digit_sub {d : Nat} (small : d < 10) : (UInt8.ofNat (48 + d) - ch '0').toNat = d := by
  have all : ∀ d, d < 10 → (UInt8.ofNat (48 + d) - ch '0').toNat = d := by decide +kernel
  exact all d small

/-- A text of digits with this value. -/
structure Tells (digits : List Byte) (n : Int) : Prop where
  some_ : digits ≠ []
  all : ∀ c ∈ digits, isDigit c = true
  value : (decimal digits : Int) = n

theorem decimalDigits_tells (n : Nat) : Tells (decimalDigits n) n := by
  induction n using Nat.strongRecOn with
  | _ n ih =>
      have digit : n % 10 < 10 := Nat.mod_lt n (by decide)
      rw [decimalDigits_eq]
      split
      · rename_i single
        refine ⟨List.cons_ne_nil _ _, ?_, ?_⟩
        · intro c inside
          rw [List.nil_append, List.mem_singleton] at inside
          subst inside
          exact isDigit_digit digit
        · rw [List.nil_append, decimal, List.foldl_cons, List.foldl_nil, digit_sub digit]
          omega
      · rename_i more
        have before := ih (n / 10) (by omega)
        refine ⟨List.append_ne_nil_of_right_ne_nil _ (List.cons_ne_nil _ _), ?_, ?_⟩
        · intro c inside
          rcases List.mem_append.mp inside with left | last
          · exact before.all c left
          · rw [List.mem_singleton] at last
            subst last
            exact isDigit_digit digit
        · have value := before.value
          rw [decimal] at value
          rw [decimal, List.foldl_append, List.foldl_cons, List.foldl_nil, digit_sub digit]
          omega

theorem decimalDigits_length {n k : Nat} (least : 10 ^ k ≤ n) (most : n < 10 ^ (k + 1)) :
    (decimalDigits n).length = k + 1 := by
  induction k generalizing n with
  | zero =>
      rw [decimalDigits_eq, if_pos (by omega)]
      rfl
  | succ k ih =>
      have power : 10 ^ (k + 1) = 10 * 10 ^ k := Nat.pow_succ'
      have next : 10 ^ (k + 2) = 10 * 10 ^ (k + 1) := Nat.pow_succ'
      have pos : 0 < 10 ^ k := Nat.pow_pos (by decide)
      rw [decimalDigits_eq, if_neg (by omega), List.length_append,
        ih (n := n / 10) (by omega) (by omega)]
      rfl

theorem decimalInt_tells {n : Int} (nonneg : 0 ≤ n) : Tells (decimalInt n) n := by
  have tells := decimalDigits_tells n.toNat
  rw [Int.toNat_of_nonneg nonneg] at tells
  rwa [decimalInt, if_pos nonneg]

theorem twoDigits_tells {n : Int} (nonneg : 0 ≤ n) : Tells (twoDigits n) n := by
  have tells := decimalInt_tells nonneg
  unfold twoDigits
  split
  · refine ⟨List.cons_ne_nil _ _, ?_, tells.value⟩
    intro c inside
    rcases List.mem_cons.mp inside with zero | inside
    · subst zero
      decide +kernel
    · exact tells.all c inside
  · exact tells

theorem twoDigits_length {n : Int} (nonneg : 0 ≤ n) (small : n < 100) :
    (twoDigits n).length = 2 := by
  rw [twoDigits, decimalInt, if_pos nonneg]
  split
  · rw [List.length_cons, decimalDigits_eq, if_pos (by omega)]
    rfl
  · exact decimalDigits_length (k := 1) (by omega) (by omega)

theorem isDigit_plain {c : Byte} (digit : isDigit c = true) :
    isSpace c = false ∧ c ≠ ch '-' ∧ c ≠ ch '+' := by
  rw [isDigit, decide_eq_true_eq, UInt8.le_iff_toNat_le, UInt8.le_iff_toNat_le] at digit
  have range : 48 ≤ c.toNat ∧ c.toNat ≤ 57 := digit
  refine ⟨?_, ?_, ?_⟩
  · rw [isSpace, decide_eq_false_iff_not, UInt8.le_iff_toNat_le, UInt8.le_iff_toNat_le]
    intro space
    rcases space with blank | ⟨-, most⟩
    · have same : c.toNat = 32 := congrArg UInt8.toNat blank
      omega
    · have most : c.toNat ≤ 13 := most
      omega
  · intro minus
    have same : c.toNat = 45 := congrArg UInt8.toNat minus
    omega
  · intro plus
    have same : c.toNat = 43 := congrArg UInt8.toNat plus
    omega

/-- `atoi` reads digits up to the first byte which is none. -/
theorem Tells.atoi {digits rest : List Byte} {n : Int} {c : Byte} (tells : Tells digits n)
    (ends : isDigit c = false) : atoi (digits ++ c :: rest) = n := by
  obtain ⟨some_, all, value⟩ := tells
  cases digits with
  | nil => exact absurd rfl some_
  | cons first digits =>
      obtain ⟨noSpace, noMinus, noPlus⟩ := isDigit_plain (all first List.mem_cons_self)
      rw [Header.atoi, List.cons_append, List.dropWhile_cons_of_neg (by simp [noSpace])]
      simp only [if_neg noMinus, if_neg noPlus]
      rw [← List.cons_append, List.takeWhile_append_of_pos all,
        List.takeWhile_cons_of_neg (by simp [ends]), List.append_nil]
      exact value

/-! ## A date in its text -/

theorem dayNames_length {n : Int} (nonneg : 0 ≤ n) (small : n < 7) :
    (abbreviation dayNames n).length = 3 := by
  have all : ∀ m, m < 7 → (dayNames.getD m (text "?")).length = 3 := by decide +kernel
  rw [abbreviation, if_pos nonneg]
  exact all n.toNat (by omega)

theorem monthNames_length {n : Int} (nonneg : 0 ≤ n) (small : n < 12) :
    (abbreviation monthNames n).length = 3 := by
  have all : ∀ m, m < 12 → (monthNames.getD m (text "?")).length = 3 := by decide +kernel
  rw [abbreviation, if_pos nonneg]
  exact all n.toNat (by omega)

/-- The month which the switch makes of the name of a month: February is taken for March. -/
theorem monthOf_name {n : Int} (nonneg : 0 ≤ n) (small : n < 12) :
    monthOf ((abbreviation monthNames n).getD 0 0) ((abbreviation monthNames n).getD 1 0)
      ((abbreviation monthNames n).getD 2 0) = if n = 1 then 2 else n := by
  have all : ∀ m, m < 12 →
      monthOf ((monthNames.getD m (text "?")).getD 0 0) ((monthNames.getD m (text "?")).getD 1 0)
        ((monthNames.getD m (text "?")).getD 2 0) = if m = 1 then 2 else (m : Int) := by
    decide +kernel
  rw [abbreviation, if_pos nonneg, all n.toNat (by omega), Int.toNat_of_nonneg nonneg]
  by_cases february : n = 1
  · rw [if_pos february, if_pos (by omega)]
  · rw [if_neg february, if_neg (by omega)]

/-- The fields which `gmtime_r` gives a timestamp of these years. -/
structure Proper (tm : Tm) : Prop where
  sec : 0 ≤ tm.tmSec ∧ tm.tmSec < 60
  min : 0 ≤ tm.tmMin ∧ tm.tmMin < 60
  hour : 0 ≤ tm.tmHour ∧ tm.tmHour < 24
  mday : 0 ≤ tm.tmMday ∧ tm.tmMday < 32
  mon : 0 ≤ tm.tmMon ∧ tm.tmMon < 12
  year : 1000 ≤ tm.tmYear + 1900 ∧ tm.tmYear + 1900 ≤ 9999
  wday : 0 ≤ tm.tmWday ∧ tm.tmWday < 7

theorem Proper.year_length {tm : Tm} (proper : Proper tm) :
    (decimalInt (tm.tmYear + 1900)).length = 4 := by
  have range := proper.year
  rw [decimalInt, if_pos (by omega)]
  exact decimalDigits_length (k := 3) (by omega) (by omega)

theorem parts_at {wday mday mon year hour min sec : List Byte} (wday3 : wday.length = 3)
    (mday2 : mday.length = 2) (mon3 : mon.length = 3) (year4 : year.length = 4)
    (hour2 : hour.length = 2) (min2 : min.length = 2) (sec2 : sec.length = 2) :
    let value := wday ++ text ", " ++ mday ++ text " " ++ mon ++ text " " ++ year ++ text " " ++
      hour ++ text ":" ++ min ++ text ":" ++ sec ++ text " GMT"
    value.length = 29 ∧ (∃ rest, value.drop 5 = mday ++ ch ' ' :: rest) ∧
      (value.getD 8 0 = mon.getD 0 0 ∧ value.getD 9 0 = mon.getD 1 0 ∧
        value.getD 10 0 = mon.getD 2 0) ∧
      (∃ rest, value.drop 12 = year ++ ch ' ' :: rest) ∧
      (∃ rest, value.drop 17 = hour ++ ch ':' :: rest) ∧
      (∃ rest, value.drop 20 = min ++ ch ':' :: rest) ∧
      ∃ rest, value.drop 23 = sec ++ ch ' ' :: rest := by
  obtain ⟨w0, w1, w2, rfl⟩ := List.length_eq_three.mp wday3
  obtain ⟨d0, d1, rfl⟩ := List.length_eq_two.mp mday2
  obtain ⟨m0, m1, m2, rfl⟩ := List.length_eq_three.mp mon3
  obtain ⟨y0, tail, rfl, year3⟩ := List.length_eq_succ_iff.mp year4
  obtain ⟨y1, y2, y3, rfl⟩ := List.length_eq_three.mp year3
  obtain ⟨h0, h1, rfl⟩ := List.length_eq_two.mp hour2
  obtain ⟨i0, i1, rfl⟩ := List.length_eq_two.mp min2
  obtain ⟨s0, s1, rfl⟩ := List.length_eq_two.mp sec2
  have comma : text ", " = [ch ',', ch ' '] := rfl
  have gap : text " " = [ch ' '] := rfl
  have colon : text ":" = [ch ':'] := rfl
  have zone : text " GMT" = [ch ' ', ch 'G', ch 'M', ch 'T'] := rfl
  simp only [comma, gap, colon, zone, List.cons_append, List.nil_append]
  exact ⟨rfl, ⟨_, rfl⟩, ⟨rfl, rfl, rfl⟩, ⟨_, rfl⟩, ⟨_, rfl⟩, ⟨_, rfl⟩, ⟨_, rfl⟩⟩

/-- The text of a date has the length of the sample, and its numbers are where they should be. -/
theorem Proper.dateText {tm : Tm} (proper : Proper tm) :
    (dateText tm).length = 29 ∧
      dateFields (dateText tm) =
        { tm with tmMon := if tm.tmMon = 1 then 2 else tm.tmMon, tmWday := 0 } := by
  obtain ⟨sec, min, hour, mday, mon, year, wday⟩ := proper
  have name := monthOf_name mon.1 mon.2
  obtain ⟨length, ⟨_, mdayAt⟩, ⟨first, second, third⟩, ⟨_, yearAt⟩, ⟨_, hourAt⟩, ⟨_, minAt⟩,
    ⟨_, secAt⟩⟩ :=
    parts_at (dayNames_length wday.1 wday.2) (twoDigits_length mday.1 (by omega))
      (monthNames_length mon.1 mon.2) (Proper.year_length ⟨sec, min, hour, mday, mon, year, wday⟩)
      (twoDigits_length hour.1 (by omega)) (twoDigits_length min.1 (by omega))
      (twoDigits_length sec.1 (by omega))
  refine ⟨length, ?_⟩
  have blank : isDigit (ch ' ') = false := by decide +kernel
  have colon : isDigit (ch ':') = false := by decide +kernel
  have yearTells := decimalInt_tells (n := tm.tmYear + 1900) (by omega)
  simp only [dateFields, Header.dateText, mdayAt, first, second, third, yearAt, hourAt, minAt,
    secAt, name, (twoDigits_tells mday.1).atoi blank, yearTells.atoi blank,
    (twoDigits_tells hour.1).atoi colon, (twoDigits_tells min.1).atoi colon,
    (twoDigits_tells sec.1).atoi blank, Int.add_sub_cancel]

/-! ## The round trip -/

/-- The years which take four digits after the epoch. -/
def FourDigits (timestamp : Int) : Prop :=
  1970 ≤ (utcDate timestamp).year ∧ (utcDate timestamp).year ≤ 9999

/-- A timestamp of these years has its fields, and they tell the day and the second. -/
theorem gmTime_proper {timestamp : Int} (years : FourDigits timestamp) :
    ∃ tm, TimeUtils.gmTime timestamp = some tm ∧ Proper tm ∧
      tm.tmMon = (utcDate timestamp).month ∧ tm.tmYear = (utcDate timestamp).year - 1900 ∧
      tm.tmMday = (utcDate timestamp).day + 1 ∧
      (tm.tmHour * 60 + tm.tmMin) * 60 + tm.tmSec = timestamp % 86400 := by
  have month := (utcDate timestamp).month_lt
  have day := (utcDate timestamp).day_lt
  obtain ⟨first, last⟩ := years
  refine ⟨_, if_pos ⟨by omega, by omega⟩, ⟨?_, ?_, ?_, ?_, ?_, ?_, ?_⟩, rfl, rfl, rfl, ?_⟩
  all_goals
    dsimp only
    omega

theorem FourDigits.nonneg {timestamp : Int} (years : FourDigits timestamp) : 0 ≤ timestamp := by
  have whole := Date.dayNumber_ofDayNumber (timestamp / 86400)
  have epoch := daysBeforeYear_mono years.1
  have zero : daysBeforeYear 1970 = 0 := by decide
  rw [Date.dayNumber] at whole
  rw [utcDate] at epoch
  omega

theorem timeGM_month (tm : Tm) (month : Nat) (small : month < 12) (mon : tm.tmMon = month) :
    TimeUtils.timeGM tm =
      86400 * (daysBeforeYear (tm.tmYear + 1900) +
        ((monthLengths (tm.tmYear + 1900)).take month).sum + (tm.tmMday - 1)) +
      ((tm.tmHour * 60 + tm.tmMin) * 60 + tm.tmSec) := by
  have sameYear : tm.tmYear + 1900 + tm.tmMon / 12 = tm.tmYear + 1900 := by omega
  have sameMonth : (tm.tmMon % 12).toNat = month := by omega
  simp only [TimeUtils.timeGM, sameYear, sameMonth]
  omega

/-- A value whose fields are in order is the time which they tell. -/
theorem getDateTime_fields {value : List Byte} {tm : Tm} (length : value.length = 29)
    (fields : dateFields value = tm) (year : tm.tmYear ≠ 0) (mon : tm.tmMon ≠ 1)
    (nonneg : 0 ≤ TimeUtils.timeGM tm) : getDateTime value = .ok (TimeUtils.timeGM tm) := by
  rw [getDateTime, if_neg (not_not_intro length), fields]
  simp only [year, mon, or_self, if_false]
  exact if_pos (by omega)

/-- What comes back of a date: February is put off until March. -/
theorem getDateTime_formatDateTime {timestamp : Int} (years : FourDigits timestamp) :
    ∃ value, formatDateTime timestamp = some value ∧
      getDateTime value = .ok (if (utcDate timestamp).month = 1 then
        timestamp + 86400 * ((monthLengths (utcDate timestamp).year).getD 1 0 : Nat)
      else timestamp) := by
  obtain ⟨tm, made, proper, mon, year, mday, second⟩ := gmTime_proper years
  obtain ⟨length, fields⟩ := proper.dateText
  have formatted : formatDateTime timestamp = some (dateText tm) := by
    delta formatDateTime
    simp only [made, length]
    rfl
  refine ⟨dateText tm, formatted, ?_⟩
  have whole := Date.dayNumber_ofDayNumber (timestamp / 86400)
  rw [Date.dayNumber, Date.dayOfYear, ← utcDate] at whole
  have nonneg := years.nonneg
  have yearIs : tm.tmYear + 1900 = (utcDate timestamp).year := by omega
  have later : tm.tmYear ≠ 0 := by
    have := years.1
    omega
  by_cases february : (utcDate timestamp).month = 1
  · have march : tm.tmMon = 1 := by omega
    rw [if_pos march] at fields
    have time := timeGM_month { tm with tmMon := 2, tmWday := 0 } 2 (by decide) rfl
    dsimp only at time
    rw [yearIs, sum_take_succ _ 1] at time
    rw [february] at whole
    have moved : (2 : Int) ≠ 1 := by decide
    rw [if_pos february, getDateTime_fields length fields later moved (by omega)]
    apply congrArg Except.ok
    omega
  · have other : tm.tmMon ≠ 1 := by omega
    rw [if_neg other] at fields
    have time := timeGM_month { tm with tmWday := 0 } _ (utcDate timestamp).month_lt mon
    dsimp only at time
    rw [yearIs] at time
    rw [if_neg february, getDateTime_fields length fields later other (by omega)]
    apply congrArg Except.ok
    omega

end Header

end MiniWebSrv.HTTP
