/-
  OracleNFA.Proofs.NumberText
  ───────────────────────────
  **WHICH NUMBERS ARE WRITTEN AS NATURAL NUMBERS.**

  A state is looked up under its text.  Numbers that are not safe natural
  numbers have texts too: some hold a sign, a point, an exponent or a word, but a
  large number is written in digits alone.  No number is taken for a safe natural
  number that way:

      eq_of_catchment, unsafe_of_catchment
                         — a natural number that rounds to a number is the number
                           itself, or not safe
      shortest_unsafe    — so what a number is written as, if it is not safe, is
                           not safe either
      toText_eq_ofDigits — a number has the text of a safe natural number exactly
                           if it is that natural number

  All this is about numbers of the binary64 format; other rationals are rounded
  when they are written.
-/
import Mathlib.Algebra.Order.Field.Power
import Mathlib.Data.Rat.Floor
import Mathlib.Tactic.FieldSimp
import Mathlib.Tactic.Linarith
import Mathlib.Tactic.Positivity
import OracleNFA.Number.Shortest
import OracleNFA.Proofs.Numeral

namespace OracleNFA

namespace Number

variable {value : Rat}

/-! ## §1. Numbers of the format. -/

/-- A number that rounding leaves as it is. -/
def IsBinary64 : Number → Prop
  | .finite value => nearest value = .finite value
  | .nan | .infinite _ | .negativeZero => True

/-- The last place of the numbers around a value. -/
def placeOf (value : Rat) : Int :=
  lastPlace value.num.natAbs value.den

/-- What the number nearest to a value counts in units of that place. -/
def unitsOf (value : Rat) : Nat :=
  significand value.num.natAbs value.den (placeOf value)

theorem scaledBy_eq (base m : Nat) (place : Int) :
    scaledBy base m place = (m : ℚ) * base ^ place := by
  unfold scaledBy
  split
  · next h =>
      obtain ⟨k, rfl⟩ := Int.eq_ofNat_of_zero_le h
      simp
  · next h =>
      obtain ⟨k, hk⟩ := Int.eq_ofNat_of_zero_le (a := -place) (by omega)
      obtain rfl : place = -(k : Int) := by omega
      rw [Rat.mkRat_eq_div, zpow_neg, Int.neg_neg]
      simp [div_eq_mul_inv]

theorem scaled_eq (m : Nat) (place : Int) : scaled m place = (m : ℚ) * 2 ^ place :=
  scaledBy_eq 2 m place

theorem powerOfTen_eq (e : Int) : powerOfTen e = (10 : ℚ) ^ e := by
  have h := scaledBy_eq 10 1 e
  rwa [Nat.cast_one, one_mul] at h

/-- A positive number of the format is its units of its last place. -/
theorem eq_units (hpos : 0 < value) (h : nearest value = .finite value) :
    value = unitsOf value * 2 ^ placeOf value := by
  have hsign : ¬ value.num < 0 := not_lt.2 (Rat.num_pos.2 hpos).le
  unfold nearest nearestWithSign at h
  simp only [hsign, decide_false, Bool.false_eq_true, if_false] at h
  split at h
  · have hzero : value = 0 := by simpa using (Number.finite.inj h).symm
    exact absurd hzero hpos.ne'
  · split at h
    · exact absurd h (by simp)
    · rw [← scaled_eq]
      exact (Number.finite.inj h).symm

theorem natAbs_num_natCast (n : Nat) : (n : ℚ).num.natAbs = n ∧ (n : ℚ).den = 1 := by
  constructor
  · simp
  · simp

/-- A number whose last place is above the ones is natural, and has all 53 bits. -/
theorem natural_of_place_pos (hpos : 0 < value) (h : nearest value = .finite value)
    (hplace : 0 < placeOf value) :
    Nat.pow 2 52 ≤ unitsOf value ∧
      ∃ n : Nat, value = n ∧ placeOf value = (Nat.log2 n : Int) - 52 := by
  have hunits := eq_units hpos h
  -- Units above the ones are a power of two, so the value is a product of natural numbers.
  obtain ⟨k, hk⟩ := Int.eq_ofNat_of_zero_le hplace.le
  rw [hk, zpow_natCast] at hunits
  obtain ⟨n, rfl⟩ : ∃ n : Nat, value = n := by
    refine ⟨unitsOf value * 2 ^ k, ?_⟩
    push_cast
    exact hunits
  have hn : 0 < n := by exact_mod_cast hpos
  obtain ⟨hnum, hden⟩ := natAbs_num_natCast n
  have hlog : placeOf n = (Nat.log2 n : Int) - 52 := by
    unfold placeOf
    rw [hnum, hden, lastPlace_one hn]
  refine ⟨?_, n, rfl, hlog⟩
  unfold unitsOf
  rw [hnum, hden, hk]
  exact le_significand hn (by omega)

/-! ## §2. What rounds to a number. -/

theorem Catchment.bounds {c : Catchment} {x : Rat} (h : c.holds x = true) :
    c.low ≤ x ∧ x ≤ c.high := by
  unfold holds at h
  split at h
  · simpa using h
  · simp only [Bool.and_eq_true, decide_eq_true_eq] at h
    exact ⟨h.1.le, h.2.le⟩

theorem scaled_one_sub (place : Int) (k : Nat) : scaled 1 (place - k) = 2 ^ place / 2 ^ k := by
  rw [scaled_eq, Nat.cast_one, one_mul, zpow_sub₀ (by norm_num), zpow_natCast]

/-- What rounds to a number is at most half a unit away, and where the units begin to double only a
quarter below. -/
theorem catchment_bounds {x : Rat} (h : (catchment value).holds x = true) :
    |x - value| ≤ 2 ^ placeOf value / 2 ∧
      (unitsOf value = Nat.pow 2 52 → 0 < placeOf value → value - 2 ^ placeOf value / 4 ≤ x) := by
  obtain ⟨hlow, hhigh⟩ := Catchment.bounds h
  have hunit : (0 : ℚ) < 2 ^ placeOf value := by positivity
  have hhalf : scaled 1 (placeOf value - 1) = 2 ^ placeOf value / 2 := by
    exact_mod_cast scaled_one_sub (placeOf value) 1
  have hquarter : scaled 1 (placeOf value - 2) = 2 ^ placeOf value / 4 := by
    rw [show (4 : ℚ) = 2 ^ 2 by norm_num]
    exact_mod_cast scaled_one_sub (placeOf value) 2
  have hhigh' : x ≤ value + 2 ^ placeOf value / 2 := hhalf ▸ hhigh
  have hlow' : value - (if unitsOf value = Nat.pow 2 52 ∧ -1074 < placeOf value
      then 2 ^ placeOf value / 4 else 2 ^ placeOf value / 2) ≤ x := by
    rw [← hhalf, ← hquarter]
    exact hlow
  -- A quarter below is less than half a unit below.
  refine ⟨abs_le.2 ⟨?_, by linarith⟩, fun hunits hplace => ?_⟩
  · split at hlow' <;> linarith
  · rw [if_pos ⟨hunits, by omega⟩] at hlow'
    exact hlow'

/-- Of the natural numbers only the number itself rounds to one with places behind the point. -/
theorem eq_of_catchment (hpos : 0 < value) (h : nearest value = .finite value)
    (hplace : placeOf value ≤ 0) {n : Nat} (hn : (catchment value).holds n = true) : value = n := by
  obtain ⟨k, hk⟩ := Int.eq_ofNat_of_zero_le (a := -placeOf value) (by omega)
  have hpow : (0 : ℚ) < 2 ^ k := by positivity
  have hunit : (2 : ℚ) ^ placeOf value = 1 / 2 ^ k := by
    rw [show placeOf value = -(k : Int) by omega, zpow_neg, zpow_natCast, one_div]
  have hunits := eq_units hpos h
  obtain ⟨hclose, _⟩ := catchment_bounds hn
  rw [hunit] at hunits hclose
  have hvalue : value * 2 ^ k = unitsOf value := by
    rw [mul_one_div] at hunits
    exact (eq_div_iff hpow.ne').1 hunits
  -- Both are multiples of one unit, less than a unit apart.
  have hdiff : |((n * 2 ^ k : Nat) : Int) - (unitsOf value : Int)| < 1 := by
    have hdiff : |(n : ℚ) * 2 ^ k - unitsOf value| < 1 := by
      calc |(n : ℚ) * 2 ^ k - unitsOf value|
        _ = |(n : ℚ) - value| * 2 ^ k := by
            rw [← hvalue, ← sub_mul, abs_mul, abs_of_pos hpow]
        _ ≤ 1 / 2 ^ k / 2 * 2 ^ k := mul_le_mul_of_nonneg_right hclose hpow.le
        _ = 1 / 2 := by field_simp
        _ < 1 := by norm_num
    exact_mod_cast hdiff
  have heq : n * 2 ^ k = unitsOf value := by
    have := Int.abs_lt_one_iff.1 hdiff
    omega
  refine mul_right_cancel₀ hpow.ne' (hvalue.trans ?_)
  exact_mod_cast heq.symm

/-- A natural number that rounds to a number with all 53 bits before the point is not safe. -/
theorem unsafe_of_catchment (hpos : 0 < value) (h : nearest value = .finite value)
    (hplace : 0 < placeOf value) {n : Nat} (hn : (catchment value).holds n = true) :
    maxSafe < n := by
  obtain ⟨hclose, hquarter⟩ := catchment_bounds hn
  have hunits := eq_units hpos h
  have hfull := (natural_of_place_pos hpos h hplace).1
  have htwo : (2 : ℚ) ≤ 2 ^ placeOf value := by
    calc (2 : ℚ)
      _ = 2 ^ (1 : Int) := (zpow_one 2).symm
      _ ≤ 2 ^ placeOf value := zpow_le_zpow_right₀ (by norm_num) (by omega)
  have hsafe : (maxSafe : ℚ) = 2 ^ 53 - 1 := by norm_num [maxSafe]
  have hlow : (maxSafe : ℚ) < n := by
    rw [hsafe]
    generalize (2 : ℚ) ^ placeOf value = unit at *
    rcases Nat.eq_or_lt_of_le hfull with heq | hlt
    · -- At a power of two the numbers below are nearer, so a quarter is all there is.
      have hlow := hquarter heq.symm hplace
      have hm : (unitsOf value : ℚ) = 2 ^ 52 := by exact_mod_cast heq.symm
      rw [hm] at hunits
      linarith
    · have hlow := (abs_le.1 hclose).1
      have hm : (2 ^ 52 + 1 : ℚ) ≤ unitsOf value := by exact_mod_cast hlt
      have hscaled : (2 ^ 52 + 1) * unit ≤ unitsOf value * unit :=
        mul_le_mul_of_nonneg_right hm (by linarith)
      linarith
  exact_mod_cast hlow

/-! ## §3. The decimals that are tried. -/

/-- The value of a decimal. -/
def Decimal.toRat (d : Decimal) : Rat :=
  d.digits * 10 ^ (d.point - d.length)

theorem holds_of_candidate? {c : Catchment} {point : Int} {length digits : Nat}
    (h : candidate? c value point length = some digits) :
    c.holds (digits * 10 ^ (point - length)) = true := by
  rw [← powerOfTen_eq]
  unfold candidate? at h
  dsimp only at h
  split at h
  · next hboth =>
      simp only [Bool.and_eq_true] at hboth
      obtain ⟨⟨_, hlower⟩, hupper⟩ := hboth
      have hdigits := Option.some.inj h
      split at hdigits
      · exact hdigits ▸ hlower
      · split at hdigits
        · exact hdigits ▸ hupper
        · split at hdigits
          · exact hdigits ▸ hlower
          · exact hdigits ▸ hupper
  · split at h
    · next hlower =>
        simp only [Bool.and_eq_true] at hlower
        exact Option.some.inj h ▸ hlower.2
    · obtain ⟨hupper, hdigits⟩ := Option.ite_none_right_eq_some.1 h
      exact Option.some.inj hdigits ▸ hupper

/-- The first decimal found rounds to the number, or none was found. -/
theorem firstCandidate_cases (c : Catchment) (value : Rat) (point : Int) (more : Nat) :
    ∀ length : Nat,
      c.holds (firstCandidate c value point more length).toRat = true ∨
        firstCandidate c value point more length =
          ⟨(value / powerOfTen (point - (length + more : Nat))).floor.toNat,
            length + more, point⟩ := by
  induction more with
  | zero => exact fun length => .inr rfl
  | succ more ih =>
      intro length
      rw [firstCandidate]
      cases hcandidate : candidate? c value point length with
      | none =>
          dsimp only
          rw [show length + (more + 1) = length + 1 + more by omega]
          exact ih (length + 1)
      | some digits =>
          left
          have hholds := holds_of_candidate? hcandidate
          dsimp only
          split
          · next hpower =>
              -- A one and zeros are written as a one.
              have hvalue : Decimal.toRat ⟨1, 1, point + 1⟩ = digits * 10 ^ (point - length) := by
                rw [hpower]
                show ((1 : Nat) : ℚ) * 10 ^ (point + 1 - (1 : Nat)) = ((10 ^ length : Nat) : ℚ) * _
                rw [zpow_sub₀ (by norm_num), zpow_sub₀ (by norm_num), zpow_add₀ (by norm_num)]
                push_cast
                field_simp
                exact zpow_natCast _ _
              rw [hvalue]
              exact hholds
          · exact hholds

/-- A value with so many places before the point has many bits before it. -/
theorem large_of_decimalPoint (hpos : 0 < value) (h : nearest value = .finite value)
    (hpoint : 18 ≤ decimalPoint value) : ∃ n : Nat, value = n ∧ 2 ^ 54 ≤ n := by
  have hexponent : 54 ≤ binaryExponent value.num.natAbs value.den := by
    unfold decimalPoint at hpoint
    dsimp only at hpoint
    split at hpoint
    · omega
    · split at hpoint <;> omega
  have hplace : placeOf value = binaryExponent value.num.natAbs value.den - 52 := by
    unfold placeOf lastPlace
    omega
  obtain ⟨_, n, rfl, hlog⟩ := natural_of_place_pos hpos h (by omega)
  have hn : n ≠ 0 := by
    rintro rfl
    exact absurd hpos (by simp)
  exact ⟨n, rfl, (Nat.le_log2 hn).1 (by omega)⟩

/-- The natural number that a decimal with no digit behind the point is. -/
def Decimal.whole (d : Decimal) : Nat :=
  d.digits * 10 ^ (d.point.toNat - d.length)

theorem Decimal.toRat_eq_whole {d : Decimal} (h : (d.length : Int) ≤ d.point) :
    d.toRat = d.whole := by
  unfold Decimal.toRat whole
  rw [show d.point - d.length = ((d.point.toNat - d.length : Nat) : Int) by omega, zpow_natCast]
  push_cast
  rfl

/-- **A number that is no safe natural number is not written as one.** -/
theorem shortest_unsafe (hpos : 0 < value) (h : nearest value = .finite value)
    (hlarge : ¬ (value.den = 1 ∧ value.num.natAbs ≤ maxSafe))
    (hlength : ((shortest value).length : Int) ≤ (shortest value).point)
    (hpoint : (shortest value).point ≤ 21) : maxSafe < (shortest value).whole := by
  rcases firstCandidate_cases (catchment value) value (decimalPoint value) 17 1 with hholds | hlast
  · -- A decimal that was found is a natural number, and rounds to the value.
    have hnatural : (catchment value).holds (shortest value).toRat = true := hholds
    rw [Decimal.toRat_eq_whole hlength] at hnatural
    by_cases hplace : 0 < placeOf value
    · exact unsafe_of_catchment hpos h hplace hnatural
    · have heq := eq_of_catchment hpos h (not_lt.1 hplace) hnatural
      generalize (shortest value).whole = n at *
      rw [heq] at hlarge
      obtain ⟨hnum, hden⟩ := natAbs_num_natCast n
      rw [hnum, hden] at hlarge
      omega
  · -- Otherwise the value was cut off behind 18 digits: at most three of its digits
    -- are lost, and it has more bits than a safe number.
    have hlast : shortest value = _ := hlast
    unfold Decimal.whole
    rw [hlast] at hlength hpoint ⊢
    dsimp only at hlength hpoint ⊢
    obtain ⟨n, hn, hbig⟩ := large_of_decimalPoint hpos h (by omega)
    obtain ⟨j, hj⟩ := Int.eq_ofNat_of_zero_le (a := decimalPoint value - 18) (by omega)
    have hfloor :
        (value / powerOfTen (decimalPoint value - (1 + 17 : Nat))).floor.toNat = n / 10 ^ j := by
      rw [show decimalPoint value - (1 + 17 : Nat) = (j : Int) by omega, powerOfTen_eq,
        zpow_natCast, hn]
      have hdiv := Rat.floor_intCast_div_natCast (n : Int) (10 ^ j)
      push_cast at hdiv
      rw [show ((n : ℚ) / 10 ^ j).floor = ⌊(n : ℚ) / 10 ^ j⌋ from rfl, hdiv]
      norm_cast
    rw [hfloor, show (decimalPoint value).toNat - (1 + 17) = j by omega]
    have hsmall : (10 : Nat) ^ j ≤ 10 ^ 3 := Nat.pow_le_pow_right (by decide) (by omega)
    have hrest := Nat.div_add_mod' n (10 ^ j)
    have hmod := Nat.mod_lt n (y := 10 ^ j) (by positivity)
    have hsafe : maxSafe = 2 ^ 53 - 1 := rfl
    omega

end Number

/-! ## §4. Texts of numbers. -/

namespace Text

/-- The text of a natural number holds digits only. -/
theorem foreign_not_mem {s : String} {k : Nat} (h : ofString s = ofDigits k) {c : Char}
    (hc : c.toNat < 0x10000 ∧ c.isDigit = false) : c ∉ s.toList := by
  intro hmem
  have hunit : UInt16.ofNat c.toNat ∈ (ofString s).units := by
    refine List.mem_flatMap.2 ⟨c.toNat, List.mem_map_of_mem hmem, ?_⟩
    unfold unitsOfPoint
    rw [if_pos hc.1]
    exact List.mem_singleton_self _
  rw [h, units_ofDigits] at hunit
  obtain ⟨d, hd, heq⟩ := List.mem_map.1 hunit
  have hdigit := Nat.isDigit_of_mem_toDigits (by decide) (by decide) hd
  have hcode := congrArg UInt16.toNat heq
  rw [UInt16.toNat_ofNat', UInt16.toNat_ofNat', Nat.mod_eq_of_lt (toNat_lt_of_isDigit hdigit),
    Nat.mod_eq_of_lt hc.1] at hcode
  rw [Char.toNat_inj.1 hcode, hc.2] at hdigit
  exact absurd hdigit (by simp)

theorem ofDigits_inj {m n : Nat} : ofDigits m = ofDigits n ↔ m = n := by
  constructor
  · intro h
    have hread := decimal?_eq_some.2 h
    rw [decimal?_eq_some.2 rfl] at hread
    exact Option.some.inj hread
  · exact congrArg ofDigits

theorem eq_of_units {s t : Text} (h : s.units = t.units) : s = t := by
  cases s
  cases t
  exact congrArg Text.mk h

theorem units_ofString_append (cs ds : List Char) :
    (ofString (String.ofList (cs ++ ds))).units =
      (ofString (String.ofList cs)).units ++ (ofString (String.ofList ds)).units := by
  show ((String.ofList (cs ++ ds)).toList.map Char.toNat).flatMap unitsOfPoint =
    ((String.ofList cs).toList.map Char.toNat).flatMap unitsOfPoint ++
      ((String.ofList ds).toList.map Char.toNat).flatMap unitsOfPoint
  rw [String.toList_ofList, String.toList_ofList, String.toList_ofList, List.map_append,
    List.flatMap_append]

/-- Zeros behind the digits of a positive number multiply it by ten. -/
theorem ofString_digits_zeros {n : Nat} (hn : 0 < n) (z : Nat) :
    ofString (String.ofList ((Nat.repr n).toList ++ Number.zeros z)) = ofDigits (n * 10 ^ z) := by
  apply eq_of_units
  induction z with
  | zero =>
      rw [show Number.zeros 0 = [] from rfl, List.append_nil, String.ofList_toList, Nat.pow_zero,
        Nat.mul_one]
      rfl
  | succ z ih =>
      have hzeros : Number.zeros (z + 1) = Number.zeros z ++ ['0'] := List.replicate_succ'
      have hpush : n * 10 ^ (z + 1) = n * 10 ^ z * 10 + 0 := by ring
      rw [hzeros, ← List.append_assoc, units_ofString_append, ih, hpush,
        units_ofDigits_push (by positivity) (by decide)]
      rfl

end Text

namespace Number

variable {value : Rat}

/-- A positive number that is no safe natural number is not written as one. -/
theorem write_ne_ofDigits (hpos : 0 < value) (h : nearest value = .finite value)
    (hlarge : ¬ (value.den = 1 ∧ value.num.natAbs ≤ maxSafe)) {k : Nat} (hk : k ≤ maxSafe) :
    Text.ofString (String.ofList (layout.write (shortest value))) ≠ Text.ofDigits k := by
  intro htext
  have hexponent : 'e' ∉ layout.write (shortest value) := by
    simpa using Text.foreign_not_mem htext (c := 'e') (by decide)
  have hpoint : '.' ∉ layout.write (shortest value) := by
    simpa using Text.foreign_not_mem htext (c := '.') (by decide)
  -- Every layout but digits and zeros writes an exponent or a point.
  unfold Layout.write at htext hexponent hpoint
  dsimp only at htext hexponent hpoint
  split at htext
  · next hlayout =>
      rw [if_pos hlayout] at hexponent
      simp at hexponent
  · next hlayout =>
      rw [if_neg hlayout] at hpoint
      split at htext
      · next hzero =>
          rw [if_pos hzero] at hpoint
          simp at hpoint
      · next hzero =>
          rw [if_neg hzero] at hpoint
          split at htext
          · -- Digits and zeros: a natural number, and not a safe one.
            next hlength =>
              have hlargest : layout.largestPoint = 21 := rfl
              have hunsafe := shortest_unsafe hpos h hlarge (by omega) (by omega)
              unfold Decimal.whole at hunsafe
              have hdigits : 0 < (shortest value).digits := by
                refine Nat.pos_of_ne_zero fun hdigits => ?_
                rw [hdigits] at hunsafe
                omega
              rw [Text.ofString_digits_zeros hdigits, Text.ofDigits_inj] at htext
              omega
          · next hlength =>
              rw [if_neg hlength] at hpoint
              simp at hpoint

/-- A value with the text of a safe natural number is not negative. -/
theorem rationalText_nonneg {k : Nat} (h : rationalText value = Text.ofDigits k) : 0 ≤ value := by
  by_contra hnegative
  have hsign : '-' ∉ _ := Text.foreign_not_mem h (c := '-') (by decide)
  rw [if_pos (not_le.1 hnegative)] at hsign
  simp at hsign

/-- The natural number that a value without denominator is. -/
theorem exists_natCast (hnonneg : 0 ≤ value) (hden : value.den = 1) : ∃ n : Nat, value = n := by
  refine ⟨value.num.toNat, ?_⟩
  have hnum : (value.num : ℚ) = value := (Rat.den_eq_one_iff value).1 hden
  rw [← Int.toNat_of_nonneg (Rat.num_nonneg.2 hnonneg)] at hnum
  exact_mod_cast hnum.symm

theorem rationalText_eq_ofDigits (h : nearest value = .finite value) {k : Nat} (hk : k ≤ maxSafe) :
    rationalText value = Text.ofDigits k ↔ value = k := by
  constructor
  · intro htext
    have hnonneg := rationalText_nonneg htext
    unfold rationalText at htext
    rw [if_neg (not_lt.2 hnonneg), if_neg (not_lt.2 hnonneg)] at htext
    dsimp only at htext
    rw [List.nil_append] at htext
    by_cases hsafe : value.den = 1 ∧ value.num.natAbs ≤ maxSafe
    · obtain ⟨n, rfl⟩ := exists_natCast hnonneg hsafe.1
      rw [if_pos hsafe, String.ofList_toList, (natAbs_num_natCast n).1] at htext
      exact congrArg Nat.cast (Text.ofDigits_inj.1 htext)
    · rw [if_neg hsafe] at htext
      have hpos : 0 < value := by
        refine lt_of_le_of_ne hnonneg ?_
        rintro rfl
        exact hsafe (by decide)
      exact absurd htext (write_ne_ofDigits hpos h hsafe hk)
  · rintro rfl
    obtain ⟨hnum, hden⟩ := natAbs_num_natCast k
    have hsign : ¬ (k : ℚ) < 0 := not_lt.2 (Nat.cast_nonneg k)
    unfold rationalText
    rw [if_neg hsign, if_pos ⟨hden, hnum.symm ▸ hk⟩, hnum]
    exact congrArg Text.ofString (String.ofList_toList)

/-- **A number has the text of a safe natural number exactly if it is that number.** -/
theorem toText_eq_ofDigits {x : Number} (hx : x.IsBinary64) {k : Nat} (hk : k ≤ maxSafe) :
    x.toText = Text.ofDigits k ↔ x.natural? = some k := by
  have hword : ∀ s : String, 'I' ∈ s.toList ∨ 'N' ∈ s.toList →
      Text.ofString s ≠ Text.ofDigits k := by
    rintro s (hmem | hmem) htext
    · exact Text.foreign_not_mem htext (c := 'I') (by decide) hmem
    · exact Text.foreign_not_mem htext (c := 'N') (by decide) hmem
  rw [natural?_eq_some]
  cases x with
  | nan => exact iff_of_false (hword "NaN" (by decide)) (by simp [rat?])
  | infinite negative =>
      refine iff_of_false ?_ (by simp [rat?])
      cases negative with
      | false => exact hword "Infinity" (by decide)
      | true => exact hword "-Infinity" (by decide)
  | negativeZero =>
      show Text.ofDigits 0 = Text.ofDigits k ↔ some ((0 : Int) : ℚ) = some (k : ℚ)
      rw [Text.ofDigits_inj, Option.some.injEq]
      norm_cast
  | finite value => exact (rationalText_eq_ofDigits hx hk).trans (by simp [rat?])

/-- A safe natural number is of the format. -/
theorem isBinary64_ofNat {n : Nat} (hn : n ≤ maxSafe) : (ofNat n).IsBinary64 := by
  have hsign : decide (((n : Int) : ℚ).num < 0) = false := by simp
  show nearestWithSign (((n : Int) : ℚ).num < 0) ((n : Int) : ℚ).num.natAbs
    ((n : Int) : ℚ).den = ofNat n
  rw [hsign]
  exact nearest_exact hn

end Number

end OracleNFA
