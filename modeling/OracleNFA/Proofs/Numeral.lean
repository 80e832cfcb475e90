/-
  OracleNFA.Proofs.Numeral
  ────────────────────────
  **THE DECIMAL TEXT OF A STATE.**

  A table keeps the rules of a state under the decimal text of the state, and a
  key is read twice: digit by digit as a natural number of any size, and as a
  numeral, rounded to binary64.  The two readings are compared here:

      decimal?_eq_some — a key is a canonical decimal of value `n` exactly if it
                         is the text of `n`
      ofText_ofDigits  — as a numeral it is the binary64 number nearest to `n`
      nearest_exact    — up to `maxSafe` that is `n` itself
      nearest_unsafe   — and above it no safe integer, so rounding never brings a
                         key that is too large back into range
-/
import Mathlib.Data.List.TakeWhile
import OracleNFA.Number.Numeral
import OracleNFA.Proofs.Validation

namespace OracleNFA

/-! ## §1. Digits. -/

namespace Text

/-- The unit of a decimal digit. -/
def digitUnit (d : Nat) : UInt16 :=
  UInt16.ofNat (0x30 + d)

theorem toNat_digitUnit {d : Nat} (hd : d < 10) : (digitUnit d).toNat = 0x30 + d := by
  unfold digitUnit
  rw [UInt16.toNat_ofNat']
  omega

theorem digit?_eq_some {u : UInt16} {d : Nat} : digit? u = some d ↔ d < 10 ∧ u = digitUnit d := by
  unfold digit?
  simp only [Option.ite_none_right_eq_some, Bool.and_eq_true, decide_eq_true_eq, Option.some.injEq]
  constructor
  · rintro ⟨⟨hlow, hhigh⟩, rfl⟩
    refine ⟨by omega, UInt16.toNat_inj.1 ?_⟩
    rw [toNat_digitUnit (by omega)]
    omega
  · rintro ⟨hd, rfl⟩
    rw [toNat_digitUnit hd]
    omega

theorem digit?_digitUnit {d : Nat} (hd : d < 10) : digit? (digitUnit d) = some d :=
  digit?_eq_some.2 ⟨hd, rfl⟩

theorem digitsFrom?_digit (seen : Nat) {d : Nat} (hd : d < 10) (rest : List UInt16) :
    digitsFrom? seen (digitUnit d :: rest) = digitsFrom? (seen * 10 + d) rest := by
  rw [digitsFrom?, digit?_digitUnit hd]

theorem digitsFrom?_append_digit (units : List UInt16) {d : Nat} (hd : d < 10) : ∀ seen : Nat,
    digitsFrom? seen (units ++ [digitUnit d]) = (digitsFrom? seen units).map (· * 10 + d) := by
  induction units with
  | nil => exact fun seen => digitsFrom?_digit seen hd []
  | cons u rest ih =>
      intro seen
      rw [List.cons_append, digitsFrom?, digitsFrom?]
      cases digit? u with
      | none => rfl
      | some e => exact ih (seen * 10 + e)

/-! ## §2. The text of a natural number. -/

/-- A digit is one unit. -/
theorem toNat_lt_of_isDigit {c : Char} (h : c.isDigit = true) : c.toNat < 0x10000 := by
  simp only [Char.isDigit, Bool.and_eq_true, decide_eq_true_eq, UInt32.le_iff_toNat_le] at h
  have hle : c.val.toNat ≤ 57 := h.2
  show c.val.toNat < 0x10000
  omega

theorem units_ofDigits (n : Nat) :
    (ofDigits n).units = (Nat.toDigits 10 n).map fun c => UInt16.ofNat c.toNat := by
  show ((Nat.repr n).toList.map Char.toNat).flatMap unitsOfPoint = _
  rw [Nat.toList_repr, List.flatMap_map, ← List.flatMap_pure_eq_map]
  refine List.flatMap_congr fun c hc => ?_
  have hdigit := Nat.isDigit_of_mem_toDigits (by decide) (by decide) hc
  unfold unitsOfPoint
  rw [if_pos (toNat_lt_of_isDigit hdigit)]
  rfl

theorem units_ofDigits_of_lt {n : Nat} (hn : n < 10) : (ofDigits n).units = [digitUnit n] := by
  rw [units_ofDigits, Nat.toDigits_of_lt_base hn]
  show [UInt16.ofNat n.digitChar.toNat] = _
  rw [Nat.toNat_digitChar_of_lt_ten hn]
  rfl

/-- One more digit. -/
theorem units_ofDigits_push {n d : Nat} (hn : 0 < n) (hd : d < 10) :
    (ofDigits (n * 10 + d)).units = (ofDigits n).units ++ [digitUnit d] := by
  rw [← units_ofDigits_of_lt hd]
  simp only [units_ofDigits]
  rw [← List.map_append, Nat.toDigits_append_toDigits (by decide) hn hd, Nat.mul_comm 10]

/-- A positive number does not begin with a zero. -/
theorem units_ofDigits_head {n : Nat} (hn : 0 < n) :
    ∃ d rest, (ofDigits n).units = digitUnit d :: rest ∧ 0 < d ∧ d < 10 := by
  induction n using Nat.strong_induction_on with
  | _ n ih =>
      by_cases hlt : n < 10
      · exact ⟨n, [], units_ofDigits_of_lt hlt, hn, hlt⟩
      · obtain ⟨d, rest, hunits, hd⟩ := ih (n / 10) (by omega) (by omega)
        refine ⟨d, rest ++ [digitUnit (n % 10)], ?_, hd⟩
        calc (ofDigits n).units
          _ = (ofDigits (n / 10 * 10 + n % 10)).units := by rw [Nat.div_add_mod']
          _ = (ofDigits (n / 10)).units ++ [digitUnit (n % 10)] :=
              units_ofDigits_push (by omega) (by omega)
          _ = digitUnit d :: (rest ++ [digitUnit (n % 10)]) := by rw [hunits, List.cons_append]

/-- Reading the text of a number gives the number. -/
theorem digitsFrom?_ofDigits (n : Nat) : digitsFrom? 0 (ofDigits n).units = some n := by
  induction n using Nat.strong_induction_on with
  | _ n ih =>
      by_cases hlt : n < 10
      · rw [units_ofDigits_of_lt hlt, digitsFrom?_digit 0 hlt, Nat.zero_mul, Nat.zero_add]
        rfl
      · calc digitsFrom? 0 (ofDigits n).units
          _ = digitsFrom? 0 (ofDigits (n / 10 * 10 + n % 10)).units := by rw [Nat.div_add_mod']
          _ = (digitsFrom? 0 (ofDigits (n / 10)).units).map (· * 10 + n % 10) := by
              rw [units_ofDigits_push (by omega) (by omega),
                digitsFrom?_append_digit _ (by omega)]
          _ = some (n / 10 * 10 + n % 10) := by rw [ih (n / 10) (by omega), Option.map_some]
          _ = some n := by rw [Nat.div_add_mod']

/-- Digits read behind a positive number are the rest of its text. -/
theorem ofDigits_of_digitsFrom? {units : List UInt16} : ∀ {seen n : Nat}, 0 < seen →
    digitsFrom? seen units = some n → (ofDigits n).units = (ofDigits seen).units ++ units := by
  induction units with
  | nil =>
      intro seen n _ h
      obtain rfl : seen = n := Option.some.inj h
      exact (List.append_nil _).symm
  | cons u rest ih =>
      intro seen n hseen h
      rw [digitsFrom?] at h
      cases hu : digit? u with
      | none => simp [hu] at h
      | some d =>
          rw [hu] at h
          obtain ⟨hd, rfl⟩ := digit?_eq_some.1 hu
          rw [ih (by omega) h, units_ofDigits_push hseen hd, List.append_assoc]
          rfl

/-- **A text is a canonical decimal exactly if it is the text of its value.** -/
theorem decimal?_eq_some {t : Text} {n : Nat} : t.decimal? = some n ↔ t = ofDigits n := by
  constructor
  · obtain ⟨units⟩ := t
    intro h
    show Text.mk units = Text.mk (ofDigits n).units
    refine congrArg Text.mk ?_
    unfold decimal? at h
    match units with
    | [] => exact absurd h (by simp)
    | [u] =>
        obtain ⟨hn, rfl⟩ := digit?_eq_some.1 h
        exact (units_ofDigits_of_lt hn).symm
    | u :: v :: rest =>
        obtain ⟨hzero, hread⟩ := Option.ite_none_left_eq_some.1 h
        rw [digitsFrom?] at hread
        cases hu : digit? u with
        | none => simp [hu] at hread
        | some d =>
            rw [hu] at hread
            have hpos : 0 < d := Nat.pos_of_ne_zero fun hd => hzero (hd ▸ hu)
            obtain ⟨hd, rfl⟩ := digit?_eq_some.1 hu
            rw [ofDigits_of_digitsFrom? (by omega) hread, Nat.zero_mul, Nat.zero_add,
              units_ofDigits_of_lt hd]
            rfl
  · rintro rfl
    have hread := digitsFrom?_ofDigits n
    by_cases hlt : n < 10
    · unfold decimal?
      rw [units_ofDigits_of_lt hlt]
      exact digit?_digitUnit hlt
    · -- Two digits at least, and the first one is no zero.
      obtain ⟨d, rest, hunits, hpos, hd⟩ := units_ofDigits_head (n := n) (by omega)
      rw [hunits] at hread
      unfold decimal?
      rw [hunits]
      match rest with
      | [] =>
          rw [digitsFrom?_digit 0 hd, digitsFrom?] at hread
          have := Option.some.inj hread
          omega
      | v :: rest =>
          dsimp only
          rw [digit?_digitUnit hd, if_neg (by simp; omega)]
          exact hread

end Text

/-! ## §3. Decimal texts as numerals. -/

namespace Number

open Text

/-- The value of a digit in radix ten is that of the digit. -/
theorem radixValue?_digit (seen : Nat) {d : Nat} (hd : d < 10) (rest : List UInt16) :
    radixValue? 10 seen (digitUnit d :: rest) = radixValue? 10 (seen * 10 + d) rest := by
  have hvalue : digitValue? (digitUnit d) = some d := by
    unfold digitValue?
    rw [toNat_digitUnit hd]
    dsimp only
    rw [if_pos (by omega)]
    congr 1
    omega
  rw [radixValue?, hvalue]
  exact if_pos hd

/-- What has a value is made of digits, and has the same value in radix ten. -/
theorem digits_of_digitsFrom? {units : List UInt16} : ∀ {seen n : Nat},
    digitsFrom? seen units = some n →
      (∀ u ∈ units, ∃ d < 10, u = digitUnit d) ∧ radixValue? 10 seen units = some n := by
  induction units with
  | nil => exact fun h => ⟨by simp, h⟩
  | cons u rest ih =>
      intro seen n h
      rw [digitsFrom?] at h
      cases hu : digit? u with
      | none => simp [hu] at h
      | some d =>
          rw [hu] at h
          obtain ⟨hd, rfl⟩ := digit?_eq_some.1 hu
          obtain ⟨hrest, hvalue⟩ := ih h
          exact ⟨List.forall_mem_cons.2 ⟨⟨d, hd, rfl⟩, hrest⟩,
            (radixValue?_digit seen hd rest).trans hvalue⟩

/-- No white space is cut off where there is none. -/
theorem trimmed_of_not_blank {units : List UInt16} (h : ∀ u ∈ units, isBlank u = false) :
    trimmed units = units := by
  have hkeep : ∀ l : List UInt16, (∀ u ∈ l, isBlank u = false) → l.dropWhile isBlank = l := by
    intro l hl
    cases l with
    | nil => rfl
    | cons u rest => rw [List.dropWhile_cons_of_neg (by simp [hl u])]
  unfold trimmed
  rw [hkeep units h, hkeep units.reverse (fun u hu => h u (List.mem_reverse.1 hu)),
    List.reverse_reverse]

/-- A digit is neither white space nor a letter nor a sign. -/
theorem digitUnit_cases {d : Nat} (hd : d < 10) :
    isBlank (digitUnit d) = false ∧
      ∀ c ∈ ['x', 'X', 'o', 'O', 'b', 'B', '+', '-', 'I'], digitUnit d ≠ unit c := by
  -- Ten digits, each compared with a few units.
  simp only [List.forall_mem_cons, List.not_mem_nil, false_imp_iff, implies_true, and_true]
  revert d
  decide

/-- **Digits are read as the number nearest to their value.** -/
theorem ofText_of_digits {units : List UInt16} {n : Nat} (hne : units ≠ [])
    (h : digitsFrom? 0 units = some n) : ofText ⟨units⟩ = ofDecimal false n 0 := by
  obtain ⟨hdigits, hvalue⟩ := digits_of_digitsFrom? h
  have hkind : ∀ u ∈ units, isBlank u = false ∧
      ∀ c ∈ ['x', 'X', 'o', 'O', 'b', 'B', '+', '-', 'I'], u ≠ unit c := by
    intro u hu
    obtain ⟨d, hd, rfl⟩ := hdigits u hu
    exact digitUnit_cases hd
  have hleading : leadingDigits units = (units, []) := by
    have hall : ∀ u ∈ units, (digit? u).isSome = true := by
      intro u hu
      obtain ⟨d, hd, rfl⟩ := hdigits u hu
      rw [digit?_digitUnit hd]
      rfl
    unfold leadingDigits
    rw [List.takeWhile_eq_self_iff.2 hall, List.dropWhile_eq_nil_iff.2 hall]
  -- All digits stand before the point, and there is no exponent.
  have hunsigned : ofUnsigned false units = ofDecimal false n 0 := by
    have hempty : ¬ (units.isEmpty = true ∧ ([] : List UInt16).isEmpty = true) := by simpa using hne
    unfold ofUnsigned
    simp only [hleading, if_neg hempty, exponent?, List.append_nil, decimalValue, hvalue,
      Option.getD_some]
    rfl
  have hsigned : ofSigned units = ofDecimal false n 0 := by
    cases units with
    | nil => exact absurd rfl hne
    | cons u rest =>
        have hu := (hkind u List.mem_cons_self).2
        have hword : u :: rest ≠ ("Infinity" : Text).units := by
          intro heq
          exact hu 'I' (by simp) (List.cons.inj heq).1
        unfold ofSigned leadingSign
        dsimp only
        rw [if_neg (hu '-' (by simp)), if_neg (hu '+' (by simp))]
        exact (if_neg hword).trans hunsigned
  unfold ofText
  rw [trimmed_of_not_blank fun u hu => (hkind u hu).1]
  match units with
  | [] => exact absurd rfl hne
  | [u] => exact hsigned
  | zero :: mark :: rest =>
      -- The second digit is no mark of a radix.
      have hmark := (hkind mark (by simp)).2
      dsimp only
      rw [if_neg, if_neg, if_neg]
      · exact hsigned
      · exact fun h => h.2.elim (hmark 'b' (by simp)) (hmark 'B' (by simp))
      · exact fun h => h.2.elim (hmark 'o' (by simp)) (hmark 'O' (by simp))
      · exact fun h => h.2.elim (hmark 'x' (by simp)) (hmark 'X' (by simp))

theorem ofText_ofDigits (n : Nat) : ofText (ofDigits n) = ofDecimal false n 0 := by
  have hread := digitsFrom?_ofDigits n
  have hne : (ofDigits n).units ≠ [] := by
    intro hnil
    rw [hnil] at hread
    obtain rfl : 0 = n := Option.some.inj hread
    exact absurd hnil (by decide)
  exact ofText_of_digits hne hread

/-! ## §4. Rounding a natural number. -/

theorem divideToEven_mul (n : Nat) {d : Nat} (hd : 0 < d) : divideToEven (n * d) d = n := by
  unfold divideToEven
  simp [Nat.mul_div_cancel n hd, Nat.mul_mod_left, hd]

theorem div_le_divideToEven (n d : Nat) : n / d ≤ divideToEven n d := by
  unfold divideToEven
  dsimp only
  split
  · exact Nat.le_refl _
  · split <;> omega

theorem lastPlace_one {n : Nat} (hn : 0 < n) : lastPlace n 1 = (Nat.log2 n : Int) - 52 := by
  have hreached : 1 * Nat.pow 2 (Nat.log2 n) ≤ n := by
    rw [Nat.one_mul]
    exact Nat.log2_self_le (by omega)
  have hguess : (Nat.log2 n : Int) - (Nat.log2 1 : Int) = Nat.log2 n := by
    rw [show Nat.log2 1 = 0 by decide]
    exact Int.sub_zero _
  unfold lastPlace binaryExponent
  simp only [hguess, Int.natCast_nonneg, if_true, Int.toNat_natCast, hreached]
  omega

/-- A decimal without an exponent is rounded as it stands. -/
theorem ofDecimal_zero (n : Nat) : ofDecimal false n 0 = nearestWithSign false n 1 := by
  unfold ofDecimal
  by_cases hn : n = 0
  · rw [if_pos hn, hn]
  · rw [if_neg hn, if_neg (by decide), if_pos (by decide)]
    exact congrArg (nearestWithSign false · 1) (Nat.mul_one n)

/-- **A safe natural number is a binary64 number.** -/
theorem nearest_exact {n : Nat} (hn : n ≤ maxSafe) : nearestWithSign false n 1 = ofNat n := by
  by_cases hzero : n = 0
  · subst hzero
    rfl
  have hpos : 0 < n := Nat.pos_of_ne_zero hzero
  have hlog : Nat.log2 n < 53 := by
    refine (Nat.log2_lt hzero).2 ?_
    exact Nat.lt_of_le_of_lt hn (by decide)
  -- The significand is `n` followed by zeros.
  obtain ⟨k, hk⟩ : ∃ k : Nat, lastPlace n 1 = -(k : Int) := ⟨52 - Nat.log2 n, by
    rw [lastPlace_one hpos]
    omega⟩
  have hpow : 0 < Nat.pow 2 k := Nat.two_pow_pos k
  have hsignificand : significand n 1 (-(k : Int)) = n * Nat.pow 2 k := by
    unfold significand
    split
    · obtain rfl : k = 0 := by omega
      have hone := divideToEven_mul n Nat.one_pos
      rw [Nat.mul_one] at hone
      exact hone.trans (Nat.mul_one n).symm
    · rw [Int.neg_neg, Int.toNat_natCast]
      exact (congrArg (divideToEven · 1) (Nat.mul_one _).symm).trans
        (divideToEven_mul _ Nat.one_pos)
  have hscaled : scaled (n * Nat.pow 2 k) (-(k : Int)) = ((n : Int) : Rat) := by
    unfold scaled scaledBy
    split
    · obtain rfl : k = 0 := by omega
      simp
    · rw [Int.neg_neg, Int.toNat_natCast, ← Rat.mkRat_one n, Int.natCast_mul]
      exact (congrArg _ (Nat.one_mul _).symm).trans (Rat.mkRat_mul_right (Nat.ne_of_gt hpow))
  have hfits : overflows (n * Nat.pow 2 k) (-(k : Int)) = false := by
    unfold overflows
    rw [Bool.and_eq_false_iff, decide_eq_false_iff_not, decide_eq_false_iff_not,
      or_iff_not_imp_left]
    intro hk0
    obtain rfl : k = 0 := by omega
    have hlt : ∀ e, 53 ≤ e → n < Nat.pow 2 e := fun e he =>
      calc n
        _ < 2 ^ 53 := Nat.lt_of_le_of_lt hn (by decide)
        _ ≤ 2 ^ e := Nat.pow_le_pow_right (by decide) he
    have hsame : n * Nat.pow 2 0 * Nat.pow 2 (-((0 : Nat) : Int)).toNat = n :=
      (Nat.mul_one _).trans (Nat.mul_one n)
    rw [hsame]
    exact Nat.not_le.2 (hlt 1024 (by decide))
  unfold nearestWithSign
  dsimp only
  rw [hk, hsignificand, hscaled, hfits, if_neg]
  · rfl
  · rintro (h | h)
    · exact hzero h
    · exact hzero ((Nat.mul_eq_zero.1 h).resolve_right (by omega))

/-- A natural number with 53 bits or more keeps 53. -/
theorem le_significand {n k : Nat} (hn : 0 < n) (hk : Nat.log2 n = k + 52) :
    Nat.pow 2 52 ≤ significand n 1 k := by
  have hdiv : Nat.pow 2 52 ≤ n / Nat.pow 2 k := by
    refine (Nat.le_div_iff_mul_le (Nat.two_pow_pos k)).2 ?_
    calc Nat.pow 2 52 * Nat.pow 2 k
      _ = 2 ^ Nat.log2 n := by rw [hk, Nat.add_comm, Nat.pow_add]; rfl
      _ ≤ n := Nat.log2_self_le (by omega)
  unfold significand
  rw [if_pos (Int.natCast_nonneg k), Int.toNat_natCast, Nat.one_mul]
  exact Nat.le_trans hdiv (div_le_divideToEven _ _)

/-- A natural number above `maxSafe` is rounded to one that is above it too, or to an
infinity. -/
theorem nearest_unsafe {n : Nat} (hn : maxSafe < n) :
    (nearestWithSign false n 1).isSafeInteger = false := by
  have hlog : 53 ≤ Nat.log2 n := by
    refine (Nat.le_log2 (by omega)).2 ?_
    exact Nat.succ_le_of_lt hn
  obtain ⟨k, hk⟩ : ∃ k : Nat, lastPlace n 1 = (k : Int) ∧ Nat.log2 n = k + 52 :=
    ⟨Nat.log2 n - 52, by
      rw [lastPlace_one (by omega)]
      omega⟩
  have hlarge : maxSafe < significand n 1 k * Nat.pow 2 k := by
    have htwo : 2 ≤ Nat.pow 2 k := Nat.le_pow (by omega)
    calc maxSafe
      _ < Nat.pow 2 52 * 2 := by decide
      _ ≤ significand n 1 k * Nat.pow 2 k := Nat.mul_le_mul (le_significand (by omega) hk.2) htwo
  unfold nearestWithSign
  dsimp only
  rw [hk.1]
  split
  · next h =>
      have hzero : significand n 1 k = 0 := h.resolve_left (by omega)
      rw [hzero, Nat.zero_mul] at hlarge
      exact absurd hlarge (by omega)
  · split
    · rfl
    · rw [if_neg (by decide)]
      have hinteger : integer? (.finite (scaled (significand n 1 k) k)) =
          some ((significand n 1 k * Nat.pow 2 k : Nat) : Int) := by
        rw [integer?_eq_some]
        unfold scaled scaledBy
        rw [if_pos (Int.natCast_nonneg k), Int.toNat_natCast]
        rfl
      unfold isSafeInteger
      rw [hinteger]
      simp only [Int.natAbs_natCast, decide_eq_false_iff_not]
      exact Nat.not_le.2 hlarge

/-- **As a numeral, the text of a safe natural number is that number**, -/
theorem ofText_of_safe {n : Nat} (hn : n ≤ maxSafe) : ofText (ofDigits n) = ofNat n := by
  rw [ofText_ofDigits, ofDecimal_zero, nearest_exact hn]

/-- and the text of any other is no safe integer. -/
theorem isSafeInteger_ofText (n : Nat) :
    (ofText (ofDigits n)).isSafeInteger = true ↔ n ≤ maxSafe := by
  constructor
  · intro h
    by_contra hlarge
    rw [ofText_ofDigits, ofDecimal_zero, nearest_unsafe (Nat.lt_of_not_le hlarge)] at h
    exact absurd h (by simp)
  · intro hn
    have hinteger : (ofNat n).integer? = some (n : Int) := integer?_eq_some.2 rfl
    rw [ofText_of_safe hn]
    unfold isSafeInteger
    rw [hinteger]
    simpa using hn

end Number

end OracleNFA
