import Mathlib.Data.List.TakeWhile
import Mathlib.Tactic.FieldSimp
import Mathlib.Tactic.IntervalCases
import Phrasebook.Catalog.JsonText
import Phrasebook.Proofs.NearestNumber

/-! The text of a number read as JSON gives the number back. A decimal found for a number of 64 bits reads back as that
number because it was tried, and the exact one because rounding is exact; where its point stands and which zeros are
written does not matter to the rational number that is rounded. -/

namespace Phrasebook.Proofs.NumberText

open Catalog Decimal Binary64 JsonText NearestNumber

/-- What may follow a number without becoming a part of it. -/
def Ends (rest : List Char) : Prop :=
  ∀ c ∈ rest.head?, c.isDigit = false ∧ c ≠ '.' ∧ c ≠ 'e' ∧ c ≠ 'E'

/-- The digits of a whole number: a zero alone, or digits of which the first is none. -/
def Whole (digits : List Char) : Prop :=
  digits = ['0'] ∨ ∃ first rest, digits = first :: rest ∧ first ≠ '0' ∧ ∀ c ∈ digits, c.isDigit = true

theorem digitsValue_eq (digits : List Char) : digitsValue digits = Nat.ofDigitChars 10 digits 0 := rfl

theorem digitsValue_append_zeros (digits : List Char) (count : ℕ) :
    digitsValue (digits ++ List.replicate count '0') = digitsValue digits * 10 ^ count := by
  rw [digitsValue_eq, Nat.ofDigitChars_append, Nat.ofDigitChars_replicate_zero, digitsValue_eq, mul_comm]

theorem digitsValue_zeros_append (count : ℕ) (digits : List Char) :
    digitsValue (List.replicate count '0' ++ digits) = digitsValue digits := by
  rw [digitsValue_eq, Nat.ofDigitChars_append, Nat.ofDigitChars_replicate_zero, mul_zero, digitsValue_eq]

theorem digitsValue_digitsOf (number : ℕ) : digitsValue (digitsOf number) = number :=
  Nat.ofDigitChars_ten_toDigits

theorem isDigit_of_mem_digitsOf {number : ℕ} {c : Char} (member : c ∈ digitsOf number) : c.isDigit = true :=
  Nat.isDigit_of_mem_toDigits (by decide) (by decide) member

theorem notMem_digitsOf {c : Char} (other : c.isDigit = false) (number : ℕ) : c ∉ digitsOf number := by
  intro member
  rw [isDigit_of_mem_digitsOf member] at other
  cases other

theorem takeWhile_digits {digits rest : List Char} (all : ∀ c ∈ digits, c.isDigit = true)
    (stops : ∀ c ∈ rest.head?, c.isDigit = false) : (digits ++ rest).takeWhile Char.isDigit = digits := by
  rw [List.takeWhile_append_of_pos all]
  cases rest with
  | nil => simp
  | cons c rest => simp [stops c rfl]

theorem Whole.ne_nil {digits : List Char} (whole : Whole digits) : digits ≠ [] := by
  rcases whole with rfl | ⟨first, rest, rfl, _⟩ <;> exact List.cons_ne_nil _ _

theorem wholeDigits_eq {digits rest : List Char} (whole : Whole digits) (stops : ∀ c ∈ rest.head?, c.isDigit = false) :
    wholeDigits (digits ++ rest) = digits := by
  rcases whole with rfl | ⟨first, more, rfl, notZero, all⟩
  · rfl
  · have taken := takeWhile_digits all stops
    rw [List.cons_append] at taken ⊢
    rw [wholeDigits.eq_2 _ fun _ same => notZero (List.cons.inj same).1, taken]

theorem head_digitsOf {number : ℕ} (positive : 0 < number) : (digitsOf number).head? ≠ some '0' := by
  induction number using Nat.strong_induction_on with
  | h number ih =>
    rw [digitsOf, Nat.toDigits_eq_if (by decide)]
    split
    next small =>
      interval_cases number <;> decide
    next large =>
      have shorter := ih (number / 10) (by omega) (by omega)
      rw [List.head?_append_of_ne_nil _ Nat.toDigits_ne_nil]
      exact shorter

theorem whole_digitsOf (number : ℕ) : Whole (digitsOf number) := by
  by_cases zero : number = 0
  · exact Or.inl (by rw [zero]; rfl)
  · have notZero := head_digitsOf (Nat.pos_of_ne_zero zero)
    cases written : digitsOf number with
    | nil => exact absurd written Nat.toDigits_ne_nil
    | cons first rest =>
      refine Or.inr ⟨first, rest, rfl, ?_, fun c member => isDigit_of_mem_digitsOf (written ▸ member)⟩
      rintro rfl
      exact notZero (by rw [written]; rfl)

theorem fractionDigits_of_ends {rest : List Char} (ends : Ends rest) : fractionDigits rest = ([], rest) := by
  cases rest with
  | nil => rfl
  | cons c rest =>
    obtain ⟨_, noPoint, _⟩ := ends c rfl
    rw [fractionDigits.eq_2 _ fun _ same => noPoint (List.cons.inj same).1]

theorem fractionDigits_point {digits rest : List Char} (some : digits ≠ []) (all : ∀ c ∈ digits, c.isDigit = true)
    (stops : ∀ c ∈ rest.head?, c.isDigit = false) : fractionDigits ('.' :: (digits ++ rest)) = (digits, rest) := by
  rw [fractionDigits, takeWhile_digits all stops]
  simp [some]

theorem exponent?_of_ends {rest : List Char} (ends : Ends rest) : exponent? rest = none := by
  cases rest with
  | nil => rfl
  | cons c rest =>
    obtain ⟨_, _, small, large⟩ := ends c rfl
    simp [exponent?, small, large]

theorem exponent?_mark {size rest : List Char} (some : size ≠ []) (all : ∀ c ∈ size, c.isDigit = true)
    (stops : ∀ c ∈ rest.head?, c.isDigit = false) (below : Bool) :
    exponent? ('e' :: (if below then '-' else '+') :: (size ++ rest)) =
      Option.some (if below then -(digitsValue size : ℤ) else digitsValue size, rest) := by
  cases below <;> simp [exponent?, takeWhile_digits all stops, some]

theorem unsignedNumber_whole {digits rest : List Char} (whole : Whole digits) (ends : Ends rest)
    (few : digits.length ≤ 4300) (negative : Bool) :
    unsignedNumber negative (digits ++ rest) =
      .ok (.whole (if negative then -(digitsValue digits : ℤ) else digitsValue digits), rest) := by
  have taken := wholeDigits_eq whole fun c first => (ends c first).1
  simp only [unsignedNumber, taken, List.isEmpty_eq_false_iff.mpr whole.ne_nil, Bool.false_eq_true, ite_false,
    List.drop_left, fractionDigits_of_ends ends, exponent?_of_ends ends]
  rw [if_neg (not_lt.mpr few)]

theorem unsignedNumber_point {digits fraction rest : List Char} (whole : Whole digits) (some : fraction ≠ [])
    (all : ∀ c ∈ fraction, c.isDigit = true) (ends : Ends rest) (negative : Bool) :
    unsignedNumber negative (digits ++ '.' :: (fraction ++ rest)) =
      .ok (.real (ofDecimal negative (digitsValue (digits ++ fraction)) (-fraction.length)), rest) := by
  have taken : wholeDigits (digits ++ '.' :: (fraction ++ rest)) = digits := wholeDigits_eq whole (by simp)
  have behind := fractionDigits_point some all fun c first => (ends c first).1
  simp only [unsignedNumber, taken, List.isEmpty_eq_false_iff.mpr whole.ne_nil, Bool.false_eq_true, ite_false,
    List.drop_left, behind, exponent?_of_ends ends]
  cases fraction with
  | nil => exact absurd rfl some
  | cons first more => simp

theorem unsignedNumber_power {mark : Char} {digits fraction behind rest size : List Char} (whole : Whole digits)
    (point : fractionDigits behind = (fraction, 'e' :: mark :: (size ++ rest)))
    (stops : ∀ c ∈ behind.head?, c.isDigit = false) (some : size ≠ []) (all : ∀ c ∈ size, c.isDigit = true)
    (ends : Ends rest) (negative below : Bool) (marked : mark = if below then '-' else '+') :
    unsignedNumber negative (digits ++ behind) =
      .ok (.real (ofDecimal negative (digitsValue (digits ++ fraction))
        ((if below then -(digitsValue size : ℤ) else digitsValue size) - fraction.length)), rest) := by
  have taken := wholeDigits_eq whole stops
  have power := exponent?_mark some all (fun c first => (ends c first).1) below
  subst marked
  cases fraction <;> simp [unsignedNumber, taken, whole.ne_nil, point, power]

theorem ofDecimal_congr {digits others : ℕ} {power other : ℤ} (negative : Bool)
    (same : (digits : ℚ) * 10 ^ power = others * 10 ^ other) :
    ofDecimal negative digits power = ofDecimal negative others other := by
  rw [ofDecimal_eq, ofDecimal_eq, same]

theorem ofDecimal_shift (negative : Bool) (digits count : ℕ) (power : ℤ) :
    ofDecimal negative (digits * 10 ^ count) power = ofDecimal negative digits (count + power) := by
  refine ofDecimal_congr negative ?_
  push_cast
  rw [zpow_add₀ (by norm_num), zpow_natCast, mul_assoc]

/-- A number's digits are those that count and zeros behind them; the first of them is none. -/
theorem significant_digitsOf {number : ℕ} (positive : 0 < number) :
    ∃ first more zeros, significant (digitsOf number) = first :: more ∧ first ≠ '0' ∧
      digitsOf number = first :: more ++ List.replicate zeros '0' := by
  have parts : digitsOf number = significant (digitsOf number) ++
      ((digitsOf number).reverse.takeWhile (· = '0')).reverse := by
    rw [significant, ← List.reverse_append, List.takeWhile_append_dropWhile, List.reverse_reverse]
  have zeros : ((digitsOf number).reverse.takeWhile (· = '0')).reverse =
      List.replicate ((digitsOf number).reverse.takeWhile (· = '0')).length '0' := by
    refine List.eq_replicate_iff.mpr ⟨List.length_reverse, fun c member => ?_⟩
    simpa using List.mem_takeWhile_imp (List.mem_reverse.mp member)
  rw [zeros] at parts
  have notZero := head_digitsOf positive
  cases written : significant (digitsOf number) with
  | nil =>
    rw [written, List.nil_append] at parts
    generalize ((digitsOf number).reverse.takeWhile (· = '0')).length = count at parts
    cases count with
    | zero => exact absurd parts Nat.toDigits_ne_nil
    | succ count => exact absurd (by rw [parts]; rfl) notZero
  | cons first more =>
    rw [written] at parts
    refine ⟨first, more, _, rfl, ?_, parts⟩
    rintro rfl
    exact notZero (by rw [parts]; rfl)

section

variable {first : Char} {more rest : List Char} (notZero : first ≠ '0')
  (all : ∀ c ∈ first :: more, c.isDigit = true) (ends : Ends rest) (negative : Bool)
include notZero all ends

/-- Digits around a point are read as their number with the point where it stands. -/
theorem unsignedNumber_positional (point : ℤ) :
    unsignedNumber negative (positional (first :: more) point ++ rest) =
      .ok (.real (ofDecimal negative (digitsValue (first :: more)) (point - (first :: more).length)), rest) := by
  unfold positional
  split_ifs with low
  · have digits : ∀ c ∈ List.replicate (-point).toNat '0' ++ first :: more, c.isDigit = true := by
      intro c member
      rcases List.mem_append.mp member with zero | inside
      · rw [List.eq_of_mem_replicate zero]
        rfl
      · exact all c inside
    have reading := unsignedNumber_point (Or.inl rfl) (by simp) digits ends negative
    simp only [List.cons_append, List.append_assoc, List.nil_append] at reading ⊢
    rw [reading, ← List.cons_append, ← List.replicate_succ, digitsValue_zeros_append, List.length_append,
      List.length_replicate]
    congr 4
    push_cast
    omega
  · -- with the point behind all digits zeros are written up to it, else it stands among them
    obtain ⟨count, rfl⟩ := Int.eq_ofNat_of_zero_le (not_le.mp low).le
    obtain ⟨count, rfl⟩ := Nat.exists_eq_succ_of_ne_zero (by omega : count ≠ 0)
    by_cases inside : (first :: more).length ≤ count + 1
    · have whole : Whole (first :: more ++ List.replicate (count + 1 - (first :: more).length) '0') := by
        refine Or.inr ⟨first, _, rfl, notZero, fun c member => ?_⟩
        rcases List.mem_append.mp member with inside | zero
        · exact all c inside
        · rw [List.eq_of_mem_replicate zero]
          rfl
      have reading : _ = Except.ok _ := unsignedNumber_point whole (List.cons_ne_nil '0' []) (by simp) ends negative
      have taken : (first :: more).take (count + 1) = first :: more := List.take_of_length_le inside
      have dropped : (first :: more).drop (count + 1) = [] := List.drop_of_length_le inside
      simp only [Int.toNat_natCast, taken, dropped, List.isEmpty_nil, ite_true, List.append_assoc, List.cons_append,
        List.nil_append] at reading ⊢
      rw [reading, ← List.replicate_succ', ← List.cons_append, digitsValue_append_zeros, ofDecimal_shift]
      congr 4
      push_cast
      simp only [List.length_cons, List.length_nil] at inside ⊢
      omega
    · have longer : count + 1 < (first :: more).length := not_le.mp inside
      have whole : Whole ((first :: more).take (count + 1)) :=
        Or.inr ⟨first, more.take count, rfl, notZero, fun c member => all c (List.mem_of_mem_take member)⟩
      have behind : (first :: more).drop (count + 1) ≠ [] := mt List.drop_eq_nil_iff.mp inside
      have reading := unsignedNumber_point whole behind (fun c member => all c (List.mem_of_mem_drop member)) ends negative
      rw [List.take_append_drop, List.length_drop] at reading
      simp only [Int.toNat_natCast, List.isEmpty_eq_false_iff.mpr behind, Bool.false_eq_true, ite_false,
        Nat.sub_eq_zero_of_le longer.le, List.replicate_zero, List.append_nil, List.append_assoc,
        List.cons_append] at reading ⊢
      rw [reading]
      congr 4
      omega

/-- Digits with a power of ten are read as their number with the point where it stands. -/
theorem unsignedNumber_scientific (point : ℤ) :
    unsignedNumber negative (scientific (first :: more) point ++ rest) =
      .ok (.real (ofDecimal negative (digitsValue (first :: more)) (point - (first :: more).length)), rest) := by
  unfold scientific
  dsimp only
  generalize sized : (if (digitsOf (point - 1).natAbs).length < 2 then '0' :: digitsOf (point - 1).natAbs
    else digitsOf (point - 1).natAbs) = size
  have some : size ≠ [] := by
    rw [← sized]
    split
    · exact List.cons_ne_nil _ _
    · exact Nat.toDigits_ne_nil
  have digits : ∀ c ∈ size, c.isDigit = true := by
    intro c member
    rw [← sized] at member
    split at member
    · rcases List.mem_cons.mp member with rfl | member
      · rfl
      · exact isDigit_of_mem_digitsOf member
    · exact isDigit_of_mem_digitsOf member
  have valued : digitsValue size = (point - 1).natAbs := by
    rw [← sized]
    split
    · exact digitsValue_digitsOf _
    · exact digitsValue_digitsOf _
  have shift : (if decide (point - 1 < 0) then -(digitsValue size : ℤ) else digitsValue size) = point - 1 := by
    rw [valued]
    simp only [decide_eq_true_eq]
    omega
  have whole : Whole [first] :=
    Or.inr ⟨first, [], rfl, notZero, by simpa using all first (List.mem_cons_self ..)⟩
  cases more with
  | nil =>
    have pointless : fractionDigits ('e' :: (if decide (point - 1 < 0) then '-' else '+') :: (size ++ rest)) =
        ([], 'e' :: (if decide (point - 1 < 0) then '-' else '+') :: (size ++ rest)) := rfl
    have reading := unsignedNumber_power whole pointless (by simp) some digits ends
      negative (decide (point - 1 < 0)) rfl
    rw [shift] at reading
    simpa using reading
  | cons second more =>
    have behind : ∀ c ∈ second :: more, c.isDigit = true := fun c member => all c (List.mem_cons_of_mem _ member)
    have pointed : fractionDigits ('.' :: (second :: more ++
          'e' :: (if decide (point - 1 < 0) then '-' else '+') :: (size ++ rest))) =
        (second :: more, 'e' :: (if decide (point - 1 < 0) then '-' else '+') :: (size ++ rest)) :=
      fractionDigits_point (List.cons_ne_nil second more) behind (by simp)
    have reading := unsignedNumber_power whole pointed (by simp) some digits ends
      negative (decide (point - 1 < 0)) rfl
    rw [shift] at reading
    have places : point - 1 - (second :: more).length = point - (first :: second :: more).length := by
      simp only [List.length_cons]
      omega
    rw [places] at reading
    simpa using reading

end

theorem unsignedNumber_decimalText {digits : ℕ} (positive : 0 < digits) (power : ℤ) {rest : List Char}
    (ends : Ends rest) (negative : Bool) :
    unsignedNumber negative (decimalText digits power ++ rest) = .ok (.real (ofDecimal negative digits power), rest) := by
  obtain ⟨first, more, zeros, shown, notZero, parts⟩ := significant_digitsOf positive
  have all : ∀ c ∈ first :: more, c.isDigit = true := fun c member =>
    isDigit_of_mem_digitsOf (parts ▸ List.mem_append_left _ member)
  have whole : ofDecimal negative (digitsValue (first :: more))
      ((digitsOf digits).length + power - (first :: more).length) = ofDecimal negative digits power := by
    have value : digits = digitsValue (first :: more) * 10 ^ zeros := by
      rw [← digitsValue_append_zeros, ← parts, digitsValue_digitsOf]
    rw [parts, value, ofDecimal_shift, List.length_append, List.length_replicate]
    congr 1
    push_cast
    omega
  unfold decimalText
  dsimp only
  rw [shown]
  split
  · rw [unsignedNumber_positional notZero all ends, whole]
  · rw [unsignedNumber_scientific notZero all ends, whole]

theorem ofDecimal_of_nearestReading? {number : Binary64} {numerator denominator : ℕ} {unit : ℤ} {digits : ℕ}
    (found : nearestReading? number numerator denominator unit = some digits) :
    ofDecimal false digits unit = number := by
  unfold nearestReading? at found
  generalize (if 0 ≤ unit then (numerator, denominator * Nat.pow 10 unit.toNat)
    else (numerator * Nat.pow 10 (-unit).toNat, denominator)) = fraction at found
  dsimp only at found
  split at found
  next low high =>
    split at found <;> obtain rfl := Option.some.inj found
    · exact of_decide_eq_true low
    · exact of_decide_eq_true high
  next low _ =>
    obtain rfl := Option.some.inj found
    exact of_decide_eq_true low
  next _ high =>
    obtain rfl := Option.some.inj found
    exact of_decide_eq_true high
  next => cases found

theorem ofDecimal_shortestFrom {number : Binary64} {numerator denominator : ℕ}
    (exact : ofDecimal false (numerator * Nat.pow 5 denominator.log2) (-(denominator.log2 : ℤ)) = number)
    (exponent : ℤ) (left count : ℕ) :
    ofDecimal false (shortestFrom number numerator denominator exponent count left).1
      (shortestFrom number numerator denominator exponent count left).2 = number := by
  induction left generalizing count with
  | zero => exact exact
  | succ left ih =>
    rw [shortestFrom]
    split
    next digits found => exact ofDecimal_of_nearestReading? found
    next => exact ih (count + 1)

theorem scaled_denominator (significand : ℕ) (exponent : ℤ) : ∃ count, (scaled significand 1 exponent).2 = 2 ^ count := by
  unfold scaled
  split
  · exact ⟨0, rfl⟩
  · exact ⟨(-exponent).toNat, by rw [Nat.shiftLeft_eq, one_mul]⟩

/-- The shortest decimal of a number is read as that number. -/
theorem ofDecimal_shortest {significand : ℕ} {exponent : ℤ}
    (canonical : (Binary64.finite false significand exponent).Canonical) :
    ofDecimal false (shortest significand exponent).1 (shortest significand exponent).2 =
      .finite false significand exponent := by
  obtain ⟨count, binary⟩ := scaled_denominator significand exponent
  have scale := (scaled_eq significand one_pos exponent).2
  have exact : ofDecimal false ((scaled significand 1 exponent).1 * Nat.pow 5 (scaled significand 1 exponent).2.log2)
      (-((scaled significand 1 exponent).2.log2 : ℤ)) = .finite false significand exponent := by
    rw [ofDecimal_eq, ← nearest_self canonical]
    congr 1
    rw [binary] at scale ⊢
    rw [Nat.log2_two_pow, zpow_neg, zpow_natCast]
    push_cast at scale ⊢
    rw [div_one] at scale
    rw [← scale, Nat.pow_eq, show (10 : ℚ) = 5 * 2 by norm_num, mul_pow]
    push_cast
    field_simp
  exact ofDecimal_shortestFrom exact _ _ _

/-- What rounding finds for one sign it finds for the other. -/
theorem ofDecimal_negative {digits significand : ℕ} {power exponent : ℤ}
    (same : ofDecimal false digits power = .finite false significand exponent) (negative : Bool) :
    ofDecimal negative digits power = .finite negative significand exponent := by
  have settled (other : ℕ) (place : ℤ)
      (found : (if greatestExponent < place then .infinite false else .finite false other place) =
        Binary64.finite false significand exponent) :
      (if greatestExponent < place then .infinite negative else .finite negative other place) =
        Binary64.finite negative significand exponent := by
    split at found
    next => cases found
    next inRange =>
      rw [if_neg inRange]
      obtain ⟨-, rfl, rfl⟩ := Binary64.finite.inj found
      rfl
  rw [ofDecimal_eq] at same ⊢
  unfold nearest at same ⊢
  split at same
  next zero =>
    rw [if_pos zero]
    obtain ⟨-, rfl, rfl⟩ := Binary64.finite.inj same
    rfl
  next some =>
    rw [if_neg some]
    exact settled _ _ same

/-- The shortest decimal of a positive number. -/
theorem decimal_shortest {negative : Bool} {significand : ℕ} {exponent : ℤ}
    (canonical : (Binary64.finite negative significand exponent).Canonical) (some : significand ≠ 0) :
    0 < (shortest significand exponent).1 ∧
      ofDecimal false (shortest significand exponent).1 (shortest significand exponent).2 =
        .finite false significand exponent := by
  have found : ofDecimal false (shortest significand exponent).1 (shortest significand exponent).2 =
      .finite false significand exponent := ofDecimal_shortest canonical
  refine ⟨?_, found⟩
  by_contra none
  rw [Nat.eq_zero_of_not_pos none, ofDecimal, if_pos rfl] at found
  obtain ⟨-, zero, -⟩ := Binary64.finite.inj found
  exact some zero.symm

/-- The text of a positive number is read as the number, whichever sign is in front. -/
theorem unsignedNumber_shortest {negative : Bool} {significand : ℕ} {exponent : ℤ}
    (canonical : (Binary64.finite negative significand exponent).Canonical) (some : significand ≠ 0)
    {rest : List Char} (ends : Ends rest) :
    unsignedNumber negative
        (decimalText (shortest significand exponent).1 (shortest significand exponent).2 ++ rest) =
      .ok (.real (.finite negative significand exponent), rest) := by
  obtain ⟨positive, found⟩ := decimal_shortest canonical some
  rw [unsignedNumber_decimalText positive _ ends, ofDecimal_negative found]

theorem digit_of_unsignedNumber {negative : Bool} {cs : List Char} {result : Value × List Char}
    (reading : unsignedNumber negative cs = .ok result) : ∃ first rest, cs = first :: rest ∧ first.isDigit = true := by
  have some : wholeDigits cs ≠ [] := by
    intro none
    simp [unsignedNumber, none] at reading
  unfold wholeDigits at some
  split at some
  next rest => exact ⟨'0', rest, rfl, rfl⟩
  next =>
    cases cs with
    | nil => exact absurd rfl some
    | cons first rest =>
      refine ⟨first, rest, rfl, ?_⟩
      by_contra other
      exact some (by rw [List.takeWhile_cons_of_neg other])

theorem value_of_unsignedNumber {cs : List Char} {result : Value × List Char}
    (reading : unsignedNumber false cs = .ok result) (steps : ℕ) : value (steps + 1) cs = .ok result := by
  obtain ⟨first, rest, rfl, digit⟩ := digit_of_unsignedNumber reading
  have other {c : Char} (noDigit : c.isDigit = false) : first ≠ c := by
    rintro rfl
    exact absurd digit (by rw [noDigit]; decide)
  simp [value, number, reading, other (c := '"') rfl, other (c := '[') rfl, other (c := '\x7b') rfl,
    other (c := 'n') rfl, other (c := 't') rfl, other (c := 'f') rfl, other (c := 'N') rfl, other (c := 'I') rfl,
    other (c := '-') rfl]

theorem value_of_negative {cs : List Char} {result : Value × List Char}
    (reading : unsignedNumber true cs = .ok result) (steps : ℕ) : value (steps + 1) ('-' :: cs) = .ok result := by
  obtain ⟨first, rest, rfl, digit⟩ := digit_of_unsignedNumber reading
  have other : first ≠ 'I' := by
    rintro rfl
    exact absurd digit (by decide)
  simp [value, number, other, reading]

theorem exponent_of_zero {negative : Bool} {exponent : ℤ} (canonical : (Binary64.finite negative 0 exponent).Canonical) :
    exponent = leastExponent := by
  rcases canonical with ⟨full, _⟩ | ⟨_, least⟩
  · exact absurd full (by decide)
  · exact least

/-- The text of a canonical number is read as the number. -/
theorem number_text {number : Binary64} (canonical : number.Canonical) {rest : List Char} (ends : Ends rest)
    (steps : ℕ) : value (steps + 1) (number.text.toList ++ rest) = .ok (.real number, rest) := by
  cases number with
  | undefined => rfl
  | infinite negative => cases negative <;> rfl
  | finite negative significand exponent =>
    by_cases none : significand = 0
    · subst none
      obtain rfl : exponent = leastExponent := exponent_of_zero canonical
      have reading : unsignedNumber negative ("0.0".toList ++ rest) =
          .ok (.real (.finite negative 0 leastExponent), rest) :=
        unsignedNumber_point (Or.inl rfl) (List.cons_ne_nil '0' []) (by simp) ends negative
      cases negative with
      | false => simpa [text] using value_of_unsignedNumber reading steps
      | true => simpa [text] using value_of_negative reading steps
    · have reading := unsignedNumber_shortest canonical none ends
      cases negative with
      | false => simpa [text, none] using value_of_unsignedNumber reading steps
      | true => simpa [text, none] using value_of_negative reading steps

theorem toList_toString (number : ℤ) :
    (toString number).toList = (if number < 0 then ['-'] else []) ++ digitsOf number.natAbs := by
  cases number with
  | ofNat number => exact Nat.toList_repr
  | negSucc number =>
    show ("-" ++ Nat.repr (number + 1)).toList = _
    rw [String.toList_append, Nat.toList_repr, if_pos (Int.negSucc_lt_zero number)]
    rfl

/-- The text of a whole number of at most 4300 digits is read as the number. -/
theorem whole_text {number : ℤ} (few : (digitsOf number.natAbs).length ≤ 4300) {rest : List Char} (ends : Ends rest)
    (steps : ℕ) : value (steps + 1) ((toString number).toList ++ rest) = .ok (.whole number, rest) := by
  have reading (negative : Bool) := unsignedNumber_whole (whole_digitsOf number.natAbs) ends few negative
  rw [digitsValue_digitsOf] at reading
  rw [toList_toString]
  split
  next below =>
    have same : -(number.natAbs : ℤ) = number := by omega
    have found := value_of_negative (reading true) steps
    rw [if_pos rfl, same] at found
    exact found
  next above =>
    have same : (number.natAbs : ℤ) = number := by omega
    have found := value_of_unsignedNumber (reading false) steps
    rw [if_neg Bool.false_ne_true, same] at found
    exact found

end Phrasebook.Proofs.NumberText
