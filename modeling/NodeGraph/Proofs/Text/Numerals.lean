import Mathlib.Algebra.Order.Group.Int
import Mathlib.Algebra.Ring.Nat
import Mathlib.Data.List.Basic
import NodeGraph.Text.NumeralReader

/-!
Numerals read back. A numeral as printers make it has digits where digits belong and no leading
zero, so it is read back from its text, whatever comes behind it that cannot be part of a numeral.
-/

namespace NodeGraph

namespace Numeral

theorem valueOf_toDigits (number : Nat) : valueOf (Nat.toDigits 10 number) = number := by
  have back := @Nat.ofDigitChars_ten_toDigits number
  rw [Nat.ofDigitChars_eq_foldl] at back
  simpa only [valueOf, Nat.mul_comm] using back

theorem isDigit_digitsOf {number : Nat} : ∀ digit ∈ digitsOf number, digit.isDigit = true :=
  fun _ member => Nat.isDigit_of_mem_toDigits (by decide) (by decide) member

theorem head?_digitsOf {number : Nat} (positive : number ≠ 0) :
    (digitsOf number).head? ≠ some '0' := by
  induction number using Nat.strongRecOn with
  | ind number ih =>
      by_cases small : number < 10
      · rw [digitsOf, Nat.toDigits_of_lt_base small]
        simpa using positive
      · have large : 10 ≤ number := Nat.not_lt.mp small
        rw [digitsOf, Nat.toDigits_of_base_le (by decide) large,
          List.head?_append_of_ne_nil _ Nat.toDigits_ne_nil]
        exact ih (number / 10) (by omega) (by omega)

def Breaks (text : List Char) : Prop :=
  ∀ first, text.head? = some first → first.isDigit = false

theorem breaks_nil : Breaks [] := fun _ none => absurd none (Option.some_ne_none _).symm

theorem breaks_cons {first : Char} {text : List Char} (other : first.isDigit = false) :
    Breaks (first :: text) := by
  intro character same
  rwa [← Option.some.inj same]

section Runs

variable {digits rest : List Char}

theorem Breaks.takeWhile_append (breaks : Breaks rest)
    (all : ∀ digit ∈ digits, digit.isDigit = true) :
    (digits ++ rest).takeWhile Char.isDigit = digits := by
  rw [List.takeWhile_append_of_pos all]
  cases rest with
  | nil => exact List.append_nil digits
  | cons first rest => simp [breaks first rfl]

theorem Breaks.dropWhile_append (breaks : Breaks rest)
    (all : ∀ digit ∈ digits, digit.isDigit = true) :
    (digits ++ rest).dropWhile Char.isDigit = rest := by
  rw [List.dropWhile_append_of_pos all]
  cases rest with
  | nil => rfl
  | cons first rest => exact List.dropWhile_cons_of_neg (by simp [breaks first rfl])

theorem digits_append_inj {other more : List Char}
    (all : ∀ digit ∈ digits, digit.isDigit = true)
    (allOther : ∀ digit ∈ other, digit.isDigit = true) (breaks : Breaks rest)
    (breaksOther : Breaks more) (same : digits ++ rest = other ++ more) :
    digits = other ∧ rest = more := by
  constructor
  · rw [← breaks.takeWhile_append all, same, breaksOther.takeWhile_append allOther]
  · rw [← breaks.dropWhile_append all, same, breaksOther.dropWhile_append allOther]

end Runs

theorem digitsOf_inj {left right : Nat} (same : digitsOf left = digitsOf right) :
    left = right := by
  have values := congrArg valueOf same
  rwa [digitsOf, digitsOf, valueOf_toDigits, valueOf_toDigits] at values

/-- Digits where digits belong, at least one before the point, and no leading zero there. -/
structure Proper (numeral : Numeral) : Prop where
  nonempty : numeral.whole ≠ []
  whole : ∀ digit ∈ numeral.whole, digit.isDigit = true
  leading : numeral.whole.head? = some '0' → numeral.whole.length = 1
  fraction : ∀ digit ∈ numeral.fraction, digit.isDigit = true

def Ends (rest : List Char) : Prop :=
  ∀ character, rest.head? = some character →
    character.isDigit = false ∧ character ≠ '.' ∧ character ≠ 'e' ∧ character ≠ 'E'

theorem readDigits_append {digits rest : List Char} (nonempty : digits ≠ [])
    (all : ∀ digit ∈ digits, digit.isDigit = true) (breaks : Breaks rest) :
    readDigits (digits ++ rest) = some (digits, rest) := by
  rw [readDigits, breaks.takeWhile_append all, breaks.dropWhile_append all]
  simp [nonempty]

theorem readExponent_append (exponent : Option Int) {rest : List Char} (ends : Ends rest) :
    readExponent (exponent.elim [] exponentText ++ rest) = some (exponent, rest) := by
  cases exponent with
  | none =>
      cases rest with
      | nil => rfl
      | cons character rest =>
          obtain ⟨_, _, small, large⟩ := ends character rfl
          change readExponent (character :: rest) = _
          rw [readExponent.eq_def]
          split <;> simp_all
  | some power =>
      have digits : readDigits (digitsOf power.natAbs ++ rest) =
          some (digitsOf power.natAbs, rest) :=
        readDigits_append Nat.toDigits_ne_nil isDigit_digitsOf fun character first =>
          (ends character first).1
      have value : valueOf (digitsOf power.natAbs) = power.natAbs := valueOf_toDigits _
      rw [Option.elim_some, exponentText, List.cons_append, List.cons_append]
      by_cases negative : power < 0
      · rw [if_pos negative, readExponent, readPower, digits]
        simp only [Option.bind_eq_bind, Option.bind_some, value, Option.pure_def, if_true]
        rw [Int.ofNat_natAbs_of_nonpos (Int.le_of_lt negative), Int.neg_neg]
      · rw [if_neg negative, readExponent, readPower, digits]
        simp only [Option.bind_eq_bind, Option.bind_some, value, Option.pure_def,
          Bool.false_eq_true, if_false]
        rw [Int.natAbs_of_nonneg (Int.not_lt.mp negative)]

theorem readFraction_append {fraction rest : List Char}
    (all : ∀ digit ∈ fraction, digit.isDigit = true)
    (stops : ∀ character, rest.head? = some character →
      character.isDigit = false ∧ character ≠ '.') :
    readFraction ((if fraction.isEmpty then [] else '.' :: fraction) ++ rest) =
      some (fraction, rest) := by
  cases fraction with
  | nil =>
      cases rest with
      | nil => rfl
      | cons character rest =>
          have other := (stops character rfl).2
          change readFraction (character :: rest) = _
          rw [readFraction.eq_def]
          split <;> simp_all
  | cons digit fraction =>
      exact readDigits_append (List.cons_ne_nil _ _) all fun character first =>
        (stops character first).1

theorem readWhole_append {whole rest : List Char} (nonempty : whole ≠ [])
    (all : ∀ digit ∈ whole, digit.isDigit = true)
    (leading : whole.head? = some '0' → whole.length = 1)
    (stops : ∀ character, rest.head? = some character → character.isDigit = false) :
    readWhole (whole ++ rest) = some (whole, rest) := by
  rw [readWhole, readDigits_append nonempty all stops]
  simp only [Option.bind_eq_bind, Option.bind_some]
  rw [if_neg]
  rintro ⟨zero, long⟩
  exact absurd (leading zero) (Nat.ne_of_gt long)

theorem Proper.read_append {numeral : Numeral} (proper : numeral.Proper) {rest : List Char}
    (ends : Ends rest) : Numeral.read (numeral.toList ++ rest) = some (numeral, rest) := by
  obtain ⟨negative, whole, fraction, exponent⟩ := numeral
  obtain ⟨nonempty, digits, leading, fractionDigits⟩ := proper
  simp only at nonempty digits leading fractionDigits
  have powerStops : ∀ character,
      (exponent.elim [] exponentText ++ rest).head? = some character →
        character.isDigit = false ∧ character ≠ '.' := by
    intro character first
    cases exponent with
    | none => exact ⟨(ends character first).1, (ends character first).2.1⟩
    | some power =>
        obtain rfl := Option.some.inj first
        exact ⟨rfl, by decide⟩
  have pointStops : ∀ character, ((if fraction.isEmpty then [] else '.' :: fraction) ++
      (exponent.elim [] exponentText ++ rest)).head? = some character →
        character.isDigit = false := by
    intro character first
    cases fraction with
    | nil => exact (powerStops character first).1
    | cons digit fraction =>
        obtain rfl := Option.some.inj first
        rfl
  have unsigned := readWhole_append nonempty digits leading pointStops
  have unsignedHead : ∀ more, ((whole ++ more).head? == some '-') = false := by
    intro more
    cases whole with
    | nil => exact absurd rfl nonempty
    | cons digit whole =>
        have isDigit := digits digit List.mem_cons_self
        have other : digit ≠ '-' := by
          rintro rfl
          cases isDigit
        simpa using other
  simp only [toList, List.append_assoc]
  rw [Numeral.read]
  cases negative with
  | true =>
      simp only [if_true, List.cons_append, List.nil_append, List.head?_cons, BEq.rfl,
        List.drop_succ_cons, List.drop_zero, unsigned, Option.bind_eq_bind, Option.bind_some,
        readFraction_append fractionDigits powerStops, readExponent_append exponent ends,
        Option.pure_def]
  | false =>
      simp only [Bool.false_eq_true, if_false, List.nil_append, unsignedHead, unsigned,
        Option.bind_eq_bind, Option.bind_some, readFraction_append fractionDigits powerStops,
        readExponent_append exponent ends, Option.pure_def]

theorem Proper.head {numeral : Numeral} (proper : numeral.Proper) :
    ∃ first rest, numeral.toList = first :: rest ∧ (first = '-' ∨ first.isDigit = true) := by
  obtain ⟨negative, whole, fraction, exponent⟩ := numeral
  cases negative with
  | true => exact ⟨'-', _, rfl, Or.inl rfl⟩
  | false =>
      cases whole with
      | nil => exact absurd rfl proper.nonempty
      | cons digit whole => exact ⟨digit, _, rfl, Or.inr (proper.whole digit List.mem_cons_self)⟩

theorem proper_ofInt (number : Int) : (ofInt number).Proper where
  nonempty := Nat.toDigits_ne_nil
  whole := isDigit_digitsOf
  leading := by
    intro zero
    by_cases positive : number.natAbs = 0
    · rw [ofInt, positive]
      rfl
    · exact absurd zero (head?_digitsOf positive)
  fraction := fun _ member => absurd member List.not_mem_nil

end Numeral

theorem toList_natText (number : Nat) : (natText number).toList = Numeral.digitsOf number := by
  simp [natText, Numeral.text, Numeral.toList, Numeral.ofInt]

namespace Decimal

theorem proper_positional (style : Style) (negative : Bool) {digits : List Char} (power : Int)
    (nonempty : digits ≠ []) (all : ∀ digit ∈ digits, digit.isDigit = true)
    (leading : digits.head? ≠ some '0') :
    (positional style negative digits power).Proper := by
  have zeros : ∀ count, ∀ digit ∈ List.replicate count '0', digit.isDigit = true := by
    intro count digit member
    rw [(List.mem_replicate.mp member).2]
    rfl
  rw [positional]
  split
  · refine ⟨by simp [nonempty], ?_, ?_, ?_⟩
    · intro digit member
      exact (List.mem_append.mp member).elim (all digit) (zeros _ digit)
    · intro zero
      simp only [List.head?_append_of_ne_nil _ nonempty] at zero
      exact absurd zero leading
    · intro digit member
      simp only at member
      split at member
      · rw [List.mem_singleton.mp member]
        rfl
      · cases member
  · simp only
    split
    · rename_i inside
      have kept : 0 < digits.length - (-power).toNat := Nat.sub_pos_of_lt inside
      refine ⟨?_, fun digit member => all digit (List.mem_of_mem_take member), ?_,
        fun digit member => all digit (List.mem_of_mem_drop member)⟩
      · simp [List.take_eq_nil_iff, nonempty, Nat.ne_of_gt kept]
      · intro zero
        simp only [List.head?_take, Nat.ne_of_gt kept, if_false] at zero
        exact absurd zero leading
    · refine ⟨List.cons_ne_nil _ _, ?_, fun _ => rfl, ?_⟩
      · intro digit member
        rw [List.mem_singleton.mp member]
        rfl
      · intro digit member
        exact (List.mem_append.mp member).elim (zeros _ digit) (all digit)

theorem proper_layOut (style : Style) (negative : Bool) {number : Nat} (power : Int)
    (positive : number ≠ 0) : (layOut style negative number power).Proper := by
  have nonempty : Numeral.digitsOf number ≠ [] := Nat.toDigits_ne_nil
  have leading := Numeral.head?_digitsOf positive
  rw [layOut]
  split
  · exact proper_positional style negative power nonempty Numeral.isDigit_digitsOf leading
  · refine ⟨by simp [nonempty], ?_, ?_, ?_⟩
    · exact fun digit member => Numeral.isDigit_digitsOf digit (List.mem_of_mem_take member)
    · intro zero
      simp only [List.head?_take, Nat.one_ne_zero, if_false] at zero
      exact absurd zero leading
    · exact fun digit member => Numeral.isDigit_digitsOf digit (List.mem_of_mem_drop member)

namespace Cell

theorem onGrid_ne_zero {mantissa : Nat} (positive : mantissa ≠ 0) (exponent : Int) (tie : Tie)
    (power : Int) : (ofBinary mantissa exponent).onGrid tie power ≠ some 0 := by
  have low : 0 < (ofBinary mantissa exponent).low := by
    refine Nat.mul_pos ?_ (Nat.pow_pos (by decide))
    split <;> omega
  have none : (ofBinary mantissa exponent).admits power 0 = false := by
    have unit : 0 < Nat.pow 10 (-power).toNat := Nat.pow_pos (by decide)
    have above := Nat.mul_pos low unit
    rw [admits]
    simp only [Nat.zero_mul, Nat.not_lt_zero, decide_false, Bool.false_and]
    split
    · rw [decide_eq_false (Nat.not_le.mpr above), Bool.false_and]
    · rfl
  have other : ∀ {lower : Nat}, (ofBinary mantissa exponent).admits power lower = true →
      some lower ≠ some 0 := by
    rintro lower admitted same
    obtain rfl := Option.some.inj same
    rw [none] at admitted
    cases admitted
  have next : ∀ lower : Nat, some (lower + 1) ≠ some 0 := fun lower same => nomatch same
  rw [onGrid.eq_def]
  simp only
  split
  · exact Option.some_ne_none 0 |>.symm
  · rename_i admitted _
    exact other admitted
  · exact next _
  · rename_i admitted _
    split
    · exact other admitted
    · split
      · exact next _
      · cases tie with
        | up => exact next _
        | even =>
            simp only
            split
            · exact other admitted
            · exact next _

theorem search_ne_zero {mantissa : Nat} (positive : mantissa ≠ 0) (exponent : Int) (tie : Tie)
    (fuel : Nat) (power : Int)
    (enough : Nat.pow 10 (power - fuel).toNat * (ofBinary mantissa exponent).scale ≤
      (ofBinary mantissa exponent).value * Nat.pow 10 (-(power - fuel)).toNat) :
    ((ofBinary mantissa exponent).search tie fuel power).1 ≠ 0 := by
  induction fuel generalizing power with
  | zero =>
      have scale : 0 < (ofBinary mantissa exponent).scale := Nat.pow_pos (by decide)
      rw [show power - ((0 : Nat) : Int) = power by omega] at enough
      rw [search]
      exact Nat.ne_of_gt (Nat.div_pos enough (Nat.mul_pos (Nat.pow_pos (by decide)) scale))
  | succ fuel ih =>
      rw [search]
      cases found : (ofBinary mantissa exponent).onGrid tie power with
      | some digits =>
          simp only
          rintro rfl
          exact onGrid_ne_zero positive exponent tie power found
      | none =>
          refine ih (power - 1) ?_
          rw [show power - 1 - (fuel : Int) = power - ((fuel + 1 : Nat) : Int) by omega]
          exact enough

end Cell

theorem two_pow_le {bits places : Nat} (enough : 28 * bits ≤ 93 * places) :
    2 ^ bits ≤ 10 ^ places := by
  refine (Nat.pow_le_pow_iff_left (show 93 ≠ 0 by decide)).mp ?_
  calc (2 ^ bits) ^ 93 = (2 ^ 93) ^ bits := Nat.pow_right_comm 2 bits 93
    _ ≤ (10 ^ 28) ^ bits := Nat.pow_le_pow_left (by decide) bits
    _ = 10 ^ (28 * bits) := (Nat.pow_mul 10 28 bits).symm
    _ ≤ 10 ^ (places * 93) := Nat.pow_le_pow_right (by decide) (by omega)
    _ = (10 ^ places) ^ 93 := Nat.pow_mul 10 places 93

theorem ten_pow_le {bits places : Nat} (few : 10 * places ≤ 3 * bits) :
    10 ^ places ≤ 2 ^ bits := by
  refine (Nat.pow_le_pow_iff_left (show 3 ≠ 0 by decide)).mp ?_
  calc (10 ^ places) ^ 3 = (10 ^ 3) ^ places := Nat.pow_right_comm 10 places 3
    _ ≤ (2 ^ 10) ^ places := Nat.pow_le_pow_left (by decide) places
    _ = 2 ^ (10 * places) := (Nat.pow_mul 2 10 places).symm
    _ ≤ 2 ^ (bits * 3) := Nat.pow_le_pow_right (by decide) (by omega)
    _ = (2 ^ bits) ^ 3 := Nat.pow_mul 2 bits 3

/-- Twenty decimal places below the estimate of its magnitude a power of two is at least one. -/
theorem power_below {bits : Int} (low : -2000 ≤ bits) (high : bits ≤ 2000) :
    10 ^ (bits * 30103 / 100000 - 20).toNat * 2 ^ (1 - bits).toNat ≤
      2 ^ (bits - 1).toNat * 10 ^ (20 - bits * 30103 / 100000).toNat := by
  generalize estimate : bits * 30103 / 100000 = places
  by_cases whole : 0 ≤ bits
  · have near : 10 ^ places.toNat ≤ 2 ^ (bits.toNat + 60) := ten_pow_le (by omega)
    have tens : 20 + (places - 20).toNat = places.toNat + (20 - places).toNat := by omega
    have twos : bits.toNat + 60 + (1 - bits).toNat = 61 + (bits - 1).toNat := by omega
    have slack : 2 ^ 61 ≤ 10 ^ 20 := by decide
    refine Nat.le_of_mul_le_mul_left (c := 10 ^ 20) ?_ (by decide)
    calc 10 ^ 20 * (10 ^ (places - 20).toNat * 2 ^ (1 - bits).toNat)
        = 10 ^ places.toNat * 10 ^ (20 - places).toNat * 2 ^ (1 - bits).toNat := by
          rw [← Nat.mul_assoc, ← Nat.pow_add, tens, Nat.pow_add]
      _ ≤ 2 ^ (bits.toNat + 60) * 10 ^ (20 - places).toNat * 2 ^ (1 - bits).toNat :=
          Nat.mul_le_mul_right _ (Nat.mul_le_mul_right _ near)
      _ = 2 ^ 61 * (2 ^ (bits - 1).toNat * 10 ^ (20 - places).toNat) := by
          rw [Nat.mul_right_comm, ← Nat.pow_add, twos, Nat.pow_add, Nat.mul_assoc]
      _ ≤ 10 ^ 20 * (2 ^ (bits - 1).toNat * 10 ^ (20 - places).toNat) :=
          Nat.mul_le_mul_right _ slack
  · have near : 2 ^ (1 - bits).toNat ≤ 10 ^ (20 - places).toNat := two_pow_le (by omega)
    rw [show (places - 20).toNat = 0 by omega, show (bits - 1).toNat = 0 by omega]
    simpa using near

theorem shortest_ne_zero (tie : Tie) {mantissa : Nat} {exponent : Int} (positive : mantissa ≠ 0)
    (small : mantissa < Nat.pow 2 53) (low : -1074 ≤ exponent) (high : exponent ≤ 972) :
    (shortest tie mantissa exponent).1 ≠ 0 := by
  have log : mantissa.log2 < 53 := (Nat.log2_lt positive).mpr small
  have leading : Nat.pow 2 mantissa.log2 ≤ mantissa := Nat.log2_self_le positive
  rw [shortest]
  generalize width : (mantissa.log2 + 1 + exponent : Int) = bits
  have near : _ ≤ _ := @power_below bits (by omega) (by omega)
  refine Cell.search_ne_zero positive exponent tie 21 _ ?_
  rw [show bits * 30103 / 100000 + 1 - ((21 : Nat) : Int) = bits * 30103 / 100000 - 20 by omega,
    show -(bits * 30103 / 100000 - 20) = 20 - bits * 30103 / 100000 by omega]
  simp only [Nat.pow_eq, Cell.ofBinary] at near leading ⊢
  generalize (10 : Nat) ^ (bits * 30103 / 100000 - 20).toNat = coarse at near ⊢
  generalize (10 : Nat) ^ (20 - bits * 30103 / 100000).toNat = fine at near ⊢
  have places : mantissa.log2 + 2 + (exponent - 2).toNat + (1 - bits).toNat =
      (2 - exponent).toNat + (bits - 1).toNat := by
    omega
  refine Nat.le_of_mul_le_mul_right (c := 2 ^ (1 - bits).toNat) ?_ (Nat.pow_pos (by decide))
  calc coarse * 2 ^ (2 - exponent).toNat * 2 ^ (1 - bits).toNat
      = coarse * 2 ^ (1 - bits).toNat * 2 ^ (2 - exponent).toNat := Nat.mul_right_comm _ _ _
    _ ≤ 2 ^ (bits - 1).toNat * fine * 2 ^ (2 - exponent).toNat := Nat.mul_le_mul_right _ near
    _ = 2 ^ ((2 - exponent).toNat + (bits - 1).toNat) * fine := by
        rw [Nat.pow_add]
        ac_rfl
    _ = 4 * 2 ^ mantissa.log2 * 2 ^ (exponent - 2).toNat * fine * 2 ^ (1 - bits).toNat := by
        rw [← places, Nat.pow_add, Nat.pow_add, Nat.pow_add, show (2 : Nat) ^ 2 = 4 from rfl]
        ac_rfl
    _ ≤ 4 * mantissa * 2 ^ (exponent - 2).toNat * fine * 2 ^ (1 - bits).toNat := by
        refine Nat.mul_le_mul_right _ (Nat.mul_le_mul_right _ (Nat.mul_le_mul_right _ ?_))
        exact Nat.mul_le_mul_left 4 leading

theorem proper_layOut_zero (style : Style) (negative : Bool) :
    (layOut style negative 0 0).Proper := by
  have digits : Numeral.digitsOf 0 = ['0'] := rfl
  rw [layOut, digits]
  split
  · rw [positional, if_pos (Int.le_refl 0)]
    refine ⟨by simp, by simp, fun _ => rfl, ?_⟩
    split <;> simp
  · exact ⟨by simp, by simp, fun _ => rfl, by simp⟩

theorem binaryOf_bounds (number : Float) : (binaryOf number).2.1 < Nat.pow 2 53 ∧
    -1074 ≤ (binaryOf number).2.2 ∧ (binaryOf number).2.2 ≤ 972 := by
  have fraction : number.toBits.toNat % Nat.pow 2 52 < Nat.pow 2 52 :=
    Nat.mod_lt _ (Nat.pow_pos (by decide))
  have biased : number.toBits.toNat / Nat.pow 2 52 % Nat.pow 2 11 < Nat.pow 2 11 :=
    Nat.mod_lt _ (Nat.pow_pos (by decide))
  rw [binaryOf]
  generalize number.toBits.toNat % Nat.pow 2 52 = mantissa at fraction
  generalize number.toBits.toNat / Nat.pow 2 52 % Nat.pow 2 11 = exponent at biased
  simp only [Nat.pow_eq, Nat.reducePow] at fraction biased ⊢
  split <;> simp only <;> omega

theorem proper_numeral? {style : Style} {number : Float} {numeral : Numeral}
    (written : numeral? style number = some numeral) : numeral.Proper := by
  obtain ⟨small, low, high⟩ := binaryOf_bounds number
  rw [numeral?] at written
  generalize binaryOf number = parts at small low high written
  obtain ⟨negative, mantissa, exponent⟩ := parts
  split at written
  · simp only at written
    split at written
    · obtain rfl := Option.some.inj written
      exact proper_layOut_zero style negative
    · rename_i positive
      obtain rfl := Option.some.inj written
      exact proper_layOut style negative _ (shortest_ne_zero _ positive small low high)
  · cases written

theorem isSome_numeral? (style : Style) (number : Float) :
    (numeral? style number).isSome = number.isFinite := by
  rw [numeral?]
  split
  · rename_i finite
    rw [finite]
    simp only
    split <;> rfl
  · rename_i infinite
    rw [Bool.eq_false_iff.mpr infinite]
    rfl

end Decimal

end NodeGraph
