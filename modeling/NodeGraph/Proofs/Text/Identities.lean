import Mathlib.Data.List.Basic
import NodeGraph.Image

/-!
Identities of images read back: a written identity has 32 hexadecimal digits in groups, and what
they say is the identity.
-/

namespace NodeGraph.ImageId

theorem hexDigit?_digitChar : ∀ digit < 16, hexDigit? (Nat.digitChar digit) = some digit := by
  decide

theorem digitChar_hex : ∀ digit < 16, Nat.digitChar digit ≠ '-' := by
  decide

theorem no_hyphen_toDigits (number : Nat) : ∀ digit ∈ Nat.toDigits 16 number, digit ≠ '-' := by
  induction number using Nat.strongRecOn with
  | ind number ih =>
      intro digit member
      by_cases small : number < 16
      · rw [Nat.toDigits_of_lt_base small] at member
        exact List.mem_singleton.mp member ▸ digitChar_hex number small
      · rw [Nat.toDigits_of_base_le (by decide) (Nat.not_lt.mp small)] at member
        rcases List.mem_append.mp member with earlier | last
        · exact ih (number / 16) (by omega) digit earlier
        · exact List.mem_singleton.mp last ▸ digitChar_hex _ (Nat.mod_lt _ (by decide))

theorem number?_append (digits : List Char) (digit : Char) :
    number? (digits ++ [digit]) = (number? digits).bind fun total =>
      (hexDigit? digit).map (16 * total + ·) := by
  rw [number?, List.foldlM_append, number?]
  simp only [List.foldlM_cons, List.foldlM_nil, bind_pure, Option.bind_eq_bind]

theorem number?_toDigits (zeros number : Nat) :
    number? (List.replicate zeros '0' ++ Nat.toDigits 16 number) = some number := by
  have leading : ∀ zeros, number? (List.replicate zeros '0') = some 0 := by
    intro zeros
    induction zeros with
    | zero => rfl
    | succ zeros ih =>
        rw [List.replicate_succ', number?_append, ih]
        rfl
  induction number using Nat.strongRecOn with
  | ind number ih =>
      by_cases small : number < 16
      · rw [Nat.toDigits_of_lt_base small, number?_append, leading, Option.bind_some,
          hexDigit?_digitChar number small]
        simp
      · rw [Nat.toDigits_of_base_le (by decide) (Nat.not_lt.mp small), ← List.append_assoc,
          number?_append, ih (number / 16) (by omega), Option.bind_some,
          hexDigit?_digitChar _ (Nat.mod_lt _ (by decide)), Option.map_some,
          Nat.div_add_mod]

theorem length_digits (id : ImageId) : id.digits.length = 32 := by
  have short : (Nat.toDigits 16 id.bits.toNat).length ≤ 32 := by
    rw [Nat.length_toDigits_le_iff (by decide) (by decide)]
    exact id.bits.isLt
  rw [digits, List.length_append, List.length_replicate]
  omega

theorem no_hyphen_digits (id : ImageId) : ∀ digit ∈ id.digits, digit ≠ '-' := by
  intro digit member
  rcases List.mem_append.mp member with zero | later
  · rw [(List.mem_replicate.mp zero).2]
    decide
  · exact no_hyphen_toDigits _ digit later

theorem ofDigits?_digits (id : ImageId) : ofDigits? id.digits = some id := by
  rw [ofDigits?, if_pos id.length_digits, digits, number?_toDigits, Option.map_some,
    BitVec.ofNat_toNat, BitVec.setWidth_eq]

theorem filter_hyphenate {digits : List Char} (bare : ∀ digit ∈ digits, digit ≠ '-') :
    (hyphenate digits).filter (· != '-') = digits := by
  have keep : ∀ part : List Char, part ⊆ digits → part.filter (· != '-') = part :=
    fun part inside => List.filter_eq_self.mpr fun digit member => by
      simpa using bare digit (inside member)
  have middle : ∀ start, (digits.drop start).take 4 ⊆ digits := fun start =>
    List.Subset.trans (List.take_subset _ _) (List.drop_subset _ _)
  have join : ∀ start rest, (digits.drop start).take 4 ++ (digits.drop (start + 4) ++ rest) =
      digits.drop start ++ rest := by
    intro start rest
    rw [← List.append_assoc, ← List.drop_drop, List.take_append_drop]
  simp only [hyphenate, List.filter_append, List.filter_cons, bne_self_eq_false, Bool.false_eq_true,
    if_false, keep _ (List.take_subset _ _), keep _ (middle _), keep _ (List.drop_subset _ _),
    List.append_assoc]
  have parts := join 16 []
  simp only [List.append_nil] at parts
  rw [parts, ← List.append_nil (digits.drop 16), join 12, join 8, List.append_nil,
    List.take_append_drop]

theorem ofText?_text (id : ImageId) : ofText? id.text = some id := by
  have length := id.length_digits
  have width : (hyphenate id.digits).length = 36 := by
    simp only [hyphenate, List.length_append, List.length_cons, List.length_take, List.length_drop]
    omega
  have bare := filter_hyphenate id.no_hyphen_digits
  rw [ofText?, text, String.toList_ofList]
  simp only [width, if_true, show ¬ 36 = 32 by decide, if_false]
  rw [ofHyphenated?, bare]
  simp only [length, and_self, if_true, id.ofDigits?_digits]

end NodeGraph.ImageId
