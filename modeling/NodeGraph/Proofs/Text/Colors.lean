import Mathlib
import NodeGraph.Color
import NodeGraph.Proofs.Value.Floats

/-!
The notation of colors. After its `#` signs a color is three or four hexadecimal digits, or six or
eight in pairs. One more thing is read: in a pair, a plus sign stands for a zero in front of a
digit.
-/

namespace NodeGraph

def IsHexDigit (digit : Char) (value : Nat) : Prop :=
  value < 16 ∧ (digit = Nat.digitChar value ∨ digit = (Nat.digitChar value).toUpper)

instance (digit : Char) (value : Nat) : Decidable (IsHexDigit digit value) :=
  inferInstanceAs (Decidable (_ ∧ _))

theorem hexDigit?_ascii {digit : Char} {value : Nat} (read : hexDigit? digit = some value) :
    digit.toNat < 128 := by
  have bounded {last : Char} (least : digit ≤ last) (ascii : last.toNat < 128) :
      digit.toNat < 128 := Nat.lt_of_le_of_lt least ascii
  unfold hexDigit? at read
  split_ifs at read with decimal lower upper
  · exact bounded decimal.2 (by decide)
  · exact bounded lower.2 (by decide)
  · exact bounded upper.2 (by decide)

theorem hexDigit?_eq_some_iff {digit : Char} {value : Nat} :
    hexDigit? digit = some value ↔ IsHexDigit digit value := by
  have table : ∀ code < 128, ∀ value ∈ (hexDigit? (Char.ofNat code)).toList,
      IsHexDigit (Char.ofNat code) value := by decide +kernel
  have digits : ∀ value < 16, hexDigit? (Nat.digitChar value) = some value ∧
      hexDigit? (Nat.digitChar value).toUpper = some value := by decide +kernel
  constructor
  · intro read
    have here := table digit.toNat (hexDigit?_ascii read) value
    rw [Char.ofNat_toNat, Option.mem_toList] at here
    exact here read
  · rintro ⟨small, rfl | rfl⟩
    · exact (digits value small).1
    · exact (digits value small).2

theorem IsHexDigit.ascii {digit : Char} {value : Nat} (hex : IsHexDigit digit value) :
    digit.toNat < 128 :=
  hexDigit?_ascii (hexDigit?_eq_some_iff.mpr hex)

theorem plus_not_digit (value : Nat) : ¬ IsHexDigit '+' value := by
  rw [← hexDigit?_eq_some_iff, show hexDigit? '+' = none by decide]
  exact (Option.some_ne_none value).symm

/-- What a character stands for as the first of a pair. -/
def Leads (first : Char) (value : Nat) : Prop := IsHexDigit first value ∨ first = '+' ∧ value = 0

/-- How one or two characters spell a byte: a single digit is repeated, and a pair is read as it
is. -/
inductive Channel (leads : Char → Nat → Prop) : Nat → List Char → Nat → Prop
  | single {digit : Char} {value : Nat} (hex : IsHexDigit digit value) :
      Channel leads 1 [digit] (16 * value + value)
  | pair {first second : Char} {high low : Nat} (leading : leads first high)
      (hex : IsHexDigit second low) : Channel leads 2 [first, second] (16 * high + low)

def ofByte (byte : Nat) : Float := byte.toFloat / 255

/-- Red, green, blue and alpha in this order, all of one width. A color without alpha is opaque. -/
inductive Spells (leads : Char → Nat → Prop) : List Char → Color → Prop
  | solid {width red green blue : Nat} {r g b : List Char} (isRed : Channel leads width r red)
      (isGreen : Channel leads width g green) (isBlue : Channel leads width b blue) :
      Spells leads (r ++ g ++ b) (Color.opaqueOf (ofByte red) (ofByte green) (ofByte blue))
  | translucent {width red green blue alpha : Nat} {r g b a : List Char}
      (isRed : Channel leads width r red) (isGreen : Channel leads width g green)
      (isBlue : Channel leads width b blue) (isAlpha : Channel leads width a alpha) :
      Spells leads (r ++ g ++ b ++ a) ⟨ofByte red, ofByte green, ofByte blue, ofByte alpha⟩

theorem Leads.ascii {first : Char} {value : Nat} (leads : Leads first value) :
    first.toNat < 128 := by
  rcases leads with hex | ⟨rfl, _⟩
  · exact hex.ascii
  · decide

theorem Leads.small {first : Char} {value : Nat} (leads : Leads first value) : value < 16 := by
  rcases leads with hex | ⟨_, rfl⟩
  · exact hex.1
  · decide

theorem Channel.small {width byte : Nat} {digits : List Char}
    (channel : Channel Leads width digits byte) : byte < 256 := by
  cases channel with
  | single hex =>
      have := hex.1
      omega
  | pair leading hex =>
      have := leading.small
      have := hex.1
      omega

section Channels

variable {leads : Char → Nat → Prop} {width byte : Nat} {digits : List Char}

theorem Channel.width_eq (channel : Channel leads width digits byte) : width = 1 ∨ width = 2 := by
  cases channel with
  | single => exact .inl rfl
  | pair => exact .inr rfl

theorem Channel.of_one (channel : Channel leads 1 digits byte) : ∃ digit, digits = [digit] := by
  cases channel
  exact ⟨_, rfl⟩

theorem Channel.of_two (channel : Channel leads 2 digits byte) :
    ∃ first second, digits = [first, second] := by
  cases channel
  exact ⟨_, _, rfl⟩

theorem Channel.length_eq (channel : Channel leads width digits byte) : digits.length = width := by
  cases channel <;> rfl

theorem Channel.forall_mem {holds : Char → Prop} (channel : Channel leads width digits byte)
    (ofLeads : ∀ first value, leads first value → holds first)
    (ofHex : ∀ digit value, IsHexDigit digit value → holds digit) :
    ∀ digit ∈ digits, holds digit := by
  cases channel with
  | single hex => exact List.forall_mem_singleton.mpr (ofHex _ _ hex)
  | pair leading hex =>
      exact List.forall_mem_cons.mpr
        ⟨ofLeads _ _ leading, List.forall_mem_singleton.mpr (ofHex _ _ hex)⟩

theorem Channel.imp {follows : Char → Nat → Prop} (channel : Channel leads width digits byte)
    (implies : ∀ first ∈ digits, ∀ value, leads first value → follows first value) :
    Channel follows width digits byte := by
  cases channel with
  | single hex => exact .single hex
  | pair leading hex => exact .pair (implies _ (List.mem_cons_self ..) _ leading) hex

variable {color : Color}

theorem Spells.forall_mem {holds : Char → Prop} (spelled : Spells leads digits color)
    (ofLeads : ∀ first value, leads first value → holds first)
    (ofHex : ∀ digit value, IsHexDigit digit value → holds digit) :
    ∀ digit ∈ digits, holds digit := by
  cases spelled with
  | solid isRed isGreen isBlue =>
      simp only [List.forall_mem_append]
      exact ⟨⟨isRed.forall_mem ofLeads ofHex, isGreen.forall_mem ofLeads ofHex⟩,
        isBlue.forall_mem ofLeads ofHex⟩
  | translucent isRed isGreen isBlue isAlpha =>
      simp only [List.forall_mem_append]
      exact ⟨⟨⟨isRed.forall_mem ofLeads ofHex, isGreen.forall_mem ofLeads ofHex⟩,
        isBlue.forall_mem ofLeads ofHex⟩, isAlpha.forall_mem ofLeads ofHex⟩

theorem Spells.imp {follows : Char → Nat → Prop} (spelled : Spells leads digits color)
    (implies : ∀ first ∈ digits, ∀ value, leads first value → follows first value) :
    Spells follows digits color := by
  cases spelled with
  | solid isRed isGreen isBlue =>
      simp only [List.forall_mem_append] at implies
      exact .solid (isRed.imp implies.1.1) (isGreen.imp implies.1.2) (isBlue.imp implies.2)
  | translucent isRed isGreen isBlue isAlpha =>
      simp only [List.forall_mem_append] at implies
      exact .translucent (isRed.imp implies.1.1.1) (isGreen.imp implies.1.1.2)
        (isBlue.imp implies.1.2) (isAlpha.imp implies.2)

end Channels

theorem ofByte_scaled {byte scale : Nat} (small : byte < 256) (scaleSmall : scale < 256) :
    byte.toFloat * scale.toFloat / 255 = ofByte (byte * scale) := by
  have product : byte * scale < 2 ^ 53 :=
    Nat.lt_trans (Nat.mul_lt_mul'' small scaleSmall) (by decide)
  rw [toFloat_mul (Nat.lt_trans small (by decide)) (Nat.lt_trans scaleSmall (by decide)) product,
    ofByte]

namespace Color

variable {next : Float → Except HexError Color} {color : Color}

theorem component_bind_iff {scale : Float} {digits : List Char} :
    component scale digits >>= next = .ok color ↔
      ∃ byte, channel? digits = some byte ∧ next (byte.toFloat * scale / 255) = .ok color := by
  rw [component]
  cases channel? digits <;> simp [bind, Except.bind]

theorem single_bind_iff {digit : Char} :
    component 17 [digit] >>= next = .ok color ↔
      ∃ byte, Channel Leads 1 [digit] byte ∧ next (ofByte byte) = .ok color := by
  have scaled {value : Nat} (hex : IsHexDigit digit value) :
      value.toFloat * 17 / 255 = ofByte (16 * value + value) := by
    rw [← Nat.succ_mul, Nat.mul_comm]
    exact ofByte_scaled (Nat.lt_trans hex.1 (by decide)) (by decide)
  rw [component_bind_iff]
  constructor
  · rintro ⟨value, read, follows⟩
    have hex : IsHexDigit digit value := hexDigit?_eq_some_iff.mp read
    exact ⟨_, .single hex, scaled hex ▸ follows⟩
  · rintro ⟨_, ⟨hex⟩, follows⟩
    exact ⟨_, hexDigit?_eq_some_iff.mpr hex, (scaled hex).symm ▸ follows⟩

theorem channel?_pair {first second : Char} {byte : Nat} :
    channel? [first, second] = some byte ↔ Channel Leads 2 [first, second] byte := by
  by_cases signed : first = '+'
  · subst signed
    change hexDigit? second = some byte ↔ _
    rw [hexDigit?_eq_some_iff]
    constructor
    · intro hex
      have spelled : Channel Leads 2 ['+', second] (16 * 0 + byte) := .pair (.inr ⟨rfl, rfl⟩) hex
      rwa [Nat.mul_zero, Nat.zero_add] at spelled
    · rintro (_ | ⟨leading | ⟨_, rfl⟩, hex⟩)
      · exact absurd leading (plus_not_digit _)
      · rwa [Nat.mul_zero, Nat.zero_add]
  · have read : channel? [first, second] =
        (hexDigit? first).bind fun high => (hexDigit? second).bind fun low =>
          some (16 * high + low) := by
      rw [channel?]
      · rfl
      · exact fun same => signed same
    simp only [read, Option.bind_eq_some_iff, hexDigit?_eq_some_iff]
    constructor
    · rintro ⟨high, leading, low, hex, same⟩
      cases same
      exact .pair (.inl leading) hex
    · rintro (_ | ⟨leading | ⟨same, _⟩, hex⟩)
      · exact ⟨_, leading, _, hex, rfl⟩
      · exact absurd same signed

theorem pair_bind_iff {first second : Char} :
    component 1 [first, second] >>= next = .ok color ↔
      ∃ byte, Channel Leads 2 [first, second] byte ∧ next (ofByte byte) = .ok color := by
  rw [component_bind_iff]
  refine exists_congr fun byte => ?_
  rw [channel?_pair]
  refine and_congr_right fun spelled => ?_
  have scaled : byte.toFloat * 1 / 255 = ofByte (byte * 1) :=
    ofByte_scaled spelled.small (by decide)
  rw [scaled, Nat.mul_one]

def digitsOf (text : String) : List Char := text.toList.dropWhile (· == '#')

theorem ofHex_ok_iff (text : String) (color : Color) :
    ofHex text = .ok color ↔ Spells Leads (digitsOf text) color := by
  rw [ofHex, digitsOf]
  generalize text.toList.dropWhile (· == '#') = digits
  constructor
  · intro parsed
    split_ifs at parsed
    split at parsed
    · simp only [single_bind_iff] at parsed
      obtain ⟨red, isRed, green, isGreen, blue, isBlue, ⟨⟩⟩ := parsed
      exact .solid isRed isGreen isBlue
    · simp only [single_bind_iff] at parsed
      obtain ⟨red, isRed, green, isGreen, blue, isBlue, alpha, isAlpha, ⟨⟩⟩ := parsed
      exact .translucent isRed isGreen isBlue isAlpha
    · simp only [pair_bind_iff] at parsed
      obtain ⟨red, isRed, green, isGreen, blue, isBlue, ⟨⟩⟩ := parsed
      exact .solid isRed isGreen isBlue
    · simp only [pair_bind_iff] at parsed
      obtain ⟨red, isRed, green, isGreen, blue, isBlue, alpha, isAlpha, ⟨⟩⟩ := parsed
      exact .translucent isRed isGreen isBlue isAlpha
    · cases parsed
  · intro spelled
    have ascii : ¬ (digits.any fun digit => digit.toNat ≥ 128) = true := by
      have small := spelled.forall_mem (fun _ _ => Leads.ascii) (fun _ _ => IsHexDigit.ascii)
      simpa using small
    rw [if_neg ascii]
    cases spelled with
    | solid isRed isGreen isBlue =>
        rcases isRed.width_eq with rfl | rfl
        · obtain ⟨r, rfl⟩ := isRed.of_one
          obtain ⟨g, rfl⟩ := isGreen.of_one
          obtain ⟨b, rfl⟩ := isBlue.of_one
          simp only [List.nil_append, List.cons_append, single_bind_iff]
          exact ⟨_, isRed, _, isGreen, _, isBlue, rfl⟩
        · obtain ⟨r, r', rfl⟩ := isRed.of_two
          obtain ⟨g, g', rfl⟩ := isGreen.of_two
          obtain ⟨b, b', rfl⟩ := isBlue.of_two
          simp only [List.nil_append, List.cons_append, pair_bind_iff]
          exact ⟨_, isRed, _, isGreen, _, isBlue, rfl⟩
    | translucent isRed isGreen isBlue isAlpha =>
        rcases isRed.width_eq with rfl | rfl
        · obtain ⟨r, rfl⟩ := isRed.of_one
          obtain ⟨g, rfl⟩ := isGreen.of_one
          obtain ⟨b, rfl⟩ := isBlue.of_one
          obtain ⟨a, rfl⟩ := isAlpha.of_one
          simp only [List.nil_append, List.cons_append, single_bind_iff]
          exact ⟨_, isRed, _, isGreen, _, isBlue, _, isAlpha, rfl⟩
        · obtain ⟨r, r', rfl⟩ := isRed.of_two
          obtain ⟨g, g', rfl⟩ := isGreen.of_two
          obtain ⟨b, b', rfl⟩ := isBlue.of_two
          obtain ⟨a, a', rfl⟩ := isAlpha.of_two
          simp only [List.nil_append, List.cons_append, pair_bind_iff]
          exact ⟨_, isRed, _, isGreen, _, isBlue, _, isAlpha, rfl⟩

theorem exists_single {digit : Char} (hex : ∃ value, IsHexDigit digit value) :
    ∃ byte, Channel IsHexDigit 1 [digit] byte := by
  obtain ⟨value, hex⟩ := hex
  exact ⟨_, .single hex⟩

theorem exists_pair {first second : Char} (leading : ∃ value, IsHexDigit first value)
    (hex : ∃ value, IsHexDigit second value) :
    ∃ byte, Channel IsHexDigit 2 [first, second] byte := by
  obtain ⟨high, leading⟩ := leading
  obtain ⟨low, hex⟩ := hex
  exact ⟨_, .pair leading hex⟩

theorem exists_spells_iff (digits : List Char) :
    (∃ color, Spells IsHexDigit digits color) ↔
      digits.length ∈ [3, 4, 6, 8] ∧ ∀ digit ∈ digits, ∃ value, IsHexDigit digit value := by
  constructor
  · rintro ⟨color, spelled⟩
    refine ⟨?_, spelled.forall_mem (fun _ _ => Exists.intro _) (fun _ _ => Exists.intro _)⟩
    cases spelled with
    | solid isRed isGreen isBlue =>
        rcases isRed.width_eq with rfl | rfl <;>
          simp [isRed.length_eq, isGreen.length_eq, isBlue.length_eq]
    | translucent isRed isGreen isBlue isAlpha =>
        rcases isRed.width_eq with rfl | rfl <;>
          simp [isRed.length_eq, isGreen.length_eq, isBlue.length_eq, isAlpha.length_eq]
  · rintro ⟨length, hex⟩
    match digits, length with
    | [r, g, b], _ =>
        obtain ⟨red, isRed⟩ := exists_single (hex r (by simp))
        obtain ⟨green, isGreen⟩ := exists_single (hex g (by simp))
        obtain ⟨blue, isBlue⟩ := exists_single (hex b (by simp))
        exact ⟨_, .solid isRed isGreen isBlue⟩
    | [r, g, b, a], _ =>
        obtain ⟨red, isRed⟩ := exists_single (hex r (by simp))
        obtain ⟨green, isGreen⟩ := exists_single (hex g (by simp))
        obtain ⟨blue, isBlue⟩ := exists_single (hex b (by simp))
        obtain ⟨alpha, isAlpha⟩ := exists_single (hex a (by simp))
        exact ⟨_, .translucent isRed isGreen isBlue isAlpha⟩
    | [r, r', g, g', b, b'], _ =>
        obtain ⟨red, isRed⟩ := exists_pair (hex r (by simp)) (hex r' (by simp))
        obtain ⟨green, isGreen⟩ := exists_pair (hex g (by simp)) (hex g' (by simp))
        obtain ⟨blue, isBlue⟩ := exists_pair (hex b (by simp)) (hex b' (by simp))
        exact ⟨_, .solid isRed isGreen isBlue⟩
    | [r, r', g, g', b, b', a, a'], _ =>
        obtain ⟨red, isRed⟩ := exists_pair (hex r (by simp)) (hex r' (by simp))
        obtain ⟨green, isGreen⟩ := exists_pair (hex g (by simp)) (hex g' (by simp))
        obtain ⟨blue, isBlue⟩ := exists_pair (hex b (by simp)) (hex b' (by simp))
        obtain ⟨alpha, isAlpha⟩ := exists_pair (hex a (by simp)) (hex a' (by simp))
        exact ⟨_, .translucent isRed isGreen isBlue isAlpha⟩

/-- A text is a color exactly as the notation says, or with plus signs that stand for zeros; and
what the notation says is that there are 3, 4, 6 or 8 characters, all of them digits of base 16. -/
theorem ofHex_exact (text : String) :
    (∀ color, ofHex text = .ok color ↔
      Spells IsHexDigit (digitsOf text) color ∨
        '+' ∈ digitsOf text ∧ Spells Leads (digitsOf text) color) ∧
    ((∃ color, Spells IsHexDigit (digitsOf text) color) ↔
      (digitsOf text).length ∈ [3, 4, 6, 8] ∧
        ∀ digit ∈ digitsOf text, ∃ value, IsHexDigit digit value) := by
  refine ⟨fun color => ?_, exists_spells_iff _⟩
  rw [ofHex_ok_iff]
  constructor
  · intro spelled
    by_cases signed : '+' ∈ digitsOf text
    · exact .inr ⟨signed, spelled⟩
    · refine .inl (spelled.imp ?_)
      rintro first member value (hex | ⟨rfl, _⟩)
      · exact hex
      · exact absurd member signed
  · rintro (spelled | ⟨_, spelled⟩)
    · exact spelled.imp fun _ _ _ => Or.inl
    · exact spelled

theorem ofHex_takes_signs :
    ¬ ((∃ color, ofHex "#+F+F+F" = .ok color) ↔
      (digitsOf "#+F+F+F").length ∈ [3, 4, 6, 8] ∧
        ∀ digit ∈ digitsOf "#+F+F+F", ∃ value, IsHexDigit digit value) := by
  intro exact
  obtain ⟨_, hex⟩ := exact.mp ⟨_, rfl⟩
  obtain ⟨value, plus⟩ := hex '+' (by decide)
  exact plus_not_digit value plus

end Color

end NodeGraph
