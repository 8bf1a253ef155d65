import Mathlib
import NodeGraph.Primitive.Builtin
import NodeGraph.Proofs.Value.Floats

/-!
Equality and order. Equality reads integers as numbers only beside numbers, and the order reads them
so always. It is then that large integers merge: they differ, but as numbers they do not. Where none
do, equality is an equivalence, and the equality that goes with the order.
-/

namespace NodeGraph

open Float.Model (UnpackedFloat)

/-- A float as far as equality tells it from others. -/
def readFloat (real : Float) : UnpackedFloat := Binary64.joinZeros real.toModel.unpack

theorem readFloat_eq_iff {left right : Float} (number : left.isNaN = false) :
    readFloat left = readFloat right ↔ (left == right) = true := by
  rw [Binary64.beq_iff]
  exact (and_iff_left number).symm

theorem nearestFloat_beq_iff {whole : Int64} {real : Float} :
    (nearestFloat whole == real) = true ↔ readFloat (nearestFloat whole) = readFloat real :=
  (readFloat_eq_iff (isNaN_nearestFloat whole)).symm

/-- What of a value equality looks at, if all integers are read as numbers. -/
inductive Reading where
  | floats (kind : ValueKind) (parts : List UnpackedFloat)
  | boolean (truth : Bool)
  | text (string : String)
  | image (id : ImageId)
  | array (items : List Reading)
  | unread

namespace Value

mutual

def reading : Value → Reading
  | .number real => .floats .number [readFloat real]
  | .integer whole => .floats .number [readFloat (nearestFloat whole)]
  | .boolean truth => .boolean truth
  | .point place => .floats .point [readFloat place.x, readFloat place.y]
  | .rect area =>
      .floats .rect [readFloat area.origin.x, readFloat area.origin.y, readFloat area.size.width,
        readFloat area.size.height]
  | .color shade => .floats .color (shade.components.map readFloat)
  | .text string => .text string
  | .array items => .array (readings items)
  | .image handle => .image handle.id
  | .error _ | .function _ => .unread

def readings : List Value → List Reading
  | [] => []
  | item :: rest => item.reading :: readings rest

end

mutual

/-- No error, no function and no float that is not a number; extents of images are not looked at. -/
def isPlain : Value → Bool
  | .number real => !real.isNaN
  | .point place => !place.x.isNaN && !place.y.isNaN
  | .rect area =>
      !area.origin.x.isNaN && !area.origin.y.isNaN && !area.size.width.isNaN &&
        !area.size.height.isNaN
  | .color shade => shade.components.all fun part => !part.isNaN
  | .array items => arePlain items
  | .error _ | .function _ => false
  | .integer _ | .boolean _ | .text _ | .image _ => true

def arePlain : List Value → Bool
  | [] => true
  | item :: rest => item.isPlain && arePlain rest

end

/-- Somewhere in two values, at the same place, are different integers that are the same number. -/
inductive Merges : Value → Value → Prop
  | integers {whole other : Int64} (different : whole ≠ other)
      (same : (nearestFloat whole == nearestFloat other) = true) :
      Merges (.integer whole) (.integer other)
  | head {left right : Value} (lefts rights : List Value) (here : Merges left right) :
      Merges (.array (left :: lefts)) (.array (right :: rights))
  | tail (left right : Value) {lefts rights : List Value}
      (later : Merges (.array lefts) (.array rights)) :
      Merges (.array (left :: lefts)) (.array (right :: rights))

theorem Merges.different {left right : Value} (merges : Merges left right) : left ≠ right := by
  induction merges with
  | integers different => exact fun same => different (integer.inj same)
  | head lefts rights _ ih => exact fun same => ih (List.cons.inj (array.inj same)).1
  | tail left right _ ih =>
      exact fun same => ih (congrArg array (List.cons.inj (array.inj same)).2)

theorem Merges.kind {left right : Value} (merges : Merges left right) :
    left.kind = .integer ∨ left.kind = .array := by
  cases merges with
  | integers => exact .inl rfl
  | head | tail => exact .inr rfl

theorem Merges.symm {left right : Value} (merges : Merges left right) : Merges right left := by
  induction merges with
  | integers different same =>
      exact .integers different.symm ((Binary64.beq_comm _ _).trans same)
  | head lefts rights _ ih => exact .head rights lefts ih
  | tail left right _ ih => exact .tail right left ih

mutual

def wholes : Value → List Int64
  | .integer whole => [whole]
  | .array items => wholesOf items
  | _ => []

def wholesOf : List Value → List Int64
  | [] => []
  | item :: rest => item.wholes ++ wholesOf rest

end

theorem Merges.large {left right : Value} (merges : Merges left right) :
    ∃ whole ∈ left.wholes ++ right.wholes, 2 ^ 53 < whole.toInt.natAbs := by
  induction merges with
  | @integers whole other different same =>
      by_contra small
      simp only [wholes, List.singleton_append, List.mem_cons, List.not_mem_nil, or_false,
        exists_eq_or_imp, exists_eq_left, not_or, Nat.not_lt] at small
      exact different (eq_of_nearestFloat small.1 small.2 same)
  | head lefts rights _ ih =>
      obtain ⟨whole, member, large⟩ := ih
      refine ⟨whole, ?_, large⟩
      simp only [wholes, wholesOf, List.mem_append] at member ⊢
      tauto
  | tail left right _ ih =>
      obtain ⟨whole, member, large⟩ := ih
      refine ⟨whole, ?_, large⟩
      simp only [wholes, wholesOf, List.mem_append] at member ⊢
      tauto

theorem merges_cons_iff {left right : Value} {lefts rights : List Value} :
    Merges (.array (left :: lefts)) (.array (right :: rights)) ↔
      Merges left right ∨ Merges (.array lefts) (.array rights) := by
  constructor
  · rintro (_ | ⟨_, _, here⟩ | ⟨_, _, later⟩)
    · exact .inl here
    · exact .inr later
  · rintro (here | later)
    · exact .head lefts rights here
    · exact .tail left right later

mutual

theorem numericEqual_iff {left right : Value} (plain : left.isPlain = true)
    (alsoPlain : right.isPlain = true) :
    left.numericEqual right = true ↔ left.reading = right.reading ∧ ¬ Merges left right := by
  cases left with
  | array items =>
      cases right with
      | array others =>
          rw [numericEqual, numericEqualList_iff plain alsoPlain, reading, reading,
            Reading.array.injEq]
      | _ => simp [numericEqual, equal, reading]
  | error message => cases plain
  | function callable => cases plain
  | integer whole =>
      cases right with
      | integer other =>
          simp only [numericEqual, equal, reading, beq_iff_eq, Reading.floats.injEq,
            List.cons.injEq, true_and, and_true, ← nearestFloat_beq_iff]
          constructor
          · rintro rfl
            refine ⟨?_, fun merges => merges.different rfl⟩
            exact nearestFloat_beq_iff.mpr rfl
          · rintro ⟨same, distinct⟩
            by_contra different
            exact distinct (.integers different same)
      | number real =>
          have distinct : ¬ Merges (.integer whole) (.number real) := by rintro ⟨⟩
          simp [numericEqual, reading, distinct, nearestFloat_beq_iff]
      | _ => simp [numericEqual, equal, reading]
  | number real =>
      have number : real.isNaN = false := by simpa only [isPlain, Bool.not_eq_true'] using plain
      have distinct {right : Value} : ¬ Merges (.number real) right := by rintro ⟨⟩
      cases right with
      | number other => simp [numericEqual, equal, reading, distinct, readFloat_eq_iff number]
      | integer whole =>
          simp only [numericEqual, reading, nearestFloat_beq_iff, Reading.floats.injEq,
            List.cons.injEq, true_and, and_true, distinct, not_false_eq_true]
          exact eq_comm
      | _ => simp [numericEqual, equal, reading]
  | _ =>
      refine Iff.trans ?_ (and_iff_left (mt Merges.kind (by simp [Value.kind]))).symm
      cases right with
      | _ =>
          simp_all [numericEqual, equal, reading, isPlain, readFloat_eq_iff, Point.equal,
            Rect.equal, Size.equal, Color.equal, Color.components, Image.equal, and_assoc]

theorem numericEqualList_iff {lefts rights : List Value} (plain : arePlain lefts = true)
    (alsoPlain : arePlain rights = true) :
    numericEqualList lefts rights = true ↔
      readings lefts = readings rights ∧ ¬ Merges (.array lefts) (.array rights) := by
  cases lefts with
  | nil =>
      have distinct : ¬ Merges (.array []) (.array rights) := by rintro ⟨⟩
      cases rights <;> simp [numericEqualList, readings, distinct]
  | cons left lefts =>
      cases rights with
      | nil => simp [numericEqualList, readings]
      | cons right rights =>
          simp only [arePlain, Bool.and_eq_true] at plain alsoPlain
          simp only [numericEqualList, readings, Bool.and_eq_true, List.cons.injEq,
            merges_cons_iff, not_or, numericEqual_iff plain.1 alsoPlain.1,
            numericEqualList_iff plain.2 alsoPlain.2]
          exact and_and_and_comm

end

theorem numericEqual_self {value : Value} (plain : value.isPlain = true) :
    value.numericEqual value = true :=
  (numericEqual_iff plain plain).mpr ⟨rfl, fun merges => merges.different rfl⟩

theorem numericEqual_symm {left right : Value} (plain : left.isPlain = true)
    (alsoPlain : right.isPlain = true) (same : left.numericEqual right = true) :
    right.numericEqual left = true := by
  obtain ⟨alike, distinct⟩ := (numericEqual_iff plain alsoPlain).mp same
  exact (numericEqual_iff alsoPlain plain).mpr ⟨alike.symm, mt Merges.symm distinct⟩

theorem numericEqual_trans_iff {first second third : Value} (firstPlain : first.isPlain = true)
    (secondPlain : second.isPlain = true) (thirdPlain : third.isPlain = true)
    (same : first.numericEqual second = true) (alsoSame : second.numericEqual third = true) :
    first.numericEqual third = true ↔ ¬ Merges first third := by
  have alike := ((numericEqual_iff firstPlain secondPlain).mp same).1
  have alsoAlike := ((numericEqual_iff secondPlain thirdPlain).mp alsoSame).1
  rw [numericEqual_iff firstPlain thirdPlain]
  exact and_iff_right (alike.trans alsoAlike)

def isNumeric : Value → Bool
  | .integer _ | .number _ => true
  | _ => false

theorem exists_asNumber {value : Value} (plain : value.isPlain = true)
    (numeric : value.isNumeric = true) :
    ∃ real, value.asNumber = .ok real ∧ real.isNaN = false ∧
      value.reading = .floats .number [readFloat real] := by
  cases value with
  | integer whole => exact ⟨_, rfl, isNaN_nearestFloat whole, rfl⟩
  | number real => exact ⟨real, rfl, by simpa only [isPlain, Bool.not_eq_true'] using plain, rfl⟩
  | _ => cases numeric

end Value

namespace Registry

def Holds (name : String) (left right : Value) : Prop :=
  builtin.invoke name [left, right] = .ok (.boolean true)

open Value

variable {left right : Value}

theorem firstError?_plain (plain : left.isPlain = true) (alsoPlain : right.isPlain = true) :
    firstError? [left, right] = none := by
  have clean {value : Value} (plain : value.isPlain = true) : value.isError = false := by
    cases value with
    | error message => cases plain
    | _ => rfl
  rw [firstError?, List.find?_cons_of_neg (by simp [clean plain]),
    List.find?_cons_of_neg (by simp [clean alsoPlain]), List.find?_nil]

theorem invoke_eq (plain : left.isPlain = true) (alsoPlain : right.isPlain = true) :
    builtin.invoke "eq" [left, right] = .ok (.boolean (left.numericEqual right)) := by
  have found : builtin.find? "eq" = some (.binary ⟨"eq", .logic,
      "Equality of two values of the same type", ⟨[.generic 0, .generic 0], .boolean⟩⟩
        fun left right => .ok (.boolean (left.numericEqual right))) := rfl
  rw [invoke, found]
  dsimp only
  rw [firstError?_plain plain alsoPlain]
  rfl

theorem invoke_comparison {name description : String} {holds : Float → Float → Bool}
    (found : builtin.find? name =
      some (.binary (Logic.comparison name description) (Logic.compare holds)))
    (plain : left.isPlain = true) (alsoPlain : right.isPlain = true) {first second : Float}
    (isFirst : left.asNumber = .ok first) (isSecond : right.asNumber = .ok second) :
    builtin.invoke name [left, right] = .ok (.boolean (holds first second)) := by
  have compared : Logic.compare holds left right = .ok (.boolean (holds first second)) := by
    rw [Logic.compare, isFirst, isSecond]
    rfl
  rw [invoke, found]
  dsimp only
  rw [firstError?_plain plain alsoPlain]
  dsimp only [Primitive.binary, Primitive.ofRefusing]
  rw [compared]
  rfl

theorem holds_eq_iff (plain : left.isPlain = true) (alsoPlain : right.isPlain = true) :
    Holds "eq" left right ↔ left.numericEqual right = true := by
  rw [Holds, invoke_eq plain alsoPlain]
  simp

theorem holds_eq_iff_order (plain : left.isPlain = true) (alsoPlain : right.isPlain = true)
    (numeric : left.isNumeric = true) (alsoNumeric : right.isNumeric = true) :
    Holds "eq" left right ↔
      Holds "le" left right ∧ Holds "ge" left right ∧ ¬ Merges left right := by
  obtain ⟨first, isFirst, number, reads⟩ := exists_asNumber plain numeric
  obtain ⟨second, isSecond, _, alsoReads⟩ := exists_asNumber alsoPlain alsoNumeric
  have atMost := @invoke_comparison left right "le" "a <= b" (· ≤ ·) rfl plain alsoPlain
    first second isFirst isSecond
  have atLeast := @invoke_comparison left right "ge" "a >= b" (· ≥ ·) rfl plain alsoPlain
    first second isFirst isSecond
  have order := Binary64.le_and_ge first second
  rw [holds_eq_iff plain alsoPlain, numericEqual_iff plain alsoPlain, reads, alsoReads, Holds,
    Holds, atMost, atLeast]
  simp [readFloat_eq_iff number, ← order, and_assoc]

/-- Equality is reflexive and symmetric, and what keeps it from being transitive, and from being the
equality of the order, is that large integers merge when they are read as numbers. -/
theorem equality_laws {first second third : Value} (firstPlain : first.isPlain = true)
    (secondPlain : second.isPlain = true) (thirdPlain : third.isPlain = true) :
    (∃ truth, builtin.invoke "eq" [first, second] = .ok (.boolean truth)) ∧
    Holds "eq" first first ∧
    (Holds "eq" first second → Holds "eq" second first) ∧
    (Holds "eq" first second → Holds "eq" second third →
      (Holds "eq" first third ↔ ¬ Merges first third)) ∧
    (first.isNumeric = true → second.isNumeric = true →
      (Holds "eq" first second ↔
        Holds "le" first second ∧ Holds "ge" first second ∧ ¬ Merges first second)) ∧
    ((∀ whole ∈ first.wholes ++ second.wholes, whole.toInt.natAbs ≤ 2 ^ 53) →
      ¬ Merges first second) := by
  refine ⟨⟨_, invoke_eq firstPlain secondPlain⟩, ?_, ?_, ?_,
    holds_eq_iff_order firstPlain secondPlain, ?_⟩
  · exact (holds_eq_iff firstPlain firstPlain).mpr (numericEqual_self firstPlain)
  · rw [holds_eq_iff firstPlain secondPlain, holds_eq_iff secondPlain firstPlain]
    exact numericEqual_symm firstPlain secondPlain
  · rw [holds_eq_iff firstPlain secondPlain, holds_eq_iff secondPlain thirdPlain,
      holds_eq_iff firstPlain thirdPlain]
    exact numericEqual_trans_iff firstPlain secondPlain thirdPlain
  · intro small merges
    obtain ⟨whole, member, large⟩ := merges.large
    exact Nat.not_lt.mpr (small whole member) large

theorem one_equality_laws :
    isPlain (.integer 1) = true ∧ isPlain (.number 1) = true ∧
      Holds "eq" (.number 1) (.integer 1) ∧ ¬ Merges (.integer 1) (.integer 1) := by
  have plain : isPlain (.number 1) = true := by decide +kernel
  have compared : Holds "eq" (.integer 1) (.number 1) := rfl
  obtain ⟨_, reflexive, symmetric, transitive, _⟩ :=
    @equality_laws (.integer 1) (.number 1) (.integer 1) rfl plain rfl
  have back := symmetric compared
  exact ⟨rfl, plain, back, (transitive compared back).mp reflexive⟩

/-- The first integer that is no float is read as the one before it. -/
theorem equality_breaks :
    (¬ ∀ first second third : Value, first.isPlain = true → second.isPlain = true →
      third.isPlain = true → Holds "eq" first second → Holds "eq" second third →
        Holds "eq" first third) ∧
    ¬ ∀ left right : Value, left.isPlain = true → right.isPlain = true → left.isNumeric = true →
      right.isNumeric = true →
        (Holds "eq" left right ↔ Holds "le" left right ∧ Holds "ge" left right) := by
  let odd : Value := .integer 9007199254740993
  let even : Value := .integer 9007199254740992
  let real : Value := .number 9007199254740992
  have number : real.isPlain = true := by decide +kernel
  have rounded : odd.numericEqual real = true := by decide +kernel
  have exact : real.numericEqual even = true := by decide +kernel
  have different : odd.numericEqual even = false := by decide +kernel
  have apart : ¬ Holds "eq" odd even := by
    rw [holds_eq_iff rfl rfl, different]
    exact Bool.false_ne_true
  refine ⟨fun transitive => apart ?_, fun ordered => apart ?_⟩
  · exact transitive odd real even rfl number rfl ((holds_eq_iff rfl number).mpr rounded)
      ((holds_eq_iff number rfl).mpr exact)
  · exact (ordered odd even rfl rfl rfl rfl).mpr ⟨rfl, rfl⟩

end Registry

end NodeGraph
