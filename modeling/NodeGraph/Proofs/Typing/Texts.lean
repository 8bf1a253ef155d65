import NodeGraph.Proofs.Text.Numerals
import NodeGraph.Proofs.Typing.Substitution
import NodeGraph.Typing.Error

/-!
Texts of types are read in one way only. The first character of a text tells the form of its type,
and every part ends where its form says so, or else where no digit goes on. So the text tells the
type, whatever comes behind it that does not begin with a digit, and the message of an error tells
what it is about.
-/

namespace NodeGraph

open Numeral

/-! ### Numbers in texts -/

theorem natText_append_inj {left right : Nat} {rest more : List Char} (breaks : Breaks rest)
    (alsoBreaks : Breaks more)
    (same : (natText left).toList ++ rest = (natText right).toList ++ more) :
    left = right ∧ rest = more := by
  rw [toList_natText, toList_natText] at same
  exact (digits_append_inj isDigit_digitsOf isDigit_digitsOf breaks alsoBreaks
    same).imp_left digitsOf_inj

/-- Whether a text has a beginning and that is no digit. -/
def separates (text : List Char) : Bool := text.head?.any fun first => !first.isDigit

theorem breaks_append {between : List Char} (apart : separates between = true)
    (rest : List Char) : Breaks (between ++ rest) := by
  cases between with
  | nil => cases apart
  | cons first between => exact breaks_cons (by simpa [separates] using apart)

theorem natText_before_inj {left right : Nat} {between rest more : List Char}
    (apart : separates between = true)
    (same : (natText left).toList ++ (between ++ rest) =
      (natText right).toList ++ (between ++ more)) :
    left = right ∧ rest = more :=
  (natText_append_inj (breaks_append apart _) (breaks_append apart _) same).imp_right
    List.append_cancel_left

theorem natText_behind_inj {left right : Nat} {between rest more : List Char}
    (apart : separates between.reverse = true)
    (same : rest ++ between ++ (natText left).toList = more ++ between ++ (natText right).toList) :
    rest = more ∧ left = right := by
  -- Read backwards, the number comes first.
  have mirrored := congrArg List.reverse same
  simp only [List.reverse_append, toList_natText] at mirrored
  have digits {number : Nat} : ∀ digit ∈ (digitsOf number).reverse,
      digit.isDigit = true := fun digit member =>
    isDigit_digitsOf digit (List.mem_reverse.mp member)
  obtain ⟨numbers, rests⟩ := digits_append_inj digits digits (breaks_append apart _)
    (breaks_append apart _) mirrored
  exact ⟨List.reverse_injective (List.append_cancel_left rests),
    digitsOf_inj (List.reverse_injective numbers)⟩

namespace Ty

/-! ### Names of generics -/

def genericSuffix (number : Nat) : List Char :=
  if number < 26 then [] else digitsOf (number / 26)

theorem toList_genericName (number : Nat) :
    (genericName number).toList =
      '\'' :: Char.ofNat ('a'.toNat + number % 26) :: genericSuffix number := by
  rw [genericName, genericSuffix]
  split <;> simp [toList_natText]

theorem valueOf_genericSuffix (number : Nat) :
    valueOf (genericSuffix number) = number / 26 := by
  rw [genericSuffix]
  split
  · rename_i small
    exact (Nat.div_eq_of_lt small).symm
  · exact valueOf_toDigits _

theorem isDigit_genericSuffix (number : Nat) :
    ∀ digit ∈ genericSuffix number, digit.isDigit = true := by
  rw [genericSuffix]
  split
  · simp
  · exact isDigit_digitsOf

theorem letter_inj {left right : Nat}
    (same : Char.ofNat ('a'.toNat + left % 26) = Char.ofNat ('a'.toNat + right % 26)) :
    left % 26 = right % 26 := by
  have codes : ∀ place < 26, (Char.ofNat ('a'.toNat + place)).toNat = 'a'.toNat + place := by
    decide
  have both := congrArg Char.toNat same
  rw [codes _ (Nat.mod_lt _ (by decide)), codes _ (Nat.mod_lt _ (by decide))] at both
  exact Nat.add_left_cancel both

theorem genericName_append_inj {left right : Nat} {rest more : List Char} (breaks : Breaks rest)
    (alsoBreaks : Breaks more)
    (same : (genericName left).toList ++ rest = (genericName right).toList ++ more) :
    left = right ∧ rest = more := by
  simp only [toList_genericName, List.cons_append, List.cons.injEq, true_and] at same
  obtain ⟨letters, suffixes⟩ := same
  obtain ⟨suffix, rests⟩ := digits_append_inj (isDigit_genericSuffix left)
    (isDigit_genericSuffix right) breaks alsoBreaks suffixes
  have rounds : left / 26 = right / 26 := by
    rw [← valueOf_genericSuffix, suffix, valueOf_genericSuffix]
  refine ⟨?_, rests⟩
  rw [← Nat.div_add_mod left 26, ← Nat.div_add_mod right 26, rounds, letter_inj letters]

/-! ### Forms -/

inductive Alike : Ty → Ty → Prop
  | base (kind : BaseType) : Alike (.base kind) (.base kind)
  | array (left right : Ty) : Alike (.array left) (.array right)
  | function (leftParams rightParams : List Ty) (left right : Ty) :
      Alike (.function leftParams left) (.function rightParams right)
  | var (left right : Nat) : Alike (.var left) (.var right)
  | generic (left right : Nat) : Alike (.generic left) (.generic right)

def initial : Ty → Char
  | .base .number => 'N'
  | .base .boolean => 'B'
  | .base .text => 'S'
  | .base .point => 'P'
  | .base .rect => 'R'
  | .base .color => 'C'
  | .base .image => 'I'
  | .array _ => 'A'
  | .function _ _ => '('
  | .var _ => '?'
  | .generic _ => '\''

theorem head?_display (ty : Ty) (rest : List Char) :
    (ty.display.toList ++ rest).head? = some ty.initial := by
  cases ty with
  | base kind => cases kind <;> rfl
  | array element => simp [display, initial]
  | function params result => simp [display, initial]
  | var id => simp [display, initial]
  | generic number => simp [display, initial, toList_genericName]

theorem alike_of_initial {left right : Ty} (same : left.initial = right.initial) :
    Alike left right := by
  cases left with
  | base kind =>
      cases right with
      | base other =>
          have kinds : kind = other := by
            cases kind <;> cases other <;> first | rfl | exact absurd same (by decide)
          exact kinds ▸ .base kind
      | _ => cases kind <;> simp [initial] at same
  | _ =>
      cases right with
      | base kind => cases kind <;> simp [initial] at same
      | _ => first | constructor | simp [initial] at same

theorem alike_of_append {left right : Ty} {rest more : List Char}
    (same : left.display.toList ++ rest = right.display.toList ++ more) : Alike left right := by
  have heads := congrArg List.head? same
  rw [head?_display, head?_display] at heads
  exact alike_of_initial (Option.some.inj heads)

/-! ### Reading -/

/-- In front of what does not go on with a digit, the text of the type is the text of no other. -/
def ReadOneWay (ty : Ty) : Prop :=
  ∀ {other : Ty} {rest more : List Char}, Breaks rest → Breaks more →
    ty.display.toList ++ rest = other.display.toList ++ more → ty = other ∧ rest = more

def furtherText (params : List Ty) : List Char :=
  params.flatMap fun param => ',' :: ' ' :: param.display.toList

theorem toList_displayList (first : Ty) (params : List Ty) :
    (String.intercalate ", " (displayList (first :: params))).toList =
      first.display.toList ++ furtherText params := by
  induction params generalizing first with
  | nil => simp [displayList, furtherText]
  | cons second params ih =>
      have later := ih second
      rw [displayList, String.toList_intercalate] at later
      rw [displayList, displayList, String.toList_intercalate, List.map_cons, List.map_cons,
        List.intercalate_cons_cons, ← List.map_cons, later]
      simp [furtherText]

theorem breaks_furtherText (params : List Ty) (rest : List Char) :
    Breaks (furtherText params ++ ')' :: rest) := by
  cases params with
  | nil => exact breaks_cons rfl
  | cons param params => exact breaks_cons rfl

theorem furtherText_append_inj {params others : List Ty} {rest more : List Char}
    (readable : ∀ param ∈ params, param.ReadOneWay)
    (same : furtherText params ++ ')' :: rest = furtherText others ++ ')' :: more) :
    params = others ∧ rest = more := by
  induction params generalizing others with
  | nil =>
      cases others with
      | nil => exact ⟨rfl, (List.cons.inj same).2⟩
      | cons other others => simp [furtherText] at same
  | cons param params ih =>
      cases others with
      | nil => simp [furtherText] at same
      | cons other others =>
          have inner : param.display.toList ++ (furtherText params ++ ')' :: rest) =
              other.display.toList ++ (furtherText others ++ ')' :: more) := by
            simpa [furtherText] using same
          obtain ⟨rfl, later⟩ := readable param List.mem_cons_self (breaks_furtherText _ _)
            (breaks_furtherText _ _) inner
          obtain ⟨rfl, rests⟩ := ih (fun member inside =>
            readable member (List.mem_cons_of_mem _ inside)) later
          exact ⟨rfl, rests⟩

theorem initial_ne (ty : Ty) : ty.initial ≠ ')' ∧ ty.initial ≠ 'c' := by
  cases ty with
  | base kind => cases kind <;> simp [initial]
  | _ => simp [initial]

theorem cons_ne_display {ty : Ty} {first : Char} {rest more : List Char}
    (other : ty.initial ≠ first) : first :: rest ≠ ty.display.toList ++ more := by
  intro same
  have heads := congrArg List.head? same
  rw [head?_display] at heads
  exact other (Option.some.inj heads).symm

theorem displayList_append_inj {params others : List Ty} {rest more : List Char}
    (readable : ∀ param ∈ params, param.ReadOneWay)
    (same : (String.intercalate ", " (displayList params)).toList ++ ')' :: rest =
      (String.intercalate ", " (displayList others)).toList ++ ')' :: more) :
    params = others ∧ rest = more := by
  cases params with
  | nil =>
      cases others with
      | nil => exact ⟨rfl, (List.cons.inj same).2⟩
      | cons other others =>
          rw [toList_displayList, List.append_assoc] at same
          exact absurd same (cons_ne_display other.initial_ne.1)
  | cons param params =>
      cases others with
      | nil =>
          rw [toList_displayList, List.append_assoc] at same
          exact absurd same.symm (cons_ne_display param.initial_ne.1)
      | cons other others =>
          rw [toList_displayList, toList_displayList] at same
          exact furtherText_append_inj readable (by simpa [furtherText] using same)

theorem readOneWay (ty : Ty) : ty.ReadOneWay := by
  induction ty using Ty.induction with
  | base kind =>
      intro other rest more _ _ same
      cases alike_of_append same
      exact ⟨rfl, List.append_cancel_left same⟩
  | array element ih =>
      intro other rest more _ _ same
      cases alike_of_append same with
      | array _ other =>
          have inner : element.display.toList ++ '>' :: rest =
              other.display.toList ++ '>' :: more := by
            simpa [display] using same
          obtain ⟨rfl, rests⟩ := ih (breaks_cons rfl) (breaks_cons rfl) inner
          exact ⟨rfl, (List.cons.inj rests).2⟩
  | function params result ihParams ihResult =>
      intro other rest more breaks alsoBreaks same
      cases alike_of_append same with
      | function _ others _ other =>
          have inner : (String.intercalate ", " (displayList params)).toList ++
                ')' :: (" -> ".toList ++ (result.display.toList ++ rest)) =
              (String.intercalate ", " (displayList others)).toList ++
                ')' :: (" -> ".toList ++ (other.display.toList ++ more)) := by
            simpa [display] using same
          obtain ⟨rfl, results⟩ := displayList_append_inj ihParams inner
          -- Nothing closes the result: it ends where the function does, so that no digit goes on.
          obtain ⟨rfl, rests⟩ := ihResult breaks alsoBreaks (List.append_cancel_left results)
          exact ⟨rfl, rests⟩
  | var id =>
      intro other rest more breaks alsoBreaks same
      cases alike_of_append same with
      | var _ other =>
          have inner : (natText id).toList ++ rest = (natText other).toList ++ more := by
            simpa [display] using same
          exact (natText_append_inj breaks alsoBreaks inner).imp_left (congrArg Ty.var)
  | generic number =>
      intro other rest more breaks alsoBreaks same
      cases alike_of_append same with
      | generic _ other =>
          exact (genericName_append_inj breaks alsoBreaks same).imp_left (congrArg Ty.generic)

theorem display_inj {left right : Ty} : left.display = right.display ↔ left = right := by
  refine ⟨fun same => ?_, congrArg display⟩
  have texts : left.display.toList ++ [] = right.display.toList ++ [] := by rw [same]
  exact (left.readOneWay breaks_nil breaks_nil texts).1

/-- A function among the parameters, one as the result, and numbers at the ends of parts. -/
example : (Ty.function [.function [] .number, .generic 27] (.function [.var 1] .text)).display =
    "(() -> Number, 'b1) -> (?1) -> String" := by cbv

end Ty

/-! ### Messages -/

theorem Ty.display_before_inj {left right : Ty} {between rest more : List Char}
    (apart : separates between = true)
    (same : left.display.toList ++ (between ++ rest) =
      right.display.toList ++ (between ++ more)) :
    left = right ∧ rest = more :=
  (left.readOneWay (breaks_append apart _) (breaks_append apart _) same).imp_right
    List.append_cancel_left

namespace UnifyError

theorem message_inj {left right : UnifyError} : left.message = right.message ↔ left = right := by
  refine ⟨fun same => ?_, congrArg message⟩
  have texts := congrArg String.toList same
  unfold message at texts
  cases left with
  | mismatch expected found =>
      cases right with
      | mismatch wanted given =>
          simp only [String.toList_append, List.append_assoc] at texts
          obtain ⟨rfl, later⟩ := Ty.display_before_inj (by decide) (List.append_cancel_left texts)
          rw [Ty.display_inj.mp (String.toList_inj.mp later)]
      | infinite root ty =>
          simp only [String.toList_append, List.append_assoc] at texts
          exact absurd texts (Ty.cons_ne_display root.initial_ne.2)
  | infinite root ty =>
      cases right with
      | mismatch wanted given =>
          simp only [String.toList_append, List.append_assoc] at texts
          exact absurd texts.symm (Ty.cons_ne_display root.initial_ne.2)
      | infinite otherRoot other =>
          simp only [String.toList_append, List.append_assoc] at texts
          obtain ⟨rfl, later⟩ := Ty.display_before_inj (by decide) texts
          rw [Ty.display_inj.mp (String.toList_inj.mp later)]

end UnifyError

namespace Culprit

theorem text_inj {left right : Culprit} : left.text = right.text ↔ left = right := by
  refine ⟨fun same => ?_, congrArg text⟩
  have texts := congrArg String.toList same
  cases left with
  | input slot =>
      cases right with
      | input other =>
          have numbers : (natText slot).toList = (natText other).toList := by
            simpa [text] using texts
          rw [toList_natText, toList_natText] at numbers
          exact congrArg input (digitsOf_inj numbers)
      | expression other => simp [text] at texts
  | expression shown =>
      cases right with
      | input other => simp [text] at texts
      | expression other =>
          exact congrArg expression (String.toList_inj.mp (by simpa [text] using texts))

end Culprit

namespace TypeError

def opening : TypeError → List Char
  | .unification _ _ _ => ['c', 'a', 'n']
  | .infinite _ _ _ => ['i', 'n', 'f']
  | .arityMismatch _ _ _ => ['a', 'r', 'i']
  | .unboundVariable _ => ['u', 'n', 'b']
  | .argumentOutOfRange _ _ => ['a', 'r', 'g']
  | .unknownPrimitive _ => ['u', 'n', 'k']

theorem take_message (error : TypeError) : error.message.toList.take 3 = error.opening := by
  unfold message
  cases error <;> simp only [String.toList_append, List.append_assoc] <;> rfl

theorem blames_inj {left right expected found : Ty} {culprit other : Culprit}
    {between behind closing : List Char} (apart : separates between = true)
    (alsoApart : separates behind = true)
    (same : left.display.toList ++ (between ++ (right.display.toList ++
        (behind ++ (culprit.text.toList ++ closing)))) =
      expected.display.toList ++ (between ++ (found.display.toList ++
        (behind ++ (other.text.toList ++ closing))))) :
    left = expected ∧ right = found ∧ culprit = other := by
  obtain ⟨first, later⟩ := Ty.display_before_inj apart same
  obtain ⟨second, later⟩ := Ty.display_before_inj alsoApart later
  exact ⟨first, second,
    Culprit.text_inj.mp (String.toList_inj.mp (List.append_cancel_right later))⟩

theorem message_inj {left right : TypeError} : left.message = right.message ↔ left = right := by
  refine ⟨fun same => ?_, congrArg message⟩
  have openings : left.opening = right.opening := by
    rw [← take_message, ← take_message, same]
  have texts := congrArg String.toList same
  unfold message at texts
  cases left with
  | unification expected found culprit =>
      cases right with
      | unification wanted given other =>
          simp only [String.toList_append, List.append_assoc] at texts
          obtain ⟨rfl, rfl, rfl⟩ :=
            blames_inj (by decide) (by decide) (List.append_cancel_left texts)
          rfl
      | _ => simp [opening] at openings
  | infinite root ty culprit =>
      cases right with
      | infinite otherRoot given other =>
          simp only [String.toList_append, List.append_assoc] at texts
          obtain ⟨rfl, rfl, rfl⟩ :=
            blames_inj (by decide) (by decide) (List.append_cancel_left texts)
          rfl
      | _ => simp [opening] at openings
  | arityMismatch expected found expression =>
      cases right with
      | arityMismatch wanted given other =>
          -- The expression can be any text, so the numbers are read from the end.
          simp only [String.toList_append] at texts
          obtain ⟨front, rfl⟩ := natText_behind_inj (by decide) texts
          obtain ⟨start, rfl⟩ := natText_behind_inj (by decide) front
          rw [String.toList_inj.mp (List.append_cancel_left start)]
      | _ => simp [opening] at openings
  | unboundVariable name =>
      cases right with
      | unboundVariable other =>
          simp only [String.toList_append] at texts
          have names := List.append_cancel_left (List.append_cancel_right texts)
          rw [String.toList_inj.mp names]
      | _ => simp [opening] at openings
  | argumentOutOfRange index available =>
      cases right with
      | argumentOutOfRange place others =>
          simp only [String.toList_append, List.append_assoc] at texts
          obtain ⟨rfl, later⟩ := natText_before_inj (by decide) (List.append_cancel_left texts)
          have numbers := List.append_cancel_right later
          rw [toList_natText, toList_natText] at numbers
          rw [digitsOf_inj numbers]
      | _ => simp [opening] at openings
  | unknownPrimitive name =>
      cases right with
      | unknownPrimitive other =>
          simp only [String.toList_append] at texts
          have names := List.append_cancel_left (List.append_cancel_right texts)
          rw [String.toList_inj.mp names]
      | _ => simp [opening] at openings

end TypeError

theorem NodeTypeError.message_inj {left right : NodeTypeError} :
    left.message = right.message ↔
      left.node = right.node ∧ left.origin = right.origin ∧ left.error = right.error := by
  constructor
  · intro same
    have texts := congrArg String.toList same
    unfold message at texts
    simp only [String.toList_append, List.append_assoc] at texts
    obtain ⟨nodes, later⟩ := natText_before_inj (by decide) (List.append_cancel_left texts)
    obtain ⟨origins, later⟩ := natText_before_inj (by decide) later
    exact ⟨nodes, origins, TypeError.message_inj.mp (String.toList_inj.mp later)⟩
  · rintro ⟨nodes, origins, errors⟩
    unfold message
    rw [nodes, origins, errors]

/-- Texts of types are unambiguous, variables and generics included: two types have the same text
only if they are the same type. So no two are shown alike in an error: messages of failed
unifications and of failed inference are the same only if all that they are about is, and those of
nodes only if they name the same nodes and the same error. -/
theorem Ty.texts_unambiguous :
    (∀ left right : Ty, left.display = right.display ↔ left = right) ∧
    (∀ left right : UnifyError, left.message = right.message ↔ left = right) ∧
    (∀ left right : TypeError, left.message = right.message ↔ left = right) ∧
    ∀ left right : NodeTypeError, left.message = right.message ↔
      left.node = right.node ∧ left.origin = right.origin ∧ left.error = right.error :=
  ⟨fun _ _ => Ty.display_inj, fun _ _ => UnifyError.message_inj,
    fun _ _ => TypeError.message_inj, fun _ _ => NodeTypeError.message_inj⟩

end NodeGraph
