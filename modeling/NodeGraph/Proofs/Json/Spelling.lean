import NodeGraph.Json.Reader
import NodeGraph.Json.Writer
import NodeGraph.Proofs.Text.Numerals

/-!
Trees and their texts. A grammar with blanks between the parts stands between the two: what is
written spells the tree, and what spells a tree is read as that tree. So every tree is read back
from its text.
-/

namespace NodeGraph.Json

/-! ### Strings -/

theorem unit16?_control : ∀ code < 32,
    unit16? '0' '0' (Nat.digitChar (code / 16)) (Nat.digitChar (code % 16)) = some code := by
  decide

theorem readString_plain {read : Option (List Char)} {character : Char} {rest : List Char}
    (noQuote : character ≠ '"') (noEscape : character ≠ '\\') (visible : ¬ character.toNat < 0x20) :
    readString read (character :: rest) = readString (read.map (character :: ·)) rest := by
  rw [readString.eq_def]
  split
  · rename_i none
    cases none
  · rename_i same
    exact absurd (List.cons.inj same).1 noQuote
  · rename_i same
    exact absurd (List.cons.inj same).1 noEscape
  · rename_i same
    exact absurd (List.cons.inj same).1 noEscape
  · rename_i same
    obtain ⟨rfl, rfl⟩ := List.cons.inj same
    rw [if_neg (not_or.mpr ⟨noEscape, visible⟩)]

theorem readString_control {read : Option (List Char)} {character : Char} {rest : List Char}
    (control : character.toNat < 0x20) :
    readString read ('\\' :: 'u' :: '0' :: '0' :: Nat.digitChar (character.toNat / 16) ::
        Nat.digitChar (character.toNat % 16) :: rest) =
      readString (read.map (character :: ·)) rest := by
  have trailing : isTrailing character.toNat = false := by
    simp only [isTrailing, Bool.and_eq_false_iff, decide_eq_false_iff_not]
    omega
  have leading : isLeading character.toNat = false := by
    simp only [isLeading, Bool.and_eq_false_iff, decide_eq_false_iff_not]
    omega
  rw [readString, unit16?_control _ control]
  simp only [trailing, leading, Bool.false_eq_true, if_false, Char.ofNat_toNat]

theorem readString_escape (read : Option (List Char)) (character : Char) (rest : List Char) :
    readString read (escape character ++ rest) =
      readString (read.map (character :: ·)) rest := by
  rw [escape.eq_def]
  split
  · rfl
  · rfl
  · rfl
  · rfl
  · rfl
  · rfl
  · rfl
  · rename_i noQuote noEscape _ _ _ _ _
    split
    · rename_i control
      exact readString_control control
    · rename_i visible
      exact readString_plain noQuote noEscape visible

theorem readString_escaped (characters read rest : List Char) :
    readString (some read) (characters.flatMap escape ++ '"' :: rest) =
      some (some (String.ofList (read.reverse ++ characters)), rest) := by
  induction characters generalizing read with
  | nil =>
      rw [List.flatMap_nil, List.nil_append, List.append_nil]
      rfl
  | cons character characters ih =>
      rw [List.flatMap_cons, List.append_assoc, readString_escape, Option.map_some, ih,
        List.reverse_cons, List.append_assoc]
      rfl

def quotedRest (text : String) : List Char := text.toList.flatMap escape ++ ['"']

theorem toList_stringText (text : String) : (stringText text).toList = '"' :: quotedRest text := by
  rw [stringText, String.toList_ofList, quotedRest, List.cons_append]

theorem readString_quotedRest (text : String) (rest : List Char) :
    readString (some []) (quotedRest text ++ rest) = some (some text, rest) := by
  rw [quotedRest, List.append_assoc, List.singleton_append, readString_escaped, List.reverse_nil,
    List.nil_append, String.ofList_toList]

/-! ### The grammar -/

def Blank (text : List Char) : Prop := ∀ character ∈ text, isBlank character = true

mutual

inductive Spells : Json → List Char → Prop
  | null : Spells .null ['n', 'u', 'l', 'l']
  | holds : Spells (.bool true) ['t', 'r', 'u', 'e']
  | fails : Spells (.bool false) ['f', 'a', 'l', 's', 'e']
  | number {numeral : Numeral} (proper : numeral.Proper) : Spells (.number numeral) numeral.toList
  | string (text : String) : Spells (.string text) ('"' :: quotedRest text)
  | emptyArray : Spells (.array []) ['[', ']']
  | array {items : List Json} {text : List Char} (inside : SpellsItems items text) :
      Spells (.array items) ('[' :: (text ++ [']']))
  | emptyObject : Spells (.object []) ['\x7b', '\x7d']
  | object {fields : List (String × Json)} {text : List Char} (inside : SpellsFields fields text) :
      Spells (.object fields) ('\x7b' :: (text ++ ['\x7d']))

inductive SpellsItems : List Json → List Char → Prop
  | last {item : Json} {before text after : List Char} (blank : Blank before)
      (spells : Spells item text) (blankAfter : Blank after) :
      SpellsItems [item] (before ++ (text ++ after))
  | more {item : Json} {before text others : List Char} {rest : List Json} (blank : Blank before)
      (spells : Spells item text) (all : SpellsItems rest others) :
      SpellsItems (item :: rest) (before ++ (text ++ ',' :: others))

inductive SpellsFields : List (String × Json) → List Char → Prop
  | last {key : String} {value : Json} {before between text after : List Char}
      (blank : Blank before) (blankBetween : Blank between) (spells : Spells value text)
      (blankAfter : Blank after) :
      SpellsFields [(key, value)]
        (before ++ '"' :: (quotedRest key ++ ':' :: (between ++ (text ++ after))))
  | more {key : String} {value : Json} {before between text others : List Char}
      {rest : List (String × Json)} (blank : Blank before) (blankBetween : Blank between)
      (spells : Spells value text) (all : SpellsFields rest others) :
      SpellsFields ((key, value) :: rest)
        (before ++ '"' :: (quotedRest key ++ ':' :: (between ++ (text ++ ',' :: others))))

end

/-! ### Reading -/

theorem skipBlank_append {before text : List Char} (blank : Blank before) :
    skipBlank (before ++ text) = skipBlank text :=
  List.dropWhile_append_of_pos blank

theorem skipBlank_cons {character : Char} (visible : isBlank character = false)
    (rest : List Char) : skipBlank (character :: rest) = character :: rest :=
  List.dropWhile_cons_of_neg (by simp [visible])

theorem readValue_blank {before : List Char} (blank : Blank before) (fuel : Nat)
    (text : List Char) : readValue fuel (before ++ text) = readValue fuel text := by
  cases fuel with
  | zero => rfl
  | succ fuel => rw [readValue, readValue, skipBlank_append blank]

theorem readFields_blank {before : List Char} (blank : Blank before) (fuel : Nat)
    (read : Option (List (String × Json))) (text : List Char) :
    readFields fuel read (before ++ text) = readFields fuel read text := by
  cases fuel with
  | zero => rfl
  | succ fuel => rw [readFields, readFields, skipBlank_append blank]

/-- A text behind a value: what follows next, if anything, is a blank, a comma or a bracket. -/
def Follows (rest : List Char) : Prop :=
  ∀ character, rest.head? = some character → character ∈ [' ', '\n', '\t', '\r', ',', ']', '\x7d']

theorem Follows.ends {rest : List Char} (follows : Follows rest) : Numeral.Ends rest := by
  intro character first
  have member := follows character first
  simp only [List.mem_cons, List.not_mem_nil, or_false] at member
  rcases member with rfl | rfl | rfl | rfl | rfl | rfl | rfl <;> decide

theorem follows_append {blank rest : List Char} (blanks : Blank blank) (follows : Follows rest) :
    Follows (blank ++ rest) := by
  cases blank with
  | nil => exact follows
  | cons first blank =>
      intro character same
      obtain rfl := Option.some.inj same
      have isBlank := blanks first List.mem_cons_self
      simp only [Json.isBlank, Bool.or_eq_true, beq_iff_eq] at isBlank
      simp only [List.mem_cons]
      tauto

theorem Spells.head {json : Json} {text : List Char} (spells : Spells json text) :
    ∃ first rest, text = first :: rest ∧ isBlank first = false ∧ first ≠ ']' := by
  cases spells with
  | number proper =>
      obtain ⟨first, rest, same, sign | digit⟩ := proper.head
      · exact ⟨first, rest, same, sign ▸ rfl, sign ▸ by decide⟩
      · refine ⟨first, rest, same, ?_, ?_⟩
        · simp only [isBlank, Bool.or_eq_false_iff, beq_eq_false_iff_ne]
          refine ⟨⟨⟨?_, ?_⟩, ?_⟩, ?_⟩ <;> (rintro rfl; cases digit)
        · rintro rfl
          cases digit
  | _ => exact ⟨_, _, rfl, rfl, by decide⟩

theorem readValue_number {numeral : Numeral} (proper : numeral.Proper) (fuel : Nat)
    {rest : List Char} (follows : Follows rest) :
    readValue (fuel + 1) (numeral.toList ++ rest) = some (.number numeral, rest) := by
  have whole : readNumber (numeral.toList ++ rest) = some (.number numeral, rest) := by
    rw [readNumber, proper.read_append follows.ends, Option.map_some]
  obtain ⟨first, others, same, visible, _⟩ := (Spells.number proper).head
  obtain ⟨_, _, again, begins⟩ := proper.head
  obtain ⟨rfl, rfl⟩ := List.cons.inj (same.symm.trans again)
  have starts : ∀ character ∈ ['n', 't', 'f', '"', '[', '\x7b'], first ≠ character := by
    intro character member same
    rw [same] at begins
    simp only [List.mem_cons, List.not_mem_nil, or_false] at member
    rcases member with rfl | rfl | rfl | rfl | rfl | rfl <;>
      exact absurd begins (by decide)
  rw [same, List.cons_append] at whole ⊢
  rw [readValue, skipBlank_cons visible]
  split
  all_goals first
    | exact whole
    | (rename_i other; exact absurd (List.cons.inj other).1 (starts _ (by decide)))

theorem SpellsItems.opens {items : List Json} {text : List Char} (spells : SpellsItems items text)
    (rest more : List Char) : skipBlank (text ++ rest) ≠ ']' :: more := by
  have first : ∀ {item : Json} {before inner : List Char} (others : List Char), Blank before →
      Spells item inner → skipBlank (before ++ (inner ++ others) ++ rest) ≠ ']' :: more := by
    intro item before inner others blank spells
    obtain ⟨first, tail, rfl, visible, noClose⟩ := spells.head
    rw [List.append_assoc, skipBlank_append blank, List.cons_append, List.cons_append,
      skipBlank_cons visible]
    exact fun same => noClose (List.cons.inj same).1
  cases spells with
  | last blank spells _ => exact first _ blank spells
  | more blank spells _ => exact first _ blank spells

theorem SpellsFields.opens {fields : List (String × Json)} {text : List Char}
    (spells : SpellsFields fields text) (rest more : List Char) :
    skipBlank (text ++ rest) ≠ '\x7d' :: more := by
  have first : ∀ {before : List Char} (others : List Char), Blank before →
      skipBlank (before ++ '"' :: others ++ rest) ≠ '\x7d' :: more := by
    intro before others blank
    rw [List.append_assoc, skipBlank_append blank, List.cons_append, skipBlank_cons rfl]
    exact fun same => absurd (List.cons.inj same).1 (by decide)
  cases spells with
  | last blank _ _ _ => exact first _ blank
  | more blank _ _ _ => exact first _ blank

mutual

theorem Spells.read {json : Json} {text : List Char} (spells : Spells json text) {fuel : Nat}
    (enough : 2 * text.length ≤ fuel) {rest : List Char} (follows : Follows rest) :
    readValue fuel (text ++ rest) = some (json, rest) := by
  obtain ⟨fuel, rfl⟩ : ∃ less, fuel = less + 1 := by
    obtain ⟨first, others, rfl, _⟩ := spells.head
    rw [List.length_cons] at enough
    exact ⟨fuel - 1, by omega⟩
  match spells with
  | .null => rfl
  | .holds => rfl
  | .fails => rfl
  | .number proper => exact readValue_number proper fuel follows
  | .string text =>
      rw [List.cons_append, readValue, skipBlank_cons rfl]
      simp only [readString_quotedRest, Option.map_some, Option.elim_some]
  | .emptyArray => rfl
  | @Spells.array items inner inside =>
      simp only [List.length_cons, List.length_append, List.length_nil] at enough
      rw [List.cons_append, List.append_assoc, List.singleton_append, readValue,
        skipBlank_cons rfl]
      simp only
      split
      · rename_i closed
        exact absurd closed (inside.opens _ _)
      · exact inside.read (by omega) []
  | .emptyObject => rfl
  | @Spells.object fields inner inside =>
      simp only [List.length_cons, List.length_append, List.length_nil] at enough
      rw [List.cons_append, List.append_assoc, List.singleton_append, readValue,
        skipBlank_cons rfl]
      simp only
      split
      · rename_i closed
        exact absurd closed (inside.opens _ _)
      · exact inside.read (by omega) []

theorem SpellsItems.read {items : List Json} {text : List Char} (spells : SpellsItems items text)
    {fuel : Nat} (enough : 2 * text.length < fuel) (read : List Json) {rest : List Char} :
    readItems fuel read (text ++ ']' :: rest) = some (.array (read.reverse ++ items), rest) := by
  obtain ⟨fuel, rfl⟩ : ∃ less, fuel = less + 1 := ⟨fuel - 1, by omega⟩
  match spells with
  | @SpellsItems.last item before inner after blank spells blankAfter =>
      simp only [List.length_append] at enough
      have follows : Follows (after ++ ']' :: rest) :=
        follows_append blankAfter fun character first => by
          obtain rfl := Option.some.inj first
          decide
      rw [List.append_assoc, List.append_assoc, readItems, readValue_blank blank,
        spells.read (by omega) follows]
      simp only [skipBlank_append blankAfter, skipBlank_cons (rfl : isBlank ']' = false),
        List.reverse_cons]
  | @SpellsItems.more item before inner others items blank spells all =>
      simp only [List.length_append, List.length_cons] at enough
      have follows : Follows (',' :: (others ++ ']' :: rest)) := fun character first => by
        obtain rfl := Option.some.inj first
        decide
      rw [List.append_assoc, List.append_assoc, List.cons_append, readItems, readValue_blank blank,
        spells.read (by omega) follows]
      simp only [skipBlank_cons (rfl : isBlank ',' = false)]
      rw [all.read (by omega) (item :: read), List.reverse_cons, List.append_assoc,
        List.singleton_append]

theorem SpellsFields.read {fields : List (String × Json)} {text : List Char}
    (spells : SpellsFields fields text) {fuel : Nat} (enough : 2 * text.length < fuel)
    (read : List (String × Json)) {rest : List Char} :
    readFields fuel (some read) (text ++ '\x7d' :: rest) =
      some (.object (read.reverse ++ fields), rest) := by
  obtain ⟨fuel, rfl⟩ : ∃ less, fuel = less + 1 := ⟨fuel - 1, by omega⟩
  match spells with
  | @SpellsFields.last key value before between inner after blank blankBetween spells blankAfter =>
      simp only [List.length_append, List.length_cons] at enough
      have follows : Follows (after ++ '\x7d' :: rest) :=
        follows_append blankAfter fun character first => by
          obtain rfl := Option.some.inj first
          decide
      rw [List.append_assoc, readFields_blank blank, List.cons_append, List.append_assoc,
        List.cons_append, List.append_assoc, List.append_assoc, readFields, skipBlank_cons rfl]
      simp only [readString_quotedRest, skipBlank_cons (rfl : isBlank ':' = false)]
      rw [readValue_blank blankBetween, spells.read (by omega) follows]
      simp only [skipBlank_append blankAfter, skipBlank_cons (rfl : isBlank '\x7d' = false)]
      simp
  | @SpellsFields.more key value before between inner others fields blank blankBetween spells all =>
      simp only [List.length_append, List.length_cons] at enough
      have follows : Follows (',' :: (others ++ '\x7d' :: rest)) := fun character first => by
        obtain rfl := Option.some.inj first
        decide
      rw [List.append_assoc, readFields_blank blank, List.cons_append, List.append_assoc,
        List.cons_append, List.append_assoc, List.append_assoc, List.cons_append, readFields,
        skipBlank_cons rfl]
      simp only [readString_quotedRest, skipBlank_cons (rfl : isBlank ':' = false)]
      rw [readValue_blank blankBetween, spells.read (by omega) follows]
      simp only [skipBlank_cons (rfl : isBlank ',' = false), Option.bind_eq_bind, Option.bind_some,
        Option.pure_def]
      rw [all.read (by omega) ((key, value) :: read), List.reverse_cons, List.append_assoc,
        List.singleton_append]

end

theorem Spells.parse? {json : Json} {text : List Char} (spells : Spells json text) :
    Json.parse? (String.ofList text) = some json := by
  have read : readValue (2 * text.length + 2) (text ++ []) = some (json, []) :=
    spells.read (by omega) fun character first => absurd first (Option.some_ne_none character).symm
  rw [List.append_nil] at read
  rw [Json.parse?, String.toList_ofList]
  simp only [read]
  rfl

/-! ### Writing -/

mutual

/-- A tree of texts and of proper numerals in range. -/
def Proper : Json → Prop
  | .null | .bool _ | .string _ => True
  | .broken => False
  | .number numeral => numeral.Proper ∧ numeral.scalar?.isSome = true
  | .array items => ProperItems items
  | .object fields => ProperFields fields

def ProperItems : List Json → Prop
  | [] => True
  | item :: rest => item.Proper ∧ ProperItems rest

def ProperFields : List (String × Json) → Prop
  | [] => True
  | (_, value) :: rest => value.Proper ∧ ProperFields rest

end

theorem blank_newLine (level : Nat) : Blank (newLine level).toList := by
  intro character member
  rw [newLine, String.toList_ofList] at member
  rcases List.mem_cons.mp member with rfl | member
  · rfl
  · rw [(List.mem_replicate.mp member).2]
    rfl

mutual

theorem prettyOnto_spells (level : Nat) (written : String) (json : Json) (proper : json.Proper) :
    ∃ text, Spells json text ∧ (prettyOnto level written json).toList = written.toList ++ text := by
  match json with
  | .null => exact ⟨_, .null, String.toList_append⟩
  | .bool true => exact ⟨_, .holds, String.toList_append⟩
  | .bool false => exact ⟨_, .fails, String.toList_append⟩
  | .string text =>
      refine ⟨_, .string text, ?_⟩
      change (written ++ stringText text).toList = _
      rw [String.toList_append, toList_stringText]
  | .number numeral =>
      refine ⟨_, .number proper.1, ?_⟩
      change (written ++ numeral.text).toList = _
      rw [String.toList_append, Numeral.text, String.toList_ofList]
  | .array [] => exact ⟨_, .emptyArray, String.toList_append⟩
  | .object [] => exact ⟨_, .emptyObject, String.toList_append⟩
  | .array (item :: items) =>
      obtain ⟨text, spells, first⟩ := prettyOnto_spells (level + 1)
        (written ++ "[" ++ newLine (level + 1)) item proper.1
      obtain ⟨more, all, rests⟩ := prettyItems_spells level
        (prettyOnto (level + 1) (written ++ "[" ++ newLine (level + 1)) item) items proper.2
      refine ⟨_, .array (all (blank_newLine (level + 1)) spells (blank_newLine level)), ?_⟩
      rw [prettyOnto, String.toList_append, String.toList_append, rests, first]
      simp
  | .object ((key, value) :: fields) =>
      obtain ⟨text, spells, first⟩ := prettyOnto_spells (level + 1)
        (written ++ "\x7b" ++ newLine (level + 1) ++ stringText key ++ ": ") value proper.1
      obtain ⟨more, all, rests⟩ := prettyFields_spells level
        (prettyOnto (level + 1)
          (written ++ "\x7b" ++ newLine (level + 1) ++ stringText key ++ ": ") value) fields
        proper.2
      refine ⟨_, .object (all key (blank_newLine (level + 1)) spells (blank_newLine level)), ?_⟩
      rw [prettyOnto, String.toList_append, String.toList_append, rests, first]
      simp [toList_stringText]

theorem prettyItems_spells (level : Nat) (written : String) (items : List Json)
    (proper : ProperItems items) :
    ∃ more, (∀ {item : Json} {before text after : List Char}, Blank before → Spells item text →
        Blank after → SpellsItems (item :: items) (before ++ (text ++ (more ++ after)))) ∧
      (prettyItems level written items).toList = written.toList ++ more := by
  match items with
  | [] => exact ⟨[], fun blank spells after => .last blank spells after, (List.append_nil _).symm⟩
  | next :: items =>
      obtain ⟨text, spells, first⟩ := prettyOnto_spells (level + 1)
        (written ++ "," ++ newLine (level + 1)) next proper.1
      obtain ⟨more, all, rests⟩ := prettyItems_spells level
        (prettyOnto (level + 1) (written ++ "," ++ newLine (level + 1)) next) items proper.2
      refine ⟨',' :: ((newLine (level + 1)).toList ++ (text ++ more)), ?_, ?_⟩
      · intro item before inner after blank itemSpells blankAfter
        rw [List.cons_append, List.append_assoc, List.append_assoc]
        exact .more blank itemSpells (all (blank_newLine (level + 1)) spells blankAfter)
      · rw [prettyItems, rests, first]
        simp

theorem prettyFields_spells (level : Nat) (written : String) (fields : List (String × Json))
    (proper : ProperFields fields) :
    ∃ more, (∀ (key : String) {value : Json} {before text after : List Char}, Blank before →
        Spells value text → Blank after → SpellsFields ((key, value) :: fields)
          (before ++ '"' :: (quotedRest key ++ ':' :: ([' '] ++ (text ++ (more ++ after)))))) ∧
      (prettyFields level written fields).toList = written.toList ++ more := by
  have space : Blank [' '] := fun _ member => List.mem_singleton.mp member ▸ rfl
  match fields with
  | [] =>
      exact ⟨[], fun key _ _ _ _ blank spells after => .last blank space spells after,
        (List.append_nil _).symm⟩
  | (name, next) :: fields =>
      obtain ⟨text, spells, first⟩ := prettyOnto_spells (level + 1)
        (written ++ "," ++ newLine (level + 1) ++ stringText name ++ ": ") next proper.1
      obtain ⟨more, all, rests⟩ := prettyFields_spells level
        (prettyOnto (level + 1)
          (written ++ "," ++ newLine (level + 1) ++ stringText name ++ ": ") next) fields proper.2
      refine ⟨',' :: ((newLine (level + 1)).toList ++ '"' ::
        (quotedRest name ++ ':' :: ([' '] ++ (text ++ more)))), ?_, ?_⟩
      · intro key value before inner after blank valueSpells blankAfter
        have others := all name (blank_newLine (level + 1)) spells blankAfter
        simpa using @SpellsFields.more key _ _ _ _ _ _ blank space valueSpells others
      · rw [prettyFields, rests, first]
        simp [toList_stringText]

end

theorem parse?_pretty {json : Json} (proper : json.Proper) : parse? json.pretty = some json := by
  obtain ⟨text, spells, written⟩ := prettyOnto_spells 0 "" json proper
  have same : json.pretty = String.ofList text := by
    rw [← String.toList_inj, String.toList_ofList]
    exact written
  rw [same, spells.parse?]

/-! ### Nesting -/

mutual

def depth : Json → Nat
  | .null | .bool _ | .number _ | .string _ | .broken => 0
  | .array items => depthItems items + 1
  | .object fields => depthFields fields + 1

def depthItems : List Json → Nat
  | [] => 0
  | item :: rest => max item.depth (depthItems rest)

def depthFields : List (String × Json) → Nat
  | [] => 0
  | (_, value) :: rest => max value.depth (depthFields rest)

end

mutual

theorem fits_iff {json : Json} (proper : json.Proper) (room : Nat) :
    json.fits room = true ↔ json.depth ≤ room := by
  match json with
  | .null | .bool _ | .string _ => exact iff_of_true rfl (Nat.zero_le room)
  | .number _ => exact iff_of_true proper.2 (Nat.zero_le room)
  | .array items =>
      rw [fits, depth, Bool.and_eq_true, decide_eq_true_eq, fitsItems_iff proper]
      omega
  | .object fields =>
      rw [fits, depth, Bool.and_eq_true, decide_eq_true_eq, fitsFields_iff proper]
      omega

theorem fitsItems_iff {items : List Json} (proper : ProperItems items) (room : Nat) :
    fitsItems room items = true ↔ depthItems items ≤ room := by
  match items with
  | [] => exact iff_of_true rfl (Nat.zero_le room)
  | item :: rest =>
      rw [fitsItems, depthItems, Bool.and_eq_true, fits_iff proper.1, fitsItems_iff proper.2,
        Nat.max_le]

theorem fitsFields_iff {fields : List (String × Json)} (proper : ProperFields fields) (room : Nat) :
    fitsFields room fields = true ↔ depthFields fields ≤ room := by
  match fields with
  | [] => exact iff_of_true rfl (Nat.zero_le room)
  | (_, value) :: rest =>
      rw [fitsFields, depthFields, Bool.and_eq_true, fits_iff proper.1, fitsFields_iff proper.2,
        Nat.max_le]

end

end NodeGraph.Json
