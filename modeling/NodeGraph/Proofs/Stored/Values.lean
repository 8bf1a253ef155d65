import NodeGraph.Proofs.Json.Spelling
import NodeGraph.Proofs.Text.Identities
import NodeGraph.Stored.Value

/-!
Stored values read back. Given that finite floats do, a value reads back from what is written of it
exactly where that fits the room of the reader and the extents of its images are finite; for all
other floats the check before writing has made sure.
-/

namespace NodeGraph

def Point.floats (point : Point) : List Float := [point.x, point.y]

def Size.floats (size : Size) : List Float := [size.width, size.height]

def Rect.floats (rect : Rect) : List Float := rect.origin.floats ++ rect.size.floats

namespace Value

mutual

def floats : Value → List Float
  | .number real => [real]
  | .point place => place.floats
  | .rect area => area.floats
  | .color shade => shade.components
  | .image handle => handle.extent.elim [] Rect.floats
  | .array items => floatsList items
  | .integer _ | .boolean _ | .text _ | .error _ | .function _ => []

def floatsList : List Value → List Float
  | [] => []
  | item :: rest => item.floats ++ floatsList rest

end

mutual

def extents : Value → List Rect
  | .image handle => handle.extent.toList
  | .array items => extentsList items
  | .number _ | .integer _ | .boolean _ | .point _ | .rect _ | .color _ | .text _ | .error _
  | .function _ => []

def extentsList : List Value → List Rect
  | [] => []
  | item :: rest => item.extents ++ extentsList rest

end

end Value

namespace Stored

/-- The finite ones of some floats are read as they were written. -/
def ReadBack (floats : List Float) : Prop :=
  ∀ number ∈ floats, number.isFinite = true → readFloat (.ofFloat number) = some number

theorem ReadBack.left {floats others : List Float} (exact : ReadBack (floats ++ others)) :
    ReadBack floats :=
  fun number member => exact number (List.mem_append_left _ member)

theorem ReadBack.right {floats others : List Float} (exact : ReadBack (floats ++ others)) :
    ReadBack others :=
  fun number member => exact number (List.mem_append_right _ member)

theorem ofFloat_finite {number : Float} (finite : number.isFinite = true) :
    ∃ numeral : Numeral, numeral.Proper ∧ Json.ofFloat number = .number numeral := by
  have written := Decimal.isSome_numeral? Json.numberStyle number
  rw [finite, Option.isSome_iff_exists] at written
  obtain ⟨numeral, written⟩ := written
  exact ⟨numeral, Decimal.proper_numeral? written, by rw [Json.ofFloat, written]⟩

theorem ofFloat_infinite {number : Float} (infinite : number.isFinite = false) :
    Json.ofFloat number = .null := by
  have written := Decimal.isSome_numeral? Json.numberStyle number
  rw [infinite, Option.isSome_eq_false_iff, Option.isNone_iff_eq_none] at written
  rw [Json.ofFloat, written]

section Floats

variable {number : Float}
  (exact : number.isFinite = true → readFloat (.ofFloat number) = some number)

include exact

theorem readFloat_ofFloat :
    readFloat (.ofFloat number) = if number.isFinite then some number else none := by
  cases finite : number.isFinite with
  | true => exact exact finite
  | false =>
      rw [ofFloat_infinite finite]
      rfl

theorem proper_ofFloat : (Json.ofFloat number).Proper := by
  cases finite : number.isFinite with
  | true =>
      have read := exact finite
      obtain ⟨numeral, proper, same⟩ := ofFloat_finite finite
      rw [same] at read ⊢
      obtain ⟨scalar, found, _⟩ := Option.map_eq_some_iff.mp read
      exact ⟨proper, by rw [found]; rfl⟩
  | false =>
      rw [ofFloat_infinite finite]
      trivial

theorem fits_ofFloat (room : Nat) : (Json.ofFloat number).fits room = true := by
  have proper := proper_ofFloat exact
  cases finite : number.isFinite with
  | true =>
      obtain ⟨numeral, _, same⟩ := ofFloat_finite finite
      rw [same] at proper ⊢
      exact proper.2
  | false =>
      rw [ofFloat_infinite finite]
      rfl

end Floats

theorem scalar?_ofNat {number : Nat} (small : number < UInt64.size) :
    (Numeral.ofInt number).scalar? = some (.natural number) := by
  have value : Numeral.valueOf (Numeral.digitsOf number) = number := Numeral.valueOf_toDigits number
  simp [Numeral.scalar?, Numeral.ofInt, value, small]

theorem scalar?_ofNegative {number : Nat} (positive : 0 < number) (small : number ≤ Nat.pow 2 63) :
    (Numeral.ofInt (-(number : Int))).scalar? = some (.negative (-number)) := by
  have value : Numeral.valueOf (Numeral.digitsOf number) = number := Numeral.valueOf_toDigits number
  simp only [Nat.pow_eq, Nat.reducePow] at small
  simp [Numeral.scalar?, Numeral.ofInt, value, positive, small]

theorem readInteger_ofInt (whole : Int64) : readInteger (.ofInt whole.toInt) = some whole := by
  have low := whole.le_toInt
  have high := whole.toInt_lt
  by_cases negative : whole.toInt < 0
  · have same : whole.toInt = -(whole.toInt.natAbs : Int) := by omega
    rw [Json.ofInt, readInteger, same,
      scalar?_ofNegative (by omega) (by simp only [Nat.pow_eq, Nat.reducePow]; omega)]
    simp only [← same, Int64.ofInt_toInt]
  · have same : whole.toInt = (whole.toInt.toNat : Int) := by omega
    have small : whole.toInt.toNat < Nat.pow 2 63 := by
      simp only [Nat.pow_eq, Nat.reducePow]
      omega
    have smaller : whole.toInt.toNat < UInt64.size := by
      simp only [Nat.pow_eq, Nat.reducePow] at small
      simp only [UInt64.size]
      omega
    rw [Json.ofInt, readInteger, same, scalar?_ofNat smaller]
    simp only [small, if_true, ← Int64.ofInt_eq_ofNat, ← same, Int64.ofInt_toInt]

theorem proper_ofInt64 (whole : Int64) : (Json.ofInt whole.toInt).Proper := by
  have read := readInteger_ofInt whole
  rw [Json.ofInt, readInteger] at read
  refine ⟨Numeral.proper_ofInt _, ?_⟩
  cases found : (Numeral.ofInt whole.toInt).scalar? with
  | some scalar => rfl
  | none =>
      rw [found] at read
      cases read

theorem proper_ofNat {number : Nat} (small : number < UInt64.size) : (Json.ofNat number).Proper :=
  ⟨Numeral.proper_ofInt _, by rw [scalar?_ofNat small]; rfl⟩

theorem readNatural_ofNat {number bound : Nat} (small : number < bound)
    (words : bound ≤ UInt64.size) : readNatural bound (.ofNat number) = some number := by
  rw [Json.ofNat, readNatural, scalar?_ofNat (Nat.lt_of_lt_of_le small words)]
  simp only [small, if_true]

/-- A tree that is read as a value where it fits the room and is fine, and is not read elsewhere. -/
structure Kept {value : Type} (json : Json) (read : Nat → Json → Option value) (fine : Bool)
    (original : value) : Prop where
  proper : json.Proper
  read : ∀ room, read room json = if json.fits room && fine then some original else none

theorem kept_point {point : Point} (exact : ReadBack point.floats) :
    Kept (writePoint point) readPoint point.isFinite point := by
  have readX := exact point.x (by simp [Point.floats])
  have readY := exact point.y (by simp [Point.floats])
  refine ⟨⟨proper_ofFloat readX, proper_ofFloat readY, trivial⟩, fun room => ?_⟩
  cases room with
  | zero => rfl
  | succ room =>
      change ((readFloat (.ofFloat point.x)).bind fun x => (readFloat (.ofFloat point.y)).bind
        fun y => some (Point.mk x y)) = _
      simp only [writePoint, Json.fits, Json.fitsFields, fits_ofFloat readX, fits_ofFloat readY,
        readFloat_ofFloat readX, readFloat_ofFloat readY, Point.isFinite]
      cases point.x.isFinite <;> cases point.y.isFinite <;> simp

theorem kept_size {size : Size} (exact : ReadBack size.floats) :
    Kept (writeSize size) readSize size.isFinite size := by
  have readWidth := exact size.width (by simp [Size.floats])
  have readHeight := exact size.height (by simp [Size.floats])
  refine ⟨⟨proper_ofFloat readWidth, proper_ofFloat readHeight, trivial⟩, fun room => ?_⟩
  cases room with
  | zero => rfl
  | succ room =>
      change ((readFloat (.ofFloat size.width)).bind fun width =>
        (readFloat (.ofFloat size.height)).bind fun height => some (Size.mk width height)) = _
      simp only [writeSize, Json.fits, Json.fitsFields, fits_ofFloat readWidth,
        fits_ofFloat readHeight, readFloat_ofFloat readWidth, readFloat_ofFloat readHeight,
        Size.isFinite]
      cases size.width.isFinite <;> cases size.height.isFinite <;> simp

theorem kept_rect {rect : Rect} (exact : ReadBack rect.floats) :
    Kept (writeRect rect) readRect rect.isFinite rect := by
  have origin := kept_point exact.left
  have size := kept_size exact.right
  refine ⟨⟨origin.proper, size.proper, trivial⟩, fun room => ?_⟩
  cases room with
  | zero => rfl
  | succ room =>
      change ((readPoint room (writePoint rect.origin)).bind fun origin =>
        (readSize room (writeSize rect.size)).bind fun size => some (Rect.mk origin size)) = _
      simp only [origin.read, size.read, writeRect, Json.fits, Json.fitsFields, Rect.isFinite,
        Nat.add_sub_cancel]
      cases rect.origin.isFinite <;> cases rect.size.isFinite <;>
        cases (writePoint rect.origin).fits room <;> cases (writeSize rect.size).fits room <;> simp

theorem kept_color {color : Color} (exact : ReadBack color.components) :
    Kept (writeColor color) readColor color.isFinite color := by
  have readRed := exact color.red (by simp [Color.components])
  have readGreen := exact color.green (by simp [Color.components])
  have readBlue := exact color.blue (by simp [Color.components])
  have readAlpha := exact color.alpha (by simp [Color.components])
  refine ⟨⟨proper_ofFloat readRed, proper_ofFloat readGreen, proper_ofFloat readBlue,
    proper_ofFloat readAlpha, trivial⟩, fun room => ?_⟩
  cases room with
  | zero => rfl
  | succ room =>
      change ((readFloat (.ofFloat color.red)).bind fun red =>
        (readFloat (.ofFloat color.green)).bind fun green =>
          (readFloat (.ofFloat color.blue)).bind fun blue =>
            (readFloat (.ofFloat color.alpha)).bind fun alpha =>
              some (Color.mk red green blue alpha)) = _
      simp only [writeColor, Json.fits, Json.fitsFields, fits_ofFloat readRed,
        fits_ofFloat readGreen, fits_ofFloat readBlue, fits_ofFloat readAlpha,
        readFloat_ofFloat readRed, readFloat_ofFloat readGreen, readFloat_ofFloat readBlue,
        readFloat_ofFloat readAlpha, Color.isFinite, Color.components, List.all_cons,
        List.all_nil]
      cases color.red.isFinite <;> cases color.green.isFinite <;>
        cases color.blue.isFinite <;> cases color.alpha.isFinite <;> simp

theorem readImage_object (room : Nat) (id : String) (extent : Json) :
    readImage (room + 1) (.object [("id", .string id), ("extent", extent)]) =
      (ImageId.ofText? id).bind fun id => (readOptional (readRect room) (some extent)).bind
        fun extent => some (Image.mk id extent) :=
  rfl

theorem kept_image {image : Image} (exact : ReadBack (image.extent.elim [] Rect.floats)) :
    Kept (writeImage image) readImage (image.extent.toList.all Rect.isFinite) image := by
  obtain ⟨id, extent⟩ := image
  cases extent with
  | none =>
      refine ⟨⟨trivial, trivial, trivial⟩, fun room => ?_⟩
      cases room with
      | zero => rfl
      | succ room =>
          rw [writeImage, readImage_object, id.ofText?_text]
          simp [readOptional, Json.fits, Json.fitsFields]
  | some rect =>
      have kept : Kept (writeRect rect) readRect rect.isFinite rect := kept_rect exact
      refine ⟨⟨trivial, kept.proper, trivial⟩, fun room => ?_⟩
      cases room with
      | zero => rfl
      | succ room =>
          have extent : readOptional (readRect room) (some (writeRect rect)) =
              (readRect room (writeRect rect)).map some := rfl
          rw [writeImage, Option.elim_some, readImage_object, id.ofText?_text, extent, kept.read]
          simp only [Option.bind_some, Json.fits, Json.fitsFields, Nat.add_sub_cancel,
            Option.toList_some, List.all_cons, List.all_nil]
          cases rect.isFinite <;> cases (writeRect rect).fits room <;> simp

def readMany : Nat → Bool → List Json → Option (List Value)
  | 0, _, _ => none
  | room + 1, held, items => items.mapM (readValue room held)

theorem readValue_typed (room : Nat) (held : Bool) (type : String) (data : Json) :
    readValue (room + 1) held (typed type data) =
      readData room (readMany room) ⟨type, data, held⟩ := by
  cases room <;> rfl

theorem fits_typed (room : Nat) (type : String) (data : Json) :
    (typed type data).fits (room + 1) = data.fits room := by
  simp [typed, Json.fits, Json.fitsFields]

theorem kept_typed {type : String} {data : Json} {fine : Bool} {value : Value} (held : Bool)
    (proper : data.Proper)
    (read : ∀ room, readData room (readMany room) ⟨type, data, held⟩ =
      if data.fits room && fine then some value else none) :
    Kept (typed type data) (readValue · held) fine value where
  proper := ⟨trivial, proper, trivial⟩
  read := by
    intro room
    cases room with
    | zero => rfl
    | succ room => rw [readValue_typed, read, fits_typed]

theorem writeValuesOnto_eq (written : List Json) (values : List Value) :
    writeValuesOnto written values = (values.mapM writeValue).map (written.reverse ++ ·) := by
  induction values generalizing written with
  | nil => simp [writeValuesOnto]
  | cons value rest ih =>
      rw [writeValuesOnto, List.mapM_cons]
      cases writeValue value with
      | none => rfl
      | some json =>
          simp only [ih, List.reverse_cons, Option.bind_eq_bind, Option.bind_some,
            Option.pure_def, Option.map_bind]
          cases rest.mapM writeValue <;> simp

structure KeptAll {item : Type} (jsons : List Json) (read : Nat → Json → Option item) (fine : Bool)
    (items : List item) : Prop where
  proper : Json.ProperItems jsons
  read : ∀ room, jsons.mapM (read room) =
    if Json.fitsItems room jsons && fine then some items else none

theorem keptAll_nil {item : Type} (read : Nat → Json → Option item) :
    KeptAll [] read true ([] : List item) :=
  ⟨trivial, fun _ => rfl⟩

theorem Kept.cons {item : Type} {json : Json} {jsons : List Json} {read : Nat → Json → Option item}
    {fine others : Bool} {first : item} {rest : List item} (kept : Kept json read fine first)
    (all : KeptAll jsons read others rest) :
    KeptAll (json :: jsons) read (fine && others) (first :: rest) where
  proper := ⟨kept.proper, all.proper⟩
  read := by
    intro room
    rw [List.mapM_cons, kept.read, all.read, Json.fitsItems]
    cases fine <;> cases others <;> cases json.fits room <;> cases Json.fitsItems room jsons <;> rfl

theorem mapM_cons_some {first result : Type} {each : first → Option result} {item : first}
    {items : List first} {results : List result}
    (made : (item :: items).mapM each = some results) :
    ∃ value values, each item = some value ∧ items.mapM each = some values ∧
      results = value :: values := by
  rw [List.mapM_cons] at made
  obtain ⟨value, here, made⟩ := Option.bind_eq_some_iff.mp made
  obtain ⟨values, later, same⟩ := Option.bind_eq_some_iff.mp made
  exact ⟨value, values, here, later, (Option.some.inj same).symm⟩

theorem fitsItems_array (room : Nat) (items : List Json) :
    (Json.array items).fits (room + 1) = Json.fitsItems room items := by
  simp [Json.fits]

mutual

theorem kept_value (value : Value) {json : Json} (written : writeValue value = some json)
    (finite : value.isFinite = true) (exact : ReadBack value.floats) (held : Bool) :
    Kept json (readValue · held) (value.extents.all Rect.isFinite) value := by
  match value with
  | .function callable => cases written
  | .number real =>
      obtain rfl := Option.some.inj written
      have reads := exact real List.mem_cons_self
      refine kept_typed held (proper_ofFloat reads) fun room => ?_
      change ((readFloat (.ofFloat real)).bind fun real => some (Value.number real)) = _
      rw [reads finite, fits_ofFloat reads]
      rfl
  | .integer whole =>
      obtain rfl := Option.some.inj written
      have reads := readInteger_ofInt whole
      have proper := proper_ofInt64 whole
      refine kept_typed held proper fun room => ?_
      have fits : (Json.ofInt whole.toInt).fits room = true := proper.2
      change ((readInteger (.ofInt whole.toInt)).bind fun whole => some (Value.integer whole)) = _
      rw [reads, fits]
      rfl
  | .boolean truth =>
      obtain rfl := Option.some.inj written
      exact kept_typed held trivial fun room => rfl
  | .text string =>
      obtain rfl := Option.some.inj written
      exact kept_typed held trivial fun room => rfl
  | .error message =>
      obtain rfl := Option.some.inj written
      exact kept_typed held trivial fun room => rfl
  | .point place =>
      obtain rfl := Option.some.inj written
      have kept := kept_point exact
      rw [show place.isFinite = true from finite] at kept
      refine kept_typed held kept.proper fun room => ?_
      change ((readPoint room (writePoint place)).bind fun place => some (Value.point place)) = _
      rw [kept.read]
      cases (writePoint place).fits room <;> rfl
  | .rect area =>
      obtain rfl := Option.some.inj written
      have kept := kept_rect exact
      rw [show area.isFinite = true from finite] at kept
      refine kept_typed held kept.proper fun room => ?_
      change ((readRect room (writeRect area)).bind fun area => some (Value.rect area)) = _
      rw [kept.read]
      cases (writeRect area).fits room <;> rfl
  | .color shade =>
      obtain rfl := Option.some.inj written
      have kept := kept_color exact
      rw [show shade.isFinite = true from finite] at kept
      refine kept_typed held kept.proper fun room => ?_
      change ((readColor room (writeColor shade)).bind fun shade => some (Value.color shade)) = _
      rw [kept.read]
      cases (writeColor shade).fits room <;> rfl
  | .image handle =>
      obtain rfl := Option.some.inj written
      have kept := kept_image exact
      refine kept_typed held kept.proper fun room => ?_
      change ((readImage room (writeImage handle)).bind fun handle =>
        some (Value.image handle)) = _
      rw [kept.read, Value.extents]
      cases (writeImage handle).fits room <;> cases handle.extent.toList.all Rect.isFinite <;> rfl
  | .array items =>
      rw [writeValue, writeValuesOnto_eq] at written
      simp only [List.reverse_nil, List.nil_append, Option.map_id'] at written
      obtain ⟨jsons, made, rfl⟩ := Option.map_eq_some_iff.mp written
      have all := kept_values items made finite exact
      refine kept_typed held (all held).proper fun room => ?_
      change ((readMany room held jsons).bind fun items => some (Value.array items)) = _
      cases room with
      | zero => rfl
      | succ room =>
          rw [readMany, (all held).read, fitsItems_array, Value.extents]
          cases Json.fitsItems room jsons <;>
            cases (Value.extentsList items).all Rect.isFinite <;> rfl

theorem kept_values (values : List Value) {jsons : List Json}
    (written : values.mapM writeValue = some jsons) (finite : Value.isFiniteList values = true)
    (exact : ReadBack (Value.floatsList values)) (held : Bool) :
    KeptAll jsons (readValue · held) ((Value.extentsList values).all Rect.isFinite) values := by
  match values with
  | [] =>
      obtain rfl := Option.some.inj written
      exact keptAll_nil _
  | value :: rest =>
      obtain ⟨json, jsons, here, later, rfl⟩ := mapM_cons_some written
      rw [Value.isFiniteList, Bool.and_eq_true] at finite
      rw [Value.extentsList, List.all_append]
      exact (kept_value value here finite.1 exact.left held).cons
        (kept_values rest later finite.2 exact.right held)

end

end Stored

end NodeGraph
