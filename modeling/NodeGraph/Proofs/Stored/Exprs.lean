import NodeGraph.Proofs.Stored.Values
import NodeGraph.Stored.Expr

/-!
Stored expressions read back, exactly where their text fits the room of the reader and the extents
of the images in their constants are finite.
-/

namespace NodeGraph

namespace Expr

mutual

def floats : Expr → List Float
  | .constant value => value.floats
  | .variable _ | .argument _ => []
  | .primitive _ operands => floatsList operands
  | .apply operator operands => operator.floats ++ floatsList operands
  | .map array callable => array.floats ++ callable.floats
  | .lambda _ body => body.floats

def floatsList : List Expr → List Float
  | [] => []
  | expr :: rest => expr.floats ++ floatsList rest

end

mutual

def extents : Expr → List Rect
  | .constant value => value.extents
  | .variable _ | .argument _ => []
  | .primitive _ operands => extentsList operands
  | .apply operator operands => operator.extents ++ extentsList operands
  | .map array callable => array.extents ++ callable.extents
  | .lambda _ body => body.extents

def extentsList : List Expr → List Rect
  | [] => []
  | expr :: rest => expr.extents ++ extentsList rest

end

end Expr

namespace Stored

/-- A tree that is read as an expression where it fits, if it is fine. -/
structure Fitting (json : Json) (fine : Bool) (expr : Expr) : Prop where
  proper : json.Proper
  read : ∀ room held, json.fits room = true →
    readFitting room held json = if fine then some expr else none

structure FittingAll (jsons : List Json) (fine : Bool) (exprs : List Expr) : Prop where
  proper : Json.ProperItems jsons
  read : ∀ room, Json.fitsItems room jsons = true →
    jsons.mapM (readFitting room true) = if fine then some exprs else none

theorem Fitting.cons {json : Json} {jsons : List Json} {fine others : Bool} {expr : Expr}
    {rest : List Expr} (first : Fitting json fine expr) (all : FittingAll jsons others rest) :
    FittingAll (json :: jsons) (fine && others) (expr :: rest) where
  proper := ⟨first.proper, all.proper⟩
  read := by
    intro room fits
    rw [Json.fitsItems, Bool.and_eq_true] at fits
    rw [List.mapM_cons, first.read room true fits.1, all.read room fits.2]
    cases fine <;> cases others <;> rfl

theorem fits_kinded {room : Nat} {kind : String} {fields : List (String × Json)}
    (fits : (kinded kind fields).fits room = true) :
    ∃ less, room = less + 1 ∧ Json.fitsFields less fields = true := by
  rw [kinded, Json.fits, Bool.and_eq_true, decide_eq_true_eq] at fits
  refine ⟨room - 1, by omega, ?_⟩
  have inside := fits.2
  rw [Json.fitsFields, Bool.and_eq_true] at inside
  exact inside.2

theorem fitsItems_of_array {room : Nat} {items : List Json} (proper : Json.ProperItems items)
    (fits : (Json.array items).fits room = true) : Json.fitsItems room items = true := by
  have less : (Json.array items).depth ≤ room :=
    (Json.fits_iff (show (Json.array items).Proper from proper) room).mp fits
  rw [Json.depth] at less
  exact (Json.fitsItems_iff proper room).mpr (by omega)

theorem readTexts_map (texts : List String) :
    (texts.map Json.string).mapM readText = some texts := by
  induction texts with
  | nil => rfl
  | cons text rest ih =>
      rw [List.map_cons, List.mapM_cons, ih]
      rfl

theorem proper_texts (texts : List String) : Json.ProperItems (texts.map Json.string) := by
  induction texts with
  | nil => trivial
  | cons text rest ih => exact ⟨trivial, ih⟩

mutual

theorem fitting_expr (expr : Expr) {json : Json} (written : writeExpr expr = some json)
    (finite : expr.constantsFinite = true) (exact : ReadBack expr.floats) :
    Fitting json (expr.extents.all Rect.isFinite) expr := by
  match expr with
  | .constant value =>
      obtain ⟨data, made, same⟩ := Option.bind_eq_some_iff.mp written
      obtain rfl := Option.some.inj same
      have kept := kept_value value made finite exact true
      refine ⟨⟨trivial, kept.proper, trivial⟩, fun room held fits => ?_⟩
      obtain ⟨room, rfl, inside⟩ := fits_kinded fits
      rw [Json.fitsFields, Bool.and_eq_true] at inside
      change ((readValue room true data).bind fun value => some (Expr.constant value)) = _
      rw [kept.read, inside.1, Expr.extents]
      cases value.extents.all Rect.isFinite <;> rfl
  | .variable name =>
      obtain rfl := Option.some.inj written
      refine ⟨⟨trivial, trivial, trivial⟩, fun room held fits => ?_⟩
      obtain ⟨room, rfl, _⟩ := fits_kinded fits
      rfl
  | .argument index =>
      obtain rfl := Option.some.inj written
      refine ⟨⟨trivial, proper_ofNat index.toNat_lt, trivial⟩, fun room held fits => ?_⟩
      obtain ⟨room, rfl, _⟩ := fits_kinded fits
      change ((readNatural UInt64.size (.ofNat index.toNat)).bind fun index =>
        some (Expr.argument (UInt64.ofNat index))) = _
      rw [readNatural_ofNat index.toNat_lt (Nat.le_refl _), Option.bind_some, UInt64.ofNat_toNat]
      rfl
  | .primitive name operands =>
      obtain ⟨jsons, made, same⟩ := Option.bind_eq_some_iff.mp written
      obtain rfl := Option.some.inj same
      have all := fitting_exprs operands made finite exact
      refine ⟨⟨trivial, trivial, all.proper, trivial⟩, fun room held fits => ?_⟩
      obtain ⟨room, rfl, inside⟩ := fits_kinded fits
      simp only [Json.fitsFields, Bool.and_eq_true] at inside
      change ((jsons.mapM (readFitting room true)).bind fun operands =>
        some (Expr.primitive name operands)) = _
      rw [all.read room (fitsItems_of_array all.proper inside.2.1), Expr.extents]
      cases (Expr.extentsList operands).all Rect.isFinite <;> rfl
  | .apply operator operands =>
      obtain ⟨first, here, written⟩ := Option.bind_eq_some_iff.mp written
      obtain ⟨jsons, made, same⟩ := Option.bind_eq_some_iff.mp written
      obtain rfl := Option.some.inj same
      rw [Expr.constantsFinite, Bool.and_eq_true] at finite
      have applied := fitting_expr operator here finite.1 exact.left
      have all := fitting_exprs operands made finite.2 exact.right
      refine ⟨⟨trivial, applied.proper, all.proper, trivial⟩, fun room held fits => ?_⟩
      obtain ⟨room, rfl, inside⟩ := fits_kinded fits
      simp only [Json.fitsFields, Bool.and_eq_true] at inside
      change ((readFitting room true first).bind fun operator =>
        (jsons.mapM (readFitting room true)).bind fun operands =>
          some (Expr.apply operator operands)) = _
      rw [applied.read room true inside.1, all.read room (fitsItems_of_array all.proper inside.2.1),
        Expr.extents, List.all_append]
      cases operator.extents.all Rect.isFinite <;>
        cases (Expr.extentsList operands).all Rect.isFinite <;> rfl
  | .map array callable =>
      obtain ⟨first, here, written⟩ := Option.bind_eq_some_iff.mp written
      obtain ⟨second, made, same⟩ := Option.bind_eq_some_iff.mp written
      obtain rfl := Option.some.inj same
      rw [Expr.constantsFinite, Bool.and_eq_true] at finite
      have mapped := fitting_expr array here finite.1 exact.left
      have called := fitting_expr callable made finite.2 exact.right
      refine ⟨⟨trivial, mapped.proper, called.proper, trivial⟩, fun room held fits => ?_⟩
      obtain ⟨room, rfl, inside⟩ := fits_kinded fits
      simp only [Json.fitsFields, Bool.and_eq_true] at inside
      change ((readFitting room true first).bind fun array =>
        (readFitting room true second).bind fun callable => some (Expr.map array callable)) = _
      rw [mapped.read room true inside.1, called.read room true inside.2.1, Expr.extents,
        List.all_append]
      cases array.extents.all Rect.isFinite <;> cases callable.extents.all Rect.isFinite <;> rfl
  | .lambda params body =>
      obtain ⟨first, here, same⟩ := Option.bind_eq_some_iff.mp written
      obtain rfl := Option.some.inj same
      have entered := fitting_expr body here finite exact
      refine ⟨⟨trivial, proper_texts params, entered.proper, trivial⟩, fun room held fits => ?_⟩
      obtain ⟨room, rfl, inside⟩ := fits_kinded fits
      simp only [Json.fitsFields, Bool.and_eq_true] at inside
      change (((params.map Json.string).mapM readText).bind fun params =>
        (readFitting room true first).bind fun body => some (Expr.lambda params body)) = _
      rw [readTexts_map, entered.read room true inside.2.1, Expr.extents]
      cases body.extents.all Rect.isFinite <;> rfl

theorem fitting_exprs (exprs : List Expr) {jsons : List Json}
    (written : writeExprs exprs = some jsons) (finite : Expr.constantsFiniteList exprs = true)
    (exact : ReadBack (Expr.floatsList exprs)) :
    FittingAll jsons ((Expr.extentsList exprs).all Rect.isFinite) exprs := by
  match exprs with
  | [] =>
      obtain rfl := Option.some.inj written
      exact ⟨trivial, fun _ _ => rfl⟩
  | expr :: rest =>
      obtain ⟨json, here, written⟩ := Option.bind_eq_some_iff.mp written
      obtain ⟨jsons, later, same⟩ := Option.bind_eq_some_iff.mp written
      obtain rfl := Option.some.inj same
      rw [Expr.constantsFiniteList, Bool.and_eq_true] at finite
      rw [Expr.extentsList, List.all_append]
      exact (fitting_expr expr here finite.1 exact.left).cons
        (fitting_exprs rest later finite.2 exact.right)

end

theorem kept_expr {expr : Expr} {json : Json} (written : writeExpr expr = some json)
    (finite : expr.constantsFinite = true) (exact : ReadBack expr.floats) :
    Kept json readExpr (expr.extents.all Rect.isFinite) expr := by
  have fitting := fitting_expr expr written finite exact
  refine ⟨fitting.proper, fun room => ?_⟩
  rw [readExpr]
  cases fits : json.fits room with
  | true =>
      rw [if_pos rfl, fitting.read room false fits]
      rfl
  | false => rfl

end Stored

end NodeGraph
