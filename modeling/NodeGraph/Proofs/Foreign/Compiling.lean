import Mathlib.Data.List.Basic
import NodeGraph.Foreign.Term
import NodeGraph.Proofs.Foreign.Crossing

/-!
What compilation keeps of an expression. A term shows the form of its expression by its tag and the
parts by its fields, and a foreign value shows the kind of its value and what is in it; so terms
that are equal come from expressions that are equal. Only a constant can stop the compilation, and
the first one that does is what the failure tells of.
-/

namespace NodeGraph

inductive Form where
  | constant
  | variable
  | argument
  | primitive
  | apply
  | map
  | lambda

def Expr.form : Expr → Form
  | .constant _ => .constant
  | .variable _ => .variable
  | .argument _ => .argument
  | .primitive _ _ => .primitive
  | .apply _ _ => .apply
  | .map _ _ => .map
  | .lambda _ _ => .lambda

namespace Foreign

def formTag : Form → UInt8
  | .constant => constantTag
  | .variable => variableTag
  | .argument => argumentTag
  | .primitive => primitiveTag
  | .apply => applyTag
  | .map => mapTag
  | .lambda => lambdaTag

theorem formTag_injective {left right : Form} (same : formTag left = formTag right) :
    left = right := by
  cases left <;> cases right <;> first | rfl | exact absurd same (by decide)

def blockKind? (tag : UInt8) : Option ValueKind :=
  if tag = pointTag then some .point
  else if tag = rectTag then some .rect
  else if tag = colorTag then some .color
  else if tag = arrayTag then some .array
  else none

def kind? : Foreign → Option ValueKind
  | .float _ => some .number
  | .int _ => some .integer
  | .bool _ => some .boolean
  | .string _ => some .text
  | .floats _ => some .array
  | .block tag _ => blockKind? tag
  | .handle _ => some .image

mutual

/-- Equality as the program has it: floats compare as numbers and images by their identity. -/
def equal : Foreign → Foreign → Bool
  | .float left, .float right => left == right
  | .int left, .int right => left == right
  | .bool left, .bool right => left == right
  | .string left, .string right => left == right
  | .floats left, .floats right => left == right
  | .block leftTag left, .block rightTag right => leftTag == rightTag && equalList left right
  | .handle left, .handle right => left.equal right
  | _, _ => false

def equalList : List Foreign → List Foreign → Bool
  | [], [] => true
  | left :: lefts, right :: rights => left.equal right && equalList lefts rights
  | _, _ => false

end

theorem of_bind_ok {before after : Type} {first : Except BridgeError before}
    {next : before → Except BridgeError after} {result : after}
    (done : first >>= next = .ok result) :
    ∃ middle, first = .ok middle ∧ next middle = .ok result := by
  cases first with
  | error error => cases done
  | ok middle => exact ⟨middle, rfl, done⟩

theorem ofValue_array {items : List Value} {foreign : Foreign}
    (sent : ofValue (.array items) = .ok foreign) :
    (∃ reals, items = reals.map .number ∧ foreign = .floats reals) ∨
      ∃ fields, ofValues items = .ok fields ∧ foreign = .block arrayTag fields := by
  cases items with
  | nil =>
      cases sent
      exact Or.inr ⟨[], rfl, rfl⟩
  | cons item rest =>
      cases known : numbers? (item :: rest) with
      | some reals =>
          rw [ofValue_unboxed (List.cons_ne_nil _ _) known] at sent
          cases sent
          exact Or.inl ⟨reals, numbers?_eq_some known, rfl⟩
      | none =>
          rw [ofValue_boxed known] at sent
          cases inside : ofValues (item :: rest) with
          | error error =>
              rw [inside] at sent
              cases sent
          | ok fields =>
              rw [inside] at sent
              cases sent
              exact Or.inr ⟨fields, rfl, rfl⟩

theorem ofValue_kind {value : Value} {foreign : Foreign} (sent : ofValue value = .ok foreign) :
    foreign.kind? = some value.kind := by
  cases value with
  | array items =>
      rcases ofValue_array sent with ⟨_, _, rfl⟩ | ⟨_, _, rfl⟩ <;> rfl
  | error message => cases sent
  | function callable => cases sent
  | _ =>
      cases sent
      rfl

theorem ofValues_cons {value : Value} {rest : List Value} {foreigns : List Foreign}
    (sent : ofValues (value :: rest) = .ok foreigns) :
    ∃ first others, ofValue value = .ok first ∧ ofValues rest = .ok others ∧
      foreigns = first :: others := by
  rw [ofValues] at sent
  obtain ⟨first, here, later⟩ := of_bind_ok sent
  obtain ⟨others, there, whole⟩ := of_bind_ok later
  cases whole
  exact ⟨first, others, here, there, rfl⟩

mutual

theorem ofValue_injective {left right : Value} {foreign : Foreign}
    (sent : ofValue left = .ok foreign) (sent' : ofValue right = .ok foreign) : left = right := by
  have kinds : left.kind = right.kind :=
    Option.some.inj ((ofValue_kind sent).symm.trans (ofValue_kind sent'))
  cases left with
  | array items =>
      cases right with
      | array items' =>
          rcases ofValue_array sent with ⟨reals, rfl, rfl⟩ | ⟨fields, inside, rfl⟩
          · rcases ofValue_array sent' with ⟨reals', rfl, same⟩ | ⟨_, _, same⟩
            · cases same
              rfl
            · cases same
          · rcases ofValue_array sent' with ⟨_, _, same⟩ | ⟨fields', inside', same⟩
            · cases same
            · cases same
              rw [ofValues_injective inside inside']
      | _ => cases kinds
  | point place =>
      cases right with
      | point place' =>
          obtain ⟨x, y⟩ := place
          cases sent
          cases sent'
          rfl
      | _ => cases kinds
  | rect area =>
      cases right with
      | rect area' =>
          obtain ⟨⟨x, y⟩, width, height⟩ := area
          cases sent
          cases sent'
          rfl
      | _ => cases kinds
  | color shade =>
      cases right with
      | color shade' =>
          obtain ⟨red, green, blue, alpha⟩ := shade
          cases sent
          cases sent'
          rfl
      | _ => cases kinds
  | _ =>
      cases right with
      | _ => cases kinds <;> cases sent <;> cases sent' <;> rfl

theorem ofValues_injective {lefts rights : List Value} {foreigns : List Foreign}
    (sent : ofValues lefts = .ok foreigns) (sent' : ofValues rights = .ok foreigns) :
    lefts = rights := by
  cases lefts with
  | nil =>
      cases sent
      cases rights with
      | nil => rfl
      | cons right rest =>
          obtain ⟨_, _, _, _, longer⟩ := ofValues_cons sent'
          cases longer
  | cons left rest =>
      obtain ⟨first, others, here, there, rfl⟩ := ofValues_cons sent
      cases rights with
      | nil => cases sent'
      | cons right rest' =>
          obtain ⟨first', others', here', there', same⟩ := ofValues_cons sent'
          cases same
          rw [ofValue_injective here here', ofValues_injective there there']

end

theorem kind?_of_equal {foreign foreign' : Foreign} (same : foreign.equal foreign' = true) :
    foreign.kind? = foreign'.kind? := by
  cases foreign with
  | block tag fields =>
      cases foreign' with
      | block tag' fields' =>
          simp only [equal, Bool.and_eq_true, beq_iff_eq] at same
          rw [kind?, kind?, same.1]
      | _ => cases same
  | _ =>
      cases foreign' with
      | _ => first | rfl | cases same

theorem equal_numbers {reals reals' : List Float} (same : (reals == reals') = true) :
    Value.equalList (reals.map .number) (reals'.map .number) = true := by
  induction reals generalizing reals' with
  | nil =>
      cases reals' with
      | nil => rfl
      | cons real rest => cases same
  | cons real rest ih =>
      cases reals' with
      | nil => cases same
      | cons real' rest' =>
          simp only [List.cons_beq_cons, Bool.and_eq_true] at same
          simp only [List.map_cons, Value.equalList, Value.equal, Bool.and_eq_true]
          exact ⟨same.1, ih same.2⟩

mutual

theorem equal_of_ofValue {left right : Value} {foreign foreign' : Foreign}
    (sent : ofValue left = .ok foreign) (sent' : ofValue right = .ok foreign')
    (same : foreign.equal foreign' = true) : left.equal right = true := by
  have kinds : left.kind = right.kind := Option.some.inj
    (((ofValue_kind sent).symm.trans (kind?_of_equal same)).trans (ofValue_kind sent'))
  cases left with
  | array items =>
      cases right with
      | array items' =>
          rcases ofValue_array sent with ⟨reals, rfl, rfl⟩ | ⟨fields, inside, rfl⟩
          · rcases ofValue_array sent' with ⟨reals', rfl, rfl⟩ | ⟨_, _, rfl⟩
            · exact equal_numbers same
            · cases same
          · rcases ofValue_array sent' with ⟨_, _, rfl⟩ | ⟨fields', inside', rfl⟩
            · cases same
            · simp only [equal, Bool.and_eq_true] at same
              exact equal_of_ofValues inside inside' same.2
      | _ => cases kinds
  | error message => cases sent
  | function callable => cases sent
  | _ =>
      cases right with
      | _ =>
          cases kinds <;> cases sent <;> cases sent' <;>
            simpa [equal, equalList, floatBlock, Value.equal, Point.equal, Rect.equal, Size.equal,
              Color.equal, Color.components, and_assoc] using same

theorem equal_of_ofValues {lefts rights : List Value} {foreigns foreigns' : List Foreign}
    (sent : ofValues lefts = .ok foreigns) (sent' : ofValues rights = .ok foreigns')
    (same : equalList foreigns foreigns' = true) : Value.equalList lefts rights = true := by
  cases lefts with
  | nil =>
      cases sent
      cases rights with
      | nil => rfl
      | cons right rest =>
          obtain ⟨_, _, _, _, rfl⟩ := ofValues_cons sent'
          cases same
  | cons left rest =>
      obtain ⟨first, others, here, there, rfl⟩ := ofValues_cons sent
      cases rights with
      | nil =>
          cases sent'
          cases same
      | cons right rest' =>
          obtain ⟨first', others', here', there', rfl⟩ := ofValues_cons sent'
          simp only [equalList, Bool.and_eq_true] at same
          rw [Value.equalList, equal_of_ofValue here here' same.1,
            equal_of_ofValues there there' same.2]
          rfl

end

/-- What a term shows of its expression. -/
inductive Term : Expr → Foreign → Prop
  | constant {value : Value} {foreign : Foreign} (sent : ofValue value = .ok foreign) :
      Term (.constant value) (.block constantTag [foreign])
  | variable (name : String) : Term (.variable name) (.block variableTag [.string name])
  | argument (index : UInt64) : Term (.argument index) (.block argumentTag [.int index.toInt64])
  | primitive (name : String) {operands : List Expr} {fields : List Foreign}
      (sent : ofExprs operands = .ok fields) :
      Term (.primitive name operands) (.block primitiveTag [.string name, .block arrayTag fields])
  | apply {operator : Expr} {operands : List Expr} {foreign : Foreign} {fields : List Foreign}
      (sent : ofExpr operator = .ok foreign) (sentAll : ofExprs operands = .ok fields) :
      Term (.apply operator operands) (.block applyTag [foreign, .block arrayTag fields])
  | map {array callable : Expr} {foreign foreign' : Foreign} (sent : ofExpr array = .ok foreign)
      (sent' : ofExpr callable = .ok foreign') :
      Term (.map array callable) (.block mapTag [foreign, foreign'])
  | lambda (params : List String) {body : Expr} {foreign : Foreign}
      (sent : ofExpr body = .ok foreign) :
      Term (.lambda params body)
        (.block lambdaTag [.block arrayTag (params.map .string), foreign])

theorem ofExpr_term {expr : Expr} {foreign : Foreign} (sent : ofExpr expr = .ok foreign) :
    Term expr foreign := by
  cases expr with
  | constant value =>
      rw [ofExpr] at sent
      obtain ⟨field, inside, whole⟩ := of_bind_ok sent
      cases whole
      exact .constant inside
  | «variable» name =>
      cases sent
      exact .variable name
  | argument index =>
      cases sent
      exact .argument index
  | primitive name operands =>
      rw [ofExpr] at sent
      obtain ⟨fields, inside, whole⟩ := of_bind_ok sent
      cases whole
      exact .primitive name inside
  | apply operator operands =>
      rw [ofExpr] at sent
      obtain ⟨field, first, later⟩ := of_bind_ok sent
      obtain ⟨fields, inside, whole⟩ := of_bind_ok later
      cases whole
      exact .apply first inside
  | map array callable =>
      rw [ofExpr] at sent
      obtain ⟨field, first, later⟩ := of_bind_ok sent
      obtain ⟨field', second, whole⟩ := of_bind_ok later
      cases whole
      exact .map first second
  | lambda params body =>
      rw [ofExpr] at sent
      obtain ⟨field, inside, whole⟩ := of_bind_ok sent
      cases whole
      exact .lambda params inside

theorem ofExprs_cons {expr : Expr} {rest : List Expr} {foreigns : List Foreign}
    (sent : ofExprs (expr :: rest) = .ok foreigns) :
    ∃ first others, ofExpr expr = .ok first ∧ ofExprs rest = .ok others ∧
      foreigns = first :: others := by
  rw [ofExprs] at sent
  obtain ⟨first, here, later⟩ := of_bind_ok sent
  obtain ⟨others, there, whole⟩ := of_bind_ok later
  cases whole
  exact ⟨first, others, here, there, rfl⟩

theorem Term.form {expr : Expr} {foreign : Foreign} (term : Term expr foreign) :
    ∃ fields, foreign = .block (formTag expr.form) fields := by
  cases term <;> exact ⟨_, rfl⟩

theorem strings_injective : Function.Injective (List.map Foreign.string) :=
  List.map_injective_iff.mpr fun _ _ same => Foreign.string.inj same

theorem strings_of_equal {names names' : List String}
    (same : equalList (names.map .string) (names'.map .string) = true) : names = names' := by
  induction names generalizing names' with
  | nil =>
      cases names' with
      | nil => rfl
      | cons name rest => cases same
  | cons name rest ih =>
      cases names' with
      | nil => cases same
      | cons name' rest' =>
          simp only [List.map_cons, equalList, equal, Bool.and_eq_true, beq_iff_eq] at same
          rw [same.1, ih same.2]

inductive Matching : Expr → Expr → Foreign → Foreign → Prop
  | constant {value value' : Value} {foreign foreign' : Foreign}
      (sent : ofValue value = .ok foreign) (sent' : ofValue value' = .ok foreign') :
      Matching (.constant value) (.constant value') (.block constantTag [foreign])
        (.block constantTag [foreign'])
  | variable (name name' : String) :
      Matching (.variable name) (.variable name') (.block variableTag [.string name])
        (.block variableTag [.string name'])
  | argument (index index' : UInt64) :
      Matching (.argument index) (.argument index') (.block argumentTag [.int index.toInt64])
        (.block argumentTag [.int index'.toInt64])
  | primitive (name name' : String) {operands operands' : List Expr} {fields fields' : List Foreign}
      (sent : ofExprs operands = .ok fields) (sent' : ofExprs operands' = .ok fields') :
      Matching (.primitive name operands) (.primitive name' operands')
        (.block primitiveTag [.string name, .block arrayTag fields])
        (.block primitiveTag [.string name', .block arrayTag fields'])
  | apply {operator operator' : Expr} {operands operands' : List Expr} {foreign foreign' : Foreign}
      {fields fields' : List Foreign} (sent : ofExpr operator = .ok foreign)
      (sent' : ofExpr operator' = .ok foreign') (sentAll : ofExprs operands = .ok fields)
      (sentAll' : ofExprs operands' = .ok fields') :
      Matching (.apply operator operands) (.apply operator' operands')
        (.block applyTag [foreign, .block arrayTag fields])
        (.block applyTag [foreign', .block arrayTag fields'])
  | map {array array' callable callable' : Expr} {first first' second second' : Foreign}
      (sent : ofExpr array = .ok first) (sent' : ofExpr array' = .ok first')
      (later : ofExpr callable = .ok second) (later' : ofExpr callable' = .ok second') :
      Matching (.map array callable) (.map array' callable') (.block mapTag [first, second])
        (.block mapTag [first', second'])
  | lambda (params params' : List String) {body body' : Expr} {foreign foreign' : Foreign}
      (sent : ofExpr body = .ok foreign) (sent' : ofExpr body' = .ok foreign') :
      Matching (.lambda params body) (.lambda params' body')
        (.block lambdaTag [.block arrayTag (params.map .string), foreign])
        (.block lambdaTag [.block arrayTag (params'.map .string), foreign'])

theorem Matching.of_forms {left right : Expr} {foreign foreign' : Foreign}
    (term : Term left foreign) (term' : Term right foreign') (forms : left.form = right.form) :
    Matching left right foreign foreign' := by
  cases term with
  | constant sent =>
      cases term' with
      | constant sent' => exact .constant sent sent'
      | _ => cases forms
  | «variable» name =>
      cases term' with
      | «variable» name' => exact .variable name name'
      | _ => cases forms
  | argument index =>
      cases term' with
      | argument index' => exact .argument index index'
      | _ => cases forms
  | primitive name sent =>
      cases term' with
      | primitive name' sent' => exact .primitive name name' sent sent'
      | _ => cases forms
  | apply sent sentAll =>
      cases term' with
      | apply sent' sentAll' => exact .apply sent sent' sentAll sentAll'
      | _ => cases forms
  | map sent later =>
      cases term' with
      | map sent' later' => exact .map sent sent' later later'
      | _ => cases forms
  | lambda params sent =>
      cases term' with
      | lambda params' sent' => exact .lambda params params' sent sent'
      | _ => cases forms

theorem matching {left right : Expr} {foreign foreign' : Foreign} (sent : ofExpr left = .ok foreign)
    (sent' : ofExpr right = .ok foreign')
    (tags : ∀ tag tag' fields fields', foreign = .block tag fields → foreign' = .block tag' fields' →
      tag = tag') :
    Matching left right foreign foreign' := by
  have term := ofExpr_term sent
  have term' := ofExpr_term sent'
  obtain ⟨fields, shape⟩ := term.form
  obtain ⟨fields', shape'⟩ := term'.form
  exact .of_forms term term' (formTag_injective (tags _ _ _ _ shape shape'))

mutual

theorem ofExpr_injective {left right : Expr} {foreign foreign' : Foreign}
    (sent : ofExpr left = .ok foreign) (sent' : ofExpr right = .ok foreign')
    (same : foreign = foreign') : left = right := by
  have matching : Matching left right foreign foreign' := matching sent sent' (by
    rintro tag tag' fields fields' rfl rfl
    exact (Foreign.block.inj same).1)
  cases matching with
  | constant inside inside' =>
      simp only [Foreign.block.injEq, List.cons.injEq, true_and, and_true] at same
      rw [ofValue_injective inside (same ▸ inside')]
  | «variable» name name' =>
      cases same
      rfl
  | argument index index' =>
      cases same
      rfl
  | primitive name name' inside inside' =>
      simp only [Foreign.block.injEq, Foreign.string.injEq, List.cons.injEq, true_and, and_true]
        at same
      rw [same.1, ofExprs_injective inside inside' same.2]
  | apply first first' inside inside' =>
      simp only [Foreign.block.injEq, List.cons.injEq, true_and, and_true] at same
      rw [ofExpr_injective first first' same.1, ofExprs_injective inside inside' same.2]
  | map first first' second second' =>
      simp only [Foreign.block.injEq, List.cons.injEq, true_and, and_true] at same
      rw [ofExpr_injective first first' same.1, ofExpr_injective second second' same.2]
  | lambda params params' inside inside' =>
      simp only [Foreign.block.injEq, List.cons.injEq, true_and, and_true] at same
      rw [strings_injective same.1, ofExpr_injective inside inside' same.2]

theorem ofExprs_injective {lefts rights : List Expr} {foreigns foreigns' : List Foreign}
    (sent : ofExprs lefts = .ok foreigns) (sent' : ofExprs rights = .ok foreigns')
    (same : foreigns = foreigns') : lefts = rights := by
  cases lefts with
  | nil =>
      cases sent
      cases rights with
      | nil => rfl
      | cons right rest =>
          obtain ⟨_, _, _, _, rfl⟩ := ofExprs_cons sent'
          cases same
  | cons left rest =>
      obtain ⟨first, others, here, there, rfl⟩ := ofExprs_cons sent
      cases rights with
      | nil =>
          cases sent'
          cases same
      | cons right rest' =>
          obtain ⟨first', others', here', there', rfl⟩ := ofExprs_cons sent'
          rw [ofExpr_injective here here' (List.cons.inj same).1,
            ofExprs_injective there there' (List.cons.inj same).2]

end

mutual

theorem equal_of_ofExpr {left right : Expr} {foreign foreign' : Foreign}
    (sent : ofExpr left = .ok foreign) (sent' : ofExpr right = .ok foreign')
    (same : foreign.equal foreign' = true) : left.equal right = true := by
  have matching : Matching left right foreign foreign' := matching sent sent' (by
    rintro tag tag' fields fields' rfl rfl
    simp only [equal, Bool.and_eq_true, beq_iff_eq] at same
    exact same.1)
  cases matching with
  | constant inside inside' =>
      simp only [equal, equalList, Bool.and_eq_true, and_true] at same
      exact equal_of_ofValue inside inside' same.2
  | «variable» name name' =>
      simp only [equal, equalList, Bool.and_eq_true, and_true] at same
      exact same.2
  | argument index index' =>
      simp only [equal, equalList, Bool.and_eq_true, beq_iff_eq, and_true] at same
      have indices : index = index' := congrArg Int64.toUInt64 same.2
      rw [Expr.equal, indices, beq_self_eq_true]
  | primitive name name' inside inside' =>
      simp only [equal, equalList, Bool.and_eq_true, and_true] at same
      rw [Expr.equal, same.2.1, equal_of_ofExprs inside inside' same.2.2.2]
      rfl
  | apply first first' inside inside' =>
      simp only [equal, equalList, Bool.and_eq_true, and_true] at same
      rw [Expr.equal, equal_of_ofExpr first first' same.2.1,
        equal_of_ofExprs inside inside' same.2.2.2]
      rfl
  | map first first' second second' =>
      simp only [equal, equalList, Bool.and_eq_true, and_true] at same
      rw [Expr.equal, equal_of_ofExpr first first' same.2.1,
        equal_of_ofExpr second second' same.2.2]
      rfl
  | lambda params params' inside inside' =>
      simp only [equal, equalList, Bool.and_eq_true, and_true] at same
      rw [Expr.equal, strings_of_equal same.2.1.2, beq_self_eq_true,
        equal_of_ofExpr inside inside' same.2.2]
      rfl

theorem equal_of_ofExprs {lefts rights : List Expr} {foreigns foreigns' : List Foreign}
    (sent : ofExprs lefts = .ok foreigns) (sent' : ofExprs rights = .ok foreigns')
    (same : equalList foreigns foreigns' = true) : Expr.equalList lefts rights = true := by
  cases lefts with
  | nil =>
      cases sent
      cases rights with
      | nil => rfl
      | cons right rest =>
          obtain ⟨_, _, _, _, rfl⟩ := ofExprs_cons sent'
          cases same
  | cons left rest =>
      obtain ⟨first, others, here, there, rfl⟩ := ofExprs_cons sent
      cases rights with
      | nil =>
          cases sent'
          cases same
      | cons right rest' =>
          obtain ⟨first', others', here', there', rfl⟩ := ofExprs_cons sent'
          simp only [equalList, Bool.and_eq_true] at same
          rw [Expr.equalList, equal_of_ofExpr here here' same.1,
            equal_of_ofExprs there there' same.2]
          rfl

end

end Foreign

namespace Expr

mutual

def constants : Expr → List Value
  | .constant value => [value]
  | .variable _ | .argument _ => []
  | .primitive _ operands => constantsList operands
  | .apply operator operands => operator.constants ++ constantsList operands
  | .map array callable => array.constants ++ callable.constants
  | .lambda _ body => body.constants

def constantsList : List Expr → List Value
  | [] => []
  | expr :: rest => expr.constants ++ constantsList rest

end

end Expr

namespace Foreign

/-- The kind of the first error or function in some values. -/
def obstacle? (values : List Value) : Option ValueKind :=
  (values.flatMap Value.flatItems).findSome? Value.homebound?

theorem obstacle?_append (values more : List Value) :
    obstacle? (values ++ more) = (obstacle? values).or (obstacle? more) := by
  rw [obstacle?, List.flatMap_append, List.findSome?_append]
  rfl

/-- What has a result unless an obstacle is met, and then fails for that. -/
structure Meets {result : Type} (obstacle : Option ValueKind)
    (outcome : Except BridgeError result) : Prop where
  passes : obstacle = none → ∃ value, outcome = .ok value
  stops : ∀ kind, obstacle = some kind → outcome = .error (.unrepresentable kind)

theorem Meets.pure {result : Type} (value : result) : Meets none (.ok value) :=
  ⟨fun _ => ⟨value, rfl⟩, fun _ met => by cases met⟩

theorem Meets.bind {before after : Type} {obstacle later : Option ValueKind}
    {first : Except BridgeError before} {next : before → Except BridgeError after}
    (meets : Meets obstacle first) (meetsLater : ∀ middle, Meets later (next middle)) :
    Meets (obstacle.or later) (first >>= next) := by
  cases met : obstacle with
  | some kind =>
      rw [meets.stops kind met]
      constructor
      · intro free
        cases free
      · intro other same
        cases same
        rfl
  | none =>
      obtain ⟨middle, done⟩ := meets.passes met
      rw [done]
      exact meetsLater middle

theorem Meets.map {before after : Type} {obstacle : Option ValueKind}
    {first : Except BridgeError before} (meets : Meets obstacle first) (change : before → after) :
    Meets obstacle (first >>= fun middle => return change middle) := by
  have whole := meets.bind fun middle => .pure (change middle)
  rwa [Option.or_none] at whole

theorem ofValue_meets (value : Value) : Meets (obstacle? [value]) (ofValue value) := by
  rw [obstacle?, List.flatMap_singleton]
  exact ⟨fun none => (ofValue_returned none).imp fun _ sent => sent.1,
    fun _ first => ofValue_refused first⟩

mutual

theorem ofExpr_meets (expr : Expr) : Meets (obstacle? expr.constants) (ofExpr expr) := by
  cases expr with
  | constant value => exact (ofValue_meets value).map _
  | «variable» name => exact .pure _
  | argument index => exact .pure _
  | primitive name operands => exact (ofExprs_meets operands).map _
  | apply operator operands =>
      rw [Expr.constants, obstacle?_append, ofExpr]
      exact (ofExpr_meets operator).bind fun _ => (ofExprs_meets operands).map _
  | map array callable =>
      rw [Expr.constants, obstacle?_append, ofExpr]
      exact (ofExpr_meets array).bind fun _ => (ofExpr_meets callable).map _
  | lambda params body => exact (ofExpr_meets body).map _

theorem ofExprs_meets (exprs : List Expr) :
    Meets (obstacle? (Expr.constantsList exprs)) (ofExprs exprs) := by
  cases exprs with
  | nil => exact .pure _
  | cons expr rest =>
      rw [Expr.constantsList, obstacle?_append, ofExprs]
      exact (ofExpr_meets expr).bind fun _ => (ofExprs_meets rest).map _

end

theorem Meets.refused {result : Type} {obstacle : Option ValueKind}
    {outcome : Except BridgeError result} (meets : Meets obstacle outcome) (error : BridgeError) :
    outcome = .error error ↔ ∃ kind, obstacle = some kind ∧ error = .unrepresentable kind := by
  constructor
  · intro failed
    cases met : obstacle with
    | none =>
        obtain ⟨value, passed⟩ := meets.passes met
        rw [passed] at failed
        cases failed
    | some kind =>
        rw [meets.stops kind met] at failed
        cases failed
        exact ⟨kind, rfl, rfl⟩
  · rintro ⟨kind, met, rfl⟩
    exact meets.stops kind met

theorem obstacle?_isSome {values : List Value} :
    (∃ kind, obstacle? values = some kind) ↔
      ∃ value ∈ values, ∃ part ∈ value.flatItems, part.isError ∨ part.isFunction := by
  have homebound : ∀ part : Value, part.homebound?.isSome ↔ part.isError ∨ part.isFunction := by
    intro part
    cases part <;> simp [Value.homebound?, Value.isError, Value.isFunction]
  rw [← Option.isSome_iff_exists, obstacle?, List.findSome?_isSome_iff]
  simp only [List.mem_flatMap, homebound]
  constructor
  · rintro ⟨part, ⟨value, member, inside⟩, stops⟩
    exact ⟨value, member, part, inside, stops⟩
  · rintro ⟨value, member, part, inside, stops⟩
    exact ⟨part, ⟨value, member, inside⟩, stops⟩

/-- Compilation loses nothing. Different expressions have different terms, and terms that compare
equal come from expressions that compare equal; an expression is refused exactly if an error or a
function is somewhere in one of its constants, and the failure names the kind of the first. -/
theorem compile_exact :
    (∀ (left right : Expr) (foreign foreign' : Foreign), ofExpr left = .ok foreign →
      ofExpr right = .ok foreign' →
        (foreign = foreign' → left = right) ∧
        (foreign.equal foreign' = true → left.equal right = true)) ∧
    ∀ expr : Expr,
      (∀ error, ofExpr expr = .error error ↔
        ∃ kind, obstacle? expr.constants = some kind ∧ error = .unrepresentable kind) ∧
      ((∃ error, ofExpr expr = .error error) ↔
        ∃ value ∈ expr.constants, ∃ part ∈ value.flatItems, part.isError ∨ part.isFunction) := by
  refine ⟨fun left right foreign foreign' sent sent' =>
    ⟨ofExpr_injective sent sent', equal_of_ofExpr sent sent'⟩, fun expr => ?_⟩
  have refused := (ofExpr_meets expr).refused
  refine ⟨refused, ?_⟩
  rw [← obstacle?_isSome]
  constructor
  · rintro ⟨error, failed⟩
    obtain ⟨kind, met, _⟩ := (refused error).mp failed
    exact ⟨kind, met⟩
  · rintro ⟨kind, met⟩
    exact ⟨_, (refused _).mpr ⟨kind, met, rfl⟩⟩

/-- Zeros of either sign compare equal in terms and in expressions; no other expression has the term
of an array of numbers; the function in an operator stops the compilation before the error in an
operand. -/
theorem applications_compile_exact :
    (∃ foreign foreign', ofExpr (.apply (.argument 18446744073709551615) [.constant (.number 0)]) =
        .ok foreign ∧
      ofExpr (.apply (.argument 18446744073709551615) [.constant (.number (-0))]) = .ok foreign' ∧
      foreign.equal foreign' = true ∧
      (Expr.apply (.argument 18446744073709551615) [.constant (.number 0)]).equal
        (.apply (.argument 18446744073709551615) [.constant (.number (-0))]) = true) ∧
    (∃ foreign, ofExpr (.constant (.array [.number 1, .number 2])) = .ok foreign ∧
      ∀ expr, ofExpr expr = .ok foreign → expr = .constant (.array [.number 1, .number 2])) ∧
    ofExpr (.apply (.constant (.array [.integer 1, .function (.primitive "add")]))
      [.constant (.error "late")]) = .error (.unrepresentable .function) := by
  refine ⟨⟨_, _, rfl, rfl, ?_, ?_⟩, ⟨_, rfl, fun expr sent => ?_⟩, ?_⟩
  · decide +kernel
  · exact (compile_exact.1 _ _ _ _ rfl rfl).2 (by decide +kernel)
  · exact (compile_exact.1 _ _ _ _ sent rfl).1 rfl
  · exact ((compile_exact.2 _).1 _).mpr ⟨.function, rfl, rfl⟩

end Foreign

end NodeGraph
