import NodeGraph.Expr.Basic

/-!
The names that an expression reads from outside of it.
-/

namespace NodeGraph.Expr

mutual

/-- Free names below enclosing lambdas, whose names are `scopes`. Outside of all lambdas an
argument reads an input. -/
def freeNamesUnder (scopes : List (List String)) : Expr → List String
  | .constant _ => []
  | .variable name => if scopes.any (·.contains name) then [] else [name]
  | .argument index => if scopes.isEmpty then [inputName index.toNat] else []
  | .primitive _ operands => freeNamesUnderList scopes operands
  | .apply operator operands =>
      operator.freeNamesUnder scopes ++ freeNamesUnderList scopes operands
  | .map array callable => array.freeNamesUnder scopes ++ callable.freeNamesUnder scopes
  | .lambda params body => body.freeNamesUnder (params :: scopes)

def freeNamesUnderList (scopes : List (List String)) : List Expr → List String
  | [] => []
  | expr :: rest => expr.freeNamesUnder scopes ++ freeNamesUnderList scopes rest

end

def freeNames (expr : Expr) : List String := expr.freeNamesUnder []

end NodeGraph.Expr
