import NodeGraph.Proofs.Stored.Exprs
import NodeGraph.Stored.Graph

/-!
Stored graphs read back, node by node, exactly where their text fits the room of the reader and the
extents of all images in their constants are finite.
-/

namespace NodeGraph

namespace Params

def floats (params : Params) : List Float := params.flatMap fun param => param.2.floats

def extents (params : Params) : List Rect := params.flatMap fun param => param.2.extents

theorem put_of_not_mem (params : Params) {name : String} (new : name ∉ params.names) (expr : Expr) :
    params.put name expr = params ++ [(name, expr)] := by
  induction params with
  | nil => rfl
  | cons param rest ih =>
      obtain ⟨first, old⟩ := param
      obtain ⟨other, new⟩ := not_or.mp (mt List.mem_cons.mpr new)
      rw [put, if_neg (Ne.symm other), ih new, List.cons_append]

theorem ofList_of_nodup {entries : List (String × Expr)} (distinct : (names entries).Nodup) :
    ofList entries = entries := by
  have general : ∀ (entries : List (String × Expr)) (before : Params),
      (names (before ++ entries)).Nodup →
        entries.foldl (fun params entry => params.put entry.1 entry.2) before =
          before ++ entries := by
    intro entries
    induction entries with
    | nil => exact fun before _ => (List.append_nil before).symm
    | cons entry rest ih =>
        intro before distinct
        obtain ⟨name, expr⟩ := entry
        have new : name ∉ names before := by
          rw [names, List.map_append, List.map_cons, List.nodup_append] at distinct
          exact fun member => distinct.2.2 name member name List.mem_cons_self rfl
        rw [List.foldl_cons]
        simp only
        rw [put_of_not_mem before new, ih _ (by simpa using distinct), List.append_assoc]
        rfl
  exact general entries [] distinct

end Params

namespace Stored

def readEntry (room : Nat) (field : String × Json) : Option (String × Expr) :=
  (readExpr room field.2).bind fun expr => some (field.1, expr)

theorem readParams_object (room : Nat) (fields : List (String × Json)) :
    readParams (room + 1) (.object fields) =
      (fields.mapM (readEntry room)).bind fun entries => some (Params.ofList entries) :=
  rfl

theorem readEntries {params : Params} {fields : List (String × Json)}
    (written : writeParams params = some fields)
    (finite : ∀ param ∈ params, param.2.constantsFinite = true) (exact : ReadBack params.floats) :
    Json.ProperFields fields ∧ ∀ room, fields.mapM (readEntry room) =
      if Json.fitsFields room fields && params.extents.all Rect.isFinite then some params
      else none := by
  induction params generalizing fields with
  | nil =>
      obtain rfl := Option.some.inj written
      exact ⟨trivial, fun _ => rfl⟩
  | cons param rest ih =>
      obtain ⟨name, expr⟩ := param
      obtain ⟨json, here, written⟩ := Option.bind_eq_some_iff.mp written
      obtain ⟨others, later, same⟩ := Option.bind_eq_some_iff.mp written
      obtain rfl := Option.some.inj same
      obtain ⟨exprFinite, finite⟩ := List.forall_mem_cons.mp finite
      rw [Params.floats, List.flatMap_cons] at exact
      have kept := kept_expr here exprFinite exact.left
      obtain ⟨proper, read⟩ := ih later finite exact.right
      refine ⟨⟨kept.proper, proper⟩, fun room => ?_⟩
      have extents : Params.extents ((name, expr) :: rest) =
          expr.extents ++ Params.extents rest := rfl
      rw [List.mapM_cons, readEntry, kept.read, read, Json.fitsFields, extents, List.all_append]
      cases json.fits room <;> cases expr.extents.all Rect.isFinite <;>
        cases Json.fitsFields room others <;> cases Params.extents rest |>.all Rect.isFinite <;> rfl

theorem kept_params {params : Params} {fields : List (String × Json)}
    (written : writeParams params = some fields) (distinct : params.names.Nodup)
    (finite : ∀ param ∈ params, param.2.constantsFinite = true) (exact : ReadBack params.floats) :
    Kept (.object fields) readParams (params.extents.all Rect.isFinite) params := by
  obtain ⟨proper, read⟩ := readEntries written finite exact
  refine ⟨proper, fun room => ?_⟩
  cases room with
  | zero => rfl
  | succ room =>
      have fits : (Json.object fields).fits (room + 1) = Json.fitsFields room fields := by
        simp [Json.fits]
      rw [readParams_object, read, fits]
      cases Json.fitsFields room fields <;> cases params.extents.all Rect.isFinite
      · rfl
      · rfl
      · rfl
      · exact congrArg some (Params.ofList_of_nodup distinct)

theorem kept_edge {edge : Option Nat}
    (words : ∀ target, edge = some target → target < UInt64.size) :
    Kept (writeEdge edge) (fun _ => readEdge) true edge := by
  cases edge with
  | none => exact ⟨trivial, fun _ => rfl⟩
  | some target =>
      have small := words target rfl
      have read := readNatural_ofNat small (Nat.le_refl _)
      have proper := proper_ofNat small
      refine ⟨proper, fun room => ?_⟩
      have fits : (writeEdge (some target)).fits room = true := proper.2
      change (readNatural UInt64.size (.ofNat target)).map some = _
      rw [read, fits]
      rfl

theorem kept_edges {edges : List (Option Nat)}
    (words : ∀ target, some target ∈ edges → target < UInt64.size) :
    KeptAll (edges.map writeEdge) (fun _ => readEdge) true edges := by
  induction edges with
  | nil => exact keptAll_nil _
  | cons edge rest ih =>
      have first : ∀ target, edge = some target → target < UInt64.size :=
        fun target same => words target (same ▸ List.mem_cons_self)
      exact (kept_edge first).cons
        (ih fun target member => words target (List.mem_cons_of_mem _ member))

theorem KeptAll.array {item : Type} {jsons : List Json} {read : Nat → Json → Option item}
    {fine : Bool} {items : List item} (all : KeptAll jsons read fine items) :
    Kept (.array jsons) (readItems read) fine items where
  proper := all.proper
  read := by
    intro room
    cases room with
    | zero => rfl
    | succ room =>
        rw [fitsItems_array]
        exact all.read room

/-- What the check before writing, and the types of parameters and edges, make sure of. -/
structure Storable (node : StoredNode) : Prop where
  distinct : node.params.names.Nodup
  words : ∀ target, some target ∈ node.edges → target < UInt64.size
  finite : ∀ param ∈ node.params, param.2.constantsFinite = true
  exact : ReadBack node.params.floats

theorem readNode_object (room : Nat) (label : Option String) (params edges : Json) :
    readNode (room + 1) (.object (optionalField "label" label ++
        [("params", params), ("edges", edges)])) =
      (readParams room params).bind fun params =>
        (readItems (fun _ => readEdge) room edges).bind fun edges =>
          some ⟨label, params, edges⟩ := by
  cases label <;> rfl

theorem fits_optional (room : Nat) (name : String) (value : Option String)
    (fields : List (String × Json)) :
    (Json.object (optionalField name value ++ fields)).fits (room + 1) =
      Json.fitsFields room fields := by
  cases value <;> simp [optionalField, Json.fits, Json.fitsFields]

theorem proper_optional {name : String} {value : Option String} {fields : List (String × Json)}
    (proper : Json.ProperFields fields) :
    Json.ProperFields (optionalField name value ++ fields) := by
  cases value with
  | none => exact proper
  | some text => exact ⟨trivial, proper⟩

theorem kept_node {node : StoredNode} {json : Json} (storable : Storable node)
    (written : writeNode node = some json) :
    Kept json readNode (node.params.extents.all Rect.isFinite) node := by
  obtain ⟨fields, made, same⟩ := Option.bind_eq_some_iff.mp written
  obtain rfl := Option.some.inj same
  have params := kept_params made storable.distinct storable.finite storable.exact
  have edges := (kept_edges storable.words).array
  refine ⟨proper_optional ⟨params.proper, edges.proper, trivial⟩, fun room => ?_⟩
  cases room with
  | zero => rfl
  | succ room =>
      rw [readNode_object, params.read, edges.read, fits_optional, Json.fitsFields, Json.fitsFields]
      cases (Json.object fields).fits room <;>
        cases (Json.array (node.edges.map writeEdge)).fits room <;>
          cases node.params.extents.all Rect.isFinite <;> rfl

theorem kept_nodes {nodes : List StoredNode} {jsons : List Json}
    (storable : ∀ node ∈ nodes, Storable node) (written : nodes.mapM writeNode = some jsons) :
    KeptAll jsons readNode ((nodes.flatMap fun node => node.params.extents).all Rect.isFinite)
      nodes := by
  induction nodes generalizing jsons with
  | nil =>
      obtain rfl := Option.some.inj written
      exact keptAll_nil _
  | cons node rest ih =>
      obtain ⟨json, jsons, here, later, rfl⟩ := mapM_cons_some written
      obtain ⟨first, others⟩ := List.forall_mem_cons.mp storable
      rw [List.flatMap_cons, List.all_append]
      exact (kept_node first here).cons (ih others later)

theorem readGraph_object (room : Nat) (version : String) (name : Option String) (nodes : Json) :
    readGraph (room + 1) (.object ([("version", .string version)] ++ optionalField "name" name ++
        [("nodes", nodes)])) =
      (readItems readNode room nodes).bind fun nodes => some ⟨version, name, nodes⟩ := by
  cases name <;> rfl

theorem kept_graph {stored : StoredGraph} {json : Json}
    (storable : ∀ node ∈ stored.nodes, Storable node) (written : writeGraph stored = some json) :
    Kept json readGraph
      ((stored.nodes.flatMap fun node => node.params.extents).all Rect.isFinite) stored := by
  obtain ⟨jsons, made, same⟩ := Option.bind_eq_some_iff.mp written
  obtain rfl := Option.some.inj same
  have nodes := (kept_nodes storable made).array
  have fits : ∀ room, (Json.object ([("version", .string stored.version)] ++
      optionalField "name" stored.name ++ [("nodes", .array jsons)])).fits (room + 1) =
        (Json.array jsons).fits room := by
    intro room
    cases stored.name <;> simp [optionalField, Json.fits, Json.fitsFields]
  refine ⟨⟨trivial, proper_optional ⟨nodes.proper, trivial⟩⟩, fun room => ?_⟩
  cases room with
  | zero => rfl
  | succ room =>
      rw [readGraph_object, nodes.read, fits]
      cases (Json.array jsons).fits room <;>
        cases (stored.nodes.flatMap fun node => node.params.extents).all Rect.isFinite <;> rfl

end Stored

end NodeGraph
