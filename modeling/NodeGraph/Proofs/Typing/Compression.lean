import NodeGraph.Proofs.Typing.Solutions

/-!
Path compression. Pointing a link further along its own path keeps roots and bindings, and the
equations that a table stands for stay equivalent.
-/

namespace NodeGraph.VarTable

variable {table middle later : VarTable} {vars generics general : Nat → Ty}

def Leads (table : VarTable) : Nat → Nat → Prop :=
  Relation.ReflTransGen fun id parent => table.slots[id]? = some (.link parent)

theorem leads_follow (table : VarTable) (fuel id : Nat) :
    table.Leads id (table.follow fuel id) := by
  induction fuel generalizing id with
  | zero => exact .refl
  | succ fuel ih =>
      rw [follow]
      split
      · rename_i parent linked
        exact .head linked (ih parent)
      · exact .refl

theorem Solves.leads (solves : table.Solves vars generics) {id other : Nat}
    (path : table.Leads id other) : vars id = vars other := by
  induction path with
  | refl => rfl
  | tail _ linked ih => rw [ih, solves.link linked]

theorem Leads.height {height : Nat → Nat} {id other : Nat} (path : table.Leads id other)
    (climbs : ∀ id parent : Nat, table.slots[id]? = some (.link parent) →
      height id < height parent) : height id ≤ height other := by
  induction path with
  | refl => exact Nat.le_refl _
  | tail _ linked ih => exact Nat.le_trans ih (Nat.le_of_lt (climbs _ _ linked))

theorem Leads.inside (solved : table.Solved general) {id other : Nat} (path : table.Leads id other)
    (inside : id < table.size) : other < table.size := by
  induction path with
  | refl => exact inside
  | tail _ linked _ => exact solved.linked linked

/-- The same table up to where links point. -/
structure Redirects (table later : VarTable) : Prop where
  size : later.size = table.size
  roots : ∀ {id rank : Nat} {binding : Option Ty},
    later.slots[id]? = some (.root rank binding) ↔ table.slots[id]? = some (.root rank binding)
  solves : ∀ {vars generics : Nat → Ty}, later.Solves vars generics ↔ table.Solves vars generics
  settled : later.Settled

theorem Redirects.refl (settled : table.Settled) : table.Redirects table :=
  ⟨rfl, Iff.rfl, Iff.rfl, settled⟩

theorem Redirects.trans (first : table.Redirects middle) (second : middle.Redirects later) :
    table.Redirects later :=
  ⟨second.size.trans first.size, second.roots.trans first.roots, second.solves.trans first.solves,
    second.settled⟩

theorem Redirects.unbound (redirects : table.Redirects later) {root : Nat} :
    later.Unbound root ↔ table.Unbound root :=
  exists_congr fun _ => redirects.roots

section Redirect

variable {id parent root : Nat}

theorem redirect_slots (linked : table.slots[id]? = some (.link parent)) (other : Nat) :
    (table.redirect id root).slots[other]? =
      if other = id then some (.link root) else table.slots[other]? := by
  obtain ⟨inside, _⟩ := Array.getElem?_eq_some_iff.mp linked
  rw [redirect]
  split
  · rename_i same
    rw [same, Array.getElem?_setIfInBounds_self_of_lt inside]
  · rename_i different
    exact Array.getElem?_setIfInBounds_ne (Ne.symm different)

theorem redirect_roots (linked : table.slots[id]? = some (.link parent)) {other rank : Nat}
    {binding : Option Ty} :
    (table.redirect id root).slots[other]? = some (.root rank binding) ↔
      table.slots[other]? = some (.root rank binding) := by
  rw [redirect_slots linked]
  split
  · rename_i same
    simp [same, linked]
  · rfl

variable (solved : table.Solved general) (linked : table.slots[id]? = some (.link parent))
  (path : table.Leads parent root)
include solved linked path

theorem leads_redirect : (table.redirect id root).Leads parent root := by
  obtain ⟨height, climbs⟩ := solved.forest
  have above := climbs id parent linked
  have kept : ∀ {other : Nat}, table.Leads parent other →
      (table.redirect id root).Leads parent other := by
    intro other before
    induction before with
    | refl => exact .refl
    | @tail middle last before step ih =>
        have higher := Leads.height before climbs
        refine ih.tail ?_
        rw [redirect_slots linked, if_neg, step]
        rintro rfl
        omega
  exact kept path

theorem redirect_solves :
    (table.redirect id root).Solves vars generics ↔ table.Solves vars generics := by
  constructor
  · intro solves
    refine ⟨fun {other up} old => ?_, fun bound => solves.bound ((redirect_roots linked).mpr bound)⟩
    by_cases same : other = id
    · subst same
      rw [linked] at old
      cases old
      rw [solves.leads (leads_redirect solved linked path)]
      exact solves.link (by rw [redirect_slots linked, if_pos rfl])
    · exact solves.link (by rw [redirect_slots linked, if_neg same, old])
  · intro solves
    refine ⟨fun {other up} new => ?_, fun bound => solves.bound ((redirect_roots linked).mp bound)⟩
    rw [redirect_slots linked] at new
    split at new
    · rename_i same
      cases new
      rw [same, solves.link linked, solves.leads path]
    · exact solves.link new

theorem redirect_redirects : table.Redirects (table.redirect id root) := by
  have size : (table.redirect id root).size = table.size := by simp [redirect, VarTable.size]
  have unbound : ∀ {root' : Nat}, (table.redirect id root).Unbound root' ↔ table.Unbound root' :=
    exists_congr fun _ => redirect_roots linked
  refine ⟨size, redirect_roots linked, redirect_solves solved linked path, general, ?_⟩
  obtain ⟨height, climbs⟩ := solved.forest
  refine ⟨?_, ⟨height, ?_⟩, ?_, (redirect_solves solved linked path).mpr solved.solves,
    fun free => solved.unbound (unbound.mp free), ?_, ?_⟩
  · intro other up new
    rw [size]
    rw [redirect_slots linked] at new
    split at new
    · cases new
      exact Leads.inside solved path (solved.linked linked)
    · exact solved.linked new
  · intro other up new
    rw [redirect_slots linked] at new
    split at new
    · rename_i same
      cases new
      have above := climbs id parent linked
      have higher := path.height climbs
      rw [same]
      omega
    · exact climbs other up new
  · intro other rank ty bound
    rw [size]
    exact solved.bound ((redirect_roots linked).mp bound)
  · intro other inside inner mentioned
    rw [size] at inside
    exact unbound.mpr (solved.range inside inner mentioned)
  · intro other outside
    rw [size] at outside
    exact solved.outside outside

end Redirect

theorem relink_redirects (settled : table.Settled) {root : Nat}
    (rooted : ∀ parent : Nat, table.slots[root]? ≠ some (.link parent)) (fuel id : Nat)
    (path : table.Leads id root) : table.Redirects (table.relink root fuel id) := by
  induction fuel generalizing table id with
  | zero => exact .refl settled
  | succ fuel ih =>
      rw [relink]
      split
      · rename_i parent linked
        have ⟨general, solved⟩ := settled
        have onward : table.Leads parent root := by
          rcases Relation.ReflTransGen.cases_head path with same | ⟨up, step, rest⟩
          · exact absurd (same ▸ linked) (rooted parent)
          · rw [linked] at step
            cases step
            exact rest
        have first := redirect_redirects solved linked onward
        refine first.trans (ih first.settled ?_ parent (leads_redirect solved linked onward))
        intro up new
        rw [redirect_slots linked] at new
        split at new
        · rename_i same
          exact rooted parent (same ▸ linked)
        · exact rooted up new
      · exact .refl settled

theorem Solved.find_not_linked (solved : table.Solved general) (id parent : Nat) :
    table.slots[table.find id]? ≠ some (.link parent) := by
  intro linked
  by_cases inside : id < table.size
  · obtain ⟨rank, binding, found⟩ := solved.find_root inside
    rw [found] at linked
    cases linked
  · have outside : table.slots[id]? = none := Array.getElem?_eq_none (Nat.le_of_not_lt inside)
    have same : table.find id = id := by
      rw [find]
      cases table.size with
      | zero => rfl
      | succ fuel => rw [follow, outside]
    rw [same, outside] at linked
    cases linked

theorem compress_redirects (settled : table.Settled) (id : Nat) :
    table.Redirects (table.compress id) := by
  obtain ⟨general, solved⟩ := settled
  exact relink_redirects ⟨general, solved⟩ (solved.find_not_linked id) _ id (leads_follow _ _ _)

theorem compressHead_redirects (settled : table.Settled) (ty : Ty) :
    table.Redirects (table.compressHead ty) := by
  have within : ∀ fuel {table : VarTable} (ty : Ty), table.Settled →
      table.Redirects (table.compressHeadWithin fuel ty) := by
    intro fuel
    induction fuel with
    | zero =>
        intro table ty settled
        rw [compressHeadWithin]
        · exact .refl settled
        · exact fun _ _ impossible => by cases impossible
    | succ fuel ih =>
        intro table ty settled
        cases ty with
        | «var» id =>
            have compressed := compress_redirects settled id
            rw [compressHeadWithin]
            split
            · exact compressed.trans (ih _ compressed.settled)
            · exact compressed
        | _ =>
            rw [compressHeadWithin]
            · exact .refl settled
            · exact fun _ _ _ impossible => by cases impossible
  exact within _ ty settled

end NodeGraph.VarTable
