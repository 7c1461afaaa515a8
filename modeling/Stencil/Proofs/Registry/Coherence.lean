import Stencil.Proofs.Registry.Points

/-! # Coherent point tables

A table copies entries from the tables that are there when its template is compiled, and none of
these is ever replaced. So an entry that was taken over is still the entry of the template it was
taken from, and the links from one to the next come to an end at the template that owns the node:
each leads to a template that was registered before.
-/
namespace Stencil
variable {lookup : String → Option Descriptor} {r : Registry} {name p : String} {root : Node}
  {D O sub : Descriptor} {entry target own : PointEntry} {n : Nat}

theorem Descriptor.place_of_point?
    (h : (compile lookup name root).table.point? p = some entry) :
    ∃ place, Survey.Place.Reaches lookup (.root root) place ∧ place.detached = false ∧
      ((∃ point, place.node.point? = some point ∧ point.id = some p ∧
          entry = ⟨name, place.id, point.cardinality, place.path, none⟩) ∨
        ∃ template point attributes slots sub q target,
          place.node = .reference template point attributes slots ∧ lookup template = some sub ∧
          (q, target) ∈ sub.table.points ∧
          entry = Survey.through place.id place.path q target ∧
          (p = q ∨ ∃ slot, (q, slot) ∈ slots ∧ slot.id = some p)) := by
  obtain ⟨place, hreaches, hnoted⟩ := Survey.Place.mem_visit_iff.1 (PointTable.sighted_of_point? h)
  exact ⟨place, hreaches, Survey.point_of_noted hnoted⟩

namespace Registry

/-- The entry of a template was taken over from the entry `target` of `sub`. -/
inductive Links (r : Registry) (D : Descriptor) (entry : PointEntry) :
    Descriptor → PointEntry → Prop
  | intro {id : NodeId} {q template : String} {point : PointSpec} {attributes : Attributes}
      {slots : List (String × Slot)} {sub : Descriptor} {target : PointEntry}
      (inherited : entry.inherited = some ⟨id, q⟩)
      (found : D.root.preorder[id]? = some (.reference template point attributes slots))
      (registered : r.get? template = some sub) (listed : sub.table.point? q = some target) :
      Links r D entry sub target

theorem Links.unique {sub' : Descriptor} {target' : PointEntry} (h : r.Links D entry sub target)
    (h' : r.Links D entry sub' target') : sub = sub' ∧ target = target' := by
  cases h with
  | intro inherited found registered listed =>
    cases h' with
    | intro inherited' found' registered' listed' =>
      cases inherited.symm.trans inherited'
      cases found.symm.trans found'
      cases registered.symm.trans registered'
      cases listed.symm.trans listed'
      exact ⟨rfl, rfl⟩

/-- After `n` links an entry comes to an own entry of a template. -/
inductive Traces (r : Registry) : Nat → Descriptor → PointEntry → Descriptor → PointEntry → Prop
  | own {D : Descriptor} {entry : PointEntry} (inherited : entry.inherited = none) :
      Traces r 0 D entry D entry
  | link {n : Nat} {D sub O : Descriptor} {entry target own : PointEntry}
      (h : r.Links D entry sub target) (rest : Traces r n sub target O own) :
      Traces r (n + 1) D entry O own

theorem Traces.unique {n' : Nat} {O' : Descriptor} {own' : PointEntry}
    (h : r.Traces n D entry O own) (h' : r.Traces n' D entry O' own') :
    n = n' ∧ O = O' ∧ own = own' := by
  induction h generalizing n' with
  | own inherited =>
    cases h' with
    | own => exact ⟨rfl, rfl, rfl⟩
    | link hlink =>
      cases hlink with
      | intro inherited' => cases inherited.symm.trans inherited'
  | link hlink _ ih =>
    cases h' with
    | own inherited =>
      cases hlink with
      | intro inherited' => cases inherited.symm.trans inherited'
    | link hlink' rest' =>
      obtain ⟨rfl, rfl⟩ := hlink.unique hlink'
      obtain ⟨rfl, rfl, rfl⟩ := ih rest'
      exact ⟨rfl, rfl, rfl⟩

/-- The template that owns the node of an entry has an own entry for it. -/
structure Owns (r : Registry) (O : Descriptor) (own entry : PointEntry) : Prop where
  registered : r.get? entry.owner = some O
  named : O.name = entry.owner
  listed : ∃ p, O.table.point? p = some own
  inherited : own.inherited = none
  owner : own.owner = entry.owner
  node : own.node = entry.node
  cardinality : own.cardinality = entry.cardinality
  declared : ∃ m point, O.root.preorder[entry.node]? = some m ∧ m.point? = some point ∧
    point.id.isSome ∧ point.cardinality = entry.cardinality

section
variable {r' : Registry}
  (hmono : ∀ template sub, r.get? template = some sub → r'.get? template = some sub)
include hmono

theorem Links.mono (h : r.Links D entry sub target) : r'.Links D entry sub target := by
  cases h with
  | intro inherited found registered listed =>
    exact .intro inherited found (hmono _ _ registered) listed

theorem Traces.mono (h : r.Traces n D entry O own) : r'.Traces n D entry O own := by
  induction h with
  | own inherited => exact .own inherited
  | link h _ ih => exact .link (h.mono hmono) ih

theorem Owns.mono (h : r.Owns O own entry) : r'.Owns O own entry :=
  { h with registered := hmono _ _ h.registered }

end

/-- Every entry comes from one of the template that owns its node, by fewer links than there are
templates. -/
def Traced (r : Registry) : Prop :=
  ∀ name D p entry, r.get? name = some D → (p, entry) ∈ D.table.points →
    ∃ n O own, n < r.templates.length ∧ r.Traces n D entry O own ∧ r.Owns O own entry

/-- A new template has own entries, and entries that link to templates registered before. -/
theorem Traced.register (h : r.Traced) (hr : r.Reachable) (name : String) (root : Node) :
    (r.register name root).Traced := by
  have hmono : ∀ template sub, r.get? template = some sub →
      (r.register name root).get? template = some sub :=
    fun template sub hsub => get?_register_of_some hsub name root
  intro other D p entry hD hp
  have hthis := hD
  rw [get?_register] at hD
  split at hD
  · next hother =>
    obtain ⟨rfl, hnone⟩ := hother
    cases hD
    have hlength : (r.register other root).templates.length = r.templates.length + 1 := by
      apply length_register
      rw [contains_eq, hnone]
      rfl
    have hpoint := NameMap.find?_of_mem (PointTable.sorted_ofSightings _) hp
    obtain ⟨place, hreaches, _, ⟨point, hdeclared, hid, rfl⟩ |
      ⟨template, point, attributes, slots, sub, q, target, hnode, hsub, htarget, rfl, _⟩⟩ :=
        Descriptor.place_of_point? hpoint
    · refine ⟨0, _, _, ?_, .own rfl, hthis, rfl, ⟨p, hpoint⟩, rfl, rfl, rfl, rfl, ?_⟩
      · omega
      · refine ⟨place.node, point, ?_, hdeclared, ?_, rfl⟩
        · exact (Survey.Place.Reaches.numbered hreaches).getElem?
        · rw [hid]
          rfl
    · obtain ⟨n, O, own, hn, htraces, howns⟩ := h template sub q target hsub htarget
      have hfound := (Survey.Place.Reaches.numbered hreaches).getElem?
      rw [hnode] at hfound
      refine ⟨n + 1, O, own, ?_, .link ?_ (htraces.mono hmono), ?_⟩
      · omega
      · exact .intro rfl hfound (hmono _ _ hsub) (hr.find?_points hsub htarget)
      · exact { howns.mono hmono with }
  · obtain ⟨n, O, own, hn, htraces, howns⟩ := h other D p entry hD hp
    have hle := length_le_register r name root
    exact ⟨n, O, own, by omega, htraces.mono hmono, howns.mono hmono⟩

theorem Reachable.traced (h : r.Reachable) : r.Traced :=
  h.induct_of_reachable (fun _ _ _ _ _ hD => nomatch hD) fun _ hr ih => ih.register hr

/-- What the entry `entry` of `p` in the table of `D` says is so; the survey of `D` looked up
templates by `lookup`. -/
structure Coherent (r : Registry) (lookup : String → Option Descriptor) (D : Descriptor)
    (p : String) (entry : PointEntry) : Prop where
  listed : D.table.point? p = some entry
  clear : D.table.isAmbiguous p = false
  /-- An own entry belongs to the node of `D` with its number, which declares the point. -/
  own : entry.inherited = none → entry.owner = D.name ∧
    ∃ m point, D.root.preorder[entry.node]? = some m ∧ m.point? = some point ∧
      point.id = some p ∧ point.cardinality = entry.cardinality
  /-- Another one is that of a registered template, at the end of the path on which the survey came
  to the reference. -/
  taken : ∀ id q, entry.inherited = some ⟨id, q⟩ →
    ∃ template point attributes slots sub target path,
      D.root.preorder[id]? = some (.reference template point attributes slots) ∧
      (p = q ∨ ∃ slot, (q, slot) ∈ slots ∧ slot.id = some p) ∧
      r.get? template = some sub ∧ sub.table.point? q = some target ∧
      target.owner = entry.owner ∧ target.node = entry.node ∧
      target.cardinality = entry.cardinality ∧
      (∀ place, Survey.Place.Reaches lookup (.root D.root) place ∧ place.id = id ↔
        place = ⟨path, false, id, .reference template point attributes slots⟩) ∧
      entry.path = path ++ target.path
  /-- The links from entry to entry end. -/
  ends : ∃ n O own, r.Traces n D entry O own
  /-- They end at the template that owns the node. -/
  owned : ∀ n O own, r.Traces n D entry O own → r.Owns O own entry

/-- **Point tables stay coherent**, in whatever order templates are registered. -/
theorem Reachable.coherent (h : r.Reachable) (hD : r.get? name = some D) :
    ∃ earlier : Registry, earlier.Reachable ∧ D = .compile earlier.get? name D.root ∧
      (∀ template sub, earlier.get? template = some sub → r.get? template = some sub) ∧
      ∀ p entry, (p, entry) ∈ D.table.points → r.Coherent earlier.get? D p entry := by
  obtain ⟨earlier, hearlier, hcompiled, hagainst⟩ := h.compiled_earlier name D hD
  refine ⟨earlier, hearlier, hcompiled, hagainst, ?_⟩
  intro p entry hp
  have hpoint := h.find?_points hD hp
  obtain ⟨n, O, own, _, htraces, howns⟩ := h.traced name D p entry hD hp
  have hnamed := h.name_of_get? hD
  have hthis := hpoint
  rw [hcompiled] at hthis
  have hclear : D.table.isAmbiguous p = false := by
    rw [hcompiled]
    exact PointTable.isAmbiguous_of_point? hthis
  obtain ⟨place, hreaches, hattached, hplace⟩ := Descriptor.place_of_point? hthis
  have hfound := (Survey.Place.Reaches.numbered hreaches).getElem?
  refine ⟨hpoint, hclear, ?_, ?_, ⟨n, O, own, htraces⟩, ?_⟩
  · intro hinherited
    rcases hplace with ⟨point, hdeclared, hid, rfl⟩ |
      ⟨template, point, attributes, slots, sub, q, target, hnode, hsub, htarget, rfl, hname⟩
    · exact ⟨hnamed.symm, place.node, point, hfound, hdeclared, hid, rfl⟩
    · cases hinherited
  · intro id q hinherited
    rcases hplace with ⟨point, hdeclared, hid, rfl⟩ |
      ⟨template, point, attributes, slots, sub, q, target, hnode, hsub, htarget, rfl, hname⟩
    · cases hinherited
    · cases hinherited
      rw [hnode] at hfound
      refine ⟨template, point, attributes, slots, sub, target, place.path, hfound, hname,
        hagainst _ _ hsub, hearlier.find?_points hsub htarget, rfl, rfl, rfl, ?_, rfl⟩
      have hplace : place = ⟨place.path, false, place.id,
          .reference template point attributes slots⟩ := by
        rw [← hattached, ← hnode]
      intro other
      constructor
      · rintro ⟨hother, hid⟩
        rw [← hplace]
        exact hother.unique hreaches hid
      · intro hother
        rw [hother, ← hplace]
        exact ⟨hreaches, rfl⟩
  · intro n' O' own' htraces'
    obtain ⟨rfl, rfl, rfl⟩ := htraces.unique htraces'
    exact howns

/-! ## A shelf with a book, and an index that comes later -/

def bookRoot : Node := .element "li" .anonymous .empty
  [.element "cite" ⟨some "title", .single, false⟩ .empty []]

def shelfRoot : Node := .element "ul" .anonymous .empty
  [.reference "Book" .anonymous .empty [("title", ⟨some "first", .empty, []⟩)],
    .reference "Index" .anonymous .empty []]

def indexRoot : Node := .element "nav" ⟨some "title", .single, false⟩ .empty []

def shelf : Registry :=
  ((empty.register "Book" bookRoot).register "Shelf" shelfRoot).register "Index" indexRoot

/-- The first title of the shelf is the title of the book. -/
theorem coherent_first :
    let D := Descriptor.compile (empty.register "Book" bookRoot).get? "Shelf" shelfRoot
    let entry : PointEntry := ⟨"Book", 1, .single, [.index 0, .index 0], some ⟨1, "title"⟩⟩
    shelf.get? "Shelf" = some D ∧ D.table.point? "first" = some entry ∧
      ∃ earlier : Registry, D = .compile earlier.get? "Shelf" D.root ∧
        shelf.Coherent earlier.get? D "first" entry := by
  intro D entry
  have hreachable : shelf.Reachable :=
    .register (.register (.register (.withSettings _) _ _) _ _) _ _
  have hD : shelf.get? "Shelf" = some D := by rfl
  have hlisted : D.table.point? "first" = some entry := by rfl
  obtain ⟨earlier, _, hcompiled, _, hcoherent⟩ := hreachable.coherent hD
  exact ⟨hD, hlisted, earlier, hcompiled, hcoherent _ _ (NameMap.mem_of_find? hlisted)⟩

end Registry
end Stencil
