import Stencil.Proofs.Live.ReverseLookup
import Stencil.Proofs.Registry.Coherence

/-! # The keys of repeated points

The key of a repeated segment is fixed where the repeated node stands, while the name of a point may
change each time it is taken over. And a point at the root of a template has no segment of its own:
its path ends with that of the reference that shows the template. So the last segment of a path
tells how the node is declared at which the path ends, whatever the point is called there.
-/
namespace Stencil

/-! ## Last segments -/

/-- The key of the last segment of a path, if that is repeated. -/
def Path.lastKey? (path : Path) : Option String := path.getLast?.bind Segment.key?

namespace Path
variable {path front : Path} {key : String}

theorem lastKey?_eq_some_iff : path.lastKey? = some key ↔
    ∃ front base trailing, path = front ++ [.repeated key base trailing] := by
  rw [lastKey?, Option.bind_eq_some_iff]
  constructor
  · rintro ⟨segment, hlast, hkey⟩
    obtain ⟨base, trailing, rfl⟩ := Segment.key?_eq_some_iff.1 hkey
    obtain ⟨front, rfl⟩ := List.getLast?_eq_some_iff.1 hlast
    exact ⟨front, base, trailing, rfl⟩
  · rintro ⟨front, base, trailing, rfl⟩
    exact ⟨_, List.getLast?_concat, rfl⟩

theorem lastKey?_append_of_ne_nil (front : Path) (h : path ≠ []) :
    lastKey? (front ++ path) = path.lastKey? := by
  rw [lastKey?, List.getLast?_append_of_ne_nil front h]
  rfl

end Path

namespace Survey.Place
variable {lookup : String → Option Descriptor} {place next first : Place}

theorem Visits.lastKey? (h : Visits lookup place next) :
    next.path.lastKey? = (Footprint.ofNode next.node).key? := by
  cases h with
  | child | slotChild =>
    rw [Place.child, Path.lastKey?, List.getLast?_concat]
    exact Placement.key?_between ..

theorem Reaches.lastKey? {node : Node} (h : Reaches lookup (root node) place)
    (hpath : place.path ≠ []) : place.path.lastKey? = (Footprint.ofNode place.node).key? := by
  cases h with
  | refl => exact absurd rfl hpath
  | tail _ hstep => exact hstep.lastKey?

end Survey.Place

namespace Registry
open Live
variable {r : Registry} {name p : String} {D O sub : Descriptor} {entry target own : PointEntry}
  {m m' : Node} {n : Nat}

/-! ## The node at the end of a path -/

/-- The path of an entry ends at a node: that of a point of the template itself, or the one at which
the path of the entry that was taken over ends. If the latter is at the root of its template, the
path ends at the reference. -/
inductive Ends (r : Registry) : Descriptor → PointEntry → Node → Prop
  | own {D : Descriptor} {entry : PointEntry} {m : Node} (inherited : entry.inherited = none)
      (found : D.root.preorder[entry.node]? = some m) : Ends r D entry m
  | deeper {D sub : Descriptor} {entry target : PointEntry} {m : Node}
      (link : r.Links D entry sub target) (below : target.path ≠ []) (rest : Ends r sub target m) :
      Ends r D entry m
  | reference {D sub : Descriptor} {entry target : PointEntry} {m : Node} {id : NodeId}
      {q : String} (link : r.Links D entry sub target) (top : target.path = [])
      (inherited : entry.inherited = some ⟨id, q⟩) (found : D.root.preorder[id]? = some m) :
      Ends r D entry m

theorem Links.inherited_ne (h : r.Links D entry sub target) : entry.inherited ≠ none := by
  cases h with
  | intro inherited => simp [inherited]

theorem Ends.unique (h : r.Ends D entry m) (h' : r.Ends D entry m') : m = m' := by
  induction h with
  | own inherited found =>
    cases h' with
    | own _ found' => exact Option.some.inj (found.symm.trans found')
    | deeper link' => exact absurd inherited link'.inherited_ne
    | reference link' => exact absurd inherited link'.inherited_ne
  | deeper link below _ ih =>
    cases h' with
    | own inherited' => exact absurd inherited' link.inherited_ne
    | deeper link' _ rest' =>
      obtain ⟨rfl, rfl⟩ := link.unique link'
      exact ih rest'
    | reference link' top' =>
      obtain ⟨rfl, rfl⟩ := link.unique link'
      exact absurd top' below
  | reference link top inherited found =>
    cases h' with
    | own inherited' => exact absurd inherited' link.inherited_ne
    | deeper link' below' =>
      obtain ⟨rfl, rfl⟩ := link.unique link'
      exact absurd top below'
    | reference _ _ inherited' found' =>
      cases inherited.symm.trans inherited'
      exact Option.some.inj (found.symm.trans found')

theorem Reachable.entry_cases (hr : r.Reachable) (hD : r.get? name = some D)
    (hp : D.table.point? p = some entry) :
    ∃ lookup place, Survey.Place.Reaches lookup (.root D.root) place ∧
      ((entry.inherited = none ∧ entry.node = place.id ∧ entry.path = place.path ∧
          ∃ point, place.node.point? = some point ∧ point.id = some p ∧
            point.cardinality = entry.cardinality) ∨
        ∃ template sub q target, entry.inherited = some ⟨place.id, q⟩ ∧
          r.Links D entry sub target ∧ r.get? template = some sub ∧
          sub.table.point? q = some target ∧ entry.path = place.path ++ target.path) := by
  obtain ⟨lookup, hcompiled, hagainst⟩ := hr.compiled_against name D hD
  rw [hcompiled] at hp
  obtain ⟨place, hreaches, _, ⟨point, hdeclared, hid, rfl⟩ |
    ⟨template, point, attributes, slots, sub, q, target, hnode, hsub, htarget, rfl, _⟩⟩ :=
      Descriptor.place_of_point? hp
  · exact ⟨lookup, place, hreaches, .inl ⟨rfl, rfl, rfl, point, hdeclared, hid, rfl⟩⟩
  · have hfound := (Survey.Place.Reaches.numbered hreaches).getElem?
    rw [hnode] at hfound
    have hlisted := hr.find?_points (hagainst _ _ hsub) htarget
    exact ⟨lookup, place, hreaches, .inr ⟨template, sub, q, target, rfl,
      .intro rfl hfound (hagainst _ _ hsub) hlisted, hagainst _ _ hsub, hlisted, rfl⟩⟩

/-- Every path ends at a node, and its last key is the name under which that node is repeated. The
induction is on the links to the point's own template. -/
theorem Traces.ends (hr : r.Reachable) (h : r.Traces n D entry O own) (hD : r.get? name = some D)
    (hp : D.table.point? p = some entry) (hpath : entry.path ≠ []) :
    ∃ m, r.Ends D entry m ∧ entry.path.lastKey? = (Footprint.ofNode m).key? := by
  induction h generalizing name p with
  | own inherited =>
    obtain ⟨lookup, place, hreaches, ⟨_, hnode, hplace, _⟩ | ⟨_, _, _, _, hinherited, _⟩⟩ :=
      hr.entry_cases hD hp
    · have hfound := (Survey.Place.Reaches.numbered hreaches).getElem?
      rw [hplace] at hpath ⊢
      exact ⟨place.node, .own inherited (hnode ▸ hfound), hreaches.lastKey? hpath⟩
    · cases inherited.symm.trans hinherited
  | @link n D sub O entry target own hlink _ ih =>
    obtain ⟨lookup, place, hreaches, ⟨hnone, _⟩ |
      ⟨template, _, q, _, hinherited, hlink', hsub, htarget, hplace⟩⟩ := hr.entry_cases hD hp
    · exact absurd hnone hlink.inherited_ne
    · obtain ⟨rfl, rfl⟩ := hlink.unique hlink'
      by_cases htop : target.path = []
      · have hfound := (Survey.Place.Reaches.numbered hreaches).getElem?
        rw [hplace, htop, List.append_nil] at hpath ⊢
        exact ⟨place.node, .reference hlink htop hinherited hfound, hreaches.lastKey? hpath⟩
      · obtain ⟨m, hends, hkey⟩ := ih hsub htarget htop
        refine ⟨m, .deeper hlink htop hends, ?_⟩
        rw [hplace, Path.lastKey?_append_of_ne_nil _ htop, hkey]

theorem Traces.ends_own (hr : r.Reachable) (h : r.Traces n D entry O own)
    (hD : r.get? name = some D) (hp : D.table.point? p = some entry) (hbelow : own.path ≠ [])
    (hm : O.root.preorder[own.node]? = some m) : r.Ends D entry m ∧ entry.path ≠ [] := by
  induction h generalizing name p with
  | own inherited => exact ⟨.own inherited hm, hbelow⟩
  | link hlink _ ih =>
    obtain ⟨_, place, _, ⟨hnone, _⟩ | ⟨_, _, _, _, _, hlink', hsub, htarget, hplace⟩⟩ :=
      hr.entry_cases hD hp
    · exact absurd hnone hlink.inherited_ne
    · obtain ⟨rfl, rfl⟩ := hlink.unique hlink'
      obtain ⟨hends, hne⟩ := ih hsub htarget hbelow hm
      refine ⟨.deeper hlink hne hends, ?_⟩
      rw [hplace]
      exact List.append_ne_nil_of_right_ne_nil _ hne

theorem Reachable.lastKey?_eq_some_iff (h : r.Reachable) (hD : r.get? name = some D)
    (hp : (p, entry) ∈ D.table.points) (hpath : entry.path ≠ []) (key : String) :
    entry.path.lastKey? = some key ↔ ∃ m, r.Ends D entry m ∧ m.RepeatedAs key := by
  obtain ⟨n, O, own, _, htraces, _⟩ := h.traced name D p entry hD hp
  obtain ⟨m, hends, hkey⟩ := htraces.ends h hD (h.find?_points hD hp) hpath
  rw [hkey, Footprint.key?_ofNode]
  constructor
  · intro hm
    exact ⟨m, hends, hm⟩
  · rintro ⟨m', hends', hm'⟩
    exact hends.unique hends' ▸ hm'

/-- **A repeated point and its key.** The path of a point ends with a repetition under the name of
the point if and only if it ends at a node that is repeated under this name. The name is the one
that the template with the node has for the point, unless the node is the root of that template; in
particular it is the own name of every point that a template declares below its root. The index for
this name then chooses the repetition, once the rest of the path has led to an element. -/
theorem repeated_key_iff (h : r.Reachable) (hD : r.get? name = some D)
    (hp : (p, entry) ∈ D.table.points) (hmultiple : entry.cardinality = .multiple)
    (hpath : entry.path ≠ []) :
    ((∃ front base trailing, entry.path = front ++ [.repeated p base trailing]) ↔
      ∃ m, r.Ends D entry m ∧ m.RepeatedAs p) ∧
    (∀ n O own q, r.Traces n D entry O own → O.table.point? q = some own → own.path ≠ [] →
      ∃ front base trailing, entry.path = front ++ [.repeated q base trailing]) ∧
    ∀ front base trailing, entry.path = front ++ [.repeated p base trailing] →
      ∀ (d : Document) (root parent : Handle) (s : Selector) (i : Nat), s.point = p →
        s.index? p = some i → base + i + trailing < wordSize →
        d.follow? s front root = .ok (some parent) →
        r.locate d root name s =
          .ok (if base + i + trailing < (d.elementChildren parent).length
            then (d.elementChildren parent)[base + i]? else none) := by
  have hlisted := h.find?_points hD hp
  refine ⟨?_, ?_, ?_⟩
  · rw [← Path.lastKey?_eq_some_iff]
    exact h.lastKey?_eq_some_iff hD hp hpath p
  · intro n O own q htraces hown hbelow
    obtain ⟨_, _, _, _, htraces', howns⟩ := h.traced name D p entry hD hp
    obtain ⟨rfl, rfl, rfl⟩ := htraces.unique htraces'
    obtain ⟨_, place, hreaches, ⟨_, hnode, _, point, hdeclared, hid, hcardinality⟩ |
      ⟨_, _, _, _, hinherited, _⟩⟩ := h.entry_cases howns.registered hown
    · have hfound := (Survey.Place.Reaches.numbered hreaches).getElem?
      rw [← hnode] at hfound
      have hrepeated : place.node.RepeatedAs q :=
        ⟨point, hdeclared, (hcardinality.trans howns.cardinality).trans hmultiple, hid⟩
      rw [← Path.lastKey?_eq_some_iff]
      exact (h.lastKey?_eq_some_iff hD hp hpath q).2
        ⟨_, (htraces.ends_own h hD hlisted hbelow hfound).1, hrepeated⟩
    · cases howns.inherited.symm.trans hinherited
  · rintro front base trailing hentry d root parent s i rfl hi hword hparent
    have hpoint : r.point? name s.point = some entry := by
      rw [point?, hD]
      exact hlisted
    exact locate_repeated hpoint hentry hi hword hparent

/-! ## A page that gives the items of a list another name -/

def bulletsRoot : Node := .element "ul" .anonymous .empty
  [.element "li" ⟨some "items", .multiple, false⟩ .empty []]

def rowsRoot : Node := .element "div" .anonymous .empty
  [.reference "List" .anonymous .empty [("items", ⟨some "rows", .empty, []⟩)]]

def rowsPage : Registry := (empty.register "List" bulletsRoot).register "Page" rowsRoot

theorem reachable_rowsPage : rowsPage.Reachable := .register (.register (.withSettings _) _ _) _ _

/-- On the page the items have their own name as well, and are found by it. -/
theorem repeated_key_items :
    let D := Descriptor.compile (empty.register "List" bulletsRoot).get? "Page" rowsRoot
    let entry : PointEntry :=
      ⟨"List", 1, .multiple, [.index 0, .repeated "items" 0 0], some ⟨1, "items"⟩⟩
    ((∃ front base trailing, entry.path = front ++ [.repeated "items" base trailing]) ↔
      ∃ m, rowsPage.Ends D entry m ∧ m.RepeatedAs "items") ∧
    (∀ n O own q, rowsPage.Traces n D entry O own → O.table.point? q = some own → own.path ≠ [] →
      ∃ front base trailing, entry.path = front ++ [.repeated q base trailing]) ∧
    ∀ front base trailing, entry.path = front ++ [.repeated "items" base trailing] →
      ∀ (d : Document) (root parent : Handle) (s : Selector) (i : Nat), s.point = "items" →
        s.index? "items" = some i → base + i + trailing < wordSize →
        d.follow? s front root = .ok (some parent) →
        rowsPage.locate d root "Page" s =
          .ok (if base + i + trailing < (d.elementChildren parent).length
            then (d.elementChildren parent)[base + i]? else none) := by
  intro D entry
  have hD : rowsPage.get? "Page" = some D := by rfl
  have hlisted : D.table.point? "items" = some entry := by rfl
  exact repeated_key_iff reachable_rowsPage hD (NameMap.mem_of_find? hlisted) rfl (by simp [entry])

theorem point?_rows : rowsPage.point? "Page" "rows" =
    some ⟨"List", 1, .multiple, [.index 0, .repeated "items" 0 0], some ⟨1, "items"⟩⟩ := by
  rfl

/-- The key of the repetition is the name that the list has for its items, whatever the page calls
them. -/
theorem not_repeated_key_renamed :
    ¬ ∀ (r : Registry) (name p : String) (D : Descriptor) (entry : PointEntry), r.Reachable →
      r.get? name = some D → (p, entry) ∈ D.table.points → entry.cardinality = .multiple →
      entry.path ≠ [] →
        ∃ front base trailing, entry.path = front ++ [.repeated p base trailing] := by
  intro h
  obtain ⟨D, hD, hlisted⟩ := Option.bind_eq_some_iff.1 point?_rows
  obtain ⟨front, base, trailing, hpath⟩ :=
    h rowsPage "Page" "rows" D _ reachable_rowsPage hD (NameMap.mem_of_find? hlisted) rfl
      (List.cons_ne_nil _ _)
  have hlast := congrArg List.getLast? hpath
  rw [List.getLast?_concat] at hlast
  simp at hlast

/-- So the rows of the page are not found by an index of their own, in any document. -/
theorem locate_rows (d : Document) (root : Handle) (i : Nat) :
    rowsPage.locate d root "Page" ((Selector.ofPoint "rows").atIndex i) = .ok none := by
  generalize hs : (Selector.ofPoint "rows").atIndex i = s
  have hpoint : s.point = "rows" := hs ▸ rfl
  have hentry := point?_rows
  rw [← hpoint] at hentry
  have hitems : s.index? "items" = none := by
    rw [← hs, Selector.atIndex, Selector.index?_withIndex, if_neg (by decide)]
    rfl
  have hnone (id : Handle) : d.follow? s [.repeated "items" 0 0] id = .ok none := by
    have hindex : (Segment.repeated "items" 0 0).key?.bind s.index? = none := hitems
    rw [Document.follow?, hindex, Segment.resolve_repeated_none]
    rfl
  have hfirst (index : Option Nat) (count : Nat) :
      (Segment.index 0).resolve index count = .ok ((some 0).filter (· < count)) := rfl
  rw [locate_of_point? hentry, Document.follow?, hfirst, Checked.ok_bind]
  split
  · exact hnone _
  · rfl

end Registry
end Stencil
