import Stencil.Proofs.Point.Occurrence
import Stencil.Proofs.Registry.Reachable

/-! # References that are not resolved

The survey reports a reference to a template that is not registered wherever it comes to one. It
does not come to the content of a slot if the reference of the slot is not resolved itself, or if
the referenced template does not have the point of the slot. It reports that instead, and what is
referenced in there may go unreported.
-/
namespace Stencil

theorem Node.mem_referencedTemplates_iff_step {name : String} {node : Node} :
    name ∈ node.referencedTemplates ↔
      node.referenced? = some name ∨ ∃ c ∈ node.childNodes, name ∈ c.referencedTemplates := by
  constructor
  · intro h
    obtain ⟨m, hm, hname⟩ := mem_referencedTemplates.1 h
    rcases mem_preorder_iff.1 hm with rfl | ⟨c, hc, hm⟩
    · exact .inl hname
    · exact .inr ⟨c, hc, mem_referencedTemplates.2 ⟨m, hm, hname⟩⟩
  · rintro (h | ⟨c, hc, h⟩)
    · exact mem_referencedTemplates_of_own h
    · exact mem_referencedTemplates_of_child hc h

namespace Survey
variable {lookup : String → Option Descriptor} {owner t : String} {place : Place}
  {slot : String × Slot} {root : Node}

namespace Place

/-- The survey passes over the content of a slot at the place, and reports why. -/
inductive PassesOver (lookup : String → Option Descriptor) (place : Place) (slot : String × Slot) :
    Issue → Prop
  | unresolved {template : String} {point : PointSpec} {attributes : Attributes}
      {slots : List (String × Slot)}
      (reference : place.node = .reference template point attributes slots) (among : slot ∈ slots)
      (unregistered : lookup template = none) :
      PassesOver lookup place slot (.unresolvedTemplate template)
  | unknown {template : String} {point : PointSpec} {attributes : Attributes}
      {slots : List (String × Slot)} {sub : Descriptor}
      (reference : place.node = .reference template point attributes slots) (among : slot ∈ slots)
      (registered : lookup template = some sub) (unknown : sub.table.point? slot.1 = none) :
      PassesOver lookup place slot (.unknownSlot template slot.1)

theorem PassesOver.mem_childNodes {issue : Issue} {c : Node}
    (h : place.PassesOver lookup slot issue) (hc : c ∈ slot.2.children) :
    c ∈ place.node.childNodes := by
  cases h with
  | unresolved reference among | unknown reference among =>
    rw [reference]
    exact Node.mem_childNodes_of_slot among hc ..

variable (lookup) in
/-- The template is referenced in a slot that the survey passes over for the reason of the issue. -/
def Hides (place : Place) (issue : Issue) (t : String) : Prop :=
  ∃ slot, place.PassesOver lookup slot issue ∧ ∃ c ∈ slot.2.children, t ∈ c.referencedTemplates

theorem Hides.mem_referencedTemplates {issue : Issue} (h : place.Hides lookup issue t) :
    t ∈ place.node.referencedTemplates := by
  obtain ⟨slot, hover, c, hc, ht⟩ := h
  exact Node.mem_referencedTemplates_of_child (hover.mem_childNodes hc) ht

theorem Reaches.mem_referencedTemplates_of_reached {first : Place} (h : Reaches lookup place first)
    (ht : t ∈ first.node.referencedTemplates) : t ∈ place.node.referencedTemplates := by
  induction h using Relation.ReflTransGen.head_induction_on with
  | refl => exact ht
  | head hstep _ ih => exact Node.mem_referencedTemplates_of_child hstep.mem_childNodes ih

theorem visits_or_passesOver (lookup : String → Option Descriptor) (place : Place) {c : Node}
    (hc : c ∈ place.node.childNodes) :
    (∃ next, Visits lookup place next ∧ next.node = c) ∨
      ∃ slot issue, place.PassesOver lookup slot issue ∧ c ∈ slot.2.children := by
  obtain ⟨path, detached, id, node⟩ := place
  cases node with
  | text => cases hc
  | element tag point attributes children =>
    obtain ⟨pre, post, hsplit⟩ := List.append_of_mem hc
    exact .inl ⟨_, .child rfl hsplit, rfl⟩
  | reference template point attributes slots =>
    obtain ⟨slot, hslot, hc⟩ := List.mem_flatMap.1 hc
    cases hsub : lookup template with
    | none => exact .inr ⟨slot, _, .unresolved rfl hslot hsub, hc⟩
    | some sub =>
      cases htarget : sub.table.point? slot.1 with
      | none => exact .inr ⟨slot, _, .unknown rfl hslot hsub htarget, hc⟩
      | some target =>
        obtain ⟨before, after, hamong⟩ := List.append_of_mem hslot
        obtain ⟨pre, post, hsplit⟩ := List.append_of_mem hc
        exact .inl ⟨_, .slotChild rfl hamong hsub htarget hsplit, rfl⟩

theorem mem_referencedTemplates_iff_reaches (place : Place) :
    t ∈ place.node.referencedTemplates ↔
      (∃ reached, Reaches lookup place reached ∧ reached.node.referenced? = some t) ∨
        ∃ reached issue, Reaches lookup place reached ∧ reached.Hides lookup issue t := by
  constructor
  · intro h
    obtain ⟨path, detached, id, node⟩ := place
    induction node using Node.induct generalizing path detached id with
    | step node ih =>
      rcases Node.mem_referencedTemplates_iff_step.1 h with hown | ⟨c, hc, hchild⟩
      · exact .inl ⟨_, .refl, hown⟩
      · rcases visits_or_passesOver lookup ⟨path, detached, id, node⟩ hc with
          ⟨next, hstep, rfl⟩ | ⟨slot, issue, hover, hc⟩
        · rcases ih next.node hc next.path next.detached next.id hchild with
            ⟨reached, hrest, hnamed⟩ | ⟨reached, issue, hrest, hhidden⟩
          · exact .inl ⟨reached, .head hstep hrest, hnamed⟩
          · exact .inr ⟨reached, issue, .head hstep hrest, hhidden⟩
        · exact .inr ⟨_, issue, .refl, slot, hover, c, hc, hchild⟩
  · rintro (⟨reached, hreaches, hnamed⟩ | ⟨reached, issue, hreaches, hhidden⟩)
    · exact Reaches.mem_referencedTemplates_of_reached hreaches (Node.mem_referencedTemplates_of_own hnamed)
    · exact Reaches.mem_referencedTemplates_of_reached hreaches hhidden.mem_referencedTemplates

end Place

/-! ## What is reported -/

theorem unresolved_mem_visit :
    .unresolved t ∈ visit lookup owner [] false 0 root ↔
      lookup t = none ∧ ∃ place, Place.Reaches lookup (.root root) place ∧
        place.node.referenced? = some t := by
  rw [Place.mem_visit_iff_notes]
  constructor
  · rintro ⟨place, hreaches, hnotes⟩
    cases hnotes with
    | unresolved reference unregistered =>
      refine ⟨unregistered, place, hreaches, ?_⟩
      rw [reference]
      rfl
  · rintro ⟨hnone, place, hreaches, hnamed⟩
    refine ⟨place, hreaches, ?_⟩
    cases hnode : place.node with
    | text | element =>
      rw [hnode] at hnamed
      cases hnamed
    | reference =>
      rw [hnode] at hnamed
      cases hnamed
      exact .unresolved hnode hnone

theorem Place.PassesOver.due {issue : Issue} (h : place.PassesOver lookup slot issue)
    (hreaches : Place.Reaches lookup (.root root) place) :
    PointTable.Due (visit lookup owner [] false 0 root) issue := by
  cases h with
  | unresolved reference among unregistered =>
    rw [PointTable.due_of_issue? (s := .unresolved _) rfl, Place.mem_visit_iff_notes]
    exact ⟨place, hreaches, .unresolved reference unregistered⟩
  | unknown reference among registered unknown =>
    rw [PointTable.due_of_issue? (s := .unknownSlot _ _) rfl, Place.mem_visit_iff_notes]
    exact ⟨place, hreaches, .unknownSlot reference registered among unknown⟩

end Survey

namespace Descriptor
open Survey

/-- **Which unresolved references are reported.** A template that is not registered is reported if
it is referenced where the survey comes to. One that the tree depends on and that is not reported is
referenced in a slot that the survey passes over, and what keeps the survey out is reported. -/
theorem unresolved_mem_issues (lookup : String → Option Descriptor) (name : String) (root : Node)
    (t : String) :
    let D := compile lookup name root
    (.unresolvedTemplate t ∈ D.table.issues ↔
        lookup t = none ∧ ∃ place, Place.Reaches lookup (.root root) place ∧
          place.node.referenced? = some t) ∧
      (t ∈ D.dependencies ∧ lookup t = none ↔
        .unresolvedTemplate t ∈ D.table.issues ∨
          lookup t = none ∧ ∃ place issue, Place.Reaches lookup (.root root) place ∧
            place.Hides lookup issue t ∧ issue ∈ D.table.issues) := by
  intro D
  have hsums : PointTable.Sums (visit lookup name [] false 0 root) D.table :=
    PointTable.sums_ofSightings _
  have hreported : .unresolvedTemplate t ∈ D.table.issues ↔
      lookup t = none ∧ ∃ place, Place.Reaches lookup (.root root) place ∧
        place.node.referenced? = some t := by
    rw [hsums.issue, PointTable.due_of_issue? (s := .unresolved t) rfl, unresolved_mem_visit]
  have hdepends : t ∈ D.dependencies ↔
      (∃ place, Place.Reaches lookup (.root root) place ∧ place.node.referenced? = some t) ∨
        ∃ place issue, Place.Reaches lookup (.root root) place ∧ place.Hides lookup issue t :=
    Place.mem_referencedTemplates_iff_reaches (.root root)
  refine ⟨hreported, ?_⟩
  rw [hreported, hdepends]
  constructor
  · rintro ⟨hreached | ⟨place, issue, hreaches, hhides⟩, hnone⟩
    · exact .inl ⟨hnone, hreached⟩
    · have ⟨slot, hover, _⟩ := hhides
      exact .inr ⟨hnone, place, issue, hreaches, hhides, (hsums.issue issue).2 (hover.due hreaches)⟩
  · rintro (⟨hnone, hreached⟩ | ⟨hnone, place, issue, hreaches, hhides, _⟩)
    · exact ⟨.inl hreached, hnone⟩
    · exact ⟨.inr ⟨place, issue, hreaches, hhides⟩, hnone⟩

/-! ## A reference inside one that is not resolved -/

def nestedRoot : Node := .reference "Missing" .anonymous .empty
  [("x", ⟨none, .empty, [.reference "Other" .anonymous .empty []]⟩)]

/-- Neither template is registered, and only the outer one is reported. -/
theorem not_unresolved_mem_issues_nested :
    ¬ ∀ (r : Registry) name root t, r.Reachable →
      (.unresolvedTemplate t ∈ (compile r.get? name root).table.issues ↔
        t ∈ (compile r.get? name root).dependencies ∧ r.contains t = false) := by
  intro h
  have hdepends : "Other" ∈ nestedRoot.referencedTemplates :=
    Node.mem_referencedTemplates_of_child List.mem_cons_self
      (Node.mem_referencedTemplates_of_own rfl)
  have hissues : (compile Registry.empty.get? "Page" nestedRoot).table.issues =
      [.unresolvedTemplate "Missing"] := by decide
  have hreported := (h .empty "Page" nestedRoot "Other" (.withSettings _)).2 ⟨hdepends, rfl⟩
  rw [hissues] at hreported
  exact absurd hreported (by decide)

end Descriptor
end Stencil
