import Stencil.Proofs.Point.Occurrence
import Stencil.Proofs.Template.Texts

/-! # Texts do not move points

Positions on a path count elements, so a text among the children of an element or a slot has no part
in it. The table of a template is the same with and without such texts, up to the numbers of its
nodes.
-/
namespace Stencil

/-! ## Tables without numbers -/

/-- The entry without the numbers of nodes. -/
def PointEntry.unnumbered (entry : PointEntry) : PointEntry :=
  { entry with node := 0, inherited := entry.inherited.map fun i => ⟨0, i.point⟩ }

def Sighting.unnumbered : Sighting → Sighting
  | .point name entry => .point name entry.unnumbered
  | s => s

namespace PointTable

/-- The table without the numbers of nodes. -/
def unnumbered (t : PointTable) : PointTable :=
  { t with points := t.points.mapValues PointEntry.unnumbered }

theorem unnumbered_report (t : PointTable) (issue : Issue) :
    (t.report issue).unnumbered = t.unnumbered.report issue := by
  unfold report
  split <;> next h => simp only [unnumbered, h, if_true, if_false]

theorem unnumbered_markAmbiguous (t : PointTable) (name : String) :
    (t.markAmbiguous name).unnumbered = t.unnumbered.markAmbiguous name := by
  have herase : t.unnumbered.points.erase name =
      (t.points.erase name).mapValues PointEntry.unnumbered := NameMap.erase_mapValues ..
  simp only [markAmbiguous, herase]
  by_cases h : t.isAmbiguous name
  · exact (congrArg unnumbered (if_pos h)).trans (if_pos h).symm
  · exact (congrArg unnumbered (if_neg h)).trans ((unnumbered_report ..).trans (if_neg h).symm)

theorem unnumbered_record (t : PointTable) (s : Sighting) :
    (t.record s).unnumbered = t.unnumbered.record s.unnumbered := by
  cases s with
  | unaddressable | unresolved | unknownSlot => exact unnumbered_report ..
  | ambiguous => exact unnumbered_markAmbiguous ..
  | point name entry =>
    have hpoint : t.unnumbered.point? name = (t.point? name).map PointEntry.unnumbered :=
      NameMap.find?_mapValues ..
    have hambiguous : t.unnumbered.isAmbiguous name = t.isAmbiguous name := rfl
    simp only [record, Sighting.unnumbered, hpoint, hambiguous]
    by_cases hbarred : t.isAmbiguous name
    · simp only [hbarred, if_true]
    · simp only [hbarred, if_false, Bool.false_eq_true]
      cases t.point? name with
      | none =>
        simp only [unnumbered, Option.map_none, NameMap.insert_mapValues]
      | some known =>
        simp only [Option.map_some]
        by_cases hpath : known.path = entry.path
        · exact (congrArg unnumbered (if_pos hpath)).trans (if_pos hpath).symm
        · exact (congrArg unnumbered (if_neg hpath)).trans
            ((unnumbered_markAmbiguous ..).trans (if_neg hpath).symm)

theorem unnumbered_ofSightings (seen : List Sighting) :
    (ofSightings seen).unnumbered = ofSightings (seen.map Sighting.unnumbered) := by
  have run (t : PointTable) : (seen.foldl record t).unnumbered =
      (seen.map Sighting.unnumbered).foldl record t.unnumbered := by
    induction seen generalizing t with
    | nil => rfl
    | cons s seen ih =>
      rw [List.foldl_cons, List.map_cons, List.foldl_cons, ih, unnumbered_record]
  exact run empty

end PointTable

/-! ## The survey without texts -/

namespace Placement
open Footprint
variable {children : List Node}

theorem ofNode_withoutTexts (node : Node) : ofNode node.withoutTexts = ofNode node := by
  rw [ofNode, ofNode, Node.point?_withoutTexts]

theorem countP_withoutTexts (P : Footprint → Bool) (hnone : P .none = false) (children : List Node) :
    ((Node.withoutTextsList children).map ofNode).countP P = (children.map ofNode).countP P := by
  induction children with
  | nil => rfl
  | cons c rest ih =>
    rw [Node.withoutTextsList, List.map_cons, List.countP_cons]
    split
    · next htext =>
      cases c with
      | text =>
        have hfootprint (markup : String) : ofNode (.text markup) = .none := rfl
        rw [ih, hfootprint, hnone]
        rfl
      | element | reference => cases htext
    · rw [List.map_cons, List.countP_cons, ih, ofNode_withoutTexts]

theorem exists_follow_cons (elements repetitions index : Nat) (after : Bool) (f : Footprint) :
    ∃ placement index' after', ∀ rest, follow elements repetitions index after (f :: rest) =
      placement :: follow elements repetitions index' after' rest := by
  cases f with
  | none => exact ⟨_, _, _, fun _ => rfl⟩
  | element => exact ⟨_, _, _, fun _ => rfl⟩
  | repeated key => exact ⟨_, _, _, fun _ => rfl⟩

end Placement

namespace Survey
open Sighting (unnumbered)
variable {lookup : String → Option Descriptor} {owner : String} {children : List Node}
  {slots : List (String × Slot)}

theorem unnumbered_sight (detached : Bool) (name : String) (entry : PointEntry) :
    (sight detached name entry).unnumbered = sight detached name entry.unnumbered := by
  unfold sight
  split <;> rfl

theorem unnumbered_ownPoint (path : Path) (detached : Bool) (id id' : NodeId) (point : PointSpec) :
    (ownPoint owner path detached id point).map unnumbered =
      (ownPoint owner path detached id' point).map unnumbered := by
  unfold ownPoint
  cases point.id with
  | none => rfl
  | some name => rw [List.map_singleton, List.map_singleton, unnumbered_sight, unnumbered_sight]; rfl

theorem unnumbered_inheritedPoints (sub : Descriptor) (path : Path) (detached : Bool)
    (id id' : NodeId) :
    (inheritedPoints sub path detached id).map unnumbered =
      (inheritedPoints sub path detached id').map unnumbered := by
  unfold inheritedPoints
  rw [List.map_append, List.map_append, List.map_map, List.map_map]
  congr 1
  apply List.map_congr_left
  rintro ⟨name, entry⟩ _
  simp only [Function.comp_apply, unnumbered_sight]
  rfl

/-- What is seen is the same without the texts below, wherever the numbering begins. -/
def BlindToTexts (lookup : String → Option Descriptor) (owner : String) (node : Node) : Prop :=
  ∀ path detached id id',
    (visit lookup owner path detached id node.withoutTexts).map unnumbered =
      (visit lookup owner path detached id' node).map unnumbered

theorem visitList_withoutTexts (h : ∀ c ∈ children, BlindToTexts lookup owner c) (path : Path)
    (detached : Bool) (next next' : NodeId) (elements repetitions index : Nat) (after : Bool) :
    (visitList lookup owner path detached next
        (Placement.follow elements repetitions index after
          ((Node.withoutTextsList children).map Footprint.ofNode))
        (Node.withoutTextsList children)).map unnumbered =
      (visitList lookup owner path detached next'
        (Placement.follow elements repetitions index after (children.map Footprint.ofNode))
        children).map unnumbered := by
  induction children generalizing next next' index after with
  | nil => rfl
  | cons c rest ih =>
    obtain ⟨hc, hrest⟩ := List.forall_mem_cons.1 h
    rw [Node.withoutTextsList]
    split
    · next htext =>
      cases c with
      | text markup => exact ih hrest ..
      | element | reference => cases htext
    · obtain ⟨placement, index', after', hfollow⟩ := Placement.exists_follow_cons elements
        repetitions index after (Footprint.ofNode c)
      rw [List.map_cons, List.map_cons, Placement.ofNode_withoutTexts, hfollow, hfollow, visitList,
        visitList, List.map_append, List.map_append, hc, ih hrest]

theorem visitList_ofFootprints_withoutTexts (h : ∀ c ∈ children, BlindToTexts lookup owner c)
    (path : Path) (detached : Bool) (next next' : NodeId) :
    (visitList lookup owner path detached next
        (Placement.ofFootprints ((Node.withoutTextsList children).map Footprint.ofNode))
        (Node.withoutTextsList children)).map unnumbered =
      (visitList lookup owner path detached next'
        (Placement.ofFootprints (children.map Footprint.ofNode)) children).map unnumbered := by
  rw [Placement.ofFootprints, Placement.ofFootprints, Placement.countP_withoutTexts _ rfl,
    Placement.countP_withoutTexts _ rfl]
  exact visitList_withoutTexts h ..

theorem visitSlots_withoutTexts
    (h : ∀ slot ∈ slots, ∀ c ∈ slot.2.children, BlindToTexts lookup owner c) (template : String)
    (sub : Descriptor) (path : Path) (detached : Bool) (reference reference' next next' : NodeId) :
    (visitSlots lookup owner template sub path detached reference next
        (Node.withoutTextsSlots slots)).map unnumbered =
      (visitSlots lookup owner template sub path detached reference' next' slots).map
        unnumbered := by
  induction slots generalizing next next' with
  | nil => rfl
  | cons slot rest ih =>
    obtain ⟨hslot, hrest⟩ := List.forall_mem_cons.1 h
    obtain ⟨name, id, attributes, children⟩ := slot
    rw [Node.withoutTextsSlots, visitSlots, visitSlots, List.map_append, List.map_append,
      ih hrest _ (next' + Node.sizeList children)]
    congr 1
    cases sub.table.point? name with
    | none => rfl
    | some target =>
      simp only [List.map_append]
      congr 1
      · cases id with
        | none => rfl
        | some id =>
          simp only [List.map_singleton, unnumbered_sight]
          rfl
      · exact visitList_ofFootprints_withoutTexts hslot ..

/-- **The survey is blind to texts.** -/
theorem blindToTexts (node : Node) : BlindToTexts lookup owner node := by
  induction node using Node.induct with
  | step node ih =>
    intro path detached id id'
    cases node with
    | text => rw [Node.withoutTexts, visit, visit]
    | element tag point attributes children =>
      have hlist := visitList_ofFootprints_withoutTexts
        (show ∀ c ∈ children, BlindToTexts lookup owner c from ih)
      rw [Node.withoutTexts, visit, visit, List.map_append, List.map_append,
        unnumbered_ownPoint path detached id id', hlist path detached _ (id' + 1)]
    | reference template point attributes slots =>
      rw [Node.withoutTexts, visit, visit, List.map_append, List.map_append,
        unnumbered_ownPoint path detached id id']
      congr 1
      cases lookup template with
      | none => rfl
      | some sub =>
        have hslots : ∀ slot ∈ slots, ∀ c ∈ slot.2.children, BlindToTexts lookup owner c :=
          fun slot hslot c hc => ih c (Node.mem_childNodes_of_slot hslot hc template point attributes)
        simp only [List.map_append]
        rw [unnumbered_inheritedPoints sub path detached id id',
          visitSlots_withoutTexts hslots template sub path detached id id' (id + 1) (id' + 1)]

end Survey

namespace Descriptor
variable {root root' : Node}

/-- **Texts do not move points.** However texts are put in and taken out among the children of
elements and slots, the template has the same points at the same paths, the same ambiguous names,
issues and dependencies. Only the numbers of its nodes change. -/
theorem compile_of_texts (lookup : String → Option Descriptor) (name : String)
    (h : Relation.EqvGen Node.Inserts root root') :
    let D := compile lookup name root
    let D' := compile lookup name root'
    D.table.points.mapValues PointEntry.unnumbered =
        D'.table.points.mapValues PointEntry.unnumbered ∧
      D.table.ambiguous = D'.table.ambiguous ∧ D.table.issues = D'.table.issues ∧
      D.dependencies = D'.dependencies := by
  intro D D'
  have hseen : (Survey.visit lookup name [] false 0 root).map Sighting.unnumbered =
      (Survey.visit lookup name [] false 0 root').map Sighting.unnumbered := by
    rw [← Survey.blindToTexts root [] false 0 0, Node.withoutTexts_of_eqvGen h]
    exact Survey.blindToTexts root' [] false 0 0
  have htable : D.table.unnumbered = D'.table.unnumbered := by
    simp only [D, D', compile, PointTable.unnumbered_ofSightings, hseen]
  obtain ⟨hpoints, hambiguous, hissues⟩ := PointTable.mk.inj htable
  refine ⟨hpoints, hambiguous, hissues, ?_⟩
  rw [dependencies, dependencies, ← Node.referencedTemplates_withoutTexts D.root,
    show D.root.withoutTexts = D'.root.withoutTexts from Node.withoutTexts_of_eqvGen h,
    Node.referencedTemplates_withoutTexts]

/-! ## A desk with a text -/

def bareDesk (inlay texts : List Node) : Node := .element "div" .anonymous .empty
  (texts ++ [.reference "Drawer" .anonymous .empty [("knob", ⟨none, .empty, inlay⟩)],
    .element "p" ⟨some "notes", .multiple, false⟩ .empty [],
    .element "h2" ⟨some "title", .single, false⟩ .empty []])

def inlay : Node := .element "b" ⟨some "inlay", .single, false⟩ .empty []

/-- A text in front of a drawer is moved to its knob. The drawer is the third node of the one
template and the second of the other, and that is the only difference. -/
theorem compile_of_texts_desk :
    let D := compile furniture "Desk" (bareDesk [inlay] [.text "oak"])
    let D' := compile furniture "Desk" (bareDesk [.text "oak", inlay] [])
    D.table.points.mapValues PointEntry.unnumbered =
        D'.table.points.mapValues PointEntry.unnumbered ∧
      (D.table.point? "knob").bind (·.inherited) = some ⟨2, "knob"⟩ ∧
      (D'.table.point? "knob").bind (·.inherited) = some ⟨1, "knob"⟩ := by
  have taken : Node.Inserts (bareDesk [inlay] []) (bareDesk [inlay] [.text "oak"]) :=
    .child _ _ _ [] _ _
  have put : Node.Inserts (bareDesk [inlay] []) (bareDesk [.text "oak", inlay] []) :=
    .belowChild _ _ _ [] _ (.slotChild _ _ _ [] [] _ _ _ [] [inlay] _)
  have moved := (Relation.EqvGen.rel _ _ taken).symm.trans _ _ _ (.rel _ _ put)
  exact ⟨(compile_of_texts furniture "Desk" moved).1, rfl, rfl⟩

end Descriptor
end Stencil
