import Stencil.Proofs.Point.Expansion
import Stencil.Proofs.Registry.Reachable

/-! # Inlining

A template that includes others without naming or filling them could as well be written out: every
reference replaced by the tree that it stands for. The table of the template is the same, although
it was made from the tables of the included templates and not from their trees.
-/
namespace Stencil

namespace Node

/-- If the node is a reference, it has no name and no slots, and it is rendered once. -/
def Bare : Node → Prop
  | reference _ point _ slots => point.id = none ∧ point.cardinality = .single ∧ slots = []
  | _ => True

instance : DecidablePred Bare
  | text _ => .isTrue trivial
  | element .. => .isTrue trivial
  | reference _ point _ slots =>
    inferInstanceAs (Decidable (point.id = none ∧ point.cardinality = .single ∧ slots = []))

/-- The second tree is the first with each reference replaced by the tree of the template, in which
the references are replaced in the same way. -/
inductive Inlines (lookup : String → Option Descriptor) : Node → Node → Prop
  | text (markup : String) : Inlines lookup (text markup) (text markup)
  | element {children : List Node} (tag : String) (point : PointSpec) (attributes : Attributes)
      (f : Node → Node) (inner : ∀ c ∈ children, Inlines lookup c (f c)) :
      Inlines lookup (element tag point attributes children)
        (element tag point attributes (children.map f))
  | reference {template : String} {sub : Descriptor} {inlined : Node} (point : PointSpec)
      (attributes : Attributes) (slots : List (String × Slot))
      (registered : lookup template = some sub) (h : Inlines lookup sub.root inlined) :
      Inlines lookup (reference template point attributes slots) inlined

/-- The node is a single element, or a reference to a template whose root is such a node. -/
inductive BeginsSingle (lookup : String → Option Descriptor) : Node → Prop
  | element {point : PointSpec} (tag : String) (attributes : Attributes) (children : List Node)
      (single : point.cardinality = .single) :
      BeginsSingle lookup (element tag point attributes children)
  | reference {template : String} {sub : Descriptor} (point : PointSpec) (attributes : Attributes)
      (slots : List (String × Slot)) (registered : lookup template = some sub)
      (h : BeginsSingle lookup sub.root) :
      BeginsSingle lookup (reference template point attributes slots)

variable {lookup lookup' : String → Option Descriptor} {node inlined inlined' : Node}

theorem BeginsSingle.mono (h : node.BeginsSingle lookup)
    (hkept : ∀ template sub, lookup template = some sub → lookup' template = some sub) :
    node.BeginsSingle lookup' := by
  induction h with
  | element tag attributes children single => exact .element tag attributes children single
  | reference point attributes slots registered _ ih =>
    exact .reference point attributes slots (hkept _ _ registered) ih

theorem Inlines.unique (h : node.Inlines lookup inlined) (h' : node.Inlines lookup inlined') :
    inlined = inlined' := by
  induction h generalizing inlined' with
  | text => cases h'; rfl
  | element tag point attributes f inner ih =>
    cases h' with
    | element _ _ _ f' inner' =>
      exact congrArg _ (List.map_congr_left fun c hc => ih c hc (inner' c hc))
  | reference point attributes slots registered _ ih =>
    cases h' with
    | reference _ _ _ registered' h' =>
      cases registered.symm.trans registered'
      exact ih h'

theorem Inlines.referencedTemplates (h : node.Inlines lookup inlined) :
    inlined.referencedTemplates = [] := by
  apply List.eq_nil_iff_forall_not_mem.2
  intro template
  rw [mem_referencedTemplates_iff]
  intro hmentions
  induction h with
  | text => cases hmentions
  | element tag point attributes f inner ih =>
    cases hmentions with
    | element _ _ _ hc h =>
      obtain ⟨c, hmem, rfl⟩ := List.mem_map.1 hc
      exact ih c hmem h
  | reference _ _ _ _ _ ih => exact ih hmentions

theorem exists_inlines (h : ∀ template ∈ node.referencedTemplates, ∃ sub inlined,
      lookup template = some sub ∧ sub.root.Inlines lookup inlined) :
    ∃ inlined, node.Inlines lookup inlined := by
  induction node using induct with
  | step node ih =>
    cases node with
    | text markup => exact ⟨_, .text markup⟩
    | element tag point attributes children =>
      have hchild : ∀ c ∈ children, ∃ inlined, c.Inlines lookup inlined := fun c hc =>
        ih c hc fun template ht => h template (mem_referencedTemplates_of_child hc ht)
      choose! f hf using hchild
      exact ⟨_, .element tag point attributes f hf⟩
    | reference template point attributes slots =>
      obtain ⟨sub, inlined, hsub, hinlined⟩ := h template (mem_referencedTemplates_of_own rfl)
      exact ⟨inlined, .reference point attributes slots hsub hinlined⟩

theorem BeginsSingle.ofNode (h : node.BeginsSingle lookup)
    (hinlined : node.Inlines lookup inlined) :
    Footprint.ofNode inlined = .element := by
  induction h generalizing inlined with
  | element tag attributes children single =>
    cases hinlined
    rw [Footprint.ofNode, point?]
    simp only [single]
  | reference point attributes slots registered _ ih =>
    cases hinlined with
    | reference _ _ _ registered' hinlined =>
      cases registered.symm.trans registered'
      exact ih hinlined

end Node

/-- What is seen in the inlined tree expands what the table of the template passes on. -/
def Descriptor.StandsFor (D : Descriptor) (inlined : Node) : Prop :=
  ∀ lookup owner id reference, Survey.Expands (Survey.inheritedPoints D [] false reference)
    (Survey.visit lookup owner [] false id inlined)

namespace Survey
variable {lookup lookup' registered : String → Option Descriptor} {owner owner' : String}
  {node inlined : Node} {children : List Node} {f : Node → Node} {sub : Descriptor}

theorem expands_ownPoint (path : Path) (detached : Bool) (id id' : NodeId) (point : PointSpec) :
    Expands (ownPoint owner path detached id point) (ownPoint owner' path detached id' point) where
  shown name entry hmem := by
    obtain ⟨rfl, hid, rfl⟩ := point_of_ownPoint hmem
    exact ⟨_, Place.mem_ownPoint.2 ⟨name, hid, rfl⟩, rfl, rfl⟩
  covered name path' hsighted := by
    obtain ⟨entry, hmem, rfl⟩ := hsighted
    obtain ⟨rfl, hid, rfl⟩ := point_of_ownPoint hmem
    exact .inr ⟨_, Place.mem_ownPoint.2 ⟨name, hid, rfl⟩, rfl⟩
  disputed name hmem := by
    obtain ⟨_, _, hsight⟩ := Place.mem_ownPoint.1 hmem
    unfold sight at hsight
    split at hsight <;> cases hsight

theorem expands_visitList
    (h : ∀ c ∈ children, ∀ path detached id id', Expands (visit lookup owner path detached id c)
      (visit lookup' owner' path detached id' (f c)))
    (path : Path) (detached : Bool) (next next' : NodeId) (placements : List Placement) :
    Expands (visitList lookup owner path detached next placements children)
      (visitList lookup' owner' path detached next' placements (children.map f)) := by
  induction children generalizing next next' placements with
  | nil => cases placements <;> exact .nil
  | cons c rest ih =>
    obtain ⟨hc, hrest⟩ := List.forall_mem_cons.1 h
    cases placements with
    | nil => exact .nil
    | cons placement placements =>
      rw [List.map_cons, visitList, visitList]
      exact (hc ..).append (ih hrest ..)

theorem expands_inheritedPoints (h : sub.StandsFor inlined) (path : Path) (detached : Bool)
    (id id' : NodeId) :
    Expands (inheritedPoints sub path detached id)
      (visit lookup owner path detached id' inlined) := by
  cases detached with
  | true =>
    refine .of_none (fun name entry hmem => ?_) (fun name hmem => ?_) fun name entry hmem => ?_
    · exact Bool.noConfusion (point_of_inheritedPoints hmem).1
    · obtain ⟨hattached, _⟩ | ⟨_, _, _, hsight⟩ := Place.mem_inheritedPoints.1 hmem
      · cases hattached
      · cases hsight
    · exact Bool.noConfusion (attached_of_point hmem)
  | false =>
    have hmoved := (h lookup owner id' id).moved path
    rwa [← inheritedPoints_moved, ← visit_moved, List.append_nil] at hmoved

/-- The survey of the inlined tree expands that of the tree itself, if the tables of the referenced
templates stand for theirs. -/
theorem expands_of_inlines (hbare : ∀ m ∈ node.preorder, m.Bare)
    (hbelow : ∀ template ∈ node.referencedTemplates, ∃ sub, lookup template = some sub ∧
      registered template = some sub ∧ ∀ inlined, sub.root.Inlines registered inlined →
        Footprint.ofNode inlined = .element ∧ sub.StandsFor inlined)
    (h : node.Inlines registered inlined) :
    Footprint.ofNode inlined = Footprint.ofNode node ∧ ∀ path detached id id',
      Expands (visit lookup owner path detached id node)
        (visit lookup' owner' path detached id' inlined) := by
  -- the induction stays in one tree: below a reference the table of the template is used
  induction h with
  | text markup =>
    refine ⟨rfl, fun path detached id id' => ?_⟩
    rw [visit, visit]
    exact .nil
  | @element children tag point attributes f inner ih =>
    have hchild (c : Node) (hc : c ∈ children) := ih c hc
      (fun m hm => hbare m (Node.mem_preorder_of_child hc hm))
      (fun template ht => hbelow template (Node.mem_referencedTemplates_of_child hc ht))
    have hfootprints : (children.map f).map Footprint.ofNode = children.map Footprint.ofNode := by
      rw [List.map_map]
      exact List.map_congr_left fun c hc => (hchild c hc).1
    refine ⟨rfl, fun path detached id id' => ?_⟩
    rw [visit, visit, hfootprints]
    exact (expands_ownPoint ..).append (expands_visitList (fun c hc => (hchild c hc).2) ..)
  | @reference template sub inlined point attributes slots hregistered hinlined _ =>
    obtain ⟨hid, hsingle, rfl⟩ := hbare _ (Node.mem_preorder_self _)
    obtain ⟨sub', hsub, hregistered', hstands⟩ :=
      hbelow template (Node.mem_referencedTemplates_of_own rfl)
    cases hregistered.symm.trans hregistered'
    obtain ⟨helement, hexpands⟩ := hstands inlined hinlined
    refine ⟨?_, fun path detached id id' => ?_⟩
    · rw [helement, Footprint.ofNode, Node.point?]
      simp only [hsingle]
    · rw [visit, ownPoint, hid, hsub]
      simp only [visitSlots, List.nil_append, List.append_nil]
      exact expands_inheritedPoints hexpands ..

end Survey

namespace Registry
variable {r earlier : Registry} {name other template : String} {D : Descriptor} {root : Node}

/-- The template was compiled against the registry as it was earlier, and none of what was in there
has been replaced. -/
structure CompiledIn (r earlier : Registry) (name : String) (D : Descriptor) : Prop where
  registered : r.get? name = some D
  compiled : D = .compile earlier.get? name D.root
  kept : ∀ template sub, earlier.get? template = some sub → r.get? template = some sub

/-- The template includes nothing but single elements, as a whole and without a name: its references
are bare, and each is to such a template, which was registered before and begins with a single
element. -/
inductive Composed (r : Registry) : String → Prop
  | intro {name : String} {D : Descriptor} {earlier : Registry}
      (compiled : r.CompiledIn earlier name D) (bare : ∀ m ∈ D.root.preorder, m.Bare)
      (before : ∀ template ∈ D.root.referencedTemplates, earlier.contains template)
      (single : ∀ template ∈ D.root.referencedTemplates, ∀ sub, r.get? template = some sub →
        sub.root.BeginsSingle r.get?)
      (inner : ∀ template ∈ D.root.referencedTemplates, Composed r template) : Composed r name

theorem CompiledIn.register (h : r.CompiledIn earlier name D) (other : String) (root : Node) :
    (r.register other root).CompiledIn earlier name D where
  registered := get?_register_of_some h.registered other root
  compiled := h.compiled
  kept template sub hsub := get?_register_of_some (h.kept template sub hsub) other root

theorem CompiledIn.exists_get? (h : r.CompiledIn earlier name D)
    (hbefore : earlier.contains template) :
    ∃ sub, earlier.get? template = some sub ∧ r.get? template = some sub := by
  obtain ⟨sub, hsub⟩ := Option.isSome_iff_exists.1 hbefore
  exact ⟨sub, hsub, h.kept template sub hsub⟩

theorem Composed.register (h : r.Composed name) (other : String) (root : Node) :
    (r.register other root).Composed name := by
  induction h with
  | intro compiled bare before single _ ih =>
    refine .intro (compiled.register other root) bare before (fun template ht sub hsub => ?_) ih
    obtain ⟨sub', _, hsub'⟩ := compiled.exists_get? (before template ht)
    cases (get?_register_of_some hsub' other root).symm.trans hsub
    exact (single template ht sub hsub').mono fun _ _ hkept =>
      get?_register_of_some hkept other root

theorem composed_register (hfresh : r.get? name = none) (bare : ∀ m ∈ root.preorder, m.Bare)
    (hinner : ∀ template ∈ root.referencedTemplates, r.Composed template ∧
      ∃ sub, r.get? template = some sub ∧ sub.root.BeginsSingle r.get?) :
    (r.register name root).Composed name := by
  have hstays {template : String} {sub : Descriptor} (hsub : r.get? template = some sub) :
      (r.register name root).get? template = some sub := get?_register_of_some hsub name root
  have compiled : (r.register name root).CompiledIn r name (.compile r.get? name root) :=
    ⟨by rw [get?_register, if_pos ⟨rfl, hfresh⟩], rfl, fun _ _ => hstays⟩
  refine .intro compiled bare (fun template ht => ?_) (fun template ht sub hsub => ?_)
    fun template ht => ?_
  · obtain ⟨sub, hsub, _⟩ := (hinner template ht).2
    exact contains_of_get? hsub
  · obtain ⟨sub', hsub', hsingle⟩ := (hinner template ht).2
    cases (hstays hsub').symm.trans hsub
    exact hsingle.mono fun _ _ => hstays
  · exact (hinner template ht).1.register name root

theorem Composed.exists_inlined (h : r.Composed name) : ∃ D inlined seen, r.get? name = some D ∧
    D.root.Inlines r.get? inlined ∧ D.table = .ofSightings seen ∧
      ∀ lookup owner id, Survey.Expands seen (Survey.visit lookup owner [] false id inlined) := by
  induction h with
  | @intro name D earlier compiled bare before single _ ih =>
    have hbelow : ∀ template ∈ D.root.referencedTemplates, ∃ sub,
        earlier.get? template = some sub ∧ r.get? template = some sub ∧
          ∀ inlined, sub.root.Inlines r.get? inlined →
            Footprint.ofNode inlined = .element ∧ sub.StandsFor inlined := by
      intro template ht
      obtain ⟨sub, hsub, hsub'⟩ := compiled.exists_get? (before template ht)
      refine ⟨sub, hsub, hsub', fun inlined hinlined =>
        ⟨(single template ht sub hsub').ofNode hinlined, fun lookup owner id reference => ?_⟩⟩
      obtain ⟨sub', inlined', seen, hregistered, hinlined', htable, hexpands⟩ := ih template ht
      cases hsub'.symm.trans hregistered
      cases hinlined.unique hinlined'
      exact (hexpands lookup owner id).inheritedPoints htable reference
    obtain ⟨inlined, hinlined⟩ := Node.exists_inlines fun template ht => by
      obtain ⟨sub, inlined, _, hsub, hinlined, _⟩ := ih template ht
      exact ⟨sub, inlined, hsub, hinlined⟩
    refine ⟨D, inlined, Survey.visit earlier.get? name [] false 0 D.root, compiled.registered,
      hinlined, congrArg Descriptor.table compiled.compiled, fun lookup owner id => ?_⟩
    exact (Survey.expands_of_inlines bare hbelow hinlined).2 [] false 0 id

/-- **Including is inlining.** The template can be inlined in one way, and no reference is left. The
tree that this comes to has the same table, whatever name and registry it is compiled with: the same
names with the same paths and cardinalities, and the same ambiguous names. -/
theorem table_inlined (h : r.Composed name) (hD : r.get? name = some D) :
    ∃ inlined, (∀ tree, D.root.Inlines r.get? tree ↔ tree = inlined) ∧
      inlined.referencedTemplates = [] ∧ ∀ lookup other,
        let table := (Descriptor.compile lookup other inlined).table
        D.table.points.mapValues (fun entry => (entry.path, entry.cardinality)) =
            table.points.mapValues (fun entry => (entry.path, entry.cardinality)) ∧
          D.table.ambiguous = table.ambiguous := by
  obtain ⟨D', inlined, seen, hD', hinlined, htable, hexpands⟩ := h.exists_inlined
  cases hD.symm.trans hD'
  refine ⟨inlined, fun tree => ⟨fun htree => htree.unique hinlined, ?_⟩,
    hinlined.referencedTemplates, fun lookup other => ?_⟩
  · rintro rfl
    exact hinlined
  · rw [htable]
    exact (hexpands lookup other 0).ofSightings hinlined.referencedTemplates

/-! ## A page of panels

A card is an item. The page has a card and any number of panels with a card in each, so it has the
points of an item in two places.
-/

def bareReference (template : String) : Node := .reference template .anonymous .empty []

def itemRoot : Node :=
  .element "p" ⟨some "line", .single, false⟩ .empty
    [.element "b" ⟨some "label", .single, false⟩ .empty []]

def panelRoot : Node :=
  .element "section" ⟨some "panel", .single, false⟩ .empty [bareReference "Card"]

def pageRoot : Node :=
  .element "div" .anonymous .empty
    [bareReference "Card",
      .element "ul" ⟨some "panels", .multiple, false⟩ .empty [bareReference "Panel"]]

def cards : Registry :=
  (Registry.empty.register "Item" itemRoot).register "Card" (bareReference "Item")

def panels : Registry := cards.register "Panel" panelRoot

theorem composed_card : cards.Composed "Card" := by
  have hitem : (Registry.empty.register "Item" itemRoot).Composed "Item" :=
    composed_register rfl (by decide) nofun
  refine composed_register rfl (by decide) fun template ht => ?_
  obtain rfl : template = "Item" := List.mem_singleton.1 ht
  exact ⟨hitem, _, rfl, .element _ _ _ rfl⟩

theorem composed_page : (panels.register "Page" pageRoot).Composed "Page" := by
  -- the root of a card is a reference, which leads on to the single element of an item
  have card (r : Registry) (hcard : r.get? "Card" = cards.get? "Card")
      (hitem : r.get? "Item" = cards.get? "Item") :
      ∃ sub, r.get? "Card" = some sub ∧ sub.root.BeginsSingle r.get? :=
    ⟨_, hcard, .reference _ _ _ hitem (.element _ _ _ rfl)⟩
  have hpanel : panels.Composed "Panel" := by
    refine composed_register rfl (by decide) fun template ht => ?_
    obtain rfl : template = "Card" := List.mem_singleton.1 ht
    exact ⟨composed_card, card cards rfl rfl⟩
  refine composed_register rfl (by decide) fun template ht => ?_
  have hnames : pageRoot.referencedTemplates = ["Card", "Panel"] := by decide
  rw [hnames, List.mem_pair] at ht
  rcases ht with rfl | rfl
  · exact ⟨composed_card.register "Panel" panelRoot, card panels rfl rfl⟩
  · exact ⟨hpanel, _, rfl, .element _ _ _ rfl⟩

/-- Written out, the page has a point for its panels and one in each of them. The line and the label
of its items are ambiguous. -/
theorem table_inlined_page :
    ∃ inlined : Node, inlined.referencedTemplates = [] ∧ ∀ lookup,
      let table := (Descriptor.compile lookup "Page" inlined).table
      table.ambiguous.names = ["label", "line"] ∧
        table.points.mapValues (fun entry => (entry.path, entry.cardinality)) =
          [("panel", [.repeated "panels" 1 0, .index 0], .single),
            ("panels", [.repeated "panels" 1 0], .multiple)] := by
  obtain ⟨inlined, _, hfree, htable⟩ := table_inlined composed_page rfl
  refine ⟨inlined, hfree, fun lookup => ?_⟩
  obtain ⟨hpoints, hambiguous⟩ := htable lookup "Page"
  exact ⟨(congrArg NameMap.names hambiguous).symm.trans rfl, hpoints.symm.trans rfl⟩

end Registry
end Stencil
