import Mathlib.Logic.Basic
import Stencil.Proofs.Render.Emission
import Stencil.Proofs.Template.Names

/-! # What rendering depends on

A tree looks up the names of its points and slots, and the root of a template the root key besides.
So it is rendered the same in any two stacks of scopes that agree on these names.
-/
namespace Stencil.Render
variable {scopes scopes' : List Record} {fields : List (String × Value)} {name key : String}
  {point : PointSpec} {isRoot : Bool} {settings : Settings} {inclusion : Inclusion} {n c : Node}
  {children : List Node} {slots : List (String × Slot)} {scope : Record}

theorem lookup_cons (fields : Record) (scopes : List Record) (key : String) :
    lookup (fields :: scopes) key = (NameMap.find? fields key).or (lookup scopes key) := by
  unfold lookup
  rw [List.findSome?_cons]
  cases NameMap.find? fields key <;> rfl

theorem lookup_singleton (d : Record) (key : String) : lookup [d] key = NameMap.find? d key := by
  rw [lookup_cons]
  exact Option.or_none

theorem find?_bindAttributes (scope : Record) (point key : String) (a : Attributes) :
    (bindAttributes scope point a).find? key =
      if key = attributeKey point ∧ a.isEmpty = false then some (.item (Record.ofAttributes a))
      else scope.find? key := by
  unfold bindAttributes
  cases a.isEmpty with
  | true => simp
  | false =>
    rw [if_neg Bool.false_ne_true, Record.setAttributes, NameMap.find?_insert]
    simp

/-- The name has the same value in both stacks, and overrides that lay the same over its node. -/
structure Agree (scopes scopes' : List Record) (name : String) : Prop where
  value : lookup scopes name = lookup scopes' name
  overrides (index : Option Nat) :
    overridesAt (lookup scopes (attributeKey name)) index =
      overridesAt (lookup scopes' (attributeKey name)) index

theorem Agree.push (h : Agree scopes scopes' name) (fields : Record) :
    Agree (fields :: scopes) (fields :: scopes') name where
  value := by rw [lookup_cons, lookup_cons, h.value]
  overrides index := by
    rw [lookup_cons, lookup_cons]
    cases NameMap.find? fields (attributeKey name) with
    | none => exact h.overrides index
    | some value => rfl

/-- Both stacks bind the same to the root of a template. -/
structure AgreeAtRoot (scopes scopes' : List Record) : Prop where
  value : lookup scopes rootKey = lookup scopes' rootKey
  overrides : lookup scopes (attributeKey rootKey) = lookup scopes' (attributeKey rootKey)

/-- A node shows the same emissions where its scopes agree on its own name. -/
theorem emitAll_emissions_congr (h : ∀ name, point.id = some name → Agree scopes scopes' name)
    (hroot : isRoot → AgreeAtRoot scopes scopes') :
    emitAll (emit settings inclusion scopes n) (emissions point isRoot scopes) =
      emitAll (emit settings inclusion scopes n) (emissions point isRoot scopes') := by
  have hvalue : point.id.bind (lookup scopes) = point.id.bind (lookup scopes') := by
    cases hid : point.id with
    | none => rfl
    | some name => exact (h name hid).value
  have hoverrides (index : Option Nat) :
      overridesAt (point.id.bind fun id => lookup scopes (attributeKey id)) index =
        overridesAt (point.id.bind fun id => lookup scopes' (attributeKey id)) index := by
    cases hid : point.id with
    | none => rfl
    | some name => exact (h name hid).overrides index
  have hbound : (bound point isRoot scopes).value = (bound point isRoot scopes').value ∧
      ∀ index, overridesAt (bound point isRoot scopes).overrides index =
        overridesAt (bound point isRoot scopes').overrides index := by
    cases isRoot with
    | false => exact ⟨hvalue, hoverrides⟩
    | true =>
      refine ⟨congrArg₂ Option.or (hroot rfl).value hvalue, fun index => ?_⟩
      simp only [bound, if_true]
      rw [(hroot rfl).overrides]
      cases lookup scopes' (attributeKey rootKey) with
      | none => exact hoverrides index
      | some value => rfl
  rw [emissions_eq, emissions_eq, hbound.1]
  exact emitAll_congr point _ fun value index => emit_congr_overrides (hbound.2 index)

theorem emissions_root (hvalue : lookup scopes rootKey = none)
    (hoverrides : lookup scopes (attributeKey rootKey) = none) (point : PointSpec) :
    emissions point true scopes = emissions point false scopes := by
  rw [emissions_eq, emissions_eq, bound, hvalue, hoverrides]
  rfl

theorem node_root (hvalue : lookup scopes rootKey = none)
    (hoverrides : lookup scopes (attributeKey rootKey) = none) (n : Node) :
    node settings inclusion true scopes n = node settings inclusion false scopes n := by
  cases n with
  | text => rw [node, node]
  | element => rw [node_element, node_element, emissions_root hvalue hoverrides]
  | reference template =>
    cases hexpand : inclusion template with
    | none =>
      rw [node_reference_none settings inclusion hexpand,
        node_reference_none settings inclusion hexpand]
    | some expand =>
      rw [node_reference_some settings inclusion hexpand,
        node_reference_some settings inclusion hexpand, emissions_root hvalue hoverrides]

variable (settings inclusion)

/-- The node is rendered the same wherever scopes agree on its names. -/
def Congruent (n : Node) : Prop :=
  ∀ (isRoot : Bool) (scopes scopes' : List Record),
    (∀ name ∈ n.names, Agree scopes scopes' name) → (isRoot → AgreeAtRoot scopes scopes') →
      node settings inclusion isRoot scopes n = node settings inclusion isRoot scopes' n

variable {settings inclusion}

theorem nodes_congr_of (hc : ∀ c ∈ children, Congruent settings inclusion c)
    (h : ∀ c ∈ children, ∀ name ∈ c.names, Agree scopes scopes' name) :
    nodes settings inclusion scopes children = nodes settings inclusion scopes' children := by
  induction children with
  | nil => rfl
  | cons c rest ih =>
    obtain ⟨hhead, htail⟩ := List.forall_mem_cons.1 hc
    obtain ⟨hnames, hrest⟩ := List.forall_mem_cons.1 h
    rw [nodes, nodes, hhead false scopes scopes' hnames nofun, ih htail hrest]

theorem bindSlots_congr_of
    (hc : ∀ slot ∈ slots, ∀ c ∈ slot.2.children, Congruent settings inclusion c)
    (hid : ∀ slot ∈ slots, ∀ name, slot.2.id = some name → Agree scopes scopes' name)
    (h : ∀ slot ∈ slots, ∀ c ∈ slot.2.children, ∀ name ∈ c.names, Agree scopes scopes' name)
    (scope : Record) :
    bindSlots settings inclusion scopes scope slots =
      bindSlots settings inclusion scopes' scope slots := by
  induction slots generalizing scope with
  | nil => rfl
  | cons slot rest ih =>
    obtain ⟨point, id, attributes, children⟩ := slot
    obtain ⟨hchildren, hc⟩ := List.forall_mem_cons.1 hc
    obtain ⟨hown, hid⟩ := List.forall_mem_cons.1 hid
    obtain ⟨hinner, h⟩ := List.forall_mem_cons.1 h
    have hmarkup : nodes settings inclusion scopes children =
        nodes settings inclusion scopes' children := nodes_congr_of hchildren hinner
    have hpushed (fields : Record) : nodes settings inclusion (fields :: scopes) children =
        nodes settings inclusion (fields :: scopes') children :=
      nodes_congr_of hchildren fun c hc name hname => (hinner c hc name hname).push fields
    have hvalue : id.bind (lookup scopes) = id.bind (lookup scopes') := by
      cases id with
      | none => rfl
      | some name => exact (hown name rfl).value
    have hoverrides : overridesAt (id.bind fun id => lookup scopes (attributeKey id)) none =
        overridesAt (id.bind fun id => lookup scopes' (attributeKey id)) none := by
      cases id with
      | none => rfl
      | some name => exact (hown name rfl).overrides none
    unfold overridesAt at hoverrides
    rw [bindSlots, bindSlots, hvalue]
    simp only [merged_eq_merge, hoverrides, hmarkup, hpushed, ih hc hid h]

theorem emit_congr_of (hc : ∀ c ∈ n.childNodes, Congruent settings inclusion c)
    (h : ∀ name ∈ n.names, Agree scopes scopes' name) :
    emit settings inclusion scopes n = emit settings inclusion scopes' n := by
  have hinside (own : Option Record) :
      ∀ name ∈ n.names, Agree (inside scopes own) (inside scopes' own) name := by
    cases own with
    | none => exact h
    | some fields => exact fun name hname => (h name hname).push fields
  cases n with
  | text => rfl
  | element tag point attributes children =>
    have hcontent (own : Option Record) : nodes settings inclusion (inside scopes own) children =
        nodes settings inclusion (inside scopes' own) children :=
      nodes_congr_of hc fun c hc name hname =>
        hinside own name (Node.mem_names_of_child hc hname)
    simp only [emit, hcontent]
  | reference template point attributes slots =>
    have hchild {slot : String × Slot} (hslot : slot ∈ slots) {c : Node}
        (hc : c ∈ slot.2.children) :
        c ∈ (Node.reference template point attributes slots).childNodes :=
      Node.mem_childNodes_of_slot hslot hc ..
    have hbind (own : Option Record) (scope : Record) :
        bindSlots settings inclusion (inside scopes own) scope slots =
          bindSlots settings inclusion (inside scopes' own) scope slots :=
      bindSlots_congr_of (fun slot hslot c hc' => hc c (hchild hslot hc'))
        (fun slot hslot name hname => hinside own name (Node.mem_names_of_slot hslot hname ..))
        (fun slot hslot c hc' name hname =>
          hinside own name (Node.mem_names_of_child (hchild hslot hc') hname)) scope
    simp only [emit, hbind]

theorem congruent (settings : Settings) (inclusion : Inclusion) (n : Node) :
    Congruent settings inclusion n := by
  induction n using Node.induct with
  | step n ih =>
    intro isRoot scopes scopes' h hroot
    have hemit := emit_congr_of ih h
    have hall (point : PointSpec) (hpoint : n.point? = some point) :
        emitAll (emit settings inclusion scopes n) (emissions point isRoot scopes) =
          emitAll (emit settings inclusion scopes' n) (emissions point isRoot scopes') := by
      rw [← hemit]
      exact emitAll_emissions_congr
        (fun name hname => h name (Node.mem_names_of_point hpoint hname)) hroot
    cases n with
    | text => rfl
    | element tag point attributes children =>
      rw [node_element, node_element]
      exact hall point rfl
    | reference template point attributes slots =>
      cases hexpand : inclusion template with
      | none =>
        rw [node_reference_none settings inclusion hexpand,
          node_reference_none settings inclusion hexpand]
      | some expand =>
        rw [node_reference_some settings inclusion hexpand,
          node_reference_some settings inclusion hexpand]
        exact hall point rfl

/-- **Only the names matter.** Scopes that agree on the names of a tree, and at a root on the root
key, are the same to it. -/
theorem node_congr (h : ∀ name ∈ n.names, Agree scopes scopes' name)
    (hroot : isRoot → AgreeAtRoot scopes scopes') :
    node settings inclusion isRoot scopes n = node settings inclusion isRoot scopes' n :=
  congruent settings inclusion n isRoot scopes scopes' h hroot

theorem emit_congr (h : ∀ name ∈ n.names, Agree scopes scopes' name) :
    emit settings inclusion scopes n = emit settings inclusion scopes' n :=
  emit_congr_of (fun c _ => congruent settings inclusion c) h

theorem nodes_congr (h : ∀ c ∈ children, ∀ name ∈ c.names, Agree scopes scopes' name) :
    nodes settings inclusion scopes children = nodes settings inclusion scopes' children :=
  nodes_congr_of (fun c _ => congruent settings inclusion c) h

end Stencil.Render
