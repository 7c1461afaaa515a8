import Stencil.Proofs.Render.Emission

/-! # Better and better inclusions

A node that is rendered to the end has included finitely many templates. So if each inclusion is
approached by others, then what these show comes to the same end from one of them on. An inclusion
that ends wherever another one does is the case of a family that does not change.
-/
namespace Stencil.Render
variable {settings : Settings} {scopes : List Record} {isRoot : Bool} {tag : String}
  {point : PointSpec} {attributes : Attributes} {α β Template : Type}
  {known : String → Option Template}

/-- If the first one ends, all the others from one on come to the same end. -/
def Approaches (x : Option α) (y : Nat → Option α) : Prop :=
  ∀ a, x = some a → ∃ n, ∀ m, n ≤ m → y m = some a

theorem Approaches.refl (x : Option α) : Approaches x fun _ => x := fun _ h => ⟨0, fun _ _ => h⟩

theorem Approaches.map {x : Option α} {y : Nat → Option α} (h : Approaches x y) (f : α → β) :
    Approaches (x.map f) fun n => (y n).map f := by
  intro b hb
  obtain ⟨a, ha, rfl⟩ := Option.map_eq_some_iff.1 hb
  obtain ⟨n, hn⟩ := h a ha
  refine ⟨n, fun m hm => ?_⟩
  simp only [hn m hm, Option.map_some]

theorem Approaches.bind {x : Option α} {y : Nat → Option α} {f : α → Option β}
    {g : Nat → α → Option β} (h : Approaches x y) (hf : ∀ a, Approaches (f a) fun n => g n a) :
    Approaches (x.bind f) fun n => (y n).bind (g n) := by
  intro b hb
  obtain ⟨a, ha, hb⟩ := Option.bind_eq_some_iff.1 hb
  obtain ⟨n, hn⟩ := h a ha
  obtain ⟨k, hk⟩ := hf a b hb
  refine ⟨max n k, fun m hm => ?_⟩
  simp only [hn m (by omega), Option.bind_some]
  exact hk m (by omega)

theorem approaches_surround {x : Unit → Option (List Piece)} {y : Nat → Unit → Option (List Piece)}
    (h : Approaches (x ()) fun n => y n ()) :
    Approaches (surround settings tag attributes x)
      fun n => surround settings tag attributes (y n) := by
  unfold surround
  split
  · exact .refl _
  · exact h.map _

theorem approaches_emitElement {x : Option Record → Option (List Piece)}
    {y : Nat → Option Record → Option (List Piece)} (h : ∀ own, Approaches (x own) fun n => y n own)
    (emission : Emission) :
    Approaches (emitElement settings tag point attributes x emission)
      fun n => emitElement settings tag point attributes (y n) emission := by
  unfold emitElement
  simp only
  split
  · exact approaches_surround (h none)
  · exact .refl _
  · exact approaches_surround (h _)
  · exact .refl _

theorem approaches_emitReference {x : Option Record → Record → Option Record}
    {y : Nat → Option Record → Record → Option Record} {f : Record → Option (List Piece)}
    {g : Nat → Record → Option (List Piece)}
    (h : ∀ own scope, Approaches (x own scope) fun n => y n own scope)
    (hexpand : ∀ scope, Approaches (f scope) fun n => g n scope) (emission : Emission) :
    Approaches (emitReference attributes x f emission)
      fun n => emitReference attributes (y n) (g n) emission := by
  unfold emitReference
  simp only
  split
  · exact hexpand _
  · exact (h _ _).bind hexpand
  · exact (h _ _).bind hexpand

theorem approaches_emitAll {x : Emission → Option (List Piece)}
    {y : Nat → Emission → Option (List Piece)} (h : ∀ e, Approaches (x e) fun n => y n e)
    (found : Except String (List Emission)) :
    Approaches (emitAll x found) fun n => emitAll (y n) found := by
  cases found with
  | error message => exact .refl _
  | ok found =>
    refine Approaches.map ?_ _
    induction found with
    | nil => exact .refl _
    | cons e found ih =>
      simp only [List.mapM_cons]
      exact (h e).bind fun here => ih.bind fun later => .refl _

section
variable {f : Template → Record → Option (List Piece)}
  {g : Nat → Template → Record → Option (List Piece)}

mutual

theorem approaches_node (h : ∀ d scope, Approaches (f d scope) fun n => g n d scope) (isRoot : Bool)
    (scopes : List Record) (root : Node) :
    Approaches (node settings (including known f) isRoot scopes root)
      fun n => node settings (including known (g n)) isRoot scopes root := by
  cases root with
  | text => exact .refl _
  | element tag point attributes children =>
    simp only [node_element]
    refine approaches_emitAll (fun e => ?_) _
    exact approaches_emitElement (fun own => approaches_nodes h _ children) e
  | reference template point attributes slots =>
    cases htemplate : known template with
    | none =>
      have hnone (expand : Template → Record → Option (List Piece)) :
          including known expand template = none := by rw [including, htemplate, Option.map_none]
      simp only [node_reference_none settings _ (hnone _)]
      exact .refl _
    | some d =>
      have hsome (expand : Template → Record → Option (List Piece)) :
          including known expand template = some (expand d) := by
        rw [including, htemplate, Option.map_some]
      simp only [node_reference_some settings _ (hsome _)]
      refine approaches_emitAll (fun e => ?_) _
      simp only [emit, hsome]
      exact approaches_emitReference (fun own scope => approaches_bindSlots h _ scope slots) (h d) e

theorem approaches_nodes (h : ∀ d scope, Approaches (f d scope) fun n => g n d scope)
    (scopes : List Record) (children : List Node) :
    Approaches (nodes settings (including known f) scopes children)
      fun n => nodes settings (including known (g n)) scopes children := by
  cases children with
  | nil => exact .refl _
  | cons c rest =>
    simp only [nodes]
    exact (approaches_node h false scopes c).bind fun here =>
      (approaches_nodes h scopes rest).bind fun later => .refl _

theorem approaches_bindSlots (h : ∀ d scope, Approaches (f d scope) fun n => g n d scope)
    (scopes : List Record) (scope : Record) (slots : List (String × Slot)) :
    Approaches (bindSlots settings (including known f) scopes scope slots)
      fun n => bindSlots settings (including known (g n)) scopes scope slots := by
  match slots with
  | [] => exact .refl _
  | (name, ⟨id, attributes, children⟩) :: rest =>
    simp only [bindSlots]
    split
    · exact approaches_bindSlots h _ _ rest
    · exact ((approaches_nodes h _ children).map _).bind fun value =>
        approaches_bindSlots h _ _ rest
    · exact ((approaches_nodes h _ children).map _).bind fun value =>
        approaches_bindSlots h _ _ rest
    · exact approaches_bindSlots h _ _ rest

end

end

/-! ## One step deeper -/

/-- The second one comes to the same end wherever the first one ends. -/
def Reaches (x y : Option α) : Prop := ∀ a, x = some a → y = some a

theorem Reaches.approaches {x y : Option α} (h : Reaches x y) : Approaches x fun _ => y :=
  fun a ha => ⟨0, fun _ _ => h a ha⟩

theorem Approaches.reaches {x y : Option α} (h : Approaches x fun _ => y) : Reaches x y := by
  intro a ha
  obtain ⟨n, hn⟩ := h a ha
  exact hn n (Nat.le_refl n)

variable {f g : Template → Record → Option (List Piece)}

theorem reaches_node (h : ∀ d scope, Reaches (f d scope) (g d scope)) (isRoot : Bool)
    (scopes : List Record) (root : Node) :
    Reaches (node settings (including known f) isRoot scopes root)
      (node settings (including known g) isRoot scopes root) :=
  (approaches_node (fun d scope => (h d scope).approaches) isRoot scopes root).reaches

theorem reaches_nodes (h : ∀ d scope, Reaches (f d scope) (g d scope)) (scopes : List Record)
    (children : List Node) :
    Reaches (nodes settings (including known f) scopes children)
      (nodes settings (including known g) scopes children) :=
  (approaches_nodes (fun d scope => (h d scope).approaches) scopes children).reaches

end Stencil.Render
