import Stencil.Proofs.Render.Labels

/-! # Positions of labels

An emitted element carries the number of its node, and what stands inside it carries the numbers of
the nodes below, in the same order. So the label of a node is found only among the emissions of the
child that the node belongs to, and only inside the repetition that its indices begin with.
-/
namespace Stencil.Render
open Labelled
variable {settings : Settings} {isRoot : Bool} {scopes : List Record} {id next : NodeId}
  {indices : List Nat} {child : Node} {pre post children : List Node} {tag : String}
  {point : PointSpec} {attributes : Attributes} {m : Labelled} {label l : Label} {i j k : Nat}
  {address : List Nat}

/-- The element was emitted by a node with these children: it shows nothing, or what they emit. -/
structure Stands (settings : Settings) (m : Labelled) (label : Label) (children : List Node) :
    Prop where
  label? : m.label? = some label
  inner : m.inner = [] ∨ ∃ scopes,
    m.inner = elements (labelledList settings (label.node + 1) label.indices scopes children)

theorem label?_enclose (label : Label) (tag : String) (attributes : Attributes)
    (content : List Labelled) :
    (enclose settings label tag attributes content).label? = some label := by
  unfold enclose
  split <;> rfl

theorem inner_enclose (label : Label) (tag : String) (attributes : Attributes)
    (content : List Labelled) :
    (enclose settings label tag attributes content).inner = [] ∨
      (enclose settings label tag attributes content).inner = elements content := by
  unfold enclose
  split
  · exact .inl rfl
  · exact .inr rfl

theorem stands_emission (label : Label) (tag : String) (point : PointSpec) (attributes : Attributes)
    (scopes : List Record) (children : List Node) (emission : Emission) :
    Stands settings (labelledEmission settings label tag point attributes scopes
      (fun scopes => labelledList settings (label.node + 1) label.indices scopes children) emission)
      label children := by
  unfold labelledEmission
  cases emission.value with
  | none => exact ⟨label?_enclose .., (inner_enclose ..).imp_right fun h => ⟨scopes, h⟩⟩
  | some value =>
    cases value with
    | scalar markup => exact ⟨label?_enclose .., .inl ((inner_enclose ..).elim id id)⟩
    | item fields =>
      exact ⟨label?_enclose .., (inner_enclose ..).imp_right fun h => ⟨fields :: scopes, h⟩⟩
    | sequence items => exact ⟨rfl, .inl rfl⟩

theorem single_of_error {message : String} (h : emissions point isRoot scopes = .error message) :
    point.cardinality = .single := by
  cases hc : point.cardinality with
  | single => rfl
  | multiple =>
    unfold emissions at h
    simp only [hc] at h
    split at h <;> simp_all

theorem extended_single (h : point.cardinality = .single) (indices : List Nat) (i : Nat) :
    extended point indices i = indices := by
  simp [extended, PointSpec.isMultiple, h]

theorem stands_of_getElem?
    (h : (labelled settings id indices isRoot scopes (.element tag point attributes children))[i]? =
      some m) :
    Stands settings m ⟨id, extended point indices i⟩ children := by
  rw [labelled] at h
  cases he : emissions point isRoot scopes with
  | error message =>
    rw [he] at h
    have hm : m = .marker ⟨id, indices⟩ message := List.mem_singleton.1 (List.mem_of_getElem? h)
    rw [hm, extended_single (single_of_error he)]
    exact ⟨rfl, .inl rfl⟩
  | ok found =>
    rw [he] at h
    simp only [List.getElem?_mapIdx] at h
    obtain ⟨emission, _, rfl⟩ := Option.map_eq_some_iff.1 h
    exact stands_emission ⟨id, extended point indices i⟩ tag point attributes scopes children
      emission

theorem elements_labelled :
    elements (labelled settings id indices isRoot scopes (.element tag point attributes children)) =
      labelled settings id indices isRoot scopes (.element tag point attributes children) := by
  refine elements_eq_self fun m hm => ?_
  obtain ⟨i, hi⟩ := List.getElem?_of_mem hm
  exact Option.isSome_of_eq_some (stands_of_getElem? hi).label?

theorem length_labelled_single (h : point.cardinality = .single) :
    (labelled settings id indices isRoot scopes
      (.element tag point attributes children)).length = 1 := by
  rw [labelled]
  rcases emissions_single h isRoot scopes with ⟨message, he⟩ | ⟨emission, he⟩
  · rw [he]
    rfl
  · rw [he]
    rfl

theorem stands_of_child (h : child.Plain settings)
    (hj : (elements (labelled settings id indices isRoot scopes child))[j]? = some m) :
    ∃ point, child.point? = some point ∧
      Stands settings m ⟨id, extended point indices j⟩ child.inner := by
  cases h with
  | text => cases hj
  | element =>
    rw [elements_labelled] at hj
    exact ⟨_, rfl, stands_of_getElem? hj⟩

theorem admits_labelled (h : child.Plain settings) (id : NodeId) (indices : List Nat)
    (scopes : List Record) :
    (Footprint.ofNode child).Admits
      (elements (labelled settings id indices false scopes child)).length := by
  cases h with
  | text => rfl
  | @element tag point attributes children =>
    rw [elements_labelled]
    cases hf : Footprint.ofNode (.element tag point attributes children) with
    | element => exact length_labelled_single (cardinality_of_element rfl hf)
    | repeated key => exact trivial
    | none =>
      obtain ⟨hmultiple, hid⟩ := anonymous_of_none rfl hf
      rw [labelled, emissions_anonymous hmultiple hid]
      rfl

theorem labelledList_append (next : NodeId) (indices : List Nat) (scopes : List Record)
    (pre post : List Node) :
    labelledList settings next indices scopes (pre ++ post) =
      labelledList settings next indices scopes pre ++
        labelledList settings (next + Node.sizeList pre) indices scopes post := by
  induction pre generalizing next with
  | nil => rfl
  | cons child pre ih =>
    rw [List.cons_append, labelledList, labelledList, ih, Node.sizeList_cons, Nat.add_assoc,
      List.append_assoc]

theorem elements_labelledList (next : NodeId) (indices : List Nat) (scopes : List Record)
    (pre : List Node) (child : Node) (post : List Node) :
    elements (labelledList settings next indices scopes (pre ++ child :: post)) =
      elements (labelledList settings next indices scopes pre) ++
        (elements (labelled settings (next + Node.sizeList pre) indices false scopes child) ++
          elements (labelledList settings (next + Node.sizeList pre + child.size) indices scopes
            post)) := by
  rw [labelledList_append, labelledList, elements_append, elements_append]

theorem admits_labelledList (h : ∀ child ∈ children, child.Plain settings) (next : NodeId)
    (indices : List Nat) (scopes : List Record) :
    ∃ ns : List Nat, List.Forall₂ Footprint.Admits (children.map Footprint.ofNode) ns ∧
      ns.sum = (elements (labelledList settings next indices scopes children)).length := by
  induction children generalizing next with
  | nil => exact ⟨[], .nil, rfl⟩
  | cons child rest ih =>
    obtain ⟨ns, hns, hsum⟩ :=
      ih (fun c hc => h c (List.mem_cons_of_mem child hc)) (next + child.size)
    refine ⟨_, .cons (admits_labelled (h child List.mem_cons_self) next indices scopes) hns, ?_⟩
    rw [List.sum_cons, hsum, labelledList, elements_append, List.length_append]

theorem getElem?_labelledList (pre : List Node) (post : List Node)
    (hj : (elements (labelled settings (next + Node.sizeList pre) indices false scopes child))[j]? =
      some m) :
    (elements (labelledList settings next indices scopes (pre ++ child :: post)))[
      (elements (labelledList settings next indices scopes pre)).length + j]? = some m := by
  rw [elements_labelledList, List.getElem?_append_right (Nat.le_add_right ..),
    Nat.add_sub_cancel_left, List.getElem?_append_left (List.getElem?_eq_some_iff.1 hj).1, hj]

theorem counts_of_split (h : ∀ c ∈ pre ++ child :: post, c.Plain settings) (next : NodeId)
    (indices : List Nat) (scopes : List Record) :
    ∃ ms ns : List Nat, List.Forall₂ Footprint.Admits (pre.map Footprint.ofNode) ms ∧
      List.Forall₂ Footprint.Admits (post.map Footprint.ofNode) ns ∧
      ms.sum = (elements (labelledList settings next indices scopes pre)).length ∧
      (elements (labelledList settings next indices scopes (pre ++ child :: post))).length =
        ms.sum + (elements (labelled settings (next + Node.sizeList pre) indices false scopes
          child)).length + ns.sum := by
  have hpre : ∀ c ∈ pre, c.Plain settings := fun c hc => h c (List.mem_append_left _ hc)
  have hpost : ∀ c ∈ post, c.Plain settings := fun c hc =>
    h c (List.mem_append_right pre (List.mem_cons_of_mem child hc))
  obtain ⟨ms, hms, hmsum⟩ := admits_labelledList hpre next indices scopes
  obtain ⟨ns, hns, hnsum⟩ :=
    admits_labelledList hpost (next + Node.sizeList pre + child.size) indices scopes
  refine ⟨ms, ns, hms, hns, hmsum, ?_⟩
  rw [elements_labelledList, List.length_append, List.length_append, hmsum, hnsum]
  exact (Nat.add_assoc ..).symm

theorem split_of_getElem?
    (h : (elements (labelledList settings next indices scopes children))[k]? = some m) :
    ∃ pre child post j, children = pre ++ child :: post ∧
      k = (elements (labelledList settings next indices scopes pre)).length + j ∧
      (elements (labelled settings (next + Node.sizeList pre) indices false scopes child))[j]? =
        some m := by
  induction children generalizing next k with
  | nil => cases h
  | cons child rest ih =>
    rw [labelledList, elements_append] at h
    by_cases hk : k < (elements (labelled settings next indices false scopes child)).length
    · rw [List.getElem?_append_left hk] at h
      exact ⟨[], child, rest, k, rfl, (Nat.zero_add k).symm, h⟩
    · rw [List.getElem?_append_right (Nat.le_of_not_lt hk)] at h
      obtain ⟨pre, child', post, j, rfl, hj, hm⟩ := ih h
      refine ⟨child :: pre, child', post, j, rfl, ?_, ?_⟩
      · rw [labelledList, elements_append, List.length_append]
        omega
      · rw [Node.sizeList_cons, ← Nat.add_assoc]
        exact hm

/-! ## Ranges -/

theorem split_of_labelAt? (hm : Stands settings m label children)
    (h : labelAt? (k :: address) m = some l) :
    ∃ scopes pre child post j c, children = pre ++ child :: post ∧
      m.inner = elements (labelledList settings (label.node + 1) label.indices scopes children) ∧
      k = (elements (labelledList settings (label.node + 1) label.indices scopes pre)).length + j ∧
      (elements (labelled settings (label.node + 1 + Node.sizeList pre) label.indices false scopes
        child))[j]? = some c ∧ labelAt? address c = some l := by
  rw [labelAt?, Option.bind_eq_some_iff] at h
  obtain ⟨c, hc, hl⟩ := h
  rcases hm.inner with hnil | ⟨scopes, hinner⟩
  · rw [hnil] at hc
    cases hc
  · rw [hinner] at hc
    obtain ⟨pre, child, post, j, hsplit, hk, hj⟩ := split_of_getElem? hc
    exact ⟨scopes, pre, child, post, j, c, hsplit, hinner, hk, hj, hl⟩

theorem extended_prefix (point : PointSpec) (indices : List Nat) (i : Nat) :
    indices <+: extended point indices i := by
  unfold extended
  split
  · exact List.prefix_append ..
  · exact List.prefix_refl _

theorem range_of_labelAt? (hm : Stands settings m label children)
    (hplain : ∀ child ∈ children, child.Plain settings) (h : labelAt? address m = some l) :
    (address = [] ∧ l = label) ∨
      (label.node < l.node ∧ l.node < label.node + 1 + Node.sizeList children ∧
        label.indices <+: l.indices) := by
  induction address generalizing m label children with
  | nil => exact .inl ⟨rfl, Option.some.inj (h.symm.trans hm.label?)⟩
  | cons k address ih =>
    obtain ⟨scopes, pre, child, post, j, c, rfl, _, _, hj, hl⟩ := split_of_labelAt? hm h
    right
    have hsize : Node.sizeList (pre ++ child :: post) =
        Node.sizeList pre + (child.size + Node.sizeList post) := by
      rw [Node.sizeList_append, Node.sizeList_cons]
    obtain ⟨point, _, hc⟩ := stands_of_child (hplain child (by simp)) hj
    have hinner := (hplain child (by simp)).inner
    have hlt := child.sizeList_inner_lt
    have hprefix := extended_prefix point label.indices j
    rcases ih hc hinner hl with ⟨_, rfl⟩ | ⟨hlow, hhigh, hindices⟩
    · simp only [NodeId]
      exact ⟨by omega, by omega, hprefix⟩
    · simp only [NodeId] at hlow hhigh ⊢
      exact ⟨by omega, by omega, hprefix.trans hindices⟩

theorem range_of_child (h : child.Plain settings)
    (hj : (elements (labelled settings id indices isRoot scopes child))[j]? = some m)
    (hl : labelAt? address m = some l) :
    ∃ point, child.point? = some point ∧ id ≤ l.node ∧ l.node < id + child.size ∧
      extended point indices j <+: l.indices := by
  obtain ⟨point, hpoint, hm⟩ := stands_of_child h hj
  have hlt := child.sizeList_inner_lt
  refine ⟨point, hpoint, ?_⟩
  rcases range_of_labelAt? hm h.inner hl with ⟨_, rfl⟩ | ⟨hlow, hhigh, hindices⟩
  · simp only [NodeId]
    exact ⟨by omega, by omega, List.prefix_refl _⟩
  · simp only [NodeId] at hlow hhigh ⊢
    exact ⟨by omega, by omega, hindices⟩

end Stencil.Render
