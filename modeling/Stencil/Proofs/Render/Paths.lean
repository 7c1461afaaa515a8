import Stencil.Proofs.Live.Address
import Stencil.Proofs.Live.ReverseLookup
import Stencil.Proofs.Live.Room
import Stencil.Proofs.Point.Survey
import Stencil.Proofs.Render.Positions

/-! # Where compiled paths lead

The survey assigns a path to a point before anything is rendered. In what a plain template renders
to, whatever the data, the path leads to the emission of the point's node that the indices name, and
nowhere if there is none.
-/
namespace Stencil.Render
open Labelled Live Survey
variable {settings : Settings} {lookup : String → Option Descriptor} {owner name : String}
  {path rel : Path} {id : NodeId} {indices rest : List Nat} {node child : Node}
  {pre post : List Node} {point : PointSpec} {entry : PointEntry} {s : Selector} {o : Outline}
  {ms ns : List Nat} {n j : Nat} {address : List Nat}

/-- The indices of a child's path below emission `j` of the child: it takes one itself if it is
repeated. -/
def chosen (point : PointSpec) (j : Nat) (rest : List Nat) : List Nat :=
  if point.isMultiple then j :: rest else rest

theorem extended_append (point : PointSpec) (indices : List Nat) (j : Nat) (rest : List Nat) :
    extended point indices j ++ rest = indices ++ chosen point j rest := by
  unfold extended chosen
  split
  · rw [List.append_assoc, List.singleton_append]
  · rfl

def segmentBetween (pre : List Node) (child : Node) (post : List Node) : Segment :=
  (Placement.between (pre.map Footprint.ofNode) (post.map Footprint.ofNode)
    (Footprint.ofNode child)).segment

def FixedBetween (pre : List Node) (child : Node) (post : List Node) : Prop :=
  (Placement.between (pre.map Footprint.ofNode) (post.map Footprint.ofNode)
    (Footprint.ofNode child)).isFixed

theorem cardinality_of_repeated {key : String} (hpoint : child.point? = some point)
    (h : Footprint.ofNode child = .repeated key) : point.cardinality = .multiple := by
  unfold Footprint.ofNode at h
  rw [hpoint] at h
  cases hc : point.cardinality with
  | multiple => rfl
  | single => simp [hc] at h

theorem cases_fixed (hpoint : child.point? = some point) (hfixed : FixedBetween pre child post) :
    (Footprint.ofNode child = .element ∧ (segmentBetween pre child post).key? = none ∧
        ∀ j rest, chosen point j rest = rest) ∨
      ∃ key, Footprint.ofNode child = .repeated key ∧
        segmentBetween pre child post =
          .repeated key (Footprint.taken (pre.map Footprint.ofNode))
            (Footprint.taken (post.map Footprint.ofNode)) ∧
        ∀ j rest, chosen point j rest = j :: rest := by
  cases hf : Footprint.ofNode child with
  | none =>
    unfold FixedBetween at hfixed
    rw [hf] at hfixed
    cases hfixed
  | element =>
    have hsingle := cardinality_of_element hpoint hf
    refine .inl ⟨rfl, ?_, fun j rest => by simp [chosen, PointSpec.isMultiple, hsingle]⟩
    rw [segmentBetween, hf, Placement.between]
    split <;> rfl
  | repeated key =>
    have hmultiple := cardinality_of_repeated hpoint hf
    refine .inr ⟨key, rfl, ?_, fun j rest => by simp [chosen, PointSpec.isMultiple, hmultiple]⟩
    rw [segmentBetween, hf, Placement.between]

theorem keys_of_chosen (hpoint : child.point? = some point) (hfixed : FixedBetween pre child post)
    (hkeys : (Path.keys (segmentBetween pre child post :: rel)).map s.index? =
      (chosen point j rest).map some) :
    rel.keys.map s.index? = rest.map some := by
  rcases cases_fixed hpoint hfixed with ⟨_, hkey, hchosen⟩ | ⟨key, _, hsegment, hchosen⟩
  · rwa [Path.keys_fixed hkey, hchosen] at hkeys
  · rw [hsegment, hchosen] at hkeys
    exact (List.cons.inj hkeys).2

theorem resolve_single (hf : Footprint.ofNode child = .element)
    (hfixed : FixedBetween pre child post)
    (hms : List.Forall₂ Footprint.Admits (pre.map Footprint.ofNode) ms)
    (hns : List.Forall₂ Footprint.Admits (post.map Footprint.ofNode) ns)
    (hwords : post.length + 1 < wordSize) (index? : Option Nat) :
    (segmentBetween pre child post).resolve index? (ms.sum + 1 + ns.sum) = .ok (some ms.sum) := by
  unfold FixedBetween at hfixed
  rw [hf] at hfixed
  rw [segmentBetween, hf]
  have htaken := Footprint.taken_le_length (post.map Footprint.ofNode)
  rw [List.length_map] at htaken
  exact (Placement.resolve_element hfixed hms hns (fun _ => by omega) index?).2

theorem resolve_chosen {key : String} {i : Nat} (hf : Footprint.ofNode child = .repeated key)
    (hfixed : FixedBetween pre child post)
    (hms : List.Forall₂ Footprint.Admits (pre.map Footprint.ofNode) ms)
    (hns : List.Forall₂ Footprint.Admits (post.map Footprint.ofNode) ns)
    (hword : Footprint.taken (pre.map Footprint.ofNode) + i +
      Footprint.taken (post.map Footprint.ofNode) < wordSize) (n p : Nat) :
    (segmentBetween pre child post).resolve (some i) (ms.sum + n + ns.sum) = .ok (some p) ↔
      i < n ∧ p = ms.sum + i := by
  unfold FixedBetween at hfixed
  rw [hf] at hfixed
  rw [segmentBetween, hf]
  exact Placement.resolve_repeated hfixed hms hns hword n p

/-- A fixed segment leads to the emissions of its child, each under its own index. -/
theorem leads_child (hpoint : child.point? = some point) (hfixed : FixedBetween pre child post)
    (hms : List.Forall₂ Footprint.Admits (pre.map Footprint.ofNode) ms)
    (hns : List.Forall₂ Footprint.Admits (post.map Footprint.ofNode) ns)
    (hn : (Footprint.ofNode child).Admits n) (hcount : o.children.length = ms.sum + n + ns.sum)
    (hwords : post.length + 1 < wordSize) (hfits : s.Fits (segmentBetween pre child post :: rel))
    (hkeys : (Path.keys (segmentBetween pre child post :: rel)).map s.index? = indices.map some) :
    o.Leads (segmentBetween pre child post :: rel) indices address ↔
      ∃ j rest o' address', j < n ∧ indices = chosen point j rest ∧
        address = (ms.sum + j) :: address' ∧ o.children[ms.sum + j]? = some o' ∧
        o'.Leads rel rest address' := by
  rcases cases_fixed hpoint hfixed with ⟨hf, hkey, hchosen⟩ | ⟨key, hf, hsegment, hchosen⟩
  · obtain rfl : n = 1 := by rwa [hf] at hn
    have hresolve := resolve_single hf hfixed hms hns hwords none
    rw [← hcount] at hresolve
    generalize segmentBetween pre child post = segment at *
    constructor
    · intro h
      cases h with
      | fixed _ resolved taken hrest =>
        obtain rfl := Option.some.inj (Except.ok.inj (resolved.symm.trans hresolve))
        exact ⟨0, indices, _, _, Nat.one_pos, (hchosen 0 indices).symm, rfl, taken, hrest⟩
      | repeated => cases hkey
    · rintro ⟨j, rest, o', address', hj, rfl, rfl, taken, hrest⟩
      obtain rfl := Nat.lt_one_iff.1 hj
      rw [hchosen]
      exact .fixed hkey hresolve taken hrest
  · have hresolve {i : Nat} (hi : s.index? key = some i) (p : Nat) :
        (segmentBetween pre child post).resolve (some i) o.children.length = .ok (some p) ↔
          i < n ∧ p = ms.sum + i := by
      rw [hsegment] at hfits
      have hword := hfits _ _ _ List.mem_cons_self i hi
      rw [hcount]
      exact resolve_chosen hf hfixed hms hns hword n p
    rw [hsegment] at hkeys hresolve ⊢
    constructor
    · intro h
      cases h with
      | fixed hkey => cases hkey
      | repeated resolved taken hrest =>
        obtain ⟨hlt, rfl⟩ := (hresolve (List.cons.inj hkeys).1 _).1 resolved
        exact ⟨_, _, _, _, hlt, (hchosen _ _).symm, rfl, taken, hrest⟩
    · rintro ⟨j, rest, o', address', hj, rfl, rfl, taken, hrest⟩
      rw [hchosen] at hkeys ⊢
      exact .repeated ((hresolve (List.cons.inj hkeys).1 _).2 ⟨hj, rfl⟩) taken hrest

/-- From an emission of the node on, the path leads to what has the label of the target, under the
indices that it takes. -/
def Follows (settings : Settings) (rel : Path) (node : Node) (id target : NodeId) : Prop :=
  ∀ (m : Labelled) (o : Outline) (s : Selector) (above indices address : List Nat),
    Stands settings m ⟨id, above⟩ node.inner → m.Pictures o → s.Fits rel →
      rel.keys.map s.index? = indices.map some →
        (o.Leads rel indices address ↔ labelAt? address m = some ⟨target, above ++ indices⟩)

theorem follows_nil (hplain : node.Plain settings) (id : NodeId) :
    Follows settings [] node id id := by
  intro m o s above indices address hm _ _ hkeys
  obtain rfl : indices = [] := List.map_eq_nil_iff.1 hkeys.symm
  rw [List.append_nil]
  constructor
  · intro h
    cases h
    exact hm.label?
  · intro h
    rcases range_of_labelAt? hm hplain.inner h with ⟨rfl, _⟩ | ⟨hlow, _, _⟩
    · exact .here o
    · exact absurd hlow (Nat.lt_irrefl _)

/-- What is found below an emission under a number of the child is found below one of the child's
own emissions. -/
theorem found_in_child {label l : Label} {m : Labelled} {scopes : List Record}
    (hplain : ∀ c ∈ pre ++ child :: post, c.Plain settings)
    (hm : m.label? = some label)
    (hinner : m.inner = elements (labelledList settings (label.node + 1) label.indices scopes
      (pre ++ child :: post)))
    (hlow : label.node + 1 + Node.sizeList pre ≤ l.node)
    (hhigh : l.node < label.node + 1 + Node.sizeList pre + child.size)
    (h : labelAt? address m = some l) :
    ∃ j c address', address = ((elements (labelledList settings (label.node + 1) label.indices
        scopes pre)).length + j) :: address' ∧
      (elements (labelled settings (label.node + 1 + Node.sizeList pre) label.indices false scopes
        child))[j]? = some c ∧ labelAt? address' c = some l := by
  cases address with
  | nil =>
    obtain rfl := Option.some.inj (hm.symm.trans h)
    simp only [NodeId] at hlow
    omega
  | cons k address =>
    rw [labelAt?, hinner, Option.bind_eq_some_iff] at h
    obtain ⟨c, hc, hl⟩ := h
    obtain ⟨pre', child', post', j, hsplit, rfl, hj⟩ := split_of_getElem? hc
    have hmem : child' ∈ pre ++ child :: post := by simp [hsplit]
    obtain ⟨_, _, hlow', hhigh', _⟩ := range_of_child (hplain child' hmem) hj hl
    simp only [NodeId] at hlow hhigh hlow' hhigh'
    -- the ranges of two different children are apart
    have hlength : pre.length = pre'.length := by
      rcases Nat.lt_trichotomy pre.length pre'.length with hlt | heq | hlt
      · have := Node.sizeList_of_split hsplit hlt
        omega
      · exact heq
      · have := Node.sizeList_of_split hsplit.symm hlt
        omega
    obtain ⟨rfl, htail⟩ := List.append_inj hsplit hlength
    obtain ⟨rfl, rfl⟩ := List.cons.inj htail
    exact ⟨j, c, address, rfl, hj, hl⟩

/-- The path of a child with a fixed placement goes on from the emissions of the child. -/
theorem follows_child {tag : String} {own : PointSpec} {attributes : Attributes} {target : NodeId}
    (hplain : ∀ c ∈ pre ++ child :: post, c.Plain settings) (hpoint : child.point? = some point)
    (hfixed : FixedBetween pre child post) (hwords : post.length + 1 < wordSize)
    (hlow : id + 1 + Node.sizeList pre ≤ target)
    (hhigh : target < id + 1 + Node.sizeList pre + child.size)
    (ih : Follows settings rel child (id + 1 + Node.sizeList pre) target) :
    Follows settings (segmentBetween pre child post :: rel)
      (.element tag own attributes (pre ++ child :: post)) id target := by
  intro m o s above indices address hm ho hfits hkeys
  have hpictures := ho.inner
  have hinner : m.inner = [] ∨ ∃ scopes,
      m.inner = elements (labelledList settings (id + 1) above scopes (pre ++ child :: post)) :=
    hm.inner
  rcases hinner with hnil | ⟨scopes, hinner⟩
  · -- an element that shows nothing has no children to go to
    rw [hnil] at hpictures
    have hchildren := List.forall₂_nil_left_iff.1 hpictures
    refine iff_of_false (Outline.not_leads_of_childless hchildren _ _ _ _) fun h => ?_
    have hlabel := Option.some.inj (hm.label?.symm.trans (labelAt?_of_empty hnil h))
    obtain rfl := (Label.mk.inj hlabel).1
    simp only [NodeId] at hlow
    omega
  · have hchild := hplain child (by simp)
    have hn := admits_labelled hchild (id + 1 + Node.sizeList pre) above scopes
    obtain ⟨ms, ns, hms, hns, hmsum, hcount⟩ := counts_of_split hplain (id + 1) above scopes
    rw [← hinner, hpictures.length_eq] at hcount
    have hinner_child {j : Nat} {c : Labelled} (hj : (elements (labelled settings
        (id + 1 + Node.sizeList pre) above false scopes child))[j]? = some c) :
        m.inner[ms.sum + j]? = some c := by
      rw [hinner, hmsum]
      exact getElem?_labelledList pre post hj
    have hemission {j : Nat} {c : Labelled} (hj : (elements (labelled settings
        (id + 1 + Node.sizeList pre) above false scopes child))[j]? = some c) :
        Stands settings c ⟨id + 1 + Node.sizeList pre, extended point above j⟩ child.inner := by
      obtain ⟨_, hpoint', hstands⟩ := stands_of_child hchild hj
      obtain rfl := Option.some.inj (hpoint.symm.trans hpoint')
      exact hstands
    rw [leads_child hpoint hfixed hms hns hn hcount hwords hfits hkeys]
    constructor
    · rintro ⟨j, rest, o', address', hj, rfl, rfl, ho', hrest⟩
      have hc := List.getElem?_eq_getElem hj
      obtain ⟨_, ho'', hpictures'⟩ := ho.taken (hinner_child hc)
      obtain rfl := Option.some.inj (ho'.symm.trans ho'')
      have hlabel := (ih _ _ _ _ _ _ (hemission hc) hpictures' hfits.tail
        (keys_of_chosen hpoint hfixed hkeys)).1 hrest
      rw [labelAt?, hinner_child hc, Option.bind_some, hlabel, extended_append]
    · intro h
      obtain ⟨j, c, address', rfl, hj, hl⟩ :=
        found_in_child hplain hm.label? hinner hlow hhigh h
      obtain ⟨_, hpoint', _, _, rest, hindices⟩ := range_of_child hchild hj hl
      obtain rfl := Option.some.inj (hpoint.symm.trans hpoint')
      rw [extended_append] at hindices
      obtain rfl := List.append_cancel_left hindices
      obtain ⟨o', ho', hpictures'⟩ := ho.taken (hinner_child hj)
      have hlt := (List.getElem?_eq_some_iff.1 hj).1
      refine ⟨j, rest, o', address', hlt, rfl, by rw [hmsum], ho', ?_⟩
      refine (ih _ _ _ _ _ _ (hemission hj) hpictures' hfits.tail
        (keys_of_chosen hpoint hfixed hkeys)).2 ?_
      rw [extended_append]
      exact hl

theorem fitsIn_segmentBetween (h : pre.length + post.length < n) :
    (segmentBetween pre child post).FitsIn n :=
  Placement.fitsIn_between _ _ _ (by rwa [List.length_map, List.length_map])

/-- The path of a point leads to the emissions of the node of the point, from whatever is emitted by
the node that the path begins at. -/
theorem follows_of_visit (hplain : node.Plain settings) (hwords : node.size ≤ wordSize)
    (h : .point name entry ∈ visit lookup owner path false id node) :
    id ≤ entry.node ∧ entry.node < id + node.size ∧
      ∃ rel, entry.path = path ++ rel ∧ (∀ segment ∈ rel, segment.FitsIn wordSize) ∧
        Follows settings rel node id entry.node := by
  induction hplain generalizing path id with
  | text => cases h
  | @element tag point attributes children word written parent keys inner ih =>
    rw [Node.size_element] at hwords ⊢
    rcases point_of_visit h with ⟨hnode, hpath, _⟩ | ⟨pre, child, post, rfl, hfixed, hchild⟩
    · rw [hnode]
      exact ⟨Nat.le_refl id, Nat.lt_add_of_pos_right (Nat.succ_pos _), [],
        by rw [hpath, List.append_nil], nofun,
        follows_nil (.element word written parent keys inner) id⟩
    · have hmem : child ∈ pre ++ child :: post := by simp
      have hsize := Node.sizeList_append pre (child :: post)
      have hlength := Node.length_le_sizeList (pre ++ child :: post)
      rw [List.length_append, List.length_cons] at hlength
      rw [Node.sizeList_cons] at hsize
      have hpos := child.size_pos
      obtain ⟨hlow, hhigh, rel, hpath, hfits, hfollows⟩ := ih child hmem (by omega) hchild
      obtain ⟨point, hpoint⟩ : ∃ point, child.point? = some point := by
        have hplain := inner child hmem
        cases hplain with
        | text => cases hchild
        | element => exact ⟨_, rfl⟩
      have hwithin : id ≤ entry.node ∧
          entry.node < id + (Node.sizeList (pre ++ child :: post) + 1) := by
        simp only [NodeId] at hlow hhigh ⊢
        omega
      refine ⟨hwithin.1, hwithin.2, segmentBetween pre child post :: rel, ?_, ?_, ?_⟩
      · rw [hpath, List.append_assoc]
        rfl
      · exact List.forall_mem_cons.2 ⟨fitsIn_segmentBetween (by omega), hfits⟩
      · exact follows_child inner hpoint hfixed (by omega) hlow hhigh hfollows

end Stencil.Render
