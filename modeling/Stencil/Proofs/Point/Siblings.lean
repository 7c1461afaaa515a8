import Stencil.Proofs.Point.Placement

/-! # Siblings in a row

The children of a node show their elements one behind the other: a single child one, a repeated
child with a name as many as are bound to it, any other child none. Whatever these numbers are, the
segment of a child with a fixed placement leads to the elements of that child, and only they are
recognized by it.

A position is a machine word, and so is the sum of a position and of the elements behind the
repetitions. For an index so large that this sum is none, there is no answer instead of the answer
that there is no such repetition.
-/
namespace Stencil

/-! ## What a child may show -/

namespace Node

/-- The node is an element or a reference that is not repeated. -/
def IsUnrepeated (m : Node) : Prop := ∃ point, m.point? = some point ∧ point.cardinality = .single

/-- How many elements a child may show. -/
inductive MayShow (m : Node) : Nat → Prop
  | single (h : m.IsUnrepeated) : MayShow m 1
  | repeated {key : String} (h : m.RepeatedAs key) (n : Nat) : MayShow m n
  | nothing (single : ¬ m.IsUnrepeated) (repeated : ∀ key, ¬ m.RepeatedAs key) : MayShow m 0

end Node

namespace Footprint
variable {m : Node} {key : String} {n : Nat}

theorem ofNode_eq_element : ofNode m = element ↔ m.IsUnrepeated := by
  unfold ofNode Node.IsUnrepeated
  cases m.point? with
  | none => simp
  | some point =>
    obtain ⟨id, cardinality, exported⟩ := point
    cases cardinality <;> cases id <;> simp

theorem ofNode_eq_repeated : ofNode m = repeated key ↔ m.RepeatedAs key := by
  rw [← key?_ofNode]
  cases ofNode m <;> simp [key?]

theorem admits_ofNode : (ofNode m).Admits n ↔ m.MayShow n := by
  constructor
  · intro h
    cases hf : ofNode m with
    | none =>
      rw [hf] at h
      obtain rfl : n = 0 := h
      apply Node.MayShow.nothing
      · simp [← ofNode_eq_element, hf]
      · simp [← ofNode_eq_repeated, hf]
    | element =>
      rw [hf] at h
      obtain rfl : n = 1 := h
      exact .single (ofNode_eq_element.1 hf)
    | repeated key => exact .repeated (ofNode_eq_repeated.1 hf) n
  · intro h
    cases h with
    | single h =>
      rw [ofNode_eq_element.2 h]
      exact rfl
    | repeated h =>
      rw [ofNode_eq_repeated.2 h]
      exact trivial
    | nothing single repeated =>
      cases hf : ofNode m with
      | none => rfl
      | element => exact absurd (ofNode_eq_element.1 hf) single
      | repeated key => exact absurd (ofNode_eq_repeated.1 hf) (repeated key)

end Footprint

/-! ## The row -/

namespace Placement
open Footprint
variable {children : List Node} {counts : List Nat} {k k' p : Nat} {child : Node} {n : Nat}
  {placement : Placement} {key : String}

/-- Where the elements of child `k` begin: behind all those of the children in front of it. -/
def start (counts : List Nat) (k : Nat) : Nat := (counts.take k).sum

def Belongs (counts : List Nat) (k p : Nat) : Prop :=
  start counts k ≤ p ∧ p < start counts (k + 1)

instance : Decidable (Belongs counts k p) := inferInstanceAs (Decidable (_ ∧ _))

/-- Child `k` of these children shows `n` elements, and the survey has given it this placement. -/
structure Placed (children : List Node) (counts : List Nat) (k : Nat) (child : Node) (n : Nat)
    (placement : Placement) : Prop where
  child : children[k]? = some child
  count : counts[k]? = some n
  placement : (ofFootprints (children.map Footprint.ofNode))[k]? = some placement

theorem eq_take_append_of_getElem? {α : Type} {l : List α} {a : α} (h : l[k]? = some a) :
    l = l.take k ++ a :: l.drop (k + 1) := by
  obtain ⟨hk, rfl⟩ := List.getElem?_eq_some_iff.1 h
  rw [← List.drop_eq_getElem_cons hk, List.take_append_drop]

theorem sum_split (h : counts[k]? = some n) :
    start counts k + n + (counts.drop (k + 1)).sum = counts.sum := by
  conv_rhs => rw [eq_take_append_of_getElem? h]
  rw [List.sum_append, List.sum_cons, start, Nat.add_assoc]

theorem start_succ (h : counts[k]? = some n) : start counts (k + 1) = start counts k + n := by
  simp [start, List.take_add_one, h]

theorem start_mono (h : k ≤ k') : start counts k ≤ start counts k' := by
  induction h with
  | refl => exact Nat.le_refl _
  | @step m _ ih =>
    apply Nat.le_trans ih
    simp [start, List.take_add_one]

theorem Belongs.unique (h : Belongs counts k p) (h' : Belongs counts k' p) : k = k' := by
  obtain ⟨hfrom, hto⟩ := h
  obtain ⟨hfrom', hto'⟩ := h'
  rcases Nat.lt_trichotomy k k' with hlt | rfl | hlt
  · have hbehind : start counts (k + 1) ≤ start counts k' := start_mono hlt
    omega
  · rfl
  · have hbehind : start counts (k' + 1) ≤ start counts k := start_mono hlt
    omega

theorem getElem?_flatten {α : Type} {shown : List (List α)} {block : List α} {j : Nat}
    (h : shown[k]? = some block) (hj : j < block.length) :
    shown.flatten[start (shown.map List.length) k + j]? = block[j]? := by
  have hsplit : shown.flatten =
      (shown.take k).flatten ++ (block ++ (shown.drop (k + 1)).flatten) := by
    conv_lhs => rw [eq_take_append_of_getElem? h]
    rw [List.flatten_append, List.flatten_cons]
  have hstart : start (shown.map List.length) k = (shown.take k).flatten.length := by
    rw [start, List.length_flatten, List.map_take]
  rw [hsplit, hstart, List.getElem?_append_right (Nat.le_add_right ..), Nat.add_sub_cancel_left,
    List.getElem?_append_left hj]

theorem between_of_getElem? (h : children[k]? = some child) :
    (ofFootprints (children.map ofNode))[k]? = some (between ((children.take k).map ofNode)
      ((children.drop (k + 1)).map ofNode) (ofNode child)) := by
  have hk : ((children.take k).map ofNode).length = k := by
    obtain ⟨hlt, _⟩ := List.getElem?_eq_some_iff.1 h
    rw [List.length_map, List.length_take, Nat.min_eq_left (Nat.le_of_lt hlt)]
  have hplaced := getElem?_ofFootprints ((children.take k).map ofNode)
    ((children.drop (k + 1)).map ofNode) (ofNode child)
  rw [hk, ← List.map_cons, ← List.map_append, ← eq_take_append_of_getElem? h] at hplaced
  exact hplaced

/-! ### What a segment leads to -/

namespace Placed

theorem eq_between (h : Placed children counts k child n placement) :
    placement = between ((children.take k).map ofNode) ((children.drop (k + 1)).map ofNode)
      (ofNode child) :=
  Option.some.inj (h.placement.symm.trans (between_of_getElem? h.child))

theorem admits (h : Placed children counts k child n placement)
    (hshow : List.Forall₂ Node.MayShow children counts) : (ofNode child).Admits n := by
  obtain ⟨hk, rfl⟩ := List.getElem?_eq_some_iff.1 h.child
  obtain ⟨hk', rfl⟩ := List.getElem?_eq_some_iff.1 h.count
  exact admits_ofNode.2 (List.Forall₂.get hshow hk hk')

theorem shows (h : Placed children counts k child n placement) (hfixed : placement.isFixed) :
    child.IsUnrepeated ∨ ∃ key, child.RepeatedAs key := by
  rw [h.eq_between] at hfixed
  cases hf : ofNode child with
  | none =>
    rw [hf] at hfixed
    cases hfixed
  | element => exact .inl (ofNode_eq_element.1 hf)
  | repeated key => exact .inr ⟨key, ofNode_eq_repeated.1 hf⟩

end Placed

theorem admits_around (h : List.Forall₂ Node.MayShow children counts) (k : Nat) :
    List.Forall₂ Admits ((children.take k).map ofNode) (counts.take k) ∧
      List.Forall₂ Admits ((children.drop k).map ofNode) (counts.drop k) := by
  have hadmits {l : List Node} {ns : List Nat} (h : List.Forall₂ Node.MayShow l ns) :
      List.Forall₂ Admits (l.map ofNode) ns := by
    rw [List.forall₂_map_left_iff]
    exact h.imp fun _ _ => admits_ofNode.2
  exact ⟨hadmits (List.forall₂_take k h), hadmits (List.forall₂_drop k h)⟩

theorem Placed.unrepeated (h : Placed children counts k child n placement)
    (hshow : List.Forall₂ Node.MayShow children counts) (hword : counts.sum < wordSize)
    (hfixed : placement.isFixed) (hchild : child.IsUnrepeated) :
    (∀ index?, placement.segment.resolve index? counts.sum = .ok (some (start counts k))) ∧
      ∀ p, placement.segment.capture p counts.sum =
        .ok (if Belongs counts k p then some Option.none else Option.none) := by
  obtain ⟨hpre, _⟩ := admits_around hshow k
  obtain ⟨_, hpost⟩ := admits_around hshow (k + 1)
  have hone := h.admits hshow
  rw [ofNode_eq_element.2 hchild] at hone
  obtain rfl : n = 1 := hone
  have hsum := sum_split h.count
  -- Behind a repetition the position is counted from the end, and the offset is a word as well.
  have hlast : repeats ((children.drop (k + 1)).map ofNode) = 0 →
      taken ((children.drop (k + 1)).map ofNode) + 1 < wordSize := by
    intro hnone
    rw [← sum_of_admits hpost hnone]
    omega
  rw [h.eq_between, ofNode_eq_element.2 hchild] at hfixed ⊢
  rw [← hsum]
  constructor
  · intro index?
    exact (resolve_element hfixed hpre hpost hlast index?).2
  · intro p
    have hbelongs : Belongs counts k p ↔ p = start counts k := by
      rw [Belongs, start_succ h.count]
      omega
    simp only [hbelongs]
    exact capture_element hfixed hpre hpost hlast p

/-- How a segment answers that leads to the `n` repetitions from position `first` on, where `rest`
elements stand behind them. -/
structure Chooses (segment : Segment) (first n rest : Nat) : Prop where
  /-- An index leads to the repetition with that index. -/
  found : ∀ i p, segment.resolve (some i) (first + n + rest) = .ok (some p) ↔ i < n ∧ p = first + i
  absent : ∀ i, segment.resolve (some i) (first + n + rest) = .ok Option.none ↔
    n ≤ i ∧ first + i + rest < wordSize
  overflow : ∀ i, segment.resolve (some i) (first + n + rest) = .error {} ↔
    wordSize ≤ first + i + rest
  /-- Only the repetitions are recognized, each with its index. -/
  recognized : ∀ p index, segment.capture p (first + n + rest) = .ok (some index) ↔
    (first ≤ p ∧ p < first + n) ∧ index = some (p - first)
  passed : ∀ p, p + rest < wordSize → ¬ (first ≤ p ∧ p < first + n) →
    segment.capture p (first + n + rest) = .ok Option.none

theorem chooses_repeated {first rest : Nat} (hword : first + n + rest < wordSize) :
    Chooses (.repeated key first rest) first n rest where
  found i p := by
    rw [Segment.resolve_repeated]
    omega
  absent i := by
    rw [Segment.resolve_repeated_eq_none]
    omega
  overflow i := Segment.resolve_repeated_eq_error
  recognized p index := by
    constructor
    · intro h
      obtain ⟨i, rfl, hi⟩ := Segment.resolve_of_capture_repeated h
      obtain ⟨rfl, _, hlt⟩ := Segment.resolve_repeated.1 hi
      exact ⟨by omega, by rw [Nat.add_sub_cancel_left]⟩
    · rintro ⟨⟨hle, hlt⟩, rfl⟩
      rw [Segment.capture_of_le hle (by omega), if_pos (by omega)]
  passed p hp hout := by
    rcases Nat.lt_or_ge p first with hlt | hle
    · exact Segment.capture_of_lt hlt
    · rw [Segment.capture_of_le hle hp, if_neg (by omega)]

theorem Placed.repeated (h : Placed children counts k child n placement)
    (hshow : List.Forall₂ Node.MayShow children counts) (hword : counts.sum < wordSize)
    (hfixed : placement.isFixed) (hchild : child.RepeatedAs key) :
    placement.segment = .repeated key (start counts k) (counts.drop (k + 1)).sum ∧
      Chooses placement.segment (start counts k) n (counts.drop (k + 1)).sum := by
  obtain ⟨hpre, _⟩ := admits_around hshow k
  obtain ⟨_, hpost⟩ := admits_around hshow (k + 1)
  rw [← sum_split h.count] at hword
  have hsegment : placement.segment =
      .repeated key (start counts k) (counts.drop (k + 1)).sum := by
    rw [h.eq_between, ofNode_eq_repeated.2 hchild] at hfixed ⊢
    -- No sibling is repeated, so those around show as many elements as take a place.
    have halone := beq_iff_eq.1 hfixed
    rw [start, sum_of_admits hpre (by omega), sum_of_admits hpost (by omega)]
    rfl
  exact ⟨hsegment, hsegment ▸ chooses_repeated hword⟩

/-! ### Several repetitions -/

theorem isRepeated_ofNode : (ofNode child).isRepeated ↔ ∃ key, child.RepeatedAs key := by
  constructor
  · intro h
    cases hf : ofNode child with
    | none | element =>
      rw [hf] at h
      cases h
    | repeated key => exact ⟨key, ofNode_eq_repeated.1 hf⟩
  · rintro ⟨key, hkey⟩
    rw [ofNode_eq_repeated.2 hkey]
    rfl

theorem repeats_eq_zero {l : List Node} :
    repeats (l.map ofNode) = 0 ↔ ∀ c ∈ l, ∀ key, ¬ c.RepeatedAs key := by
  rw [repeats, List.countP_eq_zero, List.forall_mem_map]
  simp only [isRepeated_ofNode, not_exists]

theorem repeats_split (h : children[k]? = some child) :
    repeats (children.map ofNode) = repeats ((children.take k).map ofNode) +
      (repeats ((children.drop (k + 1)).map ofNode) +
        if (ofNode child).isRepeated then 1 else 0) := by
  conv_lhs => rw [eq_take_append_of_getElem? h]
  rw [List.map_append, List.map_cons, ← repeats_cons]
  exact List.countP_append

/-- These children are repeated more than once. -/
def Several (children : List Node) : Prop :=
  ∃ (i j : Nat) (a b : Node) (x y : String), i < j ∧ children[i]? = some a ∧
    children[j]? = some b ∧ a.RepeatedAs x ∧ b.RepeatedAs y

theorem Several.repeats (h : Several children) : 2 ≤ repeats (children.map ofNode) := by
  obtain ⟨i, j, a, b, x, y, hij, ha, hb, hx, hy⟩ := h
  have hlater : 0 < Footprint.repeats ((children.drop (i + 1)).map ofNode) := by
    apply Nat.pos_of_ne_zero
    intro hzero
    refine repeats_eq_zero.1 hzero b (List.mem_of_getElem? (i := j - (i + 1)) ?_) y hy
    rw [List.getElem?_drop, Nat.add_sub_cancel' hij, hb]
  rw [repeats_split ha, if_pos (isRepeated_ofNode.2 ⟨x, hx⟩)]
  omega

theorem isFixed_between {pre post : List Footprint} {f : Footprint}
    (h : 2 ≤ repeats pre + (repeats post + if f.isRepeated then 1 else 0)) :
    (between pre post f).isFixed ↔ f = .element ∧ repeats pre = 0 := by
  cases f with
  | none => simp [between]
  | element =>
    rw [show element.isRepeated = false from rfl, if_neg Bool.false_ne_true] at h
    by_cases hpre : repeats pre = 0
    · simp [between, hpre]
    · rw [between, if_neg hpre]
      simp only [beq_iff_eq, hpre, and_false, iff_false]
      omega
  | repeated key =>
    rw [show (repeated key).isRepeated = true from rfl, if_pos rfl] at h
    simp only [between, beq_iff_eq, reduceCtorEq, false_and, iff_false]
    omega

theorem Placed.isFixed_iff (h : Placed children counts k child n placement)
    (hseveral : Several children) :
    placement.isFixed ↔
      child.IsUnrepeated ∧ ∀ c ∈ children.take k, ∀ key, ¬ c.RepeatedAs key := by
  have hrepeats := hseveral.repeats
  rw [repeats_split h.child] at hrepeats
  rw [h.eq_between, isFixed_between hrepeats, ofNode_eq_element, repeats_eq_zero]

/-! ### The subtractions -/

def checkedSub (a b : Nat) : Option Nat := if b ≤ a then some (a - b) else Option.none

/-- Placements of the children as `follow` finds them, with nothing where a subtraction would fall
below zero. -/
def followChecked (elements repetitions index : Nat) (afterRepeated : Bool) :
    List Footprint → Option (List Placement)
  | [] => some []
  | .none :: rest => do
    let others ← followChecked elements repetitions index afterRepeated rest
    return ⟨.index index, false⟩ :: others
  | .element :: rest => do
    let placement : Placement ←
      if afterRepeated then do
        let offset ← checkedSub (← checkedSub elements index) 1
        pure ⟨.fromEnd offset, repetitions == 1⟩
      else pure ⟨.index index, true⟩
    let others ← followChecked elements repetitions (index + 1) afterRepeated rest
    return placement :: others
  | .repeated key :: rest => do
    let trailing ← checkedSub (← checkedSub elements index) 1
    let others ← followChecked elements repetitions (index + 1) true rest
    return ⟨.repeated key index trailing, repetitions == 1⟩ :: others

theorem checkedSub_of_le {a b : Nat} (h : b ≤ a) : checkedSub a b = some (a - b) := if_pos h

/-- Of the elements in all, those in front and those still to come do not make up more. -/
theorem followChecked_eq {elements repetitions index : Nat} {after : Bool} {fs : List Footprint}
    (h : index + taken fs ≤ elements) :
    followChecked elements repetitions index after fs =
      some (follow elements repetitions index after fs) := by
  induction fs generalizing index after with
  | nil => rfl
  | cons f rest ih =>
    rw [taken_cons] at h
    cases f with
    | none =>
      rw [followChecked, ih (by omega)]
      rfl
    | element =>
      rw [show element.takesPlace = true from rfl, if_pos rfl] at h
      rw [followChecked, ih (by omega), checkedSub_of_le (show index ≤ elements by omega)]
      cases after with
      | false => rfl
      | true =>
        simp only [Option.bind_eq_bind, Option.bind_some,
          checkedSub_of_le (show 1 ≤ elements - index by omega)]
        rfl
    | repeated key =>
      rw [show (repeated key).takesPlace = true from rfl, if_pos rfl] at h
      rw [followChecked, ih (by omega), checkedSub_of_le (show index ≤ elements by omega)]
      simp only [Option.bind_eq_bind, Option.bind_some,
        checkedSub_of_le (show 1 ≤ elements - index by omega)]
      rfl

/-! ### The whole row -/

/-- The placements of these children fit the elements that the children show. -/
structure Row (children : List Node) (counts : List Nat) : Prop where
  placed : ∀ {k child}, children[k]? = some child →
    ∃ n placement, Placed children counts k child n placement
  /-- The elements of the children stand one behind the other. -/
  ordered : ∀ {α : Type} {shown : List (List α)} {k block j}, shown.map List.length = counts →
    shown[k]? = some block → j < block.length →
      Belongs counts k (start counts k + j) ∧ shown.flatten[start counts k + j]? = block[j]?
  shows : ∀ {k child n placement}, Placed children counts k child n placement →
    placement.isFixed → child.IsUnrepeated ∨ ∃ key, child.RepeatedAs key
  unrepeated : ∀ {k child n placement}, Placed children counts k child n placement →
    placement.isFixed → child.IsUnrepeated →
      (∀ index?, placement.segment.resolve index? counts.sum = .ok (some (start counts k))) ∧
        ∀ p, placement.segment.capture p counts.sum =
          .ok (if Belongs counts k p then some Option.none else Option.none)
  repeated : ∀ {k child n placement key}, Placed children counts k child n placement →
    placement.isFixed → child.RepeatedAs key →
      start counts (k + 1) = start counts k + n ∧
        start counts k + n + (counts.drop (k + 1)).sum = counts.sum ∧
          Chooses placement.segment (start counts k) n (counts.drop (k + 1)).sum
  apart : ∀ {k k' p}, Belongs counts k p → Belongs counts k' p → k = k'
  /-- No subtraction falls below zero. -/
  checked : followChecked (taken (children.map ofNode)) (repeats (children.map ofNode)) 0 false
    (children.map ofNode) = some (ofFootprints (children.map ofNode))
  several : Several children → ∀ {k child n placement},
    Placed children counts k child n placement → (placement.isFixed ↔
      child.IsUnrepeated ∧ ∀ c ∈ children.take k, ∀ key, ¬ c.RepeatedAs key)

/-- **Placements are right for every number of repetitions**, whatever the children and however
many elements are bound to those that are repeated. -/
theorem row_of_mayShow (hshow : List.Forall₂ Node.MayShow children counts)
    (hword : counts.sum < wordSize) : Row children counts where
  placed {k child} h := by
    obtain ⟨hk, _⟩ := List.getElem?_eq_some_iff.1 h
    rw [hshow.length_eq] at hk
    exact ⟨counts[k], _, h, List.getElem?_eq_getElem hk, between_of_getElem? h⟩
  ordered {α shown k block j} hcounts h hj := by
    subst hcounts
    have hcount : (shown.map List.length)[k]? = some block.length := by
      rw [List.getElem?_map, h, Option.map_some]
    refine ⟨⟨Nat.le_add_right .., ?_⟩, getElem?_flatten h hj⟩
    rw [start_succ hcount]
    omega
  shows h := h.shows
  unrepeated h := h.unrepeated hshow hword
  repeated h hfixed hchild :=
    ⟨start_succ h.count, sum_split h.count, (h.repeated hshow hword hfixed hchild).2⟩
  apart := Belongs.unique
  checked := followChecked_eq (Nat.le_of_eq (Nat.zero_add _))
  several hseveral _ _ _ _ h := h.isFixed_iff hseveral

/-! ### A list of news between a heading and a footer -/

def newsChildren : List Node :=
  [.text "News", .element "h1" .anonymous .empty [],
    .element "p" ⟨some "items", .multiple, false⟩ .empty [],
    .element "hr" ⟨none, .multiple, false⟩ .empty [], .element "footer" .anonymous .empty []]

theorem newsChildren_mayShow (n : Nat) :
    List.Forall₂ Node.MayShow newsChildren [0, 1, n, 0, 1] :=
  .cons (admits_ofNode.1 rfl) <| .cons (admits_ofNode.1 rfl) <|
    .cons (admits_ofNode.1 trivial) <| .cons (admits_ofNode.1 rfl) <|
      .cons (admits_ofNode.1 rfl) .nil

/-- Behind two items the footer is the fourth element. -/
theorem row_of_mayShow_news :
    List.Forall₂ Node.MayShow newsChildren [0, 1, 2, 0, 1] ∧
      [0, 1, 2, 0, 1].sum < wordSize ∧ Row newsChildren [0, 1, 2, 0, 1] ∧
      (ofFootprints (newsChildren.map ofNode))[4]? = some ⟨.fromEnd 0, true⟩ ∧
      (Segment.fromEnd 0).resolve Option.none 4 = .ok (some 3) :=
  ⟨newsChildren_mayShow 2, by decide, row_of_mayShow (newsChildren_mayShow 2) (by decide), rfl,
    rfl⟩

/-- For the last index of all there is no answer, where a smaller one is refused. -/
theorem last_index_not_refused :
    ¬ ∀ {children : List Node} {counts : List Nat} {k n i : Nat} {child : Node}
        {placement : Placement} {key : String},
      List.Forall₂ Node.MayShow children counts → counts.sum < wordSize →
        Placed children counts k child n placement → placement.isFixed → child.RepeatedAs key →
          i < wordSize → n ≤ i →
            placement.segment.resolve (some i) counts.sum = .ok Option.none := by
  intro h
  have hplaced : Placed newsChildren [0, 1, 0, 0, 1] 2 newsChildren[2] 0
      ⟨.repeated "items" 1 1, true⟩ := ⟨rfl, rfl, rfl⟩
  have hlast : wordSize - 1 < wordSize := by decide
  have hnone := h (newsChildren_mayShow 0) (by decide) hplaced rfl ⟨_, rfl, rfl, rfl⟩ hlast
    (Nat.zero_le _)
  cases hnone

end Placement
end Stencil
