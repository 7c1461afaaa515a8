import Mathlib.Algebra.GroupWithZero.Nat
import Stencil.Point.Survey
import Stencil.Proofs.Point.Path

/-! # Where siblings stand

The placement of a child depends on the siblings in front of it and behind it, and not on the order
in which the survey comes across them. If every sibling shows as many elements as its footprint
says, a placement that is fixed leads to the elements of its child.
-/
namespace Stencil

/-- The node is declared as repeated under this name. -/
def Node.RepeatedAs (m : Node) (name : String) : Prop :=
  ∃ point, m.point? = some point ∧ point.cardinality = .multiple ∧ point.id = some name

namespace Footprint

def taken (fs : List Footprint) : Nat := fs.countP takesPlace

def repeats (fs : List Footprint) : Nat := fs.countP isRepeated

def Admits : Footprint → Nat → Prop
  | none, n => n = 0
  | element, n => n = 1
  | repeated _, _ => True

variable {f : Footprint} {fs : List Footprint} {ns : List Nat}

theorem taken_cons (f : Footprint) (fs : List Footprint) :
    taken (f :: fs) = taken fs + if f.takesPlace then 1 else 0 := List.countP_cons

theorem repeats_cons (f : Footprint) (fs : List Footprint) :
    repeats (f :: fs) = repeats fs + if f.isRepeated then 1 else 0 := List.countP_cons

theorem taken_le_length (fs : List Footprint) : taken fs ≤ fs.length := List.countP_le_length

theorem sum_of_admits (h : List.Forall₂ Admits fs ns) (hfixed : repeats fs = 0) :
    ns.sum = taken fs := by
  induction h with
  | nil => rfl
  | @cons f n fs ns hn _ ih =>
    rw [repeats_cons] at hfixed
    rw [List.sum_cons, taken_cons, ih (by omega)]
    cases f with
    | none =>
      obtain rfl : n = 0 := hn
      exact Nat.zero_add _
    | element =>
      obtain rfl : n = 1 := hn
      exact Nat.add_comm ..
    | repeated key =>
      rw [show (repeated key).isRepeated = true from rfl, if_pos rfl] at hfixed
      omega

def key? : Footprint → Option String
  | repeated key => some key
  | _ => Option.none

theorem key?_ofNode {m : Node} {name : String} :
    (ofNode m).key? = some name ↔ m.RepeatedAs name := by
  unfold ofNode Node.RepeatedAs
  cases m.point? with
  | none => simp [key?]
  | some point =>
    obtain ⟨id, cardinality, exported⟩ := point
    cases cardinality <;> cases id <;> simp [key?]

end Footprint

namespace Placement
open Footprint
variable {pre post : List Footprint} {f : Footprint} {key : String}
  {ms ns : List Nat} {i : Nat}

def between (pre post : List Footprint) : Footprint → Placement
  | .none => ⟨.index (taken pre), false⟩
  | .element =>
    if repeats pre = 0 then ⟨.index (taken pre), true⟩
    else ⟨.fromEnd (taken post), repeats pre + repeats post == 1⟩
  | .repeated key => ⟨.repeated key (taken pre) (taken post), repeats pre + repeats post == 0⟩

theorem key?_between (pre post : List Footprint) (f : Footprint) :
    (between pre post f).segment.key? = f.key? := by
  cases f with
  | none => rfl
  | element =>
    rw [between]
    split <;> rfl
  | repeated key => rfl

theorem getElem?_follow (elements repetitions index : Nat) (after : Bool)
    (pre rest : List Footprint) :
    (follow elements repetitions index after (pre ++ rest))[pre.length]? =
      (follow elements repetitions (index + taken pre) (after || 0 < repeats pre) rest).head? := by
  induction pre generalizing index after with
  | nil => simp [taken, repeats, List.head?_eq_getElem?]
  | cons f pre ih =>
    cases f with
    | none =>
      rw [List.cons_append, follow, List.length_cons, List.getElem?_cons_succ, ih, taken_cons,
        repeats_cons]
      rfl
    | element =>
      rw [List.cons_append, follow, List.length_cons, List.getElem?_cons_succ, ih, taken_cons,
        repeats_cons, show element.takesPlace = true from rfl, if_pos rfl, Nat.add_right_comm,
        Nat.add_assoc]
      rfl
    | repeated key =>
      rw [List.cons_append, follow, List.length_cons, List.getElem?_cons_succ, ih, taken_cons,
        repeats_cons, show (repeated key).takesPlace = true from rfl,
        show (repeated key).isRepeated = true from rfl, if_pos rfl, Nat.add_right_comm,
        Nat.add_assoc]
      simp

theorem getElem?_ofFootprints (pre post : List Footprint) (f : Footprint) :
    (ofFootprints (pre ++ f :: post))[pre.length]? = some (between pre post f) := by
  rw [ofFootprints, getElem?_follow, Bool.false_or, Nat.zero_add]
  rw [show (pre ++ f :: post).countP takesPlace = taken pre + taken (f :: post) from
      List.countP_append,
    show (pre ++ f :: post).countP isRepeated = repeats pre + repeats (f :: post) from
      List.countP_append, taken_cons, repeats_cons]
  cases f with
  | none => rfl
  | element =>
    rw [show element.takesPlace = true from rfl, show element.isRepeated = false from rfl,
      if_pos rfl, if_neg Bool.false_ne_true, follow, between, List.head?_cons]
    by_cases hpre : repeats pre = 0
    · simp [hpre]
    · rw [show taken pre + (taken post + 1) - taken pre - 1 = taken post by omega]
      simp [hpre, Nat.pos_of_ne_zero hpre]
  | repeated key =>
    rw [show (repeated key).takesPlace = true from rfl,
      show (repeated key).isRepeated = true from rfl, if_pos rfl, follow, between, List.head?_cons,
      show taken pre + (taken post + 1) - taken pre - 1 = taken post by omega, ← Nat.add_assoc]
    simp

theorem resolve_element (hfixed : (between pre post .element).isFixed)
    (hpre : List.Forall₂ Admits pre ms) (hpost : List.Forall₂ Admits post ns)
    (hword : repeats post = 0 → taken post + 1 < wordSize) (index? : Option Nat) :
    (between pre post .element).segment.key? = Option.none ∧
      (between pre post .element).segment.resolve index? (ms.sum + 1 + ns.sum) =
        .ok (some ms.sum) := by
  rw [between] at hfixed ⊢
  by_cases h : repeats pre = 0
  · rw [if_pos h, ← sum_of_admits hpre h]
    exact ⟨rfl, Segment.resolve_index (by omega) index?⟩
  · rw [if_neg h] at hfixed ⊢
    have hsum := beq_iff_eq.1 hfixed
    have hnone : repeats post = 0 := by omega
    rw [Nat.add_assoc, Nat.add_comm 1, sum_of_admits hpost hnone]
    exact ⟨rfl, Segment.resolve_fromEnd (hword hnone) index?⟩

theorem capture_element (hfixed : (between pre post .element).isFixed)
    (hpre : List.Forall₂ Admits pre ms) (hpost : List.Forall₂ Admits post ns)
    (hword : repeats post = 0 → taken post + 1 < wordSize) (p : Nat) :
    (between pre post .element).segment.capture p (ms.sum + 1 + ns.sum) =
      .ok (if p = ms.sum then some Option.none else Option.none) := by
  rw [between] at hfixed ⊢
  by_cases h : repeats pre = 0
  · rw [if_pos h, ← sum_of_admits hpre h]
    simp only [Segment.capture, eq_comm, Checked.pure_eq]
  · rw [if_neg h] at hfixed ⊢
    have hsum := beq_iff_eq.1 hfixed
    have hnone : repeats post = 0 := by omega
    have hns := sum_of_admits hpost hnone
    have hposition : taken post + 1 ≤ ms.sum + 1 + ns.sum ∧
        ms.sum + 1 + ns.sum - (taken post + 1) = p ↔ p = ms.sum := by omega
    simp only [Segment.capture_fromEnd (hword hnone), hposition]

theorem resolve_repeated (hfixed : (between pre post (.repeated key)).isFixed)
    (hpre : List.Forall₂ Admits pre ms) (hpost : List.Forall₂ Admits post ns)
    (hword : taken pre + i + taken post < wordSize) (m p : Nat) :
    (between pre post (.repeated key)).segment.resolve (some i) (ms.sum + m + ns.sum) =
        .ok (some p) ↔
      i < m ∧ p = ms.sum + i := by
  have hsum := beq_iff_eq.1 hfixed
  have hms := sum_of_admits hpre (by omega)
  have hns := sum_of_admits hpost (by omega)
  rw [between, Segment.resolve_repeated]
  omega

end Placement
end Stencil
