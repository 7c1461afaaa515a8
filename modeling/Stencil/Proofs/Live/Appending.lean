import Stencil.Proofs.Live.Draft
import Stencil.Proofs.Live.ReverseLookup

/-! # Appending one more repetition

An element without a parent that is appended to another one becomes its last element child, and
nothing else that paths go through changes. So when the repetitions of a point stand last among
their siblings, the new element is the next repetition of the point.
-/
namespace Stencil

namespace Live.Document
variable {d : Document} {id p c x root e : Handle} {path : Path} {indices : List Nat}

/-! ## What paths go through -/

theorem isElement_appended (hf : d.Forest) (p c x : Handle) :
    (d.appended p c).isElement x = d.isElement x := by
  rw [isElement, get?_appended hf, isElement]
  rcases d.get? x with _ | ⟨⟩ | ⟨⟩ <;> rfl

theorem elementChildren_appended (hf : d.Forest) (hp : d.isElement p) (hc : d.isElement c)
    (htop : d.parent? c = none) (x : Handle) :
    (d.appended p c).elementChildren x =
      if x = p then d.elementChildren x ++ [c] else d.elementChildren x := by
  have hlinks : ¬ d.Links x c := by
    rw [Links, htop]
    simp
  have hkind : (d.appended p c).isElement = d.isElement := funext (isElement_appended hf p c)
  rw [elementChildren, elementChildren, hkind, children_appended hf hp,
    filter_children_of_not_links hf hlinks]
  split
  · rw [List.filter_append, List.filter_singleton, hc]
    rfl
  · rfl

theorem Leads.appended (hf : d.Forest) (hp : d.isElement p) (hc : d.isElement c)
    (htop : d.parent? c = none) (h : d.Leads path indices id p) :
    (d.appended p c).Leads path indices id p := by
  have above {segment : Segment} {path : Path} {indices : List Nat} {id : Handle}
      (h : d.Leads (segment :: path) indices id p) :
      (d.appended p c).elementChildren id = d.elementChildren id := by
    rw [elementChildren_appended hf hp hc htop, if_neg]
    rintro rfl
    exact (h.level hf).ne_root hf rfl
  induction h with
  | here => exact .here _
  | fixed hkey resolved taken rest ih =>
    have hsame := above (.fixed hkey resolved taken rest)
    exact .fixed hkey (hsame.symm ▸ resolved) (hsame.symm ▸ taken) (ih hp above)
  | repeated resolved taken rest ih =>
    have hsame := above (.repeated resolved taken rest)
    exact .repeated (hsame.symm ▸ resolved) (hsame.symm ▸ taken) (ih hp above)

end Live.Document

namespace Registry
open Live Document
variable {r : Registry} {d : Document} {root parent e : Handle} {name key p : String} {s : Selector}
  {entry : PointEntry} {front : Path} {indices : List Nat} {base trailing i c : Nat}

theorem locate_last (hentry : r.point? name s.point = some entry)
    (hpath : entry.path = front ++ [.repeated key base 0]) (hkey : key ∉ front.keys)
    (hparent : d.follow? s front root = .ok (some parent)) {k : Nat} (hword : base + k < wordSize) :
    r.locate d root name (s.withIndex key k) = .ok (d.elementChildren parent)[base + k]? := by
  rw [locate_withIndex hentry hpath hkey hword hparent]
  split
  · rfl
  · next hlt => exact congrArg _ (List.getElem?_eq_none (Nat.le_of_not_lt hlt)).symm

/-- **Appending an item.** An element without a parent can be appended to any element that is not
inside it. If the repetitions of a point stand last there, the element is the next one of them,
those before it stay where they are, and none follows it. The point is reported for the element with
that index. -/
theorem locate_appended (hr : r.Reachable) (hd : d.Reachable) (hroom : r.FitsBeside d)
    (hentry : r.point? name s.point = some entry)
    (hpath : entry.path = front ++ [.repeated key base 0]) (hkey : key ∉ front.keys)
    (hparent : d.follow? s front root = .ok (some parent)) (hp : d.isElement parent)
    (hc : (d.elementChildren parent).length = c) (hbase : base ≤ c) (he : d.isElement e)
    (htop : d.parent? e = none) (hout : ¬ d.Within e parent) :
    ∃ d', d.append parent e = (d', true) ∧
      r.locate d' root name (s.withIndex key (c - base)) = .ok (some e) ∧
      (∀ k, k < c - base → ∃ item, r.locate d root name (s.withIndex key k) = .ok (some item) ∧
        r.locate d' root name (s.withIndex key k) = .ok (some item)) ∧
      (∀ k, c - base < k → base + k < wordSize →
        r.locate d' root name (s.withIndex key k) = .ok none) ∧
      ∃ loc, r.reverseLocate d' root name e = .ok (some loc) ∧
        loc.find? s.point = some (c - base) := by
  have hf := hd.forest
  have happend : d.append parent e = (d.appended parent e, true) := append_of hf hp hout
  have hf' := hf.appended hp (inUse_of_isElement hf he) hout
  have hchildren :
      (d.appended parent e).elementChildren parent = d.elementChildren parent ++ [e] := by
    rw [elementChildren_appended hf hp he htop, if_pos rfl]
  have hword : c < wordSize := by
    obtain ⟨D, hD, _⟩ := Option.bind_eq_some_iff.1 hentry
    have hle := length_elementChildren_le hf' parent
    rw [hchildren, size_appended, List.length_append, hc] at hle
    exact Nat.lt_of_lt_of_le hle ((Nat.le_add_right ..).trans (hroom name D hD))
  have hparent' : (d.appended parent e).follow? s front root = .ok (some parent) := by
    obtain ⟨indices, hindices, hleads⟩ := follow?_eq_some_iff.1 hparent
    exact follow?_eq_some_iff.2 ⟨indices, hindices, hleads.appended hf hp he htop⟩
  have hnew : r.locate (d.appended parent e) root name (s.withIndex key (c - base)) =
      .ok (some e) := by
    rw [locate_last hentry hpath hkey hparent' (by omega), hchildren, Nat.add_sub_cancel' hbase,
      ← hc]
    exact congrArg _ List.getElem?_concat_length
  refine ⟨d.appended parent e, happend, hnew, ?_, ?_, ?_⟩
  · intro k hk
    have hlt : base + k < (d.elementChildren parent).length := by omega
    refine ⟨(d.elementChildren parent)[base + k], ?_, ?_⟩
    · rw [locate_last hentry hpath hkey hparent (by omega), List.getElem?_eq_getElem hlt]
    · rw [locate_last hentry hpath hkey hparent' (by omega), hchildren,
        List.getElem?_append_left hlt, List.getElem?_eq_getElem hlt]
  · intro k hk hfits
    rw [locate_last hentry hpath hkey hparent' hfits, hchildren, List.getElem?_eq_none]
    rw [List.length_append, List.length_singleton]
    omega
  · have hd' := hd.append parent e (inUse_of_isElement hf he)
    rw [happend] at hd'
    have hroom' : r.FitsBeside (d.appended parent e) := by
      intro other D hD
      rw [size_appended]
      exact hroom other D hD
    obtain ⟨entry', loc, hentry', hloc, _, hfind⟩ := reverseLocate_of_locate hr hd' hroom' hnew
    obtain rfl := Option.some.inj (hentry.symm.trans hentry')
    have hlast : entry.path.keys.getLast? = some key := by
      rw [hpath, Path.keys, List.filterMap_append]
      exact List.getLast?_concat
    rw [hlast] at hfind
    exact ⟨loc, hloc, hfind.trans ((Selector.index?_withIndex ..).trans (if_pos rfl))⟩

/-! ## A grid without cells

A heading and a row, and an element that is in neither of them yet.
-/

def gridTree : Node :=
  .element "div" .anonymous .empty
    [.element "h1" .anonymous .empty [],
      .element "ul" ⟨some "rows", .multiple, false⟩ .empty
        [.element "li" ⟨some "cells", .multiple, false⟩ .empty []]]

def grid : Registry := Registry.empty.register "Grid" gridTree

def emptyGrid : Document :=
  let d := (Document.empty.createElement "div" .empty).2
  let d := (d.createElement "h1" .empty).2
  let d := (d.createElement "ul" .empty).2
  let d := (d.createElement "li" .empty).2
  let d := (d.append 0 1).1
  (d.append 0 2).1

theorem reachable_grid : grid.Reachable := .register (.withSettings _) _ _

theorem reachable_emptyGrid : emptyGrid.Reachable := by
  have headed := (Reachable.empty.createElement "div" .empty).createElement "h1" .empty
  have four := (headed.createElement "ul" .empty).createElement "li" .empty
  have first := four.append 0 1 ⟨by decide, by decide⟩
  exact first.append 0 2 ⟨by decide, by decide⟩

theorem point?_cells : grid.point? "Grid" "cells" =
    some ⟨"Grid", 3, .multiple, [.repeated "rows" 1 0, .repeated "cells" 0 0], none⟩ := rfl

/-- The first cell of a row. -/
theorem locate_appended_cell :
    let s := (Selector.ofPoint "cells").withIndex "rows" 0
    ∃ d', emptyGrid.append 2 3 = (d', true) ∧
      grid.locate d' 0 "Grid" (s.withIndex "cells" (0 - 0)) = .ok (some 3) ∧
      (∀ k, k < 0 - 0 → ∃ item,
        grid.locate emptyGrid 0 "Grid" (s.withIndex "cells" k) = .ok (some item) ∧
          grid.locate d' 0 "Grid" (s.withIndex "cells" k) = .ok (some item)) ∧
      (∀ k, 0 - 0 < k → 0 + k < wordSize →
        grid.locate d' 0 "Grid" (s.withIndex "cells" k) = .ok none) ∧
      ∃ loc, grid.reverseLocate d' 0 "Grid" 3 = .ok (some loc) ∧
        loc.find? s.point = some (0 - 0) := by
  intro s
  have houter : ¬ emptyGrid.Within 3 2 := by
    rw [← ancestorChain?_eq_none reachable_emptyGrid.forest]
    decide
  have hfront : emptyGrid.follow? s [.repeated "rows" 1 0] 0 = .ok (some 2) := by decide
  exact locate_appended reachable_grid reachable_emptyGrid (fitsBeside_of_forall (by decide))
    point?_cells rfl (by decide) hfront (by decide) (by decide) (by decide) (by decide) (by decide)
    houter

end Registry
end Stencil
