import Stencil.Proofs.Live.ReverseLookup

/-! # The repetitions of a point

Once the rest of a path has led to an element, its last segment divides the element children: some
stand in front of the repetitions, some behind them, and all the others are repetitions. Each of
these has an index of its own, the indices leave no gap, and they run in document order. This holds
of any document, also where the siblings around the repetitions are missing.
-/
namespace Stencil

namespace Live.Document
variable {d : Document}

theorem sublist_flatMap_subtreeWithin (n : Nat) (l : List Handle) :
    l.Sublist (l.flatMap (d.subtreeWithin (n + 1))) := by
  induction l with
  | nil => exact .slnil
  | cons c l ih =>
    rw [List.flatMap_cons, subtreeWithin, List.cons_append]
    exact (ih.trans (List.sublist_append_right ..)).cons_cons c

theorem sublist_subtree (hf : d.Forest) (parent : Handle) :
    (d.children parent).Sublist (d.subtree parent) := by
  cases hchildren : d.children parent with
  | nil => exact List.nil_sublist _
  | cons c rest =>
    -- with a child there are two levels, so the walk is not cut off in front of the children
    have link : d.Links parent c := (hf.mem_children parent c).1 (hchildren ▸ List.mem_cons_self)
    have hlevel := (Below.child .here link).level_lt hf ((Below.child .here link).lt_size hf)
    obtain ⟨n, hn⟩ : ∃ n, d.size = n + 2 := ⟨d.size - 2, by omega⟩
    rw [subtree, hn, subtreeWithin, hchildren]
    exact (sublist_flatMap_subtreeWithin _ _).cons _

end Live.Document

namespace Registry
open Live Document
variable {r : Registry} {d : Document} {root parent : Handle} {name key : String} {s : Selector}
  {entry : PointEntry} {front : Path} {base trailing i : Nat}

theorem locate_repetition (hentry : r.point? name s.point = some entry)
    (hpath : entry.path = front ++ [.repeated key base trailing]) (hkey : key ∉ front.keys)
    (hparent : d.follow? s front root = .ok (some parent)) (hword : base + i + trailing < wordSize) :
    r.locate d root name (s.withIndex key i) =
      .ok (if i < (d.elementChildren parent).length - base - trailing
        then (d.elementChildren parent)[base + i]? else none) := by
  have hcount : i < (d.elementChildren parent).length - base - trailing ↔
      base + i + trailing < (d.elementChildren parent).length := by omega
  simp only [locate_withIndex hentry hpath hkey hword hparent, hcount]

theorem locate_of_le (hentry : r.point? name s.point = some entry)
    (hpath : entry.path = front ++ [.repeated key base trailing]) (hkey : key ∉ front.keys)
    (hparent : d.follow? s front root = .ok (some parent))
    (hword : wordSize ≤ base + i + trailing) :
    r.locate d root name (s.withIndex key i) = .error {} := by
  have hown : (s.withIndex key i).index? key = some i := by
    rw [Selector.index?_withIndex, if_pos rfl]
  rw [locate_of_point? (s := s.withIndex key i) hentry, hpath,
    follow?_append ((follow?_withIndex hkey i).trans hparent), follow?_repeated_of_le hown hword]

/-- **Repetitions are counted without gaps.** With the other indices fixed, the indices that find an
element are those below the number of children that are left between `base` in front and `trailing`
behind. Each finds the child at its place, and no two find the same one. In a document whose handles
are machine words all these children are found, in document order. -/
theorem locate_repetitions (hd : d.Reachable) (hentry : r.point? name s.point = some entry)
    (hpath : entry.path = front ++ [.repeated key base trailing]) (hkey : key ∉ front.keys)
    (hparent : d.follow? s front root = .ok (some parent)) :
    let children := d.elementChildren parent
    let count := children.length - base - trailing
    let repetition := fun i => r.locate d root name (s.withIndex key i)
    (∀ i, base + i + trailing < wordSize →
      ((∃ e, repetition i = .ok (some e)) ↔ i < count) ∧ (repetition i = .ok none ↔ count ≤ i)) ∧
    (∀ i < count, base + i + trailing < wordSize → repetition i = .ok children[base + i]?) ∧
    (∀ i j e, repetition i = .ok (some e) → repetition j = .ok (some e) → i = j) ∧
    (d.size ≤ wordSize → (List.range count).map repetition =
      ((children.drop base).take count).map fun e => .ok (some e)) ∧
    ((children.drop base).take count).Sublist (d.subtree parent) := by
  intro children count repetition
  have hf := hd.forest
  have hfound {i : Nat} (hword : base + i + trailing < wordSize) :
      repetition i = .ok (if i < count then children[base + i]? else none) :=
    locate_repetition hentry hpath hkey hparent hword
  have hinside {i : Nat} (hi : i < count) : base + i < children.length := by omega
  have hindex {i : Nat} {e : Handle} (h : repetition i = .ok (some e)) :
      children[base + i]? = some e := by
    rcases Nat.lt_or_ge (base + i + trailing) wordSize with hword | hword
    · rw [hfound hword, Except.ok.injEq, Option.ite_none_right_eq_some] at h
      exact h.2
    · cases h.symm.trans (locate_of_le hentry hpath hkey hparent hword)
  refine ⟨fun i hword => ?_, fun i hi hword => ?_, fun i j e hie hje => ?_, fun hsize => ?_, ?_⟩
  · rw [hfound hword]
    by_cases hi : i < count
    · simp [hinside hi, hi]
    · simp [hi]
      omega
  · rw [hfound hword, if_pos hi]
  · obtain ⟨hlt, hget⟩ := List.getElem?_eq_some_iff.1 (hindex hie)
    obtain ⟨hlt', hget'⟩ := List.getElem?_eq_some_iff.1 (hindex hje)
    have hsame := (nodup_elementChildren hf parent).getElem_inj_iff.1 (hget.trans hget'.symm)
    omega
  · have hlength : children.length ≤ wordSize := (length_elementChildren_le hf parent).trans hsize
    apply List.ext_getElem?
    intro i
    by_cases hi : i < count
    · have hword : base + i + trailing < wordSize := by omega
      simp [hi, hfound hword, hinside hi]
    · have hnone : ((children.drop base).take count)[i]? = none := by simp; omega
      simp [hi]
  · exact (List.take_sublist ..).trans <| (List.drop_sublist ..).trans <|
      List.filter_sublist.trans (sublist_subtree hf parent)

/-! ## A row of two cells

The second element of a board is a row, in which a mark stands in front of the cells and a rule
behind them.
-/

def boardTree : Node :=
  .element "div" .anonymous .empty
    [.element "h1" .anonymous .empty [],
      .element "ul" ⟨some "rows", .multiple, false⟩ .empty
        [.element "b" .anonymous .empty [], .element "li" ⟨some "cells", .multiple, false⟩ .empty [],
          .element "hr" .anonymous .empty []]]

def boards : Registry := Registry.empty.register "Board" boardTree

def board : Document :=
  let d := ["div", "h1", "ul", "b", "li", "li", "hr"].foldl
    (fun d tag => (d.createElement tag .empty).2) Document.empty
  [(0, 1), (0, 2), (2, 3), (2, 4), (2, 5), (2, 6)].foldl
    (fun d (parent, child) => (d.append parent child).1) d

theorem reachable_board : board.Reachable := by
  have headed := (Reachable.empty.createElement "div" .empty).createElement "h1" .empty
  have row := (headed.createElement "ul" .empty).createElement "b" .empty
  have cells := (row.createElement "li" .empty).createElement "li" .empty
  have above := (cells.createElement "hr" .empty).append 0 1 ⟨by decide, by decide⟩
  have row := above.append 0 2 ⟨by decide, by decide⟩
  have mark := row.append 2 3 ⟨by decide, by decide⟩
  have first := mark.append 2 4 ⟨by decide, by decide⟩
  have second := first.append 2 5 ⟨by decide, by decide⟩
  exact second.append 2 6 ⟨by decide, by decide⟩

/-- The cells are the two elements between the mark and the rule. -/
theorem locate_repetitions_cells :
    let s := (Selector.ofPoint "cells").withIndex "rows" 0
    let cell := fun i => boards.locate board 0 "Board" (s.withIndex "cells" i)
    (∀ i, 1 + i + 1 < wordSize → ((∃ e, cell i = .ok (some e)) ↔ i < 2)) ∧
      (List.range 2).map cell = [.ok (some 4), .ok (some 5)] ∧ [4, 5].Sublist (board.subtree 2) := by
  intro s cell
  have hentry : boards.point? "Board" "cells" =
      some ⟨"Board", 4, .multiple, [.repeated "rows" 1 0, .repeated "cells" 1 1], none⟩ := rfl
  have hchildren : board.elementChildren 2 = [3, 4, 5, 6] := by decide
  have hparent : board.follow? s [.repeated "rows" 1 0] 0 = .ok (some 2) := by decide
  obtain ⟨hsome, _, _, hall, horder⟩ :=
    locate_repetitions reachable_board hentry rfl (by decide) hparent
  rw [hchildren] at hsome hall horder
  exact ⟨fun i hword => (hsome i hword).1, hall (by decide), horder⟩

end Registry
end Stencil
