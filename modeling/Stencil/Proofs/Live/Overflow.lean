import Stencil.Proofs.Live.ReverseLookup

/-! # Indices that overflow

An index can be any machine word, so the position that a repeated segment adds up for it may be
none, and the same goes for the position of the last sibling behind the repetitions. Then there is
no answer, where a smaller index that is too large as well is told to have no repetition.
-/
namespace Stencil

/-- What a repeated segment comes to for an index: the repetition if it is there, nothing if it is
not, and no answer if the sum of all three numbers is no machine word. -/
structure Segment.Answers (base trailing i count : Nat) (answer : Checked (Option Nat)) : Prop where
  found : ∀ n, answer = .ok (some n) ↔ n = base + i ∧ n + trailing < count
  absent : answer = .ok none ↔ base + i + trailing < wordSize ∧ count ≤ base + i + trailing
  overflow : answer = .error {} ↔ wordSize ≤ base + i + trailing

theorem Segment.resolve_answers {base trailing i count : Nat} (key : String)
    (hcount : count ≤ wordSize) :
    Segment.Answers base trailing i count ((repeated key base trailing).resolve (some i) count) where
  found n := by
    rw [resolve_repeated]
    omega
  absent := resolve_repeated_eq_none
  overflow := resolve_repeated_eq_error

namespace Registry
open Live Document Segment
variable {r : Registry} {d : Document} {root parent : Handle} {name p key : String}
  {entry : PointEntry} {front back : Path} {s : Selector} {base trailing i : Nat}

theorem locate_segment {answer : Option Nat} (hentry : r.point? name s.point = some entry)
    (hpath : entry.path = front ++ .repeated key base trailing :: back)
    (hi : s.index? key = some i) (hparent : d.follow? s front root = .ok (some parent))
    (hanswer : (repeated key base trailing).resolve (some i) (d.elementChildren parent).length =
      .ok answer) :
    r.locate d root name s =
      match answer.bind ((d.elementChildren parent)[·]?) with
      | some child => d.follow? s back child
      | none => .ok none := by
  have hindex : (repeated key base trailing).key?.bind s.index? = some i := hi
  rw [locate_of_point? hentry, hpath, follow?_append hparent, follow?, hindex, hanswer]
  rfl

/-- **Where an index leads.** A repeated segment answers an index as it should, unless a sum
overflows; and a point whose path has the segment on it is located below the repetition that the
segment leads to. -/
theorem locate_of_index (hentry : r.point? name p = some entry)
    (hpath : entry.path = front ++ .repeated key base trailing :: back) :
    (∀ i count, i < wordSize → count < wordSize →
      Segment.Answers base trailing i count ((repeated key base trailing).resolve (some i) count)) ∧
    ∀ (d : Document) (root parent : Handle) (s : Selector) (i : Nat), d.Reachable →
      d.size ≤ wordSize → s.point = p → s.index? key = some i →
      d.follow? s front root = .ok (some parent) →
      let children := d.elementChildren parent
      (wordSize ≤ base + i + trailing → r.locate d root name s = .error {}) ∧
      (base + i + trailing < wordSize → children.length ≤ base + i + trailing →
        r.locate d root name s = .ok none) ∧
      (base + i + trailing < children.length → ∃ child, children[base + i]? = some child ∧
        r.locate d root name s = d.follow? s back child) := by
  refine ⟨fun i count _ hcount => resolve_answers key (Nat.le_of_lt hcount), ?_⟩
  rintro d root parent s i hd hsize rfl hi hparent
  have hanswers : Segment.Answers base trailing i _ _ :=
    resolve_answers key ((length_elementChildren_le hd.forest parent).trans hsize)
  refine ⟨fun hword => ?_, fun hword hcount => ?_, fun hlt => ?_⟩
  · rw [locate_of_point? hentry, hpath, follow?_append hparent, follow?_repeated_of_le hi hword]
  · exact locate_segment hentry hpath hi hparent (hanswers.absent.2 ⟨hword, hcount⟩)
  · have hposition : base + i < (d.elementChildren parent).length := by omega
    refine ⟨_, List.getElem?_eq_getElem hposition, ?_⟩
    rw [locate_segment hentry hpath hi hparent ((hanswers.found _).2 ⟨rfl, hlt⟩), Option.bind_some,
      List.getElem?_eq_getElem hposition]

/-- The items of the listing, behind its heading. -/
theorem locate_of_index_items :
    (∀ i count, i < wordSize → count < wordSize →
      Segment.Answers 1 0 i count ((repeated "items" 1 0).resolve (some i) count)) ∧
    (∀ i, wordSize ≤ 1 + i + 0 →
      listing.locate listed 0 "Listing" ((Selector.ofPoint "items").atIndex i) = .error {}) ∧
    listing.locate listed 0 "Listing" ((Selector.ofPoint "items").atIndex 0) = .ok (some 2) := by
  obtain ⟨entry, hentry, hitems⟩ := entry_items
  have hpath : entry.path = [] ++ .repeated "items" 1 0 :: [] := (Prod.mk.inj hitems).2
  obtain ⟨hanswers, hlocate⟩ := locate_of_index hentry hpath
  have hindex (i : Nat) : ((Selector.ofPoint "items").atIndex i).index? "items" = some i :=
    (Selector.index?_withIndex ..).trans (if_pos rfl)
  have hfirst := hlocate listed 0 0 _ _ reachable_listed (by decide) rfl (hindex 0) rfl
  obtain ⟨child, hchild, hfound⟩ := hfirst.2.2 (by decide)
  have hitem : (listed.elementChildren 0)[1 + 0]? = some 2 := by decide
  obtain rfl := Option.some.inj (hitem.symm.trans hchild)
  exact ⟨hanswers, fun i => (hlocate listed 0 0 _ i reachable_listed (by decide) rfl (hindex i)
    rfl).1, hfound⟩

/-- The largest index of all has no answer: neither that it leads to a repetition nor that it leads
to none. -/
theorem last_index_overflows :
    (¬ ∀ (r : Registry) (name p key : String) (entry : PointEntry) (base trailing : Nat),
      r.Reachable → r.point? name p = some entry → .repeated key base trailing ∈ entry.path →
      ∀ i count, i < wordSize → count < wordSize → ¬ base + i + trailing < count →
        (repeated key base trailing).resolve (some i) count = .ok none) ∧
    listing.locate listed 0 "Listing" ((Selector.ofPoint "items").atIndex (wordSize - 1)) =
      .error {} := by
  refine ⟨fun h => ?_, by decide⟩
  obtain ⟨entry, hentry, hitems⟩ := entry_items
  have hmem : .repeated "items" 1 0 ∈ entry.path := by
    rw [(Prod.mk.inj hitems).2]
    exact List.mem_cons_self
  have hnone := h listing "Listing" "items" "items" entry 1 0 reachable_listing hentry hmem
    (wordSize - 1) 1 (by decide) (by decide) (by decide)
  cases hnone

end Registry
end Stencil
