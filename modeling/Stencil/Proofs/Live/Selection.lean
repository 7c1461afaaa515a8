import Stencil.Proofs.Live.Repetitions
import Stencil.Proofs.Registry.Prefixes

/-! # Selectors for what is reported

Going up from an element finds one index at each repetition on the path of a point. A selector has
one index for each key. So the element can be selected again if and only if repetitions with the
same key were found with the same index, as it is whenever the keys on the path are not ambiguous.
-/
namespace Stencil

namespace Path
variable {path : Path} {indices : List Nat}

/-- Repetitions with the same key take the same index. -/
def Consistent (path : Path) (indices : List Nat) : Prop :=
  ∀ j k : Nat, path.keys[j]? = path.keys[k]? → indices[j]? = indices[k]?

theorem Consistent.exists_map (h : path.Consistent indices)
    (hlength : path.keys.length = indices.length) :
    ∃ f : String → Nat, indices = path.keys.map f := by
  refine ⟨fun key => indices[path.keys.idxOf key]?.getD 0, ?_⟩
  apply List.ext_getElem?
  intro j
  rw [List.getElem?_map]
  by_cases hj : j < path.keys.length
  · have hfirst : path.keys[path.keys.idxOf path.keys[j]]? = path.keys[j]? := by
      rw [List.getElem?_eq_getElem (List.idxOf_lt_length_of_mem (List.getElem_mem hj)),
        List.getElem_idxOf, List.getElem?_eq_getElem hj]
    have hj' : j < indices.length := hlength ▸ hj
    simp [h _ _ hfirst, hj, hj']
  · rw [List.getElem?_eq_none (by omega), List.getElem?_eq_none (by omega), Option.map_none]

theorem consistent_of_nodup (h : path.keys.Nodup) (hlength : path.keys.length = indices.length) :
    path.Consistent indices := by
  intro j k hjk
  by_cases hj : j < path.keys.length
  · rw [(List.getElem?_inj hj h).1 hjk]
  · rw [List.getElem?_eq_none (Nat.le_of_not_lt hj), eq_comm, List.getElem?_eq_none_iff] at hjk
    rw [List.getElem?_eq_none (by omega), List.getElem?_eq_none (by omega)]

end Path

namespace Live

namespace Selector
variable {p : String} {keys : List String}

/-- The selector of a point that is given indices for keys, one after the other; an index for the
point's own name is one of them. -/
def choosing (p : String) (choices : List (String × Nat)) : Selector :=
  choices.foldl (fun s choice => s.withIndex choice.1 choice.2) (.ofPoint p)

@[simp] theorem point_choosing (p : String) (choices : List (String × Nat)) :
    (choosing p choices).point = p := by
  have run (s : Selector) :
      (choices.foldl (fun s choice => s.withIndex choice.1 choice.2) s).point = s.point := by
    induction choices generalizing s with
    | nil => rfl
    | cons choice rest ih => exact ih _
  exact run _

theorem index?_choosing (p : String) (f : String → Nat) {key : String} (h : key ∈ keys) :
    (choosing p (keys.map fun key => (key, f key))).index? key = some (f key) := by
  have run (s : Selector) (hs : key ∈ keys ∨ s.index? key = some (f key)) :
      ((keys.map fun key => (key, f key)).foldl
        (fun s choice => s.withIndex choice.1 choice.2) s).index? key = some (f key) := by
    clear h
    induction keys generalizing s with
    | nil => exact hs.resolve_left List.not_mem_nil
    | cons other rest ih =>
      apply ih
      rw [index?_withIndex]
      by_cases ho : key = other
      · exact .inr (by rw [if_pos ho, ho])
      · rw [if_neg ho]
        exact hs.imp_left fun hmem => (List.mem_cons.1 hmem).resolve_left ho
  exact run _ (.inl h)

end Selector

namespace Document
variable {d : Document} {root a : Handle} {path : Path} {indices indices' : List Nat}

theorem Leads.length_keys (h : d.Leads path indices root a) :
    path.keys.length = indices.length := by
  induction h with
  | here => rfl
  | fixed hkey _ _ _ ih => rw [Path.keys_fixed hkey, ih]
  | repeated _ _ _ ih => rw [Path.keys_repeated, List.length_cons, List.length_cons, ih]

theorem taken_unique (hf : d.Forest) {child child' : Handle} {position position' n : Nat}
    (taken : (d.elementChildren root)[position]? = some child)
    (taken' : (d.elementChildren root)[position']? = some child') (h : d.Below child n a)
    (h' : d.Below child' n a) : child = child' ∧ position = position' := by
  obtain rfl := h.top_unique h'
  obtain ⟨hlt, hget⟩ := List.getElem?_eq_some_iff.1 taken
  obtain ⟨hlt', hget'⟩ := List.getElem?_eq_some_iff.1 taken'
  exact ⟨rfl, (nodup_elementChildren hf root).getElem_inj_iff.1 (hget.trans hget'.symm)⟩

theorem Leads.indices_unique (hf : d.Forest) (h : d.Leads path indices root a)
    (h' : d.Leads path indices' root a) : indices = indices' := by
  induction h generalizing indices' with
  | here =>
    cases h'
    rfl
  | fixed hkey resolved taken rest ih =>
    cases h' with
    | fixed _ resolved' taken' rest' =>
      obtain ⟨rfl, _⟩ := taken_unique hf taken taken' (rest.level hf) (rest'.level hf)
      exact ih rest'
    | repeated => cases hkey
  | @repeated key base trailing i path indices position id child target resolved taken rest ih =>
    cases h' with
    | fixed hkey' => cases hkey'
    | @repeated _ _ _ i' _ _ position' _ child' _ resolved' taken' rest' =>
      obtain ⟨rfl, rfl⟩ := taken_unique hf taken taken' (rest.level hf) (rest'.level hf)
      have hposition := (Segment.resolve_repeated.1 resolved).1
      have hposition' := (Segment.resolve_repeated.1 resolved').1
      rw [ih rest', show i = i' by omega]

end Document
end Live

namespace Registry
open Live Document
variable {r : Registry} {d : Document} {root target a : Handle} {name p : String} {D : Descriptor}
  {entry : PointEntry} {indices : List Nat} {loc : Location}

theorem exists_choosing_iff (hf : d.Forest) (hentry : r.point? name p = some entry)
    (hleads : d.Leads entry.path indices root a) :
    (∃ choices, r.locate d root name (.choosing p choices) = .ok (some a)) ↔
      entry.path.Consistent indices := by
  constructor
  · rintro ⟨choices, hlocate⟩
    obtain ⟨entry', indices', hentry', hindices, hleads'⟩ := locate_eq_some_iff.1 hlocate
    rw [Selector.point_choosing] at hentry'
    obtain rfl := Option.some.inj (hentry.symm.trans hentry')
    rw [hleads.indices_unique hf hleads']
    intro j k hjk
    have hsame : (indices'.map some)[j]? = (indices'.map some)[k]? := by
      rw [← hindices, List.getElem?_map, List.getElem?_map, hjk]
    rw [List.getElem?_map, List.getElem?_map] at hsame
    exact Option.map_injective (Option.some_injective _) hsame
  · intro h
    obtain ⟨f, rfl⟩ := h.exists_map hleads.length_keys
    refine ⟨entry.path.keys.map fun key => (key, f key), locate_eq_some_iff.2
      ⟨entry, _, by rwa [Selector.point_choosing], ?_, hleads⟩⟩
    rw [List.map_map]
    exact List.map_congr_left fun key hkey => Selector.index?_choosing p f hkey

/-- **What is reported can be selected**, if the indices found on the way agree wherever a key comes
again. The element is the one that stands as far below the root as the path is long. Where no
selector finds it, a key on the path is reported as ambiguous. -/
theorem selectable_of_reported (hr : r.Reachable) (hd : d.Reachable) (hD : r.get? name = some D)
    (hloc : r.reverseLocate d root name target = .ok (some loc)) (hp : loc.contains p) :
    ∃ entry a indices, D.table.point? p = some entry ∧ d.Below root entry.path.length a ∧
      d.Within a target ∧ d.Leads entry.path indices root a ∧
      ((∃ choices, r.locate d root name (.choosing p choices) = .ok (some a)) ↔
        entry.path.Consistent indices) ∧
      ((∀ choices, r.locate d root name (.choosing p choices) ≠ .ok (some a)) →
        ∃ key ∈ entry.path.keys, D.table.isAmbiguous key ∧
          .ambiguousPoint key ∈ D.table.issues) := by
  obtain ⟨i, hi⟩ := Option.isSome_iff_exists.1 hp
  obtain ⟨entry, a, indices, hentry, hbelow, hwithin, hleads, _⟩ :=
    (find?_reverseLocate hr hd hloc p i).1 hi
  have hpoint : D.table.point? p = some entry := by
    rwa [point?, hD, Option.bind_some] at hentry
  have hiff := exists_choosing_iff hd.forest hentry hleads
  refine ⟨entry, a, indices, hpoint, hbelow, hwithin, hleads, hiff, fun hnone => ?_⟩
  apply hr.ambiguous_of_not_nodup hD hpoint
  intro hnodup
  obtain ⟨choices, hlocate⟩ := hiff.2 (Path.consistent_of_nodup hnodup hleads.length_keys)
  exact hnone choices hlocate

/-- No key on the path to a cell is ambiguous, so the second cell can be selected. -/
theorem selectable_of_reported_cell :
    boards.reverseLocate board 0 "Board" 5 = .ok (some [("cells", 1), ("rows", 0)]) ∧
      ∃ choices, boards.locate board 0 "Board" (.choosing "cells" choices) = .ok (some 5) := by
  have hr : boards.Reachable := .register (.withSettings _) _ _
  have hreported : boards.reverseLocate board 0 "Board" 5 =
      .ok (some [("cells", 1), ("rows", 0)]) := by
    decide
  refine ⟨hreported, ?_⟩
  obtain ⟨entry, a, indices, hentry, hbelow, hwithin, _, _, hdisputed⟩ :=
    selectable_of_reported (p := "cells") hr reachable_board rfl hreported (by decide)
  cases hentry
  have hchain : board.ancestorChain? 0 5 = some [0, 2, 5] := by decide
  have ha := (getElem?_chain reachable_board.forest hchain).2 ⟨hbelow, hwithin⟩
  obtain rfl : 5 = a := Option.some.inj ha
  by_contra hnone
  obtain ⟨key, _, hambiguous, _⟩ := hdisputed fun choices h => hnone ⟨choices, h⟩
  cases hambiguous

/-! ## Lists in a list

A page repeats a list under the name that the list gives to its items. The document shows two lists
of one item each.
-/

def listTree : Node :=
  .element "ul" .anonymous .empty
    [.element "li" ⟨some "items", .multiple, false⟩ .empty
      [.element "span" ⟨some "label", .single, false⟩ .empty []]]

def pageTree : Node :=
  .element "div" .anonymous .empty [.reference "List" ⟨some "items", .multiple, false⟩ .empty []]

def nesting : Registry := (Registry.empty.register "List" listTree).register "Page" pageTree

def nested : Document :=
  let d := ["div", "ul", "li", "span", "ul", "li", "span"].foldl
    (fun d tag => (d.createElement tag .empty).2) Document.empty
  [(0, 1), (1, 2), (2, 3), (0, 4), (4, 5), (5, 6)].foldl
    (fun d (parent, child) => (d.append parent child).1) d

theorem reachable_nesting : nesting.Reachable :=
  .register (.register (.withSettings _) _ _) _ _

theorem reachable_nested : nested.Reachable := by
  have first := (Reachable.empty.createElement "div" .empty).createElement "ul" .empty
  have item := (first.createElement "li" .empty).createElement "span" .empty
  have second := (item.createElement "ul" .empty).createElement "li" .empty
  have list := (second.createElement "span" .empty).append 0 1 ⟨by decide, by decide⟩
  have item := list.append 1 2 ⟨by decide, by decide⟩
  have label := item.append 2 3 ⟨by decide, by decide⟩
  have next := label.append 0 4 ⟨by decide, by decide⟩
  have below := next.append 4 5 ⟨by decide, by decide⟩
  exact below.append 5 6 ⟨by decide, by decide⟩

/-- The label in the second list is reported. It is the first label of the second list, and no
selector can choose different indices for the two repetitions, as they have the same key. -/
theorem label_not_selectable :
    ¬ ∀ (r : Registry) (d : Document) (root target : Handle) (name : String) (loc : Location),
      r.Reachable → d.Reachable → r.contains name →
      r.reverseLocate d root name target = .ok (some loc) → ∀ p, loc.contains p →
      ∃ entry a choices, r.point? name p = some entry ∧ d.Below root entry.path.length a ∧
        d.Within a target ∧ r.locate d root name (.choosing p choices) = .ok (some a) := by
  intro h
  obtain ⟨entry, a, choices, hentry, hbelow, hwithin, hlocate⟩ :=
    h nesting nested 0 6 "Page" _ reachable_nesting reachable_nested (by decide) rfl "label"
      (by decide)
  have hlabel : nesting.point? "Page" "label" = some ⟨"List", 2, .single,
      [.repeated "items" 0 0, .repeated "items" 0 0, .index 0], some ⟨1, "label"⟩⟩ := rfl
  obtain rfl := Option.some.inj (hlabel.symm.trans hentry)
  have hf := reachable_nested.forest
  have hchain : nested.ancestorChain? 0 6 = some [0, 4, 5, 6] := by decide
  have ha := (getElem?_chain hf hchain).2 ⟨hbelow, hwithin⟩
  obtain rfl : 6 = a := Option.some.inj ha
  have list : (Segment.repeated "items" 0 0).resolve (some 1) (nested.elementChildren 0).length =
      .ok (some 1) := by decide
  have item : (Segment.repeated "items" 0 0).resolve (some 0) (nested.elementChildren 4).length =
      .ok (some 0) := by decide
  have label : (Segment.index 0).resolve none (nested.elementChildren 5).length = .ok (some 0) := by
    decide
  have hleads : nested.Leads [.repeated "items" 0 0, .repeated "items" 0 0, .index 0] [1, 0] 0 6 :=
    .repeated list (by decide) (.repeated item (by decide) (.fixed rfl label (by decide) (.here 6)))
  have hconsistent := (exists_choosing_iff hf rfl hleads).1 ⟨choices, hlocate⟩
  have hsame : [1, 0][0]? = [1, 0][1]? := hconsistent 0 1 rfl
  cases hsame

end Registry
end Stencil
