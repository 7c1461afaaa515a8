import Stencil.Proofs.Live.Location
import Stencil.Proofs.Live.Outline

/-! # Addresses

An address leads from element child to element child by position. A live element shows an outline,
and then paths lead to the same addresses in both.
-/
namespace Stencil

/-- The segments of a path lead from an outline to an address in it, as `Live.Document.Leads` does
from a live element to another. -/
inductive Outline.Leads : Path → List Nat → Outline → List Nat → Prop
  | here (o : Outline) : Leads [] [] o []
  | fixed {segment : Segment} {path : Path} {indices address : List Nat} {position : Nat}
      {o child : Outline} (hkey : segment.key? = none)
      (resolved : segment.resolve none o.children.length = .ok (some position))
      (taken : o.children[position]? = some child) (rest : Leads path indices child address) :
      Leads (segment :: path) indices o (position :: address)
  | repeated {key : String} {base trailing i : Nat} {path : Path} {indices address : List Nat}
      {position : Nat} {o child : Outline}
      (resolved : (Segment.repeated key base trailing).resolve (some i) o.children.length =
        .ok (some position))
      (taken : o.children[position]? = some child) (rest : Leads path indices child address) :
      Leads (.repeated key base trailing :: path) (i :: indices) o (position :: address)

theorem Outline.not_leads_of_childless {o : Outline} (h : o.children = []) (segment : Segment)
    (path : Path) (indices address : List Nat) : ¬ o.Leads (segment :: path) indices address := by
  intro hleads
  cases hleads with
  | fixed _ _ taken => simp [h] at taken
  | repeated _ taken => simp [h] at taken

namespace Live.Document
variable {d : Document} {id e : Handle} {o : Outline} {path : Path} {indices address : List Nat}
  {k : Nat}

/-- The element at an address below another. -/
def elementAt? (d : Document) : List Nat → Handle → Option Handle
  | [], id => some id
  | k :: address, id => ((d.elementChildren id)[k]?).bind (elementAt? d address)

/-- The live element has the outline. -/
def Shows (d : Document) (id : Handle) (o : Outline) : Prop := (d.fragment id).outlines = [o]

theorem forall₂_shows (hf : d.Forest) (ids : List Handle) :
    List.Forall₂ d.Shows (ids.filter d.isElement) (Fragment.outlinesList (ids.map d.fragment)) := by
  induction ids with
  | nil => exact .nil
  | cons id ids ih =>
    rw [List.filter_cons, List.map_cons, Fragment.outlinesList, ← isElement_fragment hf]
    cases hid : d.fragment id with
    | text s => exact ih
    | element tag attributes children =>
      refine .cons ?_ ih
      rw [Shows, hid]
      rfl

theorem Shows.children (hf : d.Forest) (h : d.Shows id o) :
    List.Forall₂ d.Shows (d.elementChildren id) o.children := by
  have helement : (d.fragment id).isElement := by
    cases hid : d.fragment id with
    | text s =>
      rw [Shows, hid] at h
      cases h
    | element => rfl
  rw [isElement_fragment hf] at helement
  unfold isElement at helement
  split at helement
  · next tag attributes children heq =>
    rw [Shows, fragment_of_element hf heq] at h
    obtain rfl := (List.cons.inj h).1
    rw [elementChildren, children_of_get? heq]
    exact forall₂_shows hf children
  · cases helement

theorem Shows.taken (hf : d.Forest) (h : d.Shows id o) {c : Handle}
    (hc : (d.elementChildren id)[k]? = some c) : ∃ o', o.children[k]? = some o' ∧ d.Shows c o' := by
  have hchildren := h.children hf
  obtain ⟨hlt, rfl⟩ := List.getElem?_eq_some_iff.1 hc
  have hlt' : k < o.children.length := hchildren.length_eq ▸ hlt
  exact ⟨o.children[k], List.getElem?_eq_getElem hlt', hchildren.get hlt hlt'⟩

theorem Shows.shown (hf : d.Forest) (h : d.Shows id o) {o' : Outline}
    (ho : o.children[k]? = some o') : ∃ c, (d.elementChildren id)[k]? = some c ∧ d.Shows c o' := by
  have hchildren := h.children hf
  obtain ⟨hlt, rfl⟩ := List.getElem?_eq_some_iff.1 ho
  have hlt' : k < (d.elementChildren id).length := hchildren.length_eq ▸ hlt
  exact ⟨_, List.getElem?_eq_getElem hlt', hchildren.get hlt' hlt⟩

theorem address_of_leads (hf : d.Forest) (h : d.Leads path indices id e) (hs : d.Shows id o) :
    ∃ address, o.Leads path indices address ∧ d.elementAt? address id = some e := by
  induction h generalizing o with
  | here id => exact ⟨[], .here o, rfl⟩
  | fixed hkey resolved taken _ ih =>
    obtain ⟨o', ho, hs'⟩ := hs.taken hf taken
    obtain ⟨address, hleads, hat⟩ := ih hs'
    rw [(hs.children hf).length_eq] at resolved
    refine ⟨_ :: address, .fixed hkey resolved ho hleads, ?_⟩
    rw [elementAt?, taken]
    exact hat
  | repeated resolved taken _ ih =>
    obtain ⟨o', ho, hs'⟩ := hs.taken hf taken
    obtain ⟨address, hleads, hat⟩ := ih hs'
    rw [(hs.children hf).length_eq] at resolved
    refine ⟨_ :: address, .repeated resolved ho hleads, ?_⟩
    rw [elementAt?, taken]
    exact hat

theorem leads_of_address (hf : d.Forest) (h : o.Leads path indices address) (hs : d.Shows id o) :
    ∃ e, d.elementAt? address id = some e ∧ d.Leads path indices id e := by
  induction h generalizing id with
  | here o => exact ⟨id, rfl, .here id⟩
  | fixed hkey resolved taken _ ih =>
    obtain ⟨c, hc, hs'⟩ := hs.shown hf taken
    obtain ⟨e, hat, hleads⟩ := ih hs'
    rw [← (hs.children hf).length_eq] at resolved
    refine ⟨e, ?_, .fixed hkey resolved hc hleads⟩
    rw [elementAt?, hc]
    exact hat
  | repeated resolved taken _ ih =>
    obtain ⟨c, hc, hs'⟩ := hs.shown hf taken
    obtain ⟨e, hat, hleads⟩ := ih hs'
    rw [← (hs.children hf).length_eq] at resolved
    refine ⟨e, ?_, .repeated resolved hc hleads⟩
    rw [elementAt?, hc]
    exact hat

end Live.Document
end Stencil
