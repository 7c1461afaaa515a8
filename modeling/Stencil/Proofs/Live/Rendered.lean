import Stencil.Proofs.Registry.Reachable
import Stencil.Proofs.Render.Clean
import Stencil.Proofs.Render.Ending
import Stencil.Proofs.Render.Paths

/-! # Locating what was rendered

The survey, the renderer, the reading of markup and the lookup agree on positions: in what a plain
template renders to, every point is located at the element that its node was emitted as.
-/
namespace Stencil
open Render Labelled Live Document

theorem Render.exists_emitted {settings : Settings} {root : Node} {point : PointSpec}
    {data : Record}
    (hplain : root.Plain settings) (hpoint : root.point? = some point)
    (hsingle : point.cardinality = .single) (hdata : (Value.item data).Clean) :
    ∃ emitted o, labelled settings 0 [] true [data] root = [emitted] ∧
      Stands settings emitted ⟨0, []⟩ root.inner ∧ emitted.Pictures o ∧ emitted.erase.Readable := by
  have hscopes : CleanScopes [data] := List.forall_mem_singleton.2 hdata
  have hreadable := readable_labelled hplain hscopes 0 [] true
  cases hplain with
  | text => cases hpoint
  | @element tag _ attributes children =>
    cases hpoint
    have hlength : (labelled settings 0 [] true [data]
        (.element tag point attributes children)).length = 1 := length_labelled_single hsingle
    obtain ⟨emitted, hemitted⟩ := List.length_eq_one_iff.1 hlength
    have hstands : Stands settings emitted ⟨0, extended point [] 0⟩ children :=
      stands_of_getElem? (by rw [hemitted]; rfl)
    rw [extended_single hsingle] at hstands
    obtain ⟨o, ho⟩ := exists_pictures (Option.isSome_of_eq_some hstands.label?)
    exact ⟨emitted, o, hemitted, hstands, ho, hreadable emitted (by rw [hemitted]; simp)⟩

namespace Registry
variable {r : Registry} {d : Document} {name : String} {D : Descriptor} {data : Record}
  {entry : PointEntry} {point : String}

theorem follows_of_point? (hr : r.Reachable) (hD : r.get? name = some D)
    (hplain : D.root.Plain r.settings) (hsize : D.root.size ≤ wordSize)
    (h : r.point? name point = some entry) :
    (∀ segment ∈ entry.path, segment.FitsIn wordSize) ∧
      Follows r.settings entry.path D.root 0 entry.node := by
  obtain ⟨lookup, hcompile⟩ := hr.compiled name D hD
  rw [point?, hD, Option.bind_some, hcompile] at h
  obtain ⟨_, _, rel, hpath, hfits, hfollows⟩ :=
    follows_of_visit hplain hsize (PointTable.sighted_of_point? h)
  rw [hpath]
  exact ⟨hfits, hfollows⟩

/-- **Points are located where they were rendered.** A plain template with a single root renders any
clean data to markup that is read into a document in the outline of what was emitted. There the
lookup of a point gives the element with the label of the point's node under the chosen repetitions,
and nothing if no such element was emitted. -/
theorem locate_rendered (hr : r.Reachable) (hd : d.Reachable) (hD : r.get? name = some D)
    (hplain : D.root.Plain r.settings) (hsize : D.root.size ≤ wordSize)
    (hsingle : D.root.point?.map (·.cardinality) = some .single) (hdata : (Value.item data).Clean) :
    ∃ emitted root d', labelled r.settings 0 [] true [data] D.root = [emitted] ∧
      r.render name data = some (.ok (emitted.erase.write r.settings.quote)) ∧
      d.materialize (emitted.erase.write r.settings.quote) = (.ok root, d') ∧
      (d'.fragment root).outlines = emitted.erase.outlines ∧
      ∀ (s : Selector) (entry : PointEntry) (indices : List Nat),
        r.point? name s.point = some entry → s.Fits entry.path →
        entry.path.keys.map s.index? = indices.map some →
          (∀ address, labelAt? address emitted = some ⟨entry.node, indices⟩ →
            ∃ e, d'.elementAt? address root = some e ∧ r.locate d' root name s = .ok (some e)) ∧
          ((∀ address, labelAt? address emitted ≠ some ⟨entry.node, indices⟩) →
            r.locate d' root name s = .ok none) := by
  obtain ⟨point, hpoint, hcardinality⟩ := Option.map_eq_some_iff.1 hsingle
  obtain ⟨emitted, o, hemitted, hstands, ho, hreadable⟩ :=
    exists_emitted hplain hpoint hcardinality hdata
  have hrender : r.render name data = some (.ok (emitted.erase.write r.settings.quote)) := by
    rw [render_of_get? hD, renderRoot, node_eq_erase hplain _ 0 [] true [data], hemitted]
    simp [eraseList, Piece.writeList]
  obtain ⟨f, hf, hfo⟩ := ofMarkup?_write hreadable ho r.settings.quote
  obtain ⟨hforest, hresult⟩ := materialize_spec hd.forest (emitted.erase.write r.settings.quote)
  rw [hf] at hresult
  obtain ⟨root, hroot, _, _, hfragment⟩ := hresult
  generalize hm : d.materialize (emitted.erase.write r.settings.quote) = result at *
  obtain ⟨_, d'⟩ := result
  cases hroot
  have hshows : d'.Shows root o := by rw [Shows, hfragment, hfo]
  refine ⟨emitted, root, d', hemitted, hrender, hm, by rw [hfragment, hfo]; exact ho.symm, ?_⟩
  intro s entry indices hentry hfits hkeys
  obtain ⟨hpath, hfollows⟩ := follows_of_point? hr hD hplain hsize hentry
  have hleads (address : List Nat) : o.Leads entry.path indices address ↔
      labelAt? address emitted = some ⟨entry.node, indices⟩ :=
    hfollows emitted o s [] indices address hstands ho hfits hkeys
  constructor
  · intro address hlabel
    obtain ⟨e, he, hlead⟩ := leads_of_address hforest ((hleads address).2 hlabel) hshows
    exact ⟨e, he, locate_eq_some_iff.2 ⟨entry, indices, hentry, hkeys, hlead⟩⟩
  · intro hnone
    obtain ⟨found, hfound⟩ := exists_follow? hpath hfits d' root
    have hlocate : r.locate d' root name s = .ok found :=
      (locate_of_point? hentry d' root).trans hfound
    cases found with
    | none => exact hlocate
    | some e =>
      obtain ⟨entry', indices', hentry', hkeys', hlead⟩ := locate_eq_some_iff.1 hlocate
      obtain rfl := Option.some.inj (hentry.symm.trans hentry')
      obtain rfl : indices = indices' :=
        (Option.some_injective Nat).list_map (hkeys.symm.trans hkeys')
      obtain ⟨address, haddress, _⟩ := address_of_leads hforest hlead hshows
      exact absurd ((hleads address).1 haddress) (hnone address)

/-- Two items for the listing. -/
def listedData : Record := [("items", .sequence [.scalar "one", .scalar "two"])]

theorem plain_listingTree : listingTree.Plain Registry.empty.settings := by
  have keys := Markup.hasKeys_empty
  refine .element (Markup.isWord_of_all rfl rfl rfl) (by decide +kernel) (by decide) keys ?_
  refine List.forall_mem_cons.2 ⟨?_, List.forall_mem_singleton.2 ?_⟩
  · exact .element (Markup.isWord_of_all rfl rfl rfl) (by decide +kernel) (by decide) keys nofun
  · exact .element (Markup.isWord_of_all rfl rfl rfl) (by decide +kernel) (by decide) keys nofun

theorem clean_listedData : (Value.item listedData).Clean := by
  refine .item (List.forall_mem_singleton.2 (.sequence ?_)) ?_
  · exact List.forall_mem_cons.2
      ⟨.scalar (by decide), List.forall_mem_singleton.2 (.scalar (by decide))⟩
  · intro point value index attributes hmem
    obtain ⟨hkey, _⟩ := Prod.mk.inj (List.mem_singleton.1 hmem)
    have hhead := congrArg (·.toList.head?) hkey
    simp [attributeKey, String.toList_append] at hhead

/-- The second item is located where it was rendered, behind the heading and the first item. -/
theorem locate_rendered_listing :
    ∃ emitted root d' e, labelled listing.settings 0 [] true [listedData] listingTree = [emitted] ∧
      labelAt? [2] emitted = some ⟨2, [1]⟩ ∧
      listing.render "Listing" listedData =
        some (.ok (emitted.erase.write listing.settings.quote)) ∧
      Document.empty.materialize (emitted.erase.write listing.settings.quote) = (.ok root, d') ∧
      d'.elementAt? [2] root = some e ∧
      listing.locate d' root "Listing" ((Selector.ofPoint "items").atIndex 1) = .ok (some e) := by
  obtain ⟨emitted, root, d', hemitted, hrender, hm, _, hlocate⟩ :=
    locate_rendered (D := .compile empty.get? "Listing" listingTree) reachable_listing .empty
      ((get?_register _ _ _ _).trans (if_pos ⟨rfl, rfl⟩)) plain_listingTree (by decide) rfl
      clean_listedData
  obtain ⟨entry, hentry, hitems⟩ := entry_items
  obtain ⟨hnode, hpath⟩ := Prod.mk.inj hitems
  have hlabel : labelAt? [2] emitted = some ⟨2, [1]⟩ := by
    have hhead : (labelled listing.settings 0 [] true [listedData] listingTree).head?.bind
        (labelAt? [2]) = some ⟨2, [1]⟩ := by decide +kernel
    rw [show labelled listing.settings 0 [] true [listedData] listingTree = [emitted]
      from hemitted] at hhead
    exact hhead
  have hfits : ((Selector.ofPoint "items").atIndex 1).Fits entry.path := by
    intro key base trailing hmem i hi
    rw [hpath, List.mem_singleton] at hmem
    cases hmem
    cases hi
    decide
  obtain ⟨e, he, hfound⟩ := (hlocate ((Selector.ofPoint "items").atIndex 1) entry [1] hentry hfits
    (by rw [hpath]; decide)).1 [2] (by rw [hnode]; exact hlabel)
  exact ⟨emitted, root, d', e, hemitted, hlabel, hrender, hm, he, hfound⟩

end Registry
end Stencil
