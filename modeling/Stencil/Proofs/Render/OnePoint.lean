import Stencil.Proofs.Registry.Sources
import Stencil.Proofs.Render.Entry
import Stencil.Proofs.Render.Standing
import Stencil.Proofs.Render.Writing

/-! # One point and all of them

A point shows the same whether its template is rendered as a whole or the point alone, if references
supply what they supply to points that stand alone: the path of the point leads to the element that
rendering the point shows.
-/
namespace Stencil.Registry
open Markup Live Render Survey
variable {r : Registry} {D sub : Descriptor} {s X : Record} {id : NodeId} {c child : Node}
  {p : String} {entry : PointEntry} {path : Path} {isRoot : Bool} {n : Nat} {pieces : List Piece}
  {piece : Piece} {f g : Fragment} {tag template : String} {point : PointSpec}
  {attributes : Attributes} {children : List Node} {slots : List (String × Slot)}

/-! ## What points show -/

/-- The fragment is what rendering the entry alone shows, and markup that is bound to the point
fills it unless it is shown without content. -/
structure Shows (r : Registry) (D : Descriptor) (s : Record) (p : String) (entry : PointEntry)
    (f : Fragment) : Prop where
  alone : ∀ X m Z, X.Focuses s p entry.path → r.Resolves D entry X m Z →
    ∃ levels piece, node r.settings (r.inclusionTo levels) true [Z] m = some [piece] ∧
      Images r.settings.quote piece f
  content : ∀ markup filling, s.find? p = some (.scalar markup) → Fills markup.toList filling →
    f.inner = [] ∨ f.inner = filling.filter Fragment.isElement

/-- A point that a node declares itself shows what the node shows. -/
theorem shows_own {rel : Path} (h : r.Standing D s id c) (hs : D.Supplied s)
    (hpoint : c.point? = some point) (hroot : isRoot ↔ path = [])
    (hnode : node r.settings (r.inclusionTo n) isRoot [s] c = some [piece])
    (hown : .point p entry ∈ ownPoint D.name path false id point)
    (hp : D.table.point? p = some entry) (hpath : entry.path = path ++ rel)
    (himage : Images r.settings.quote piece f) (hfollow : f.follow? rel = some g)
    (hcontent : ∀ markup filling, point.id.bind s.find? = some (.scalar markup) →
      Fills markup.toList filling → f.inner = [] ∨ f.inner = filling.filter Fragment.isElement) :
    r.Shows D s p entry g := by
  obtain ⟨_, hid, hentry⟩ := point_of_ownPoint hown
  obtain rfl : rel = [] := by
    rw [hentry] at hpath
    exact List.self_eq_append_right.1 hpath
  obtain rfl : f = g := Option.some.inj hfollow
  have hlacks : isRoot → s.Lacks p := by
    intro hisRoot
    refine (hs.points p (h.named p (Node.mem_names_of_point hpoint hid))).resolve_right ?_
    intro hbound
    obtain ⟨entry', hentry', _, hne⟩ := hbound.1.own
    obtain rfl := Option.some.inj (hp.symm.trans hentry')
    rw [hentry] at hne
    exact hne (hroot.1 hisRoot)
  refine ⟨fun X m Z hX hresolves => ?_, fun markup filling hvalue => ?_⟩
  · cases hresolves with
    | own _ found =>
      have hm : c = m := by
        rw [hentry] at found
        exact Option.some.inj (h.numbered.getElem?.symm.trans found)
      have hX' : X.Focuses s p path := by
        rw [hentry] at hX
        exact hX
      have hsame := node_focused r.settings (r.inclusionTo n) hs hX' hpoint
        hid hroot hlacks h.named h.fitting
      exact ⟨n, piece, hm ▸ hsame.trans hnode, himage⟩
    | through inherited =>
      rw [hentry] at inherited
      cases inherited
  · rw [hid] at hcontent
    exact hcontent markup filling hvalue

theorem lacks_of_inherited (hs : D.Supplied s) (hname : IsName p)
    (hp : D.table.point? p = some entry) (h : entry.inherited ≠ none) : s.Lacks p := by
  refine (hs.points p hname).resolve_right fun hbound => ?_
  obtain ⟨entry', hentry', hown, _⟩ := hbound.1.own
  obtain rfl := Option.some.inj (hp.symm.trans hentry')
  exact h hown

/-- A point that comes through a reference shows what the point of the referenced template shows. -/
theorem shows_through {q : String} {target : PointEntry} {s' : Record}
    (h : r.Standing D s id (.reference template point attributes slots)) (hs : D.Supplied s)
    (hsub : r.get? template = some sub)
    (hadded : Added r.settings (r.inclusionTo n) s
      (rootScope (attributes.merge (if path = [] then s.laid rootKey else .empty)) none) s' slots)
    (hname : IsName p) (hq : IsName q) (htarget : sub.table.point? q = some target)
    (hp : D.table.point? p = some (through id path q target)) (hshows : r.Shows sub s' q target f) :
    r.Shows D s p (through id path q target) f := by
  have hlacks : s.Lacks p := lacks_of_inherited hs hname hp nofun
  constructor
  · intro X m Z hX hresolves
    cases hresolves with
    | own inherited => cases inherited
    | @through _ _ _ _ _ X' _ _ _ _ _ _ _ _ _ inherited found registered supplied listed rest =>
      cases inherited
      cases h.numbered.getElem?.symm.trans found
      cases hsub.symm.trans registered
      cases htarget.symm.trans listed
      refine hshows.alone X' m Z ?_ rest
      have hchildren : ∀ slot ∈ slots, ∀ c ∈ slot.2.children, ∀ name ∈ c.names,
          IsName name ∧ s.Lacks name := by
        intro slot hslot c hc name hname
        have hmem := Node.mem_names_of_child (Node.mem_childNodes_of_slot hslot hc template point
          attributes) hname
        exact ⟨h.named name hmem, h.lacks name hmem⟩
      cases h.orderly with
      | reference _ _ sorted named _ offered =>
        exact focuses_supplied sorted named hadded hq hlacks htarget (offered sub hsub) hchildren
          hX supplied
  · intro markup filling hvalue
    rw [hlacks.value] at hvalue
    cases hvalue

/-! ## Where paths lead -/

variable {lookup : String → Option Descriptor}

/-- From what a node renders to, the path of every point that is seen at the node leads to what the
point shows. -/
def Faithful (r : Registry) (lookup : String → Option Descriptor) (D : Descriptor) (s : Record)
    (n : Nat) (c : Node) : Prop :=
  ∀ id path isRoot pieces, r.Standing D s id c → (isRoot = true ↔ path = []) →
    node r.settings (r.inclusionTo n) isRoot [s] c = some pieces →
    ∀ p entry rel, .point p entry ∈ visit lookup D.name path false id c →
      D.table.point? p = some entry → entry.path = path ++ rel →
        ∀ piece ∈ pieces, ∀ f g, Images r.settings.quote piece f → f.follow? rel = some g →
          r.Shows D s p entry g

/-- What is seen among children is shown where its path leads from around them. -/
theorem shows_of_visitList {first : NodeId} {rel : Path}
    (ho : ∀ name D, r.get? name = some D → D.Orderly r)
    (hc : ∀ c ∈ children, Faithful r lookup D s n c)
    (hstanding : r.StandingList D s first children)
    (hwords : children.length < wordSize)
    (hnodes : nodes r.settings (r.inclusionTo n) [s] children = some pieces)
    (himages : f.inner = [] ∨
      List.Forall₂ (Images r.settings.quote) (pieces.filter Piece.isElement) f.inner)
    (hseen : .point p entry ∈ visitList lookup D.name path false first
      (Placement.ofFootprints (children.map Footprint.ofNode)) children)
    (hp : D.table.point? p = some entry) (hpath : entry.path = path ++ rel)
    (hfollow : f.follow? rel = some g) : r.Shows D s p entry g := by
  obtain ⟨pre, child, post, rfl, hfixed, hs⟩ := point_of_visitList hseen
  obtain ⟨rel', hrel'⟩ := prefix_of_visit hs
  obtain rfl : rel = segmentBetween pre child post :: rel' := by
    rw [← hrel', List.append_assoc] at hpath
    exact (List.append_cancel_left hpath).symm
  replace himages := himages.resolve_left fun hnil => by
    obtain ⟨t, ht, _⟩ := Option.bind_eq_some_iff.1 hfollow
    simp [Fragment.child?, hnil] at ht
  obtain ⟨point, hpoint⟩ : ∃ point, child.point? = some point := by
    cases child with
    | text => cases hs
    | element | reference => exact ⟨_, rfl⟩
  have htidy : ∀ c ∈ pre ++ child :: post, c.Tidy r := by
    intro c hc
    obtain ⟨pre', post', hsplit⟩ := List.append_of_mem hc
    exact (hstanding pre' c post' hsplit).tidy
  obtain ⟨here, piece, t, hhere, hpiece, himage, hg⟩ := child_shown (tidy_of_orderly ho) htidy
    hwords hpoint hfixed hnodes himages hfollow
  exact hc child (by simp) _ _ false here (hstanding pre child post rfl) (by simp) hhere
    p entry rel' hs hp hrel'.symm piece hpiece t g himage hg

/-- An element keeps what its children show. -/
theorem faithful_element (ho : ∀ name D, r.get? name = some D → D.Orderly r) (hs : D.Supplied s)
    (hc : ∀ c ∈ children, Faithful r lookup D s n c) :
    Faithful r lookup D s n (.element tag point attributes children) := by
  intro id path isRoot pieces h hroot hnode p entry rel hseen hp hpath piece hpiece f g hf hfollow
  rcases h.element (tidy_of_orderly ho) hs hnode with
    rfl | ⟨piece', found, inner, rfl, himage, hencloses⟩
  · cases hpiece
  · obtain rfl := List.mem_singleton.1 hpiece
    obtain rfl := hf.unique himage
    rw [visit, List.mem_append] at hseen
    rcases hseen with hown | hseen
    · refine shows_own h hs rfl hroot hnode hown hp hpath hf hfollow
        fun markup filling hvalue hfills => ?_
      cases hencloses with
      | nothing => exact .inl rfl
      | markup _ _ bound fills =>
        cases hvalue.symm.trans bound
        exact .inr (congrArg _ (fills.unique hfills))
      | children _ _ unbound => cases hvalue.symm.trans unbound
    · have hwords := h.tidy.length_children_lt
      cases hencloses with
      | nothing =>
        -- nothing is found inside an element without content
        obtain ⟨pre, child, post, rfl, _, hs⟩ := point_of_visitList hseen
        obtain ⟨rel', hrel'⟩ := prefix_of_visit hs
        rw [← hrel', List.append_assoc] at hpath
        obtain rfl := List.append_cancel_left hpath
        simp [Fragment.follow?, Fragment.child?, Fragment.inner] at hfollow
      | markup _ _ hvalue =>
        -- and an element that markup is bound to has nothing to be seen inside
        obtain ⟨name, hname, hvalue⟩ := Option.bind_eq_some_iff.1 hvalue
        have hbound : ¬ s.Lacks name := fun hno => by
          rw [hno.value] at hvalue
          cases hvalue
        obtain ⟨_, _, _, _, heq, hsilent⟩ := ((h.fitting name
          (Node.mem_names_of_point rfl hname)).resolve_left hbound).of_point rfl hname
        cases heq
        obtain ⟨pre, child, post, rfl, _, hs⟩ := point_of_visitList hseen
        exact absurd hs (hsilent child (by simp)).not_visited
      | children _ _ _ hnodes himages =>
        exact shows_of_visitList (f := .element tag found inner) ho hc h.elementChildren hwords
          hnodes (.inr himages) hseen hp hpath hfollow

def Agrees (r : Registry) (n : Nat) : Prop :=
  ∀ name D s pieces, r.get? name = some D → D.Supplied s →
    node r.settings (r.inclusionTo n) true [s] D.root = some pieces →
    ∃ piece f, pieces = [piece] ∧ Images r.settings.quote piece f ∧
      ∀ p entry g, D.table.point? p = some entry → f.follow? entry.path = some g →
        r.Shows D s p entry g

theorem faithful_marker (hs : D.Supplied s)
    (hagainst : ∀ template sub, lookup template = some sub → r.get? template = some sub)
    (hnone : r.get? template = none) :
    Faithful r lookup D s n (.reference template point attributes slots) := by
  intro id path isRoot pieces h hroot hnode p entry rel hseen hp hpath piece hpiece f g hf hfollow
  have hmarker := hnode
  rw [node_reference_none _ _ ((inclusionTo_eq_none n template).2 hnone)] at hmarker
  cases hmarker
  obtain rfl := List.mem_singleton.1 hpiece
  rcases point_of_reference hseen with hown | ⟨sub, hsub, _⟩
  · exact shows_own h hs rfl hroot hnode hown hp hpath hf hfollow
      fun markup _ hvalue => absurd hvalue (h.unfilled markup)
  · rw [hagainst template sub hsub] at hnone
    cases hnone

theorem shows_of_slot {before after : List (String × Slot)} {slot : String × Slot}
    {scope s' : Record} {target : PointEntry} {rel : Path}
    (ho : ∀ name D, r.get? name = some D → D.Orderly r) (hs : D.Supplied s)
    (hc : ∀ c ∈ slot.2.children, Faithful r lookup D s n c)
    (h : r.Standing D s id (.reference template point attributes (before ++ slot :: after)))
    (hadded : Added r.settings (r.inclusionTo n) s scope s' (before ++ slot :: after))
    (hshows : r.Shows sub s' slot.1 target f)
    (hseen : .point p entry ∈ visitList lookup D.name path false
      (id + 1 + (Node.preorderSlots before).length)
      (Placement.ofFootprints (slot.2.children.map Footprint.ofNode)) slot.2.children)
    (hp : D.table.point? p = some entry) (hpath : entry.path = path ++ rel)
    (hfollow : f.follow? rel = some g) : r.Shows D s p entry g := by
  have hslot : slot ∈ before ++ slot :: after := by simp
  rcases hadded.markup hslot with ⟨hnil, _⟩ | ⟨_, content, hcontent, hvalue⟩
  · rw [hnil] at hseen
    cases hseen
  · -- what the slot renders to fills the element that its point shows
    have htidy : ∀ c ∈ slot.2.children, c.Tidy r := fun c hc =>
      h.tidy.child (Node.mem_childNodes_of_slot hslot hc ..)
    obtain ⟨filling, himages, hfills⟩ :=
      fills_writeList (legible_nodes (tidy_of_orderly ho) htidy hs.tidy hcontent)
    have hinner := (hshows.content _ filling hvalue hfills).imp_right fun h => h.symm ▸ himages
    have hwords := h.tidy.length_slot_lt hslot
    exact shows_of_visitList ho hc h.slotChildren hwords hcontent hinner hseen hp hpath hfollow

/-- A reference keeps what its template shows, and what its slots put there. -/
theorem faithful_reference (hr : r.Reachable)
    (ho : ∀ name D, r.get? name = some D → D.Orderly r) (hs : D.Supplied s)
    (hagainst : ∀ template sub, lookup template = some sub → r.get? template = some sub)
    (hnamed : ∀ name D p entry, r.get? name = some D → D.table.point? p = some entry → IsName p)
    (hD : r.get? D.name = some D) (hsub : r.get? template = some sub)
    (hlower : ∀ m, n = m + 1 → r.Agrees m)
    (hc : ∀ slot ∈ slots, ∀ c ∈ slot.2.children, Faithful r lookup D s n c) :
    Faithful r lookup D s n (.reference template point attributes slots) := by
  intro id path isRoot pieces h hroot hnode p entry rel hseen hp hpath piece hpiece f g hf hfollow
  rcases h.reference (tidy_of_orderly ho) hs hroot hsub hnode with
    rfl | ⟨m, s', rfl, hadded, hsupplied, hsubnode⟩
  · cases hpiece
  · obtain ⟨piece', image, rfl, himage, hshows⟩ :=
      hlower m rfl template sub s' pieces hsub hsupplied hsubnode
    obtain rfl := List.mem_singleton.1 hpiece
    obtain rfl := hf.unique himage
    have hname : IsName p := hnamed D.name D p entry hD hp
    have hthrough {q : String} {target : PointEntry}
        (htarget : sub.table.point? q = some target) (hentry : entry = through id path q target) :
        r.Shows D s p entry g := by
      subst hentry
      obtain rfl := List.append_cancel_left hpath
      exact shows_through h hs hsub hadded hname (hnamed template sub q target hsub htarget)
        htarget hp (hshows q target g htarget hfollow)
    rcases point_of_reference hseen with hown | ⟨sub', hsub', ⟨_, target, htarget, hentry⟩ |
      ⟨before, slot, after, target, rfl, htarget, ⟨_, hid, hentry⟩ | hlist⟩⟩
    · exact shows_own h hs rfl hroot hnode hown hp hpath hf hfollow
        fun markup _ hvalue => absurd hvalue (h.unfilled markup)
    · cases hsub.symm.trans (hagainst template sub' hsub')
      exact hthrough (hr.find?_points hsub htarget) hentry
    · cases hsub.symm.trans (hagainst template sub' hsub')
      exact hthrough htarget hentry
    · cases hsub.symm.trans (hagainst template sub' hsub')
      obtain ⟨rel', hrel'⟩ := prefix_of_visitList hlist
      obtain rfl : rel = target.path ++ rel' := by
        rw [← hrel', List.append_assoc] at hpath
        exact (List.append_cancel_left hpath).symm
      rw [Fragment.follow?_append] at hfollow
      obtain ⟨t, ht, hg⟩ := Option.bind_eq_some_iff.1 hfollow
      exact shows_of_slot ho hs (hc slot (by simp)) h hadded (hshows slot.1 target t htarget ht)
        hlist hp hrel'.symm hg

theorem faithful_text (markup : String) : Faithful r lookup D s n (.text markup) :=
  fun _ _ _ _ _ _ _ _ _ _ hseen => nomatch hseen

theorem faithful_of_lower (hr : r.Reachable) (ho : ∀ name D, r.get? name = some D → D.Orderly r)
    (hlower : ∀ m, n = m + 1 → r.Agrees m) (hD : r.get? D.name = some D) (hs : D.Supplied s)
    (hagainst : ∀ template sub, lookup template = some sub → r.get? template = some sub)
    (c : Node) : Faithful r lookup D s n c := by
  have hnamed (name : String) (D : Descriptor) (p : String) (entry : PointEntry)
      (hD : r.get? name = some D) (hp : D.table.point? p = some entry) : IsName p := by
    obtain ⟨other, X, hX, hname⟩ := hr.named name D p entry hD (NameMap.mem_of_find? hp)
    exact (ho other X hX).named p hname
  induction c using Node.induct with
  | step c ih =>
    cases c with
    | text markup => exact faithful_text markup
    | element => exact faithful_element ho hs ih
    | reference template =>
      cases hsub : r.get? template with
      | none => exact faithful_marker hs hagainst hsub
      | some sub =>
        exact faithful_reference hr ho hs hagainst hnamed hD hsub hlower
          fun slot hslot c hc => ih c (Node.mem_childNodes_of_slot hslot hc ..)

theorem agrees_of_lower (hr : r.Reachable) (ho : ∀ name D, r.get? name = some D → D.Orderly r)
    (hlower : ∀ m, n = m + 1 → r.Agrees m) : r.Agrees n := by
  intro name D s pieces hD hs hnode
  obtain ⟨lookup, hcompiled, hagainst⟩ := hr.compiled_against name D hD
  obtain rfl : D.name = name := hr.name_of_get? hD
  have hfaithful := faithful_of_lower hr ho hlower hD hs hagainst D.root
  have ht := tidy_of_orderly ho
  obtain ⟨piece, rfl, helement⟩ :=
    isOne_root (steady_inclusionTo ht.steady n) (ho D.name D hD).steady hnode
  obtain ⟨f, himage⟩ := (legible_node ht (ht.root D.name D hD) hs.tidy hnode piece
    List.mem_cons_self).exists_images helement
  refine ⟨piece, f, rfl, himage, fun p entry g hp hfollow => ?_⟩
  have hseen : .point p entry ∈ visit lookup D.name [] false 0 D.root := by
    have hp' := hp
    rw [hcompiled] at hp'
    exact PointTable.sighted_of_point? hp'
  exact hfaithful 0 [] true [piece] (standing_root (ho D.name D hD) hs) (by simp) hnode p entry
    entry.path hseen hp rfl piece List.mem_cons_self f g himage hfollow

theorem agrees (hr : r.Reachable) (ho : ∀ name D, r.get? name = some D → D.Orderly r) (n : Nat) :
    r.Agrees n := by
  induction n with
  | zero => exact agrees_of_lower hr ho nofun
  | succ n ih => exact agrees_of_lower hr ho fun m hm => Nat.succ.inj hm ▸ ih

/-! ## Without data -/

theorem supplied_nil (D : Descriptor) : D.Supplied [] where
  root := rfl
  rootKeys := nofun
  points _ _ := .inl ⟨rfl, rfl⟩

theorem focuses_nil (p : String) (path : Path) : Record.Focuses [] [] p path where
  lacks _ _ := ⟨rfl, rfl⟩
  value := rfl
  laid := by split <;> rfl

/-- **One point shows what it shows among all.** If references supply content and attributes only to
points that stand alone, the element that a point's path leads to in the rendered template is the
one that rendering the point alone gives. -/
theorem renderPoint_located {d d' : Document} {root e : Handle} {selector : Selector}
    {name html : String} (hr : r.Reachable)
    (ho : ∀ name D, r.get? name = some D → D.Orderly r) (hd : d.Reachable)
    (hrender : r.render name [] = some (.ok html))
    (hends : r.renderPoint name selector.point [] ≠ none)
    (hroot : d.materialize html = (.ok root, d'))
    (hfirst : ∀ key i, selector.index? key = some i → i = 0)
    (hlocate : r.locate d' root name selector = .ok (some e)) :
    ∃ html', r.renderPoint name selector.point [] = some (.ok html') ∧
      ∀ c : Document, c.Reachable → ∃ root' c', c.materialize html' = (.ok root', c') ∧
        c'.outerMarkup root' = d'.outerMarkup e := by
  obtain ⟨entry, hentry, hfollow⟩ := exists_of_locate hlocate
  obtain ⟨D, hD, hp⟩ := Option.bind_eq_some_iff.1 hentry
  obtain ⟨D', n, pieces, hD', hnode, rfl⟩ := (render_eq_ok.1 hrender).exists_node
  cases hD.symm.trans hD'
  obtain ⟨piece, f, rfl, himage, hall⟩ :=
    agrees hr ho n name D [] pieces hD (supplied_nil D) hnode
  rw [Piece.writeList_singleton] at hroot
  obtain ⟨_, hlead⟩ := himage.located hd.forest hroot hfirst hfollow
  have hshows := hall selector.point entry _ hp hlead
  obtain ⟨m, Z, k, pieces', hresolves, hnode', hpoint⟩ := renderPoint_resolves hr hD hp hends
  obtain ⟨levels, piece', hnode'', himage'⟩ := hshows.alone [] m Z (focuses_nil _ _) hresolves
  obtain rfl := node_unique hnode' hnode''
  refine ⟨_, hpoint, fun c hc => ?_⟩
  obtain ⟨root'', c', hmaterialize', _, hfragment'⟩ := himage'.materialize hc.forest
  refine ⟨root'', c', by rw [Piece.writeList_singleton, hmaterialize'], ?_⟩
  rw [Document.outerMarkup, Document.outerMarkup, hfragment']

/-! ## A card whose title is filled -/

def namedPoint (name : String) : PointSpec := ⟨some name, .single, false⟩

/-- A card with a title and a note, which stand alone. -/
def cardRoot : Node := .element "div" .anonymous .empty
  [.element "h2" (namedPoint "title") .empty [.text "Untitled"],
    .element "p" (namedPoint "note") .empty []]

/-- A card with a title of its own, and a note under another name. -/
def titledRoot : Node := .reference "Card" .anonymous .empty
  [("note", ⟨some "remark", .empty, []⟩),
    ("title", ⟨none, .empty, [.element "b" (namedPoint "name") .empty []]⟩)]

def titled : Registry := (empty.register "Card" cardRoot).register "Titled" titledRoot

theorem get?_titled {name : String} {D : Descriptor} (h : titled.get? name = some D) :
    name = "Card" ∧ D = .compile empty.get? "Card" cardRoot ∨ name = "Titled" ∧
      D = .compile (empty.register "Card" cardRoot).get? "Titled" titledRoot := by
  rw [titled, get?_register] at h
  split at h
  · next hname => exact .inr ⟨hname.1, (Option.some.inj h).symm⟩
  · rw [get?_register] at h
    split at h
    · next hname => exact .inl ⟨hname.1, (Option.some.inj h).symm⟩
    · cases h

theorem isName_titled {name : String} (h : name ∈ ["title", "note", "remark", "name"]) :
    IsName name := by
  simp only [List.mem_cons, List.not_mem_nil, or_false] at h
  rcases h with rfl | rfl | rfl | rfl <;> exact isName_of_head (by decide) (by decide)

theorem orderly_element {r : Registry} {tag : String} {point : PointSpec} {children : List Node}
    (word : IsWord tag) (h : r.settings.isVoid tag = false) (parent : ¬ isChildless tag)
    (inner : ∀ c ∈ children, c.Orderly r) : (Node.element tag point .empty children).Orderly r :=
  .element word (by rw [h]; exact Bool.false_ne_true) parent nofun inner

theorem orderly_card : (Descriptor.compile empty.get? "Card" cardRoot).Orderly titled where
  tree := by
    refine orderly_element (isWord_of_all rfl rfl rfl) (by decide +kernel) (by decide) ?_
    simp only [List.forall_mem_cons]
    refine ⟨orderly_element (isWord_of_all rfl rfl rfl) (by decide +kernel) (by decide) ?_,
      orderly_element (isWord_of_all rfl rfl rfl) (by decide +kernel) (by decide) nofun, nofun⟩
    exact List.forall_mem_singleton.2 (.text (by decide))
  steady := by
    change ¬ PointSpec.isMultiple .anonymous
    decide
  named name hname := by
    have hname : name ∈ ["title", "note"] := hname
    exact isName_titled (List.mem_append_left ["remark", "name"] hname)
  small := by decide

theorem alone_title : cardRoot.Alone "title" := by
  refine .around [] rfl (.here rfl (List.forall_mem_singleton.2 ?_)) (by decide)
  intro m hm
  cases List.mem_singleton.1 hm
  exact ⟨rfl, rfl⟩

theorem offers_title : (Descriptor.compile empty.get? "Card" cardRoot).Offers "title" where
  own := ⟨⟨"Card", 1, .single, [.index 0], none⟩, by rfl, rfl, nofun⟩
  alone := alone_title

theorem orderly_titled : (Descriptor.compile (empty.register "Card" cardRoot).get? "Titled"
    titledRoot).Orderly titled where
  tree := by
    refine .reference (fun _ h => absurd h.1 (by decide)) nofun ?_ ?_ ?_ ?_ ?_
    · have hlt : "note" < "title" := by decide
      exact List.pairwise_pair.2 hlt
    · simp only [List.forall_mem_cons]
      exact ⟨isName_titled (by decide), isName_titled (by decide), nofun⟩
    · simp only [List.forall_mem_cons]
      exact ⟨nofun, nofun, nofun⟩
    · intro sub hsub
      rcases get?_titled hsub with ⟨_, rfl⟩ | ⟨hne, _⟩
      · simp only [List.forall_mem_cons]
        exact ⟨.inl ⟨rfl, rfl⟩, .inr offers_title, nofun⟩
      · exact absurd hne (by decide)
    · simp only [List.forall_mem_cons]
      refine ⟨nofun, ⟨?_, nofun⟩, nofun⟩
      exact orderly_element (isWord_of_all rfl rfl rfl) (by decide +kernel) (by decide) nofun
  steady := by
    intro h
    exact absurd h.1 (by decide)
  named name hname := by
    have hname : name ∈ ["remark", "name"] := hname
    exact isName_titled (List.mem_append_right ["title", "note"] hname)
  small := by decide

theorem orderly_of_titled (name : String) (D : Descriptor) (h : titled.get? name = some D) :
    D.Orderly titled := by
  rcases get?_titled h with ⟨_, rfl⟩ | ⟨_, rfl⟩
  · exact orderly_card
  · exact orderly_titled

def titledMarkup : String := "<div><h2><b></b></h2><p></p></div>"

/-- The title of the card shows what the slot puts there. -/
theorem renderPoint_located_title :
    (Document.empty.materialize titledMarkup).2.outerMarkup 2 = "<h2><b></b></h2>" ∧
      ∃ html, titled.renderPoint "Titled" "title" [] = some (.ok html) ∧
        ∀ c : Document, c.Reachable → ∃ root c', c.materialize html = (.ok root, c') ∧
          c'.outerMarkup root =
            (Document.empty.materialize titledMarkup).2.outerMarkup 2 := by
  have hreachable : titled.Reachable := .register (.register (.withSettings _) _ _) _ _
  have hroot : Document.empty.materialize titledMarkup =
      (.ok 1, (Document.empty.materialize titledMarkup).2) := Prod.ext (by decide +kernel) rfl
  have hlocate : titled.locate (Document.empty.materialize titledMarkup).2 1 "Titled"
      ⟨"title", []⟩ = .ok (some 2) := by decide +kernel
  have hpoint : titled.renderPoint "Titled" "title" [] = some (.ok "<h2><b></b></h2>") := by
    have hdata : titled.suppliedData (titled.inclusionTo 0) (.compile empty.get? "Card" cardRoot)
        .empty [("note", ⟨some "remark", .empty, []⟩),
          ("title", ⟨none, .empty, [.element "b" (namedPoint "name") .empty []]⟩)] "title" [] =
        some [(rootKey, .scalar "<b></b>")] := by with_unfolding_all rfl
    refine ((renderPoint_answers hreachable _ _ _).ok _).2 ?_
    exact ⟨_, _, rfl, rfl, _, _, 0, .through rfl rfl rfl hdata rfl (.own rfl rfl),
      by decide +kernel⟩
  refine ⟨by decide +kernel, renderPoint_located hreachable orderly_of_titled .empty
    (render_eq_ok_of_levels 1 (by decide +kernel)) (fun hend => ?_) hroot (fun key i hi => ?_)
    hlocate⟩
  · cases hpoint.symm.trans hend
  · cases hi

/-! ## A slot for a point from further below -/

def paneRoot : Node := .element "div" .anonymous .empty [.element "p" (namedPoint "x") .empty []]

def frameRoot (slots : List (String × Slot)) : Node :=
  .element "section" .anonymous .empty [.reference "R" .anonymous .empty slots]

def stackedRoot (p : String) : Node :=
  .reference "S" .anonymous .empty [(p, ⟨none, .empty, [.text "hi"]⟩)]

def framed (slots : List (String × Slot)) : Registry :=
  (empty.register "R" paneRoot).register "S" (frameRoot slots)

def stacked (slots : List (String × Slot)) (p : String) : Registry :=
  (framed slots).register "T" (stackedRoot p)

theorem reachable_stacked (slots : List (String × Slot)) (p : String) :
    (stacked slots p).Reachable :=
  .register (.register (.register (.withSettings _) _ _) _ _) _ _

/-- Sources in which a slot is written for a point that comes from two templates below. -/
def stackedSources : List String :=
  ["template R \x7b div \x7b p #x \x7d \x7d template S \x7b section \x7b use R \x7d \x7d " ++
    "template T \x7b use S \x7b x \x7b \"hi\" \x7d \x7d \x7d"]

def stackedDeclarations : List Source.Declaration :=
  [⟨"R", ⟨9, 10⟩, paneRoot⟩, ⟨"S", ⟨37, 38⟩, frameRoot []⟩, ⟨"T", ⟨70, 71⟩, stackedRoot "x"⟩]

theorem afterSources_stackedSources :
    (withSettings .default).afterSources stackedSources = stacked [] "x" := by
  have hparse : Source.parse
      ("template R \x7b div \x7b p #x \x7d \x7d template S \x7b section \x7b use R \x7d \x7d " ++
        "template T \x7b use S \x7b x \x7b \"hi\" \x7d \x7d \x7d") =
      .ok stackedDeclarations := by with_unfolding_all rfl
  have hsort : Declarations.sort (trees stackedDeclarations)
      (stackedDeclarations.map (·.name)) = .ok ["R", "S", "T"] := by cbv
  rw [afterSources, stackedSources, List.foldl_cons, List.foldl_nil, afterSource,
    registerSource_of_sort hparse (by decide) hsort]
  rfl

/-- The slot shows in the point alone, but its point is not the template's own. -/
theorem not_renderPoint_located_stacked :
    ¬ ∀ settings sources (d d' c c' : Document) (root e root' : Handle) (selector : Selector)
      name html html', d.Reachable → c.Reachable →
      ((withSettings settings).afterSources sources).render name [] = some (.ok html) →
      ((withSettings settings).afterSources sources).renderPoint name selector.point [] =
        some (.ok html') →
      d.materialize html = (.ok root, d') → c.materialize html' = (.ok root', c') →
      (∀ key i, selector.index? key = some i → i = 0) →
      ((withSettings settings).afterSources sources).locate d' root name selector = .ok (some e) →
      c'.outerMarkup root' = d'.outerMarkup e := by
  intro h
  have h := h .default stackedSources
  rw [afterSources_stackedSources] at h
  have hshown : (stacked [] "x").RendersPoint "T" "x" [] "<p>hi</p>" :=
    ⟨_, _, rfl, rfl, _, _, 0, .through rfl rfl rfl
      (rfl : (stacked [] "x").suppliedData ((stacked [] "x").inclusionTo 0) _ _ _ _ _ = _) rfl
      (.through rfl rfl rfl
        (rfl : (stacked [] "x").suppliedData ((stacked [] "x").inclusionTo 0) _ _ _ _ _ = _) rfl
        (.own rfl rfl)), by decide +kernel⟩
  have hequal := h .empty
    (Document.empty.materialize "<section><div><p></p></div></section>").2 .empty
    (Document.empty.materialize "<p>hi</p>").2 1 3 1 ⟨"x", []⟩ "T"
    "<section><div><p></p></div></section>" "<p>hi</p>" .empty .empty
    (render_eq_ok_of_levels 2 (by decide +kernel))
    (((renderPoint_answers (reachable_stacked _ _) _ _ _).ok _).2 hshown)
    (Prod.ext (by decide +kernel) rfl) (Prod.ext (by decide +kernel) rfl) nofun
    (by decide +kernel)
  have hleft : (Document.empty.materialize "<p>hi</p>").2.outerMarkup 1 = "<p>hi</p>" := by
    decide +kernel
  have hright : (Document.empty.materialize "<section><div><p></p></div></section>").2.outerMarkup
    3 = "<p></p>" := by decide +kernel
  rw [hleft, hright] at hequal
  exact absurd hequal (by decide)

end Stencil.Registry
