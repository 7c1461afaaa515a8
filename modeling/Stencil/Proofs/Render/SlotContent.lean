import Stencil.Proofs.Render.OnePoint
import Stencil.Proofs.Render.Reveal

/-! # What a slot puts into a point

The content of a slot is rendered where the reference stands, and bound to the point of the
referenced template. There it shows at the element of the point, if the template declares the point
itself or hands the name on through a slot of its own. A point that it merely takes over from a
reference is never looked up, so that what is bound to it shows nowhere.
-/
namespace Stencil.Registry
open Markup Live Render Survey
variable {r : Registry} {D T : Descriptor} {name template p tag : String}
  {entry target : PointEntry} {point : PointSpec} {attributes : Attributes}
  {slots : List (String × Slot)} {slot : Slot}

theorem path_of_rootReference (hr : r.Reachable) (hD : r.get? name = some D)
    (hT : r.get? template = some T) (hroot : D.root = .reference template point attributes slots)
    (hanonymous : point.id = none) (hp : D.table.point? p = some entry)
    (htarget : T.table.point? p = some target) : entry.path = target.path := by
  obtain ⟨lookup, hcompiled, hagainst⟩ := hr.compiled_against name D hD
  rw [hcompiled] at hp
  have hseen := PointTable.sighted_of_point? hp
  rw [hroot] at hseen hp
  rcases point_of_reference hseen with hown | ⟨sub, hsub, _⟩
  · obtain ⟨_, hid, _⟩ := point_of_ownPoint hown
    rw [hanonymous] at hid
    cases hid
  · cases hT.symm.trans (hagainst template sub hsub)
    have hthrough : .point p (through 0 [] p target) ∈
        visit lookup name [] false 0 (.reference template point attributes slots) := by
      rw [visit, hsub]
      apply List.mem_append_right
      apply List.mem_append_left
      apply List.mem_append_right
      exact List.mem_map.2 ⟨(p, target), NameMap.mem_of_find? htarget, rfl⟩
    exact (PointTable.path_of_sighted hp hthrough).symm

theorem node_eq_of_unnamed {settings : Settings} {inclusion : Inclusion} {c : Node}
    {s s' : Record} (hp : IsName p) (named : ∀ other ∈ c.names, IsName other)
    (hunnamed : p ∉ c.names)
    (h : ∀ key, key ≠ p ∧ key ≠ attributeKey p → s'.find? key = s.find? key) (isRoot : Bool) :
    node settings inclusion isRoot [s'] c = node settings inclusion isRoot [s] c := by
  refine node_congr (fun other hother => ?_) fun _ => ?_
  · have hname := named other hother
    have hne : other ≠ p := fun heq => hunnamed (heq ▸ hother)
    have hvalue := h other ⟨hne, hname.ne_attributeKey p⟩
    have hoverrides := h (attributeKey other)
      ⟨(hp.ne_attributeKey other).symm, fun heq => hne (attributeKey_inj.1 heq)⟩
    refine ⟨?_, fun index => ?_⟩
    · rw [lookup_singleton, lookup_singleton, hvalue]
    · rw [lookup_singleton, lookup_singleton, hoverrides]
  · have hvalue := h rootKey ⟨hp.ne_rootKey.symm, (attributeKey_ne_rootKey p).symm⟩
    have hoverrides := h (attributeKey rootKey)
      ⟨(hp.ne_attributeKey rootKey).symm, hp.attributeKey_ne.symm⟩
    refine ⟨?_, ?_⟩
    · rw [lookup_singleton, lookup_singleton, hvalue]
    · rw [lookup_singleton, lookup_singleton, hoverrides]

/-- **A slot for a name that the referenced template does not have in its tree shows nowhere**: what
is rendered is what the reference gives without the slot. -/
theorem render_unnamed_slot {html : String} (hD : r.get? name = some D)
    (hT : r.get? template = some T)
    (hreference : D.root = .reference template point attributes [(p, slot)]) (hp : IsName p)
    (named : ∀ other ∈ T.root.names, IsName other) (hunnamed : p ∉ T.root.names)
    (hrender : r.render name [] = some (.ok html)) :
    r.renderRoot (.reference template point attributes []) [] = some html := by
  obtain ⟨D', n, pieces, hD', hnode, rfl⟩ := (render_eq_ok.1 hrender).exists_node
  cases hD.symm.trans hD'
  refine renderRoot_eq_some_iff.2 ⟨n, Option.map_eq_some_iff.2 ⟨pieces, ?_, rfl⟩⟩
  rw [hreference] at hnode
  have hvalue : (bound point true [[]]).value = none := by
    cases hid : point.id <;> simp [bound, hid, lookup_singleton, NameMap.find?]
  obtain ⟨expand, hexpand, hlast⟩ := inclusionTo_of_get? hT n
  rw [node_reference_some _ _ hexpand, emissions_eq, emitAll_markup (.inl hvalue)] at hnode ⊢
  split at hnode
  · next hmultiple =>
    rw [if_pos hmultiple]
    exact hnode
  · next hsingle =>
    rw [if_neg hsingle]
    simp only [hvalue, emit, hexpand, emitReference] at hnode ⊢
    obtain ⟨s', hbind, hpieces⟩ := Option.bind_eq_some_iff.1 hnode
    have hids : ∀ other ∈ [(p, slot)], IsMarkup (other.2.id.bind (NameMap.find? ([] : Record))) :=
      fun other _ => .inl (by cases other.2.id <;> rfl)
    have hreceives := receives_of_bindSlots (List.pairwise_singleton _ _)
      (List.forall_mem_singleton.2 hp) hids hbind
    obtain ⟨m, hm, hroot⟩ := (hlast _ _).1 hpieces
    rw [bindSlots, Option.bind_some]
    refine (hlast _ _).2 ⟨m, hm, ?_⟩
    rw [← hroot]
    exact (node_eq_of_unnamed hp named hunnamed
      (fun key hkey => hreceives.others key (by simpa using hkey)) true).symm

theorem tidy_nil : Record.Tidy [] := fun _ _ => Record.Lacks.filled ⟨rfl, rfl⟩

theorem only_nil (names : String → Prop) : Record.Only [] names := fun _ _ => .inl rfl

/-- **The content of a slot shows at its point**, if the referenced template reveals the point. -/
theorem slotContent_located {d d' : Document} {root e : Handle} {selector : Selector}
    {html : String} (hr : r.Reachable) (ht : r.Tidy) (hd : d.Reachable)
    (hD : r.get? name = some D) (hT : r.get? template = some T)
    (hreference : D.root = .reference template point attributes slots)
    (hanonymous : point.id = none) (hslot : (selector.point, slot) ∈ slots)
    (hcontent : slot.children ≠ []) (htarget : T.table.point? selector.point = some target)
    (hreveals : r.Reveals (passedOn (fun _ => False) slots) true T.root target.path selector.point)
    (hrender : r.render name [] = some (.ok html)) (hroot : d.materialize html = (.ok root, d'))
    (hfirst : ∀ key i, selector.index? key = some i → i = 0)
    (hlocate : r.locate d' root name selector = .ok (some e))
    (htag : d'.tag? e = some tag) (hvoid : r.settings.isVoid tag = false) :
    ∃ markup, fragment r.settings r.inclusion [[]] slot.children = some markup ∧
      ∀ c : Document, c.Reachable → ∃ root' c',
        c.materialize ((Piece.element tag .empty [.raw markup]).write r.settings.quote) =
          (.ok root', c') ∧
        (c'.children root').map c'.fragment = (d'.children e).map d'.fragment := by
  obtain ⟨entry, hentry, hfollow⟩ := exists_of_locate hlocate
  obtain ⟨D', hD', hp⟩ := Option.bind_eq_some_iff.1 hentry
  cases hD.symm.trans hD'
  obtain ⟨D', n, pieces, hD', hnode, rfl⟩ := (render_eq_ok.1 hrender).exists_node
  cases hD.symm.trans hD'
  have htidy := ht.root name D hD
  obtain ⟨piece, rfl, helement⟩ :=
    isOne_root (steady_inclusionTo ht.steady _) (ht.steady name D hD) hnode
  obtain ⟨f, himage⟩ := (legible_node ht htidy tidy_nil hnode piece
    List.mem_cons_self).exists_images helement
  rw [Piece.writeList_singleton] at hroot
  obtain ⟨hforest, hlead⟩ := himage.located hd.forest hroot hfirst hfollow
  rw [path_of_rootReference hr hD hT hreference hanonymous hp htarget] at hlead
  rw [hreference] at htidy hnode
  have hclear : point.Clear (fun _ => False) true := ⟨fun _ => id, fun _ _ => id⟩
  obtain ⟨m, s', _, hs', honly, hbrings, hnode'⟩ := received_of_node ht htidy tidy_nil (only_nil _)
    hclear hT hnode List.mem_cons_self
  have hunbound : slot.id.bind (NameMap.find? ([] : Record)) = none := by cases slot.id <;> rfl
  obtain ⟨pieces, rendered, hfind⟩ := (hbrings _ hslot).eq_rendered hunbound hcontent
  have hchildren : ∀ child ∈ slot.children, child.Tidy r := fun child hmem =>
    htidy.child (Node.mem_childNodes_of_slot hslot hmem ..)
  obtain ⟨filling, _, hfills⟩ := fills_writeList (legible_nodes ht hchildren tidy_nil rendered)
  have hfilled := hreveals.filled ht (ht.root template T hT) hs' honly hfind hfills hnode'
    List.mem_cons_self himage hlead
  generalize hfragment : d'.fragment e = g at hfilled
  cases hfilled with
  | nothing void =>
    obtain ⟨htag', _⟩ := Document.content_of_fragment hforest hfragment
    cases htag.symm.trans htag'
    cases hvoid.symm.trans void
  | filled word _ parent =>
    obtain ⟨htag', hchildren⟩ := Document.content_of_fragment hforest hfragment
    cases htag.symm.trans htag'
    refine ⟨Piece.writeList r.settings.quote pieces,
      Option.map_eq_some_iff.2 ⟨pieces, nodes_eq_some_iff.2 ⟨_, rendered⟩, rfl⟩, ?_⟩
    intro c hc
    have hfills' : Fills (Piece.writeList r.settings.quote
        [.raw (Piece.writeList r.settings.quote pieces)]).toList filling := by
      rwa [Piece.writeList_singleton]
    obtain ⟨found', helement⟩ := images_element hfills' word parent hasKeys_empty
    obtain ⟨root', c', hmaterialize, hforest', hfragment'⟩ := helement.materialize hc.forest
    refine ⟨root', c', hmaterialize, ?_⟩
    rw [(Document.content_of_fragment hforest' hfragment').2, hchildren]

/-! ## A slot for a point below a reference -/

theorem unfilled_paneRoot : Unfilled paneRoot := nofun

theorem get?_stacked {slots : List (String × Slot)} (h : (stacked slots p).get? name = some D) :
    D.root = paneRoot ∨ D.root = frameRoot slots ∨ D.root = stackedRoot p := by
  rw [stacked, get?_register] at h
  split at h
  · exact .inr (.inr (Option.some.inj h ▸ rfl))
  · rw [framed, get?_register] at h
    split at h
    · exact .inr (.inl (Option.some.inj h ▸ rfl))
    · rw [get?_register] at h
      split at h
      · exact .inl (Option.some.inj h ▸ rfl)
      · cases h

/-- A slot that takes what is bound to another name to the point of the pane. -/
def renamingSlots : List (String × Slot) := [("x", ⟨some "y", .empty, []⟩)]

theorem tidy_renaming : (stacked renamingSlots "y").Tidy where
  root name D hD := by
    have hx : IsName "x" := isName_of_head (by decide) (by decide)
    have hy : IsName "y" := isName_of_head (by decide) (by decide)
    rcases get?_stacked hD with h | h | h
    · rw [h]
      refine ⟨?_, List.forall_mem_singleton.2 hx, by decide⟩
      refine List.forall_mem_cons.2 ⟨?_, List.forall_mem_singleton.2 ?_⟩
      · exact .element (isWord_of_all rfl rfl rfl) (.inr (by decide)) nofun
      · exact .element (isWord_of_all rfl rfl rfl) (.inr (by decide)) nofun
    · rw [h]
      refine ⟨?_, List.forall_mem_singleton.2 hy, by decide⟩
      refine List.forall_mem_cons.2 ⟨?_, List.forall_mem_singleton.2 ?_⟩
      · exact .element (isWord_of_all rfl rfl rfl) (.inr (by decide)) nofun
      · exact .reference (fun _ h => absurd h.1 (by decide)) nofun (List.pairwise_singleton _ _)
          (List.forall_mem_singleton.2 hx) (List.forall_mem_singleton.2 nofun)
    · rw [h]
      refine ⟨?_, nofun, by decide⟩
      refine List.forall_mem_cons.2 ⟨?_, List.forall_mem_singleton.2 (.text (by decide))⟩
      exact .reference (fun _ h => absurd h.1 (by decide)) nofun (List.pairwise_singleton _ _)
        (List.forall_mem_singleton.2 hy) (List.forall_mem_singleton.2 nofun)
  steady name D hD := by
    have hsingle : ¬ PointSpec.isMultiple .anonymous := by decide
    rcases get?_stacked hD with h | h | h
    · rwa [h]
    · rwa [h]
    · rw [h]
      exact fun h => hsingle h.1

theorem eq_of_passedOn_singleton {names : String → Prop} {q other : String}
    (h : passedOn names [(q, slot)] other) : other = q := by
  obtain ⟨slot, hslot, _⟩ := h
  cases List.mem_singleton.1 hslot
  rfl

theorem reveals_renaming : (stacked renamingSlots "y").Reveals
    (passedOn (fun _ => False) [("y", ⟨none, .empty, [.text "hi"]⟩)]) true
    (frameRoot renamingSlots) [.index 0, .index 0] "y" := by
  have hx : IsName "x" := isName_of_head (by decide) (by decide)
  have hy : IsName "y" := isName_of_head (by decide) (by decide)
  have hR : (stacked renamingSlots "y").get? "R" = some (.compile empty.get? "R" paneRoot) := by
    rw [stacked, get?_register, if_neg (by decide), framed, get?_register, if_neg (by decide),
      get?_register_empty]
  have hdeclared : (Descriptor.compile empty.get? "R" paneRoot).table.point? "x" =
      some ⟨"R", 1, .single, [.index 0], none⟩ := by rfl
  have hpane {names : String → Prop} : (stacked renamingSlots "y").Reveals
      (passedOn names renamingSlots) true paneRoot [.index 0] "x" :=
    reveals_of_own (reachable_stacked _ _) hR hdeclared rfl rfl hx unfilled_paneRoot fun _ =>
      eq_of_passedOn_singleton
  have hfixed : FixedBetween [] (.reference "R" .anonymous .empty renamingSlots) [] := rfl
  refine .child ⟨fun _ h => ?_, fun id hid => ?_⟩ hfixed ?_
  · exact hy.ne_rootKey (eq_of_passedOn_singleton h).symm
  · cases hid
  · exact .renamed (.anonymous _) hR List.mem_cons_self rfl hpane

theorem index?_unindexed (p key : String) (i : Nat)
    (h : Selector.index? ⟨p, []⟩ key = some i) : i = 0 := by
  cases h

def renamedMarkup : String := "<section><div><p>hi</p></div></section>"

/-- The paragraph of the pane holds the text. -/
theorem slotContent_located_renamed :
    (Document.empty.materialize renamedMarkup).2.outerMarkup 3 = "<p>hi</p>" ∧
      ∃ markup, fragment (stacked renamingSlots "y").settings
          (stacked renamingSlots "y").inclusion [[]] [.text "hi"] = some markup ∧
        ∀ c : Document, c.Reachable → ∃ root c',
          c.materialize ((Piece.element "p" .empty [.raw markup]).write
            (stacked renamingSlots "y").settings.quote) = (.ok root, c') ∧
          (c'.children root).map c'.fragment =
            ((Document.empty.materialize renamedMarkup).2.children 3).map
              (Document.empty.materialize renamedMarkup).2.fragment := by
  have hD : (stacked renamingSlots "y").get? "T" =
      some (.compile (framed renamingSlots).get? "T" (stackedRoot "y")) := by
    rw [stacked, get?_register, if_pos ⟨rfl, by decide +kernel⟩]
  have hT : (stacked renamingSlots "y").get? "S" =
      some (.compile (empty.register "R" paneRoot).get? "S" (frameRoot renamingSlots)) := by
    rw [stacked, get?_register, if_neg (by decide), framed, get?_register,
      if_pos ⟨rfl, by decide +kernel⟩]
  have htarget : (Descriptor.compile (empty.register "R" paneRoot).get? "S"
      (frameRoot renamingSlots)).table.point? (⟨"y", []⟩ : Selector).point =
        some ⟨"R", 1, .single, [.index 0, .index 0], some ⟨1, "x"⟩⟩ := by rfl
  have hrender : (stacked renamingSlots "y").render "T" [] = some (.ok renamedMarkup) :=
    render_eq_ok_of_levels 2 (by decide +kernel)
  have hroot : Document.empty.materialize renamedMarkup =
      (.ok 1, (Document.empty.materialize renamedMarkup).2) := Prod.ext (by decide +kernel) rfl
  have hlocate : (stacked renamingSlots "y").locate (Document.empty.materialize renamedMarkup).2 1
      "T" ⟨"y", []⟩ = .ok (some 3) := by decide +kernel
  have htag : (Document.empty.materialize renamedMarkup).2.tag? 3 = some "p" := by decide +kernel
  have hvoid : (stacked renamingSlots "y").settings.isVoid "p" = false := by decide +kernel
  exact ⟨by decide +kernel, slotContent_located (reachable_stacked _ _) tidy_renaming .empty hD hT
    rfl rfl List.mem_cons_self (List.cons_ne_nil _ _) htarget reveals_renaming hrender hroot
    (index?_unindexed _) hlocate htag hvoid⟩

def bareMarkup : String := "<section><div><p></p></div></section>"

/-- The slot is accepted, and its point stays empty. -/
theorem not_slotContent_located_stacked :
    ¬ ∀ (r : Registry) (D T : Descriptor) (d d' : Document) (root e : Handle) (selector : Selector)
      name template html tag point attributes (slot : Slot), r.Reachable → d.Reachable →
      r.get? name = some D → r.get? template = some T → D.table.issues = [] →
      D.root = .reference template point attributes [(selector.point, slot)] →
      point.id = none → slot.id = none → (T.table.point? selector.point).isSome →
      slot.children ≠ [] → r.render name [] = some (.ok html) → d.materialize html = (.ok root, d') →
      (∀ key i, selector.index? key = some i → i = 0) →
      r.locate d' root name selector = .ok (some e) → d'.tag? e = some tag →
      r.settings.isVoid tag = false →
      ∃ markup, fragment r.settings r.inclusion [[]] slot.children = some markup ∧
        ∀ c : Document, c.Reachable → ∃ root' c',
          c.materialize ((Piece.element tag .empty [.raw markup]).write r.settings.quote) =
            (.ok root', c') ∧
          (c'.children root').map c'.fragment = (d'.children e).map d'.fragment := by
  intro h
  have hD : (stacked [] "x").get? "T" = some (.compile (framed []).get? "T" (stackedRoot "x")) := by
    rw [stacked, get?_register, if_pos ⟨rfl, by decide +kernel⟩]
  obtain ⟨T, hT⟩ : ∃ T, (stacked [] "x").get? "S" = some T :=
    Option.isSome_iff_exists.1 (by decide +kernel)
  have hlisted : (T.table.point? "x").isSome := by
    have hsome : (((stacked [] "x").get? "S").bind (·.table.point? "x")).isSome := by
      decide +kernel
    rwa [hT] at hsome
  have hroot : Document.empty.materialize bareMarkup =
      (.ok 1, (Document.empty.materialize bareMarkup).2) := Prod.ext (by decide +kernel) rfl
  obtain ⟨markup, hmarkup, hcontent⟩ := h (stacked [] "x") _ T .empty _ 1 3 ⟨"x", []⟩ "T" "S"
    bareMarkup "p" _ _ _ (reachable_stacked _ _) .empty hD hT (by decide +kernel) rfl rfl rfl hlisted
    (List.cons_ne_nil _ _) (render_eq_ok_of_levels 2 (by decide +kernel)) hroot
    (index?_unindexed _) (by decide +kernel) (by decide +kernel) (by decide +kernel)
  obtain rfl : "hi" = markup := by
    have hhi : fragment (stacked [] "x").settings
        (stacked [] "x").inclusion [[]] [.text "hi"] = some "hi" := by decide +kernel
    exact Option.some.inj (hhi.symm.trans hmarkup)
  obtain ⟨root', c', hmaterialize, hchildren⟩ := hcontent .empty .empty
  have hpara : (Piece.element "p" .empty [.raw "hi"]).write (stacked [] "x").settings.quote =
      "<p>hi</p>" := by decide +kernel
  have hone : (Document.empty.materialize "<p>hi</p>").1 = .ok 1 := by decide +kernel
  rw [hpara] at hmaterialize
  rw [hmaterialize] at hone
  cases hone
  have hfilled : (Document.empty.materialize "<p>hi</p>").2.children 1 = [2] := by decide +kernel
  have hbare : (Document.empty.materialize bareMarkup).2.children 3 = [] := by decide +kernel
  rw [hmaterialize] at hfilled
  rw [hbare, hfilled] at hchildren
  cases hchildren

end Stencil.Registry
