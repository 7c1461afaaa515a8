import Stencil.Proofs.Data.Record
import Stencil.Proofs.Point.Own
import Stencil.Proofs.Registry.Reachable
import Stencil.Proofs.Render.Agreement
import Stencil.Proofs.Render.Elements
import Stencil.Proofs.Render.Writing

/-! # One repetition at a time

What a repeated point shows inside its template is what its repetitions show when they are rendered
one by one as points, with their items bound to the root key. What stands around them does not
depend on the items, as long as the elements around the point are emitted once and are shown
themselves.
-/
namespace Stencil

/-- The attribute overrides that go with one repetition: one of a sequence, or an item that goes
with all of them. -/
def Value.overrideAt? (value : Value) (index : Nat) : Option Value :=
  match value with
  | scalar _ => none
  | item fields => some (item fields)
  | sequence items =>
    match items[index]? with
    | some (item fields) => some (item fields)
    | _ => none

namespace Value
variable {value override : Value} {index : Nat}

theorem attributesAt_of_none (h : value.overrideAt? index = none) :
    value.attributesAt none = none ∧ value.attributesAt (some index) = none := by
  cases value with
  | scalar => exact ⟨rfl, rfl⟩
  | item fields => cases h
  | sequence items =>
    refine ⟨rfl, ?_⟩
    simp only [overrideAt?, attributesAt, Option.bind_some] at h ⊢
    cases hitem : items[index]? with
    | none => rfl
    | some item =>
      cases item with
      | scalar | sequence => rfl
      | item fields =>
        rw [hitem] at h
        cases h

theorem attributesAt_of_some (h : value.overrideAt? index = some override) :
    override.attributesAt none = value.attributesAt (some index) := by
  cases value with
  | scalar => cases h
  | item fields =>
    cases h
    rfl
  | sequence items =>
    simp only [overrideAt?] at h
    split at h
    · next fields hitem =>
      cases h
      simp only [attributesAt, Option.bind_some, hitem]
    · cases h

end Value

namespace Record
variable {d d' : Record} {p name : String}

/-- The data for one repetition of a point as a root: its value and its attribute overrides, if it
has any. -/
def repetition (d : Record) (p : String) (index : Nat) (value : Value) : Record :=
  let d' := d.insert rootKey value
  match (d.find? (attributeKey p)).bind (·.overrideAt? index) with
  | none => d'
  | some override => d'.insert (attributeKey rootKey) override

/-- The records differ in nothing but what they bind to the point. -/
def AgreeOff (d d' : Record) (p : String) : Prop :=
  ∀ key, key ≠ p → key ≠ attributeKey p → d'.find? key = d.find? key

theorem find?_repetition {key : String} (hroot : key ≠ rootKey) (hover : key ≠ attributeKey rootKey)
    (d : Record) (p : String) (index : Nat) (value : Value) :
    (d.repetition p index value).find? key = d.find? key := by
  unfold repetition
  split
  · rw [NameMap.find?_insert, if_neg hroot]
  · rw [NameMap.find?_insert, if_neg hover, NameMap.find?_insert, if_neg hroot]

theorem find?_repetition_rootKey (d : Record) (p : String) (index : Nat) (value : Value) :
    (d.repetition p index value).find? rootKey = some value := by
  unfold repetition
  split
  · rw [NameMap.find?_insert, if_pos rfl]
  · rw [NameMap.find?_insert, if_neg (attributeKey_ne_rootKey rootKey).symm, NameMap.find?_insert,
      if_pos rfl]

theorem overrides_repetition (hroot : d.find? (attributeKey rootKey) = none) (p : String)
    (index : Nat) (value : Value) :
    (((d.repetition p index value).find? (attributeKey rootKey)).or
        (d.find? (attributeKey p))).bind (·.attributesAt none) =
      (d.find? (attributeKey p)).bind (·.attributesAt (some index)) := by
  have hkeep : (d.insert rootKey value).find? (attributeKey rootKey) = none := by
    rw [NameMap.find?_insert, if_neg (attributeKey_ne_rootKey rootKey), hroot]
  unfold repetition
  cases hover : (d.find? (attributeKey p)).bind (·.overrideAt? index) with
  | none =>
    simp only
    rw [hkeep, Option.none_or]
    cases hp : d.find? (attributeKey p) with
    | none => rfl
    | some overrides =>
      rw [hp] at hover
      obtain ⟨hnone, hindex⟩ := Value.attributesAt_of_none hover
      exact hnone.trans hindex.symm
  | some override =>
    obtain ⟨overrides, hp, hoverride⟩ := Option.bind_eq_some_iff.1 hover
    rw [hp, NameMap.find?_insert, if_pos rfl]
    exact Value.attributesAt_of_some hoverride

end Record

namespace Node

/-- The way from a node down to one below it, along the children of elements. The list holds what
the way passes, from the top. -/
inductive Beneath : List Node → Node → Node → Prop
  | refl (target : Node) : Beneath [] target target
  | step {ancestors : List Node} {child target : Node} (pre post : List Node)
      (h : Beneath ancestors child target) (tag : String) (point : PointSpec)
      (attributes : Attributes) :
      Beneath (.element tag point attributes (pre ++ child :: post) :: ancestors)
        (.element tag point attributes (pre ++ child :: post)) target

def Shell (settings : Settings) (d : Record) : Node → Prop
  | .element tag point _ _ =>
    settings.isVoid tag = false ∧ ∀ id, point.id = some id → NameMap.find? d id = none
  | _ => False

def IsSingle (n : Node) : Prop := ∀ point, n.point? = some point → point.cardinality = .single

theorem mem_names_of_beneath {ancestors : List Node} {n target : Node} {name : String}
    (h : Beneath ancestors n target) (hname : name ∈ target.names) : name ∈ n.names := by
  induction h with
  | refl => exact hname
  | step _ _ _ tag point attributes ih =>
    exact mem_names_of_child (List.mem_append_right _ List.mem_cons_self) (ih hname)

end Node

namespace Render
variable {settings : Settings} {inclusion : Inclusion} {d d' : Record} {p name : String}
  {n target child : Node} {point : PointSpec} {pre post ancestors : List Node}

theorem agree_of_agreeOff (h : d.AgreeOff d' p) (hp : IsName p) (hname : IsName name)
    (hne : name ≠ p) : Agree [d'] [d] name where
  value := by
    rw [lookup_singleton, lookup_singleton]
    exact h name hne (hname.ne_attributeKey p)
  overrides index := by
    rw [lookup_singleton, lookup_singleton, h (attributeKey name) (hp.ne_attributeKey name).symm
      fun hkey => hne (attributeKey_inj.1 hkey)]

theorem fragment_of_agreeOff {children : List Node} (h : d.AgreeOff d' p) (hp : IsName p)
    (hnames : ∀ c ∈ children, ∀ name ∈ c.names, IsName name ∧ name ≠ p) :
    fragment settings inclusion [d'] children = fragment settings inclusion [d] children :=
  congrArg (Option.map _) (nodes_congr fun c hc name hname =>
    agree_of_agreeOff h hp (hnames c hc name hname).1 (hnames c hc name hname).2)

theorem emissions_shell (h : d.AgreeOff d' p) (hp : IsName p)
    (hsingle : point.cardinality = .single)
    (hunbound : ∀ id, point.id = some id → NameMap.find? d id = none)
    (hid : ∀ id, point.id = some id → IsName id ∧ id ≠ p) :
    emissions point false [d'] = emissions point false [d] ∧
      ∃ overrides, emissions point false [d] = .ok [⟨none, overrides⟩] := by
  have hvalue : (bound point false [d]).value = none := by
    cases hname : point.id with
    | none => simp [bound, hname]
    | some id => simpa [bound, hname, lookup_singleton] using hunbound id hname
  refine ⟨?_, (bound point false [d]).overrides.bind (·.attributesAt none), ?_⟩
  · have hbound : bound point false [d'] = bound point false [d] := by
      cases hname : point.id with
      | none => simp [bound, hname]
      | some id =>
        obtain ⟨his, hne⟩ := hid id hname
        have hkey : d'.find? (attributeKey id) = d.find? (attributeKey id) :=
          h _ (hp.ne_attributeKey id).symm fun hkey => hne (attributeKey_inj.1 hkey)
        simp [bound, hname, lookup_singleton, h id hne (his.ne_attributeKey p), hkey]
    rw [emissions, hbound, emissions]
  · simp only [emissions_eq, hvalue, emissionsOf, hsingle]

variable (settings inclusion) in
/-- **What stands around the point stays.** In a tree that mentions the point once, the markup is
that of the point's node between two parts that do not depend on what is bound to the point. -/
theorem markup_beneath (hbeneath : Node.Beneath ancestors n target)
    (hshell : ∀ a ∈ ancestors, a.Shell settings d) (hsingle : ∀ a ∈ ancestors, a.IsSingle)
    (hnames : ∀ name ∈ n.names, IsName name) (honce : n.names.count p = 1)
    (htarget : p ∈ target.names) :
    ∃ before after : Option String, ∀ d', d.AgreeOff d' p →
      markup settings inclusion false [d'] n = do
        let before ← before
        let shown ← markup settings inclusion false [d'] target
        let after ← after
        return before ++ shown ++ after := by
  have hp : IsName p := hnames p (Node.mem_names_of_beneath hbeneath htarget)
  induction hbeneath with
  | refl target =>
    refine ⟨some "", some "", fun d' _ => ?_⟩
    cases markup settings inclusion false [d'] target <;> simp
  | @step ancestors child target pre post hbeneath tag point attributes ih =>
    have hmentions : 0 < child.names.count p :=
      List.count_pos_iff.2 (Node.mem_names_of_beneath hbeneath htarget)
    rw [Node.names_element, List.flatMap_append, List.flatMap_cons] at hnames honce
    simp only [List.count_append] at honce
    simp only [List.mem_append, or_imp, forall_and] at hnames
    obtain ⟨hown, hpre, hchild, hpost⟩ := hnames
    obtain ⟨hsettings, hunbound⟩ := hshell _ List.mem_cons_self
    have hid (id : String) (hid : point.id = some id) : IsName id ∧ id ≠ p := by
      refine ⟨hown id (by simp [hid]), fun heq => ?_⟩
      have : 0 < point.id.toList.count p := List.count_pos_iff.2 (by simp [hid, heq])
      omega
    have hside {side : List Node} (hnames : ∀ name ∈ side.flatMap Node.names, IsName name)
        (hcount : (side.flatMap Node.names).count p = 0) :
        ∀ c ∈ side, ∀ name ∈ c.names, IsName name ∧ name ≠ p := by
      intro c hc name hname
      have hmem : name ∈ side.flatMap Node.names := List.mem_flatMap.2 ⟨c, hc, hname⟩
      exact ⟨hnames name hmem, fun heq => List.count_eq_zero.1 hcount (heq ▸ hmem)⟩
    have hpreside := hside hpre (by omega)
    have hpostside := hside hpost (by omega)
    obtain ⟨before, after, hchild⟩ := ih (fun a ha => hshell a (List.mem_cons_of_mem _ ha))
      (fun a ha => hsingle a (List.mem_cons_of_mem _ ha)) hchild (by omega) htarget
    obtain ⟨overrides, hoverrides⟩ :=
      (emissions_shell (show d.AgreeOff d p from fun _ _ _ => rfl) hp
        (hsingle _ List.mem_cons_self point rfl) hunbound hid).2
    refine ⟨do
        let siblings ← fragment settings inclusion [d] pre
        let before ← before
        return Markup.openTag tag (attributes.merged overrides) settings.quote false ++ siblings ++
          before,
      do
        let after ← after
        let siblings ← fragment settings inclusion [d] post
        return after ++ siblings ++ Markup.closeTag tag, fun d' hd' => ?_⟩
    have hemissions := (emissions_shell hd' hp (hsingle _ List.mem_cons_self point rfl) hunbound
      hid).1.trans hoverrides
    rw [markup_element settings inclusion hsettings hemissions, fragment_append, fragment_cons,
      fragment_of_agreeOff hd' hp hpreside, fragment_of_agreeOff hd' hp hpostside, hchild d' hd']
    simp [Option.bind_assoc, String.append_assoc]

theorem emissions_sequence {isRoot : Bool} {scopes : List Record} {items : List Value}
    (hmultiple : point.cardinality = .multiple)
    (hvalue : (bound point isRoot scopes).value = some (.sequence items)) :
    emissions point isRoot scopes = .ok (items.mapIdx fun index item =>
      ⟨some item, (bound point isRoot scopes).overrides.bind (·.attributesAt (some index))⟩) := by
  simp only [emissions_eq, hvalue, emissionsOf, hmultiple]

theorem emissions_value {isRoot : Bool} {scopes : List Record} {value : Value}
    (hmultiple : point.cardinality = .multiple) (hno : ∀ items, value ≠ .sequence items)
    (hvalue : (bound point isRoot scopes).value = some value) :
    emissions point isRoot scopes =
      .ok [⟨some value, (bound point isRoot scopes).overrides.bind (·.attributesAt none)⟩] := by
  cases value with
  | sequence items => exact absurd rfl (hno items)
  | scalar => simp only [emissions_eq, hvalue, emissionsOf, hmultiple]
  | item => simp only [emissions_eq, hvalue, emissionsOf, hmultiple]

/-- **Each repetition is the point as a root** with the data for it. -/
theorem markup_repetitions {items : List Value} (hpoint : target.point? = some point)
    (hid : point.id = some p) (hmultiple : point.cardinality = .multiple)
    (hregistered : ∀ template, target.referenced? = some template → (inclusion template).isSome)
    (hnames : ∀ name ∈ target.names, IsName name) (hover : d.find? (attributeKey rootKey) = none)
    (hitems : d.find? p = some (.sequence items))
    (hno : ∀ item ∈ items, ∀ inner, item ≠ .sequence inner) :
    markup settings inclusion false [d] target =
      (items.zipIdx.mapM fun (item, index) =>
        markup settings inclusion true [d.repetition p index item] target).map String.join := by
  have hpoint_name : p ∈ target.names := Node.mem_names_of_point hpoint hid
  have hkeep {key : String} (hkey : key ≠ rootKey ∧ key ≠ attributeKey rootKey) (index : Nat)
      (item : Value) : lookup [d.repetition p index item] key = lookup [d] key := by
    rw [lookup_singleton, lookup_singleton, Record.find?_repetition hkey.1 hkey.2]
  have hname {name : String} (h : name ∈ target.names) (index : Nat) (item : Value) :
      Agree [d.repetition p index item] [d] name := by
    have his := hnames name h
    refine ⟨hkeep ⟨his.ne_rootKey, his.ne_attributeKey rootKey⟩ index item, fun _ => ?_⟩
    rw [hkeep ⟨attributeKey_ne_rootKey name, his.attributeKey_ne⟩]
  have hvalue : (bound point false [d]).value = some (.sequence items) := by
    simp [bound, hid, lookup_singleton, hitems]
  have hroots (index : Nat) (item : Value) :
      (bound point true [d.repetition p index item]).value = some item := by
    simp [bound, lookup_singleton, Record.find?_repetition_rootKey]
  have hoverrides (index : Nat) (item : Value) :
      (bound point true [d.repetition p index item]).overrides.bind (·.attributesAt none) =
        (bound point false [d]).overrides.bind (·.attributesAt (some index)) := by
    have hp := hnames p hpoint_name
    simp only [bound, hid, if_true, Option.bind_some, lookup_singleton, Bool.false_eq_true,
      if_false]
    rw [Record.find?_repetition (attributeKey_ne_rootKey p) hp.attributeKey_ne]
    exact Record.overrides_repetition hover p index item
  unfold markup
  rw [node_point hpoint hregistered, emissions_sequence hmultiple hvalue, write_emitAll,
    List.mapIdx_eq_zipIdx_map, List.mapM_map]
  congr 1
  refine mapM_congr fun repetition hitem => ?_
  obtain ⟨item, index⟩ := repetition
  have hitem : ∀ inner, item ≠ .sequence inner := hno item (List.fst_mem_of_mem_zipIdx hitem)
  simp only [Function.comp_apply]
  rw [node_point hpoint hregistered, emissions_value hmultiple hitem (hroots index item),
    write_emitAll_singleton, hoverrides, emit_congr fun name h => hname h index item]

end Render

namespace Registry
open Render
variable {r : Registry} {d : Record} {D : Descriptor} {name p : String} {entry : PointEntry}
  {ancestors : List Node} {target : Node}

theorem mapM_lift {ε α β : Type} (f : α → Option β) (l : List α) :
    (l.mapM fun a => (ExceptT.lift (f a) : ExceptT ε Option β)) = ExceptT.lift (l.mapM f) := by
  induction l with
  | nil => rfl
  | cons a l ih =>
    rw [List.mapM_cons, List.mapM_cons, ih]
    cases f a with
    | none => rfl
    | some b => cases l.mapM f <;> rfl

theorem lift_between {ε : Type} (before after : Option String) (shown : Option (List String)) :
    (do
      let before ← before
      let shown ← shown.map String.join
      let after ← after
      return before ++ shown ++ after).map (Except.ok (ε := ε)) =
    ExceptT.run (m := Option) (do
      let before ← before
      let shown ← ExceptT.lift shown
      let after ← after
      return before ++ String.join shown ++ after) := by
  cases before <;> cases shown <;> cases after <;> rfl

theorem renderRoot_eq_markup (r : Registry) (root : Node) (data : Record) :
    r.renderRoot root data = markup r.settings r.inclusion true [data] root := rfl

theorem renderPoint_own (hr : r.Reachable) (hD : r.get? name = some D)
    (hentry : D.table.point? p = some entry) (hown : entry.inherited = none)
    (htarget : D.root.preorder[entry.node]? = some target) (data : Record) :
    r.renderPoint name p data = (r.renderRoot target data).map .ok := by
  obtain ⟨lookup, hcompile⟩ := hr.compiled name D hD
  have hclear : D.table.isAmbiguous p = false := by
    rw [hcompile] at hentry ⊢
    exact PointTable.isAmbiguous_of_point? hentry
  rw [renderPoint, hD]
  simp only
  rw [renderEntry, hclear, hentry]
  simp [hown, htarget]

/-- A repeated point below the root, mentioned once, in elements that have content and nothing bound
to them. -/
structure Surrounded (settings : Settings) (D : Descriptor) (d : Record) (p : String)
    (entry : PointEntry) (target : Node) (ancestors : List Node) : Prop where
  listed : D.table.point? p = some entry
  own : entry.inherited = none
  repeated : entry.cardinality = .multiple
  behind : D.root.preorder[entry.node]? = some target
  once : D.root.names.count p = 1
  names : ∀ name ∈ D.root.names, IsName name
  beneath : Node.Beneath ancestors D.root target
  below : ancestors ≠ []
  shells : ∀ a ∈ ancestors, a.Shell settings d
  unbound : d.find? rootKey = none
  plain : d.find? (attributeKey rootKey) = none

/-- The markup of the template is that of the repetitions, rendered one by one, between two parts
that do not depend on what is bound to the point. -/
def ShownByRepetition (r : Registry) (name p : String) (d : Record) : Prop :=
  ∃ before after : Option String, ∀ d' items, d.AgreeOff d' p →
    d'.find? p = some (.sequence items) → (∀ item ∈ items, ∀ inner, item ≠ .sequence inner) →
      r.render name d' = ExceptT.run (m := Option) (do
        let before ← before
        let shown ← items.zipIdx.mapM fun (item, index) =>
          ExceptT.mk (r.renderPoint name p (d'.repetition p index item))
        let after ← after
        return before ++ String.join shown ++ after)

/-- **One repetition at a time.** Elements that are emitted once show the repetitions of a point
one after another, as they are rendered one by one; the point is an element or the reference to a
registered template. -/
theorem render_repetitions (hr : r.Reachable) (hD : r.get? name = some D)
    (h : Surrounded r.settings D d p entry target ancestors)
    (hsingle : ∀ a ∈ ancestors, a.IsSingle)
    (hregistered : ∀ template, target.referenced? = some template → r.contains template) :
    r.ShownByRepetition name p d := by
  obtain ⟨lookup, hcompile⟩ := hr.compiled name D hD
  obtain ⟨m, point, hm, hpoint, hid, hcardinality⟩ :
      ∃ m point, D.root.preorder[entry.node]? = some m ∧ m.point? = some point ∧
        point.id = some p ∧ point.cardinality = entry.cardinality := by
    have hlisted := h.listed
    rw [hcompile] at hlisted
    exact Descriptor.node_of_point? hlisted h.own
  obtain rfl := Option.some.inj (h.behind.symm.trans hm)
  have hmentioned : p ∈ target.names := Node.mem_names_of_point hpoint hid
  have hp := h.names p (Node.mem_names_of_beneath h.beneath hmentioned)
  have hinclusion (template : String) (href : target.referenced? = some template) :
      (r.inclusion template).isSome :=
    Option.isSome_map.trans (hregistered template href)
  obtain ⟨before, after, hbeneath⟩ := markup_beneath r.settings
    r.inclusion h.beneath h.shells hsingle h.names h.once hmentioned
  refine ⟨before, after, fun d' items hd' hitems hno => ?_⟩
  have hunbound : d'.find? rootKey = none :=
    (hd' rootKey hp.ne_rootKey.symm (attributeKey_ne_rootKey p).symm).trans h.unbound
  have hplain : d'.find? (attributeKey rootKey) = none :=
    (hd' _ (hp.ne_attributeKey rootKey).symm hp.attributeKey_ne.symm).trans h.plain
  have hroot : markup r.settings r.inclusion true [d'] D.root =
      markup r.settings r.inclusion false [d'] D.root := by
    rw [markup, node_root ((lookup_singleton d' _).trans hunbound)
      ((lookup_singleton d' _).trans hplain), markup]
  have hpoints : (items.zipIdx.mapM fun (item, index) =>
        (ExceptT.mk (r.renderPoint name p (d'.repetition p index item)) :
          ExceptT TemplateError Option String)) =
      ExceptT.lift (items.zipIdx.mapM fun (item, index) =>
        markup r.settings r.inclusion true [d'.repetition p index item] target) := by
    simp only [renderPoint_own hr hD h.listed h.own h.behind, renderRoot_eq_markup]
    exact mapM_lift ..
  rw [hpoints, render_of_get? hD, renderRoot_eq_markup, hroot, hbeneath d' hd',
    markup_repetitions hpoint hid (hcardinality.trans h.repeated) hinclusion
      (fun k hk => h.names k (Node.mem_names_of_beneath h.beneath hk)) hplain hitems hno]
  exact lift_between ..

/-! ## A list, and two that do not show their items -/

theorem isName_items : IsName "items" := isName_of_head (by decide) (by decide)

theorem isName_outer : IsName "outer" := isName_of_head (by decide) (by decide)

def listRoot : Node := .element "ul" .anonymous .empty
  [.element "h2" .anonymous .empty [.text "Items"],
   .element "li" ⟨some "items", .multiple, false⟩ .empty []]

theorem surrounded_listRoot :
    Surrounded (empty.register "T" listRoot).settings (.compile empty.get? "T" listRoot) [] "items"
      ⟨"T", 3, .multiple, [.repeated "items" 1 0], none⟩
      (.element "li" ⟨some "items", .multiple, false⟩ .empty []) [listRoot] where
  listed := by rfl
  own := rfl
  repeated := rfl
  behind := by rfl
  once := by decide
  names name hname := by
    have hname : name ∈ ["items"] := hname
    exact List.mem_singleton.1 hname ▸ isName_items
  beneath := .step [_] [] (.refl _) ..
  below := nofun
  shells a ha := by
    rw [List.mem_singleton.1 ha]
    exact ⟨by decide +kernel, nofun⟩
  unbound := rfl
  plain := rfl

theorem render_repetitions_list :
    (empty.register "T" listRoot).Reachable ∧
      (empty.register "T" listRoot).get? "T" = some (.compile empty.get? "T" listRoot) ∧
      (empty.register "T" listRoot).ShownByRepetition "T" "items" [] := by
  have hr : (empty.register "T" listRoot).Reachable := .register (.withSettings _) _ _
  have hD := get?_register_empty "T" listRoot
  refine ⟨hr, hD, render_repetitions hr hD surrounded_listRoot ?_ nofun⟩
  intro a ha point hpoint
  rw [List.mem_singleton.1 ha] at hpoint
  cases hpoint
  rfl

/-- A list in a repeated element that nothing is bound to. -/
def hiddenRoot : Node := .element "div" .anonymous .empty
  [.element "ul" ⟨some "outer", .multiple, false⟩ .empty
    [.element "li" ⟨some "items", .multiple, false⟩ .empty []]]

/-- A repeated reference to a template that is not registered. -/
def danglingRoot : Node := .element "div" .anonymous .empty
  [.reference "U" ⟨some "items", .multiple, false⟩ .empty []]

theorem surrounded_hiddenRoot :
    Surrounded (empty.register "T" hiddenRoot).settings (.compile empty.get? "T" hiddenRoot) []
      "items" ⟨"T", 2, .multiple, [.repeated "outer" 0 0, .repeated "items" 0 0], none⟩
      (.element "li" ⟨some "items", .multiple, false⟩ .empty [])
      [hiddenRoot, .element "ul" ⟨some "outer", .multiple, false⟩ .empty
        [.element "li" ⟨some "items", .multiple, false⟩ .empty []]] where
  listed := by rfl
  own := rfl
  repeated := rfl
  behind := by rfl
  once := by decide
  names name hname := by
    have hname : name ∈ ["outer", "items"] := hname
    rcases List.mem_cons.1 hname with rfl | hname
    · exact isName_outer
    · exact List.mem_singleton.1 hname ▸ isName_items
  beneath := .step [] [] (.step [] [] (.refl _) ..) ..
  below := nofun
  shells a ha := by
    rcases List.mem_cons.1 ha with rfl | ha
    · exact ⟨by decide +kernel, nofun⟩
    · rw [List.mem_singleton.1 ha]
      exact ⟨by decide +kernel, fun _ _ => rfl⟩
  unbound := rfl
  plain := rfl

theorem surrounded_danglingRoot :
    Surrounded (empty.register "T" danglingRoot).settings (.compile empty.get? "T" danglingRoot) []
      "items" ⟨"T", 1, .multiple, [.repeated "items" 0 0], none⟩
      (.reference "U" ⟨some "items", .multiple, false⟩ .empty []) [danglingRoot] where
  listed := by rfl
  own := rfl
  repeated := rfl
  behind := by rfl
  once := by decide
  names name hname := by
    have hname : name ∈ ["items"] := hname
    exact List.mem_singleton.1 hname ▸ isName_items
  beneath := .step [] [] (.refl _) ..
  below := nofun
  shells a ha := by
    rw [List.mem_singleton.1 ha]
    exact ⟨by decide +kernel, nofun⟩
  unbound := rfl
  plain := rfl

/-- Markup that is the same with and without an item shows no repetitions. -/
theorem not_shownByRepetition (html shown : String)
    (hr : r.render name [(p, .sequence [])] = some (.ok html))
    (hr' : r.render name [(p, .sequence [.scalar ""])] = some (.ok html))
    (hpoint : r.renderPoint name p
      (Record.repetition [(p, .sequence [.scalar ""])] p 0 (.scalar "")) = some (.ok shown))
    (hshown : shown ≠ "") : ¬ r.ShownByRepetition name p [] := by
  rintro ⟨before, after, h⟩
  have hagree (items : List Value) : Record.AgreeOff [] [(p, .sequence items)] p := by
    intro key hkey _
    rw [NameMap.find?_cons, if_neg hkey]
  have hfind (items : List Value) :
      NameMap.find? [(p, Value.sequence items)] p = some (.sequence items) := by
    rw [NameMap.find?_cons, if_pos rfl]
  have hnone := h _ [] (hagree []) (hfind []) nofun
  have hone := h _ [.scalar ""] (hagree _) (hfind _) (by simp)
  simp only [List.zipIdx_cons, List.zipIdx_nil, List.mapM_cons, List.mapM_nil] at hnone hone
  rw [hpoint, hr'] at hone
  rw [hr] at hnone
  cases before with
  | none => cases hnone
  | some a =>
    cases after with
    | none => cases hnone
    | some z =>
      have hnone : html = a ++ String.join [] ++ z := Except.ok.inj (Option.some.inj hnone)
      have hone : html = a ++ String.join [shown] ++ z := Except.ok.inj (Option.some.inj hone)
      rw [hnone, String.append_left_inj, String.append_right_inj] at hone
      exact hshown (by simpa [String.join_cons] using hone.symm)

/-- Neither condition can be left out. -/
theorem not_render_repetitions_hidden :
    (¬ ∀ (r : Registry) name D d p entry target ancestors, r.Reachable → r.get? name = some D →
      Surrounded r.settings D d p entry target ancestors →
      (∀ template, target.referenced? = some template → r.contains template) →
        r.ShownByRepetition name p d) ∧
    ¬ ∀ (r : Registry) name D d p entry target ancestors, r.Reachable → r.get? name = some D →
      Surrounded r.settings D d p entry target ancestors → (∀ a ∈ ancestors, a.IsSingle) →
        r.ShownByRepetition name p d := by
  constructor
  · intro h
    refine not_shownByRepetition (r := empty.register "T" hiddenRoot) "<div></div>"
      "<li></li>" ?_ ?_ ?_ (by decide)
      (h _ "T" _ [] "items" _ _ _ (.register (.withSettings _) _ _)
        (get?_register_empty "T" hiddenRoot) surrounded_hiddenRoot nofun)
    · decide +kernel
    · decide +kernel
    · have hr : (empty.register "T" hiddenRoot).Reachable := .register (.withSettings _) _ _
      rw [renderPoint_own hr (get?_register_empty "T" hiddenRoot) surrounded_hiddenRoot.listed
        surrounded_hiddenRoot.own surrounded_hiddenRoot.behind]
      decide +kernel
  · intro h
    refine not_shownByRepetition (r := empty.register "T" danglingRoot)
      "<div><error>template 'U' is not registered</error></div>"
      "<error>template 'U' is not registered</error>" ?_ ?_ ?_ (by decide)
      (h _ "T" _ [] "items" _ _ _ (.register (.withSettings _) _ _)
        (get?_register_empty "T" danglingRoot) surrounded_danglingRoot fun a ha point hpoint => ?_)
    · decide +kernel
    · decide +kernel
    · have hr : (empty.register "T" danglingRoot).Reachable := .register (.withSettings _) _ _
      rw [renderPoint_own hr (get?_register_empty "T" danglingRoot) surrounded_danglingRoot.listed
        surrounded_danglingRoot.own surrounded_danglingRoot.behind]
      decide +kernel
    · rw [List.mem_singleton.1 ha] at hpoint
      cases hpoint
      rfl

end Registry
end Stencil
