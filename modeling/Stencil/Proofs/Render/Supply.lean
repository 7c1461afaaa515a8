import Stencil.Proofs.Data.Record
import Stencil.Proofs.Live.Image
import Stencil.Proofs.Registry.Points
import Stencil.Proofs.Render.Agreement
import Stencil.Proofs.Render.Clean
import Stencil.Proofs.Render.Ending
import Stencil.Proofs.Template.Alone

/-! # What references supply

A reference renders its template in a scope that holds the attributes of the reference, and the
attributes and content of its slots. If slots supply something only to points that stand alone, this
scope is known: all that a name or the root finds in it can be read off the reference.
-/
namespace Stencil
open Markup Live Render

/-! ## Orderly templates -/

/-- The template has the point itself, at an element below its root that stands alone. -/
structure Descriptor.Offers (D : Descriptor) (point : String) : Prop where
  own : ∃ entry, D.table.point? point = some entry ∧ entry.inherited = none ∧ entry.path ≠ []
  alone : D.root.Alone point

/-- The slot supplies neither attributes nor content; it may still give its point another name. -/
def SlotOf.Bare (slot : Slot) : Prop := slot.attributes = .empty ∧ slot.children = []

/-- A tree whose markup is read back, and whose slots supply something only to points that stand
alone in the template itself. -/
inductive Node.Orderly (r : Registry) : Node → Prop
  | text {markup : String} (h : '<' ∉ markup.toList) : Orderly r (.text markup)
  | element {tag : String} {point : PointSpec} {attributes : Attributes} {children : List Node}
      (word : IsWord tag) (written : ¬ r.settings.isVoid tag) (parent : ¬ isChildless tag)
      (keys : HasKeys attributes) (inner : ∀ c ∈ children, Orderly r c) :
      Orderly r (.element tag point attributes children)
  | void {tag : String} {point : PointSpec} {attributes : Attributes} {children : List Node}
      (word : IsWord tag) (written : r.settings.isVoid tag) (keys : HasKeys attributes)
      (inner : ∀ c ∈ children, Orderly r c) : Orderly r (.element tag point attributes children)
  | reference {template : String} {point : PointSpec} {attributes : Attributes}
      {slots : List (String × Slot)} (placed : ∀ levels, ¬ Stray (r.inclusionTo levels)
        (.reference template point attributes slots)) (keys : HasKeys attributes)
      (sorted : NameMap.Sorted slots) (named : ∀ slot ∈ slots, IsName slot.1)
      (slotKeys : ∀ slot ∈ slots, HasKeys slot.2.attributes)
      (offered : ∀ sub, r.get? template = some sub →
        ∀ slot ∈ slots, slot.2.Bare ∨ sub.Offers slot.1)
      (inner : ∀ slot ∈ slots, ∀ c ∈ slot.2.children, Orderly r c) :
      Orderly r (.reference template point attributes slots)

/-- A template that renders to one element, and whose positions and names are as they should be. -/
structure Descriptor.Orderly (r : Registry) (D : Descriptor) : Prop where
  tree : D.root.Orderly r
  steady : ¬ r.Varies D.root
  named : ∀ name ∈ D.root.names, IsName name
  small : D.root.size ≤ wordSize

/-! ## Scopes of references -/

structure Record.Lacks (s : Record) (name : String) : Prop where
  value : s.find? name = none
  overrides : s.find? (attributeKey name) = none

/-- The attributes that are laid over whatever has the name. -/
def Record.laid (s : Record) (name : String) : Attributes :=
  overridesAt (s.find? (attributeKey name)) none

/-- What is bound to a name is no more than a slot supplies. -/
structure Record.Filled (s : Record) (name : String) : Prop where
  value : s.find? name = none ∨
    ∃ markup children, s.find? name = some (.scalar markup) ∧ Fills markup.toList children
  keys : HasKeys (s.laid name)

/-- A scope in which a reference may render the template. -/
structure Descriptor.Supplied (D : Descriptor) (s : Record) : Prop where
  root : s.find? rootKey = none
  rootKeys : HasKeys (s.laid rootKey)
  points : ∀ name, IsName name → s.Lacks name ∨ D.Offers name ∧ s.Filled name

namespace Record
variable {s : Record} {name : String}

theorem Lacks.laid (h : s.Lacks name) : s.laid name = .empty := by
  rw [Record.laid, h.overrides]
  rfl

theorem Lacks.filled (h : s.Lacks name) : s.Filled name where
  value := .inl h.value
  keys := by
    rw [h.laid]
    exact nofun

end Record

theorem Descriptor.Supplied.filled {D : Descriptor} {s : Record} {name : String}
    (h : D.Supplied s) (hname : IsName name) : s.Filled name := by
  rcases h.points name hname with hlacks | ⟨_, hfilled⟩
  · exact hlacks.filled
  · exact hfilled

/-- Nothing but markup is bound to the names of a scope. -/
def Record.Tidy (s : Record) : Prop := ∀ name, name = rootKey ∨ IsName name → s.Filled name

theorem Descriptor.Supplied.tidy {D : Descriptor} {s : Record} (h : D.Supplied s) : s.Tidy := by
  rintro name (rfl | hname)
  · exact ⟨.inl h.root, h.rootKeys⟩
  · exact h.filled hname

namespace Render
variable {settings : Settings} {inclusion : Inclusion} {s s' scope : Record} {slot : String × Slot}
  {slots rest : List (String × Slot)} {a : Attributes} {name point : String}

theorem laid_bindAttributes (h : (scope.find? (attributeKey point)) = none) (a : Attributes) :
    (bindAttributes scope point a).laid point =
      Record.scalarAttributes (Record.ofAttributes a) := by
  rw [Record.laid, find?_bindAttributes]
  cases hempty : a.isEmpty with
  | false => simp [overridesAt, Value.attributesAt]
  | true =>
    rw [if_neg (by simp), h, Attributes.eq_empty_of_isEmpty hempty]
    rfl

def IsMarkup (value : Option Value) : Prop :=
  value = none ∨ ∃ markup children, value = some (.scalar markup) ∧ Fills markup.toList children

/-- What a slot binds to its point: what is bound to its name, or else its content. -/
inductive Brings (settings : Settings) (inclusion : Inclusion) (s : Record) (slot : Slot) :
    Option Value → Prop
  | nothing (unbound : slot.id.bind s.find? = none) (bare : slot.children = []) :
      Brings settings inclusion s slot none
  | value {value : Value} (own : slot.id.bind s.find? = some value) :
      Brings settings inclusion s slot (some value)
  | content {pieces : List Piece} (unbound : slot.id.bind s.find? = none)
      (some_content : slot.children ≠ [])
      (rendered : nodes settings inclusion [s] slot.children = some pieces) :
      Brings settings inclusion s slot (some (.scalar (Piece.writeList settings.quote pieces)))

theorem Brings.eq_bound {slot : Slot} {value : Option Value} {bound : Value}
    (h : Brings settings inclusion s slot value) (hbound : slot.id.bind s.find? = some bound) :
    value = some bound := by
  cases h with
  | value own => exact own.symm.trans hbound
  | nothing unbound => cases unbound.symm.trans hbound
  | content unbound => cases unbound.symm.trans hbound

theorem Brings.eq_rendered {slot : Slot} {value : Option Value}
    (h : Brings settings inclusion s slot value) (hunbound : slot.id.bind s.find? = none)
    (hcontent : slot.children ≠ []) : ∃ pieces,
      nodes settings inclusion [s] slot.children = some pieces ∧
      value = some (.scalar (Piece.writeList settings.quote pieces)) := by
  cases h with
  | value own => cases hunbound.symm.trans own
  | nothing _ bare => exact absurd bare hcontent
  | content _ _ rendered => exact ⟨_, rendered, rfl⟩

/-- The attributes that a slot lays over its point: below those for its name, its own. -/
def brought (s : Record) (slot : Slot) : Attributes :=
  slot.attributes.merge (slot.id.elim .empty s.laid)

/-- The attributes that a slot lays over its point, with its name looked up in a stack of scopes. -/
def laidBy (scopes : List Record) (slot : Slot) : Attributes :=
  slot.attributes.merged
    ((slot.id.bind fun id => lookup scopes (attributeKey id)).bind (·.attributesAt none))

theorem laidBy_singleton (s : Record) (slot : Slot) : laidBy [s] slot = brought s slot := by
  rw [laidBy, merged_eq_merge, brought]
  cases slot.id with
  | none => rfl
  | some id =>
    rw [Option.bind_some, lookup_singleton]
    rfl

theorem find?_elim_insert {key : String} {value : Option Value} (s : Record) (h : key ≠ name) :
    (value.elim s (s.insert name)).find? key = s.find? key := by
  cases value with
  | none => rfl
  | some value => exact (NameMap.find?_insert ..).trans (if_neg h)

section
variable {scopes : List Record}

theorem exists_of_bindSlots_cons
    (h : bindSlots settings inclusion scopes scope (slot :: rest) = some s') :
    ∃ value : Option Value, bindSlots settings inclusion scopes
      (value.elim (bindAttributes scope slot.1 (laidBy scopes slot.2))
        ((bindAttributes scope slot.1 (laidBy scopes slot.2)).insert slot.1)) rest = some s' := by
  obtain ⟨name, id, attributes, children⟩ := slot
  rw [bindSlots] at h
  simp only at h
  split at h
  · exact ⟨none, h⟩
  · obtain ⟨value, _, h⟩ := Option.bind_eq_some_iff.1 h
    exact ⟨some value, h⟩
  · obtain ⟨value, _, h⟩ := Option.bind_eq_some_iff.1 h
    exact ⟨some value, h⟩
  · exact ⟨some _, h⟩

theorem find?_of_bindSlots (key : String)
    (h : bindSlots settings inclusion scopes scope slots = some s')
    (hkey : ∀ slot ∈ slots, key ≠ slot.1 ∧ key ≠ attributeKey slot.1) :
    s'.find? key = scope.find? key := by
  induction slots generalizing scope with
  | nil =>
    rw [bindSlots] at h
    cases h
    rfl
  | cons slot rest ih =>
    obtain ⟨hhead, htail⟩ := List.forall_mem_cons.1 hkey
    obtain ⟨value, h⟩ := exists_of_bindSlots_cons h
    rw [ih h htail, find?_elim_insert _ hhead.1, find?_bindAttributes, if_neg fun h => hhead.2 h.1]

theorem find?_attributeKey_of_bindSlots (sorted : NameMap.Sorted slots)
    (named : ∀ slot ∈ slots, IsName slot.1)
    (h : bindSlots settings inclusion scopes scope slots = some s') (hslot : slot ∈ slots) :
    s'.find? (attributeKey slot.1) =
      (bindAttributes scope slot.1 (laidBy scopes slot.2)).find? (attributeKey slot.1) := by
  induction slots generalizing scope with
  | nil => cases hslot
  | cons first rest ih =>
    obtain ⟨hlt, hrest⟩ := List.pairwise_cons.1 sorted
    obtain ⟨hname, hnames⟩ := List.forall_mem_cons.1 named
    obtain ⟨value, h⟩ := exists_of_bindSlots_cons h
    rcases List.mem_cons.1 hslot with rfl | hmem
    · -- no later slot has the same name
      have hkeep := find?_of_bindSlots (attributeKey slot.1) h fun other hother =>
        ⟨((hnames other hother).ne_attributeKey _).symm,
          fun heq => String.ne_of_lt (hlt other hother) (attributeKey_inj.1 heq)⟩
      rw [hkeep, find?_elim_insert _ (hname.ne_attributeKey _).symm]
    · have hne : attributeKey slot.1 ≠ attributeKey first.1 :=
        fun heq => String.ne_of_lt (hlt slot hmem) (attributeKey_inj.1 heq).symm
      have hfirst : (bindAttributes scope first.1 (laidBy scopes first.2)).find?
          (attributeKey slot.1) = scope.find? (attributeKey slot.1) := by
        rw [find?_bindAttributes, if_neg fun h => hne h.1]
      rw [ih hrest hnames h hmem, find?_bindAttributes, find?_bindAttributes,
        find?_elim_insert _ (hname.ne_attributeKey _).symm, hfirst]

end

theorem bindSlots_cons (hmarkup : IsMarkup (slot.2.id.bind s.find?))
    (h : bindSlots settings inclusion [s] scope (slot :: rest) = some s') :
    ∃ value, Brings settings inclusion s slot.2 value ∧
      bindSlots settings inclusion [s]
        (value.elim (bindAttributes scope slot.1 (brought s slot.2))
          ((bindAttributes scope slot.1 (brought s slot.2)).insert slot.1)) rest = some s' := by
  obtain ⟨name, id, attributes, children⟩ := slot
  have hlookup : lookup [s] = s.find? := funext fun key => lookup_singleton s key
  have hbrought : attributes.merged ((id.bind fun id => s.find? (attributeKey id)).bind
      (·.attributesAt none)) = brought s ⟨id, attributes, children⟩ := by
    rw [merged_eq_merge]
    cases id <;> rfl
  rw [bindSlots] at h
  simp only [hlookup, hbrought] at h
  rcases hmarkup with hnone | ⟨markup, _, hvalue, _⟩
  · simp only [hnone] at h
    cases children with
    | nil => exact ⟨none, .nothing hnone rfl, h⟩
    | cons c children =>
      obtain ⟨value, hcontent, h⟩ := Option.bind_eq_some_iff.1 h
      obtain ⟨pieces, hpieces, rfl⟩ := Option.map_eq_some_iff.1 hcontent
      exact ⟨_, .content hnone (List.cons_ne_nil c children) hpieces, h⟩
  · simp only [hvalue] at h
    exact ⟨_, .value hvalue, h⟩

structure Receives (settings : Settings) (inclusion : Inclusion) (s scope s' : Record)
    (slots : List (String × Slot)) : Prop where
  others : ∀ key, (∀ slot ∈ slots, key ≠ slot.1 ∧ key ≠ attributeKey slot.1) →
    s'.find? key = scope.find? key
  attributes : ∀ slot ∈ slots, s'.find? (attributeKey slot.1) =
    (bindAttributes scope slot.1 (brought s slot.2)).find? (attributeKey slot.1)
  content : ∀ slot ∈ slots, ∃ value, Brings settings inclusion s slot.2 value ∧
    s'.find? slot.1 = value.or (scope.find? slot.1)

theorem receives_of_bindSlots (sorted : NameMap.Sorted slots)
    (hnames : ∀ slot ∈ slots, IsName slot.1)
    (hmarkup : ∀ slot ∈ slots, IsMarkup (slot.2.id.bind s.find?))
    (h : bindSlots settings inclusion [s] scope slots = some s') :
    Receives settings inclusion s scope s' slots := by
  refine ⟨fun key hkey => find?_of_bindSlots key h hkey, fun slot hslot => ?_, ?_⟩
  · rw [← laidBy_singleton]
    exact find?_attributeKey_of_bindSlots sorted hnames h hslot
  · induction slots generalizing scope with
    | nil => exact nofun
    | cons slot rest ih =>
      obtain ⟨hlt, hrest⟩ := List.pairwise_cons.1 sorted
      obtain ⟨hname, hnames⟩ := List.forall_mem_cons.1 hnames
      obtain ⟨hmarkup, hmarkups⟩ := List.forall_mem_cons.1 hmarkup
      obtain ⟨value, hbrings, h⟩ := bindSlots_cons hmarkup h
      have hkeep {key : String} (hkey : IsName key) :
          (bindAttributes scope slot.1 (brought s slot.2)).find? key = scope.find? key := by
        rw [find?_bindAttributes, if_neg fun h => hkey.ne_attributeKey _ h.1]
      refine List.forall_mem_cons.2 ⟨⟨value, hbrings, ?_⟩, fun other hmem => ?_⟩
      · rw [find?_of_bindSlots slot.1 h fun other hmem =>
          ⟨String.ne_of_lt (hlt other hmem), hname.ne_attributeKey _⟩, ← hkeep hname]
        cases value with
        | none => rfl
        | some value => exact (NameMap.find?_insert ..).trans (if_pos rfl)
      · obtain ⟨found, hfound, hvalue⟩ := ih hrest hnames hmarkups h other hmem
        rw [find?_elim_insert _ (String.ne_of_lt (hlt other hmem)).symm,
          hkeep (hnames other hmem)] at hvalue
        exact ⟨found, hfound, hvalue⟩

/-- What slots add to a scope, if nothing is bound to their own names. -/
structure Added (settings : Settings) (inclusion : Inclusion) (s scope s' : Record)
    (slots : List (String × Slot)) : Prop extends
    Receives settings inclusion s scope s' slots where
  unbound : ∀ slot ∈ slots, ∀ id, slot.2.id = some id → s.Lacks id

theorem Added.brought_eq (h : Added settings inclusion s scope s' slots) (hslot : slot ∈ slots) :
    brought s slot.2 = slot.2.attributes := by
  unfold brought
  cases hid : slot.2.id with
  | none => rfl
  | some id =>
    rw [Option.elim_some, (h.unbound slot hslot id hid).laid]
    exact Attributes.merge_empty _

theorem Added.markup (h : Added settings inclusion s scope s' slots) (hslot : slot ∈ slots) :
    slot.2.children = [] ∧ s'.find? slot.1 = scope.find? slot.1 ∨
      slot.2.children ≠ [] ∧ ∃ pieces,
        nodes settings inclusion [s] slot.2.children = some pieces ∧
        s'.find? slot.1 = some (.scalar (Piece.writeList settings.quote pieces)) := by
  obtain ⟨value, hbrings, hvalue⟩ := h.content slot hslot
  cases hbrings with
  | nothing _ bare => exact .inl ⟨bare, hvalue⟩
  | value own =>
    obtain ⟨id, hid, hbound⟩ := Option.bind_eq_some_iff.1 own
    cases (h.unbound slot hslot id hid).value.symm.trans hbound
  | content _ some_content rendered => exact .inr ⟨some_content, _, rendered, hvalue⟩

/-! ## The scope of a reference -/

theorem find?_rootScope {key : String} (hkey : key ≠ attributeKey rootKey) (a : Attributes)
    (value : Option Value) :
    (rootScope a value).find? key = if key = rootKey then value else none := by
  have hbare : (bindAttributes [] rootKey a).find? key = none := by
    rw [find?_bindAttributes, if_neg fun h => hkey h.1]
    rfl
  cases value with
  | none => simpa [rootScope] using hbare
  | some value =>
    rw [rootScope, NameMap.find?_insert]
    simp only [hbare]

theorem laid_rootScope (a : Attributes) (value : Option Value) :
    (rootScope a value).laid rootKey = Record.scalarAttributes (Record.ofAttributes a) := by
  have hbare : (bindAttributes [] rootKey a).laid rootKey =
      Record.scalarAttributes (Record.ofAttributes a) := laid_bindAttributes rfl a
  cases value with
  | none => exact hbare
  | some value =>
    rw [Record.laid, rootScope, NameMap.find?_insert, if_neg (attributeKey_ne_rootKey rootKey)]
    exact hbare

theorem lacks_rootScope (hname : IsName name) (a : Attributes) (value : Option Value) :
    (rootScope a value).Lacks name where
  value := by rw [find?_rootScope (hname.ne_attributeKey _), if_neg hname.ne_rootKey]
  overrides := by
    rw [find?_rootScope hname.attributeKey_ne, if_neg (attributeKey_ne_rootKey name)]

section
variable (h : Receives settings inclusion s (rootScope a none) s' slots)
  (named : ∀ slot ∈ slots, IsName slot.1)
include h named

theorem Receives.lacks (hname : IsName name) (hno : ∀ slot ∈ slots, slot.1 ≠ name) :
    s'.Lacks name where
  value := by
    rw [h.others name fun slot hslot => ⟨(hno slot hslot).symm, hname.ne_attributeKey _⟩]
    exact (lacks_rootScope hname a none).value
  overrides := by
    rw [h.others (attributeKey name) fun slot hslot =>
      ⟨((named slot hslot).ne_attributeKey _).symm,
        fun heq => hno slot hslot (attributeKey_inj.1 heq).symm⟩]
    exact (lacks_rootScope hname a none).overrides

theorem Receives.root : s'.find? rootKey = none ∧
    s'.laid rootKey = Record.scalarAttributes (Record.ofAttributes a) := by
  constructor
  · rw [h.others rootKey fun slot hslot =>
      ⟨(named slot hslot).ne_rootKey.symm, (attributeKey_ne_rootKey _).symm⟩,
      find?_rootScope (attributeKey_ne_rootKey rootKey).symm, if_pos rfl]
  · rw [Record.laid, h.others (attributeKey rootKey) fun slot hslot =>
      ⟨((named slot hslot).ne_attributeKey _).symm, (named slot hslot).attributeKey_ne.symm⟩]
    exact laid_rootScope a none

theorem Receives.laid (hslot : slot ∈ slots) :
    s'.laid slot.1 = Record.scalarAttributes (Record.ofAttributes (brought s slot.2)) := by
  rw [Record.laid, h.attributes slot hslot]
  exact laid_bindAttributes (lacks_rootScope (named slot hslot) a none).overrides _

theorem Receives.value (hslot : slot ∈ slots) :
    Brings settings inclusion s slot.2 (s'.find? slot.1) := by
  obtain ⟨value, hbrings, hvalue⟩ := h.content slot hslot
  rwa [hvalue, (lacks_rootScope (named slot hslot) a none).value, Option.or_none]

theorem Receives.tidy (hs : s.Tidy)
    (ids : ∀ slot ∈ slots, ∀ id, slot.2.id = some id → IsName id)
    (keys : ∀ slot ∈ slots, HasKeys slot.2.attributes) (ha : HasKeys a)
    (legible : ∀ slot ∈ slots, ∀ pieces,
      nodes settings inclusion [s] slot.2.children = some pieces →
        ∀ piece ∈ pieces, Legible settings.quote piece) : s'.Tidy := by
  rintro name (rfl | hname)
  · refine ⟨.inl (h.root named).1, ?_⟩
    rw [(h.root named).2]
    exact Attributes.hasKeys_ofAttributes ha
  · by_cases hno : ∀ slot ∈ slots, slot.1 ≠ name
    · exact (h.lacks named hname hno).filled
    · obtain ⟨slot, hslot, rfl⟩ : ∃ slot ∈ slots, slot.1 = name := by simpa using hno
      constructor
      · have hvalue := h.value named hslot
        generalize s'.find? slot.1 = value at hvalue ⊢
        cases hvalue with
        | nothing => exact .inl rfl
        | value own =>
          obtain ⟨id, hid, hbound⟩ := Option.bind_eq_some_iff.1 own
          exact hbound ▸ (hs id (.inr (ids slot hslot id hid))).value
        | content _ _ rendered =>
          obtain ⟨filling, _, hfills⟩ := fills_writeList (legible slot hslot _ rendered)
          exact .inr ⟨_, filling, rfl, hfills⟩
      · rw [h.laid named hslot]
        refine Attributes.hasKeys_ofAttributes (Attributes.hasKeys_merge (keys slot hslot) ?_)
        cases hid : slot.2.id with
        | none => exact nofun
        | some id => exact (hs id (.inr (ids slot hslot id hid))).keys

end

theorem Added.laid (h : Added settings inclusion s (rootScope a none) s' slots)
    (named : ∀ slot ∈ slots, IsName slot.1) (hslot : slot ∈ slots) :
    s'.laid slot.1 = Record.scalarAttributes (Record.ofAttributes slot.2.attributes) := by
  rw [h.toReceives.laid named hslot, h.brought_eq hslot]

theorem Added.supplied {sub : Descriptor}
    (h : Added settings inclusion s (rootScope a none) s' slots) (hs' : s'.Tidy)
    (named : ∀ slot ∈ slots, IsName slot.1)
    (offered : ∀ slot ∈ slots, slot.2.Bare ∨ sub.Offers slot.1) : sub.Supplied s' where
  root := (h.root named).1
  rootKeys := (hs' rootKey (.inl rfl)).keys
  points name hname := by
    by_cases hno : ∀ slot ∈ slots, slot.1 ≠ name
    · exact .inl (h.lacks named hname hno)
    · obtain ⟨slot, hslot, rfl⟩ : ∃ slot ∈ slots, slot.1 = name := by simpa using hno
      rcases offered slot hslot with ⟨hattributes, hchildren⟩ | hoffers
      · refine .inl ⟨?_, ?_⟩
        · rcases h.markup hslot with ⟨_, hvalue⟩ | ⟨hne, _⟩
          · rw [hvalue]
            exact (lacks_rootScope hname a none).value
          · exact absurd hchildren hne
        · rw [h.attributes slot hslot, h.brought_eq hslot, hattributes]
          exact (lacks_rootScope hname a none).overrides
      · exact .inr ⟨hoffers, hs' slot.1 (.inr hname)⟩

end Render

/-! ## The data of one point -/

/-- The record binds to the root what the scope binds to the point at the end of a path, and it
binds nothing else. -/
structure Record.Focuses (X s : Record) (p : String) (path : Path) : Prop where
  lacks : ∀ name, IsName name → X.Lacks name
  value : X.find? rootKey = s.find? p
  laid : X.laid rootKey = s.laid (if path = [] then rootKey else p)

namespace Registry
variable {r : Registry} {name template p q : String} {sub : Descriptor} {attributes : Attributes}
  {slots : List (String × Slot)} {s s' X X' : Record} {path : Path} {target : PointEntry}

theorem agree_of_lacks (h : s.Lacks name) (h' : X.Lacks name) : Agree [s] [X] name where
  value := by rw [lookup_singleton, lookup_singleton, h.value, h'.value]
  overrides index := by
    rw [lookup_singleton, lookup_singleton, h.overrides, h'.overrides]

/-- A record in which a value and attributes are bound to the root as well. -/
def withRoot (X : Record) (value : Option Value) (a : Attributes) : Record :=
  bindAttributes (value.elim X (X.insert rootKey)) rootKey a

theorem find?_withRoot {key : String} (hvalue : key ≠ rootKey) (hkey : key ≠ attributeKey rootKey)
    (X : Record) (value : Option Value) (a : Attributes) :
    (withRoot X value a).find? key = X.find? key := by
  rw [withRoot, find?_bindAttributes, if_neg fun h => hkey h.1, find?_elim_insert X hvalue]

theorem lacks_withRoot (h : X.Lacks name) (hname : IsName name) (value : Option Value)
    (a : Attributes) : (withRoot X value a).Lacks name where
  value := by
    rw [find?_withRoot hname.ne_rootKey (hname.ne_attributeKey _), h.value]
  overrides := by
    rw [find?_withRoot (attributeKey_ne_rootKey name) hname.attributeKey_ne, h.overrides]

theorem value_withRoot (h : X.find? rootKey = none) (value : Option Value) (a : Attributes) :
    (withRoot X value a).find? rootKey = value := by
  rw [withRoot, find?_bindAttributes, if_neg fun h => attributeKey_ne_rootKey _ h.1.symm]
  cases value with
  | none => exact h
  | some value => exact (NameMap.find?_insert ..).trans (if_pos rfl)

theorem laid_withRoot (X : Record) (value : Option Value) (a : Attributes) :
    (withRoot X value (a.merge (X.laid rootKey))).laid rootKey =
      Record.scalarAttributes (Record.ofAttributes (a.merge (X.laid rootKey))) := by
  have hkeep : (value.elim X (X.insert rootKey)).find? (attributeKey rootKey) =
      X.find? (attributeKey rootKey) := find?_elim_insert X (attributeKey_ne_rootKey rootKey)
  rw [withRoot, Record.laid, find?_bindAttributes]
  cases hempty : (a.merge (X.laid rootKey)).isEmpty with
  | false => simp [overridesAt, Value.attributesAt]
  | true =>
    rw [if_neg (by simp), hkeep, Attributes.eq_empty_of_isEmpty hempty]
    exact Attributes.eq_empty_of_merge hempty

theorem suppliedData_eq_some {inclusion : Inclusion} {slot : Option Slot}
    (hslot : NameMap.find? slots q = slot) (hroot : X.find? rootKey = none)
    (h : r.suppliedData inclusion sub attributes slots q X = some X') :
    ∃ value, X' = withRoot X value (((if (sub.table.point? q).any fun entry => entry.path.isEmpty
        then attributes else .empty).merged (slot.map (·.attributes))).merge (X.laid rootKey)) ∧
      ((slot.map (·.children)).getD [] = [] ∧ value = none ∨
        (slot.map (·.children)).getD [] ≠ [] ∧ ∃ pieces,
          nodes r.settings inclusion [X] ((slot.map (·.children)).getD []) = some pieces ∧
          value = some (.scalar (Piece.writeList r.settings.quote pieces))) := by
  have hno : NameMap.contains X rootKey = false := by
    rw [NameMap.contains, hroot]
    rfl
  unfold suppliedData at h
  simp only [hno, Bool.false_or, merged_eq_merge, hslot] at h
  rw [merged_eq_merge]
  generalize (slot.map (·.children)).getD [] = children at *
  cases children with
  | nil =>
    cases h
    exact ⟨none, rfl, .inl ⟨rfl, rfl⟩⟩
  | cons c children =>
    cases hmarkup : fragment r.settings inclusion [X] (c :: children) with
    | none =>
      simp [hmarkup] at h
    | some markup =>
      obtain ⟨pieces, hpieces, rfl⟩ := Option.map_eq_some_iff.1 hmarkup
      simp [hmarkup] at h
      cases h
      exact ⟨some _, rfl, .inr ⟨List.cons_ne_nil c children, pieces, hpieces, rfl⟩⟩

section
variable {n k : Nat} (sorted : NameMap.Sorted slots) (named : ∀ slot ∈ slots, IsName slot.1)
  (hadded : Added r.settings (r.inclusionTo n) s
    (rootScope (attributes.merge (if path = [] then s.laid rootKey else .empty)) none) s' slots)
  (hq : IsName q) (hp : s.Lacks p) (htarget : sub.table.point? q = some target)
  (offered : ∀ slot ∈ slots, slot.2.Bare ∨ sub.Offers slot.1)

include sorted named hadded hq in
theorem lacks_of_find?_none (hslot : NameMap.find? slots q = none) : s'.Lacks q := by
  refine hadded.lacks named hq ?_
  rintro ⟨_, slot⟩ hmem rfl
  rw [NameMap.find?_of_mem sorted hmem] at hslot
  cases hslot

include sorted named hadded hq hp htarget offered in
/-- The same attributes are laid over the point, whether they come with the scope or the data. -/
theorem laid_supplied :
    Record.scalarAttributes (Record.ofAttributes (((if (sub.table.point? q).any
        fun entry => entry.path.isEmpty then attributes else .empty).merged
          ((NameMap.find? slots q).map (·.attributes))).merge
            (s.laid (if path ++ target.path = [] then rootKey else p)))) =
      s'.laid (if target.path = [] then rootKey else q) := by
  by_cases hpath : target.path = []
  · -- the point is the root, and only the reference itself has attributes for it
    have hbare : attributes.merged ((NameMap.find? slots q).map (·.attributes)) = attributes := by
      cases hslot : NameMap.find? slots q with
      | none => rfl
      | some slot =>
        rcases offered (q, slot) (NameMap.mem_of_find? hslot) with ⟨hempty, _⟩ | hoffers
        · exact congrArg attributes.merge hempty
        · obtain ⟨entry, hentry, _, hne⟩ := hoffers.own
          cases htarget.symm.trans hentry
          exact absurd hpath hne
    have hover : s.laid (if path = [] then rootKey else p) =
        if path = [] then s.laid rootKey else .empty := by
      split
      · rfl
      · exact hp.laid
    rw [htarget, Option.any_some, hpath, List.append_nil, List.isEmpty_nil, if_pos rfl, if_pos rfl,
      hbare, hover, (hadded.root named).2]
  · have hover : s.laid (if path ++ target.path = [] then rootKey else p) = .empty := by
      rw [if_neg fun h => hpath (List.append_eq_nil_iff.1 h).2]
      exact hp.laid
    rw [htarget, Option.any_some, if_neg (by simpa using hpath), if_neg hpath, hover,
      Attributes.merge_empty]
    cases hslot : NameMap.find? slots q with
    | none =>
      rw [(lacks_of_find?_none sorted named hadded hq hslot).laid]
      rfl
    | some slot =>
      rw [hadded.laid named (NameMap.mem_of_find? hslot)]
      exact congrArg (fun a => Record.scalarAttributes (Record.ofAttributes a))
        (Attributes.empty_merge slot.attributes)

include sorted named hadded hq hp htarget offered in
/-- **The data of a point goes along with it.** What the data binds to the root for a point that
comes through a reference, the data supplied by the reference binds to the root for the point of the
referenced template. -/
theorem focuses_supplied (hchildren : ∀ slot ∈ slots, ∀ c ∈ slot.2.children, ∀ name ∈ c.names,
      IsName name ∧ s.Lacks name) (hX : X.Focuses s p (path ++ target.path))
    (h : r.suppliedData (r.inclusionTo k) sub attributes slots q X = some X') :
    X'.Focuses s' q target.path := by
  have hroot : X.find? rootKey = none := hX.value.trans hp.value
  have hlaid := laid_supplied sorted named hadded hq hp htarget offered
  rw [← hX.laid] at hlaid
  cases hslot : NameMap.find? slots q with
  | none =>
    rw [hslot] at hlaid
    obtain ⟨value, rfl, ⟨_, rfl⟩ | ⟨hne, _⟩⟩ := suppliedData_eq_some hslot hroot h
    · refine ⟨fun name hname => lacks_withRoot (hX.lacks name hname) hname _ _, ?_, ?_⟩
      · rw [value_withRoot hroot, (lacks_of_find?_none sorted named hadded hq hslot).value]
      · rw [laid_withRoot, hlaid]
    · exact absurd rfl hne
  | some slot =>
    rw [hslot] at hlaid
    obtain ⟨value, rfl, hvalue⟩ := suppliedData_eq_some hslot hroot h
    have hmem : (q, slot) ∈ slots := NameMap.mem_of_find? hslot
    refine ⟨fun name hname => lacks_withRoot (hX.lacks name hname) hname _ _, ?_, ?_⟩
    · rw [value_withRoot hroot]
      rcases hadded.markup hmem with ⟨hnil, hkeep⟩ | ⟨hne, pieces, hpieces, hcontent⟩
      · rcases hvalue with ⟨_, rfl⟩ | ⟨hne, _⟩
        · exact (hkeep.trans (lacks_rootScope hq _ none).value).symm
        · exact absurd hnil hne
      · rcases hvalue with ⟨hnil, _⟩ | ⟨_, pieces', hpieces', rfl⟩
        · exact absurd hnil hne
        · have hsame : nodes r.settings (r.inclusionTo k) [X] slot.children =
              nodes r.settings (r.inclusionTo k) [s] slot.children :=
            nodes_congr fun c hc name hname =>
              have ⟨hname', hlacks⟩ := hchildren (q, slot) hmem c hc name hname
              agree_of_lacks (hX.lacks name hname') hlacks
          have hpieces'' := hsame.symm.trans hpieces'
          rw [hcontent, nodes_unique hpieces hpieces'']
    · rw [laid_withRoot, hlaid]

end
end Registry
end Stencil
