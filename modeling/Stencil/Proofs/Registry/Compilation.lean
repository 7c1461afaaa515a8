import Mathlib.Data.List.Permutation
import Stencil.Proofs.Registry.Order
import Stencil.Proofs.Registry.Reachable
import Stencil.Proofs.Template.Names

/-! # Compiling a source

A template is compiled against the registry, but it looks at nothing there except the templates that
it references. Within a source these come first and are never replaced. So every template of the
source comes out as if it were compiled when all of them are registered.
-/
namespace Stencil
variable {lookup lookup' : String → Option Descriptor} {owner name other : String}
  {node root : Node} {children : List Node} {slots : List (String × Slot)}

/-! ## What compiling looks at -/

namespace Survey

theorem visitList_congr
    (h : ∀ c ∈ children, ∀ path detached id,
      visit lookup owner path detached id c = visit lookup' owner path detached id c)
    (path : Path) (detached : Bool) (next : NodeId) (placements : List Placement) :
    visitList lookup owner path detached next placements children =
      visitList lookup' owner path detached next placements children := by
  induction children generalizing next placements with
  | nil => cases placements <;> simp [visitList]
  | cons c rest ih =>
    obtain ⟨hc, hrest⟩ := List.forall_mem_cons.1 h
    cases placements with
    | nil => simp [visitList]
    | cons placement placements => rw [visitList, visitList, hc, ih hrest]

theorem visitSlots_congr
    (h : ∀ slot ∈ slots, ∀ c ∈ slot.2.children, ∀ path detached id,
      visit lookup owner path detached id c = visit lookup' owner path detached id c)
    (template : String) (sub : Descriptor) (path : Path) (detached : Bool)
    (reference next : NodeId) :
    visitSlots lookup owner template sub path detached reference next slots =
      visitSlots lookup' owner template sub path detached reference next slots := by
  induction slots generalizing next with
  | nil => simp [visitSlots]
  | cons slot rest ih =>
    obtain ⟨hslot, hrest⟩ := List.forall_mem_cons.1 h
    obtain ⟨name, id, attributes, children⟩ := slot
    rw [visitSlots, visitSlots, ih hrest]
    simp only [visitList_congr hslot]

theorem visit_congr (h : ∀ template ∈ node.referencedTemplates, lookup template = lookup' template)
    (path : Path) (detached : Bool) (id : NodeId) :
    visit lookup owner path detached id node = visit lookup' owner path detached id node := by
  induction node using Node.induct generalizing path detached id with
  | step node ih =>
    have hchild : ∀ c ∈ node.childNodes, ∀ path detached id,
        visit lookup owner path detached id c = visit lookup' owner path detached id c :=
      fun c hc => ih c hc fun template ht => h template (Node.mem_referencedTemplates_of_child hc ht)
    cases node with
    | text => rw [visit, visit]
    | element tag point attributes children =>
      have hlist := visitList_congr (show ∀ c ∈ children, _ from hchild)
      rw [visit, visit, hlist]
    | reference template point attributes slots =>
      have hslots : ∀ slot ∈ slots, ∀ c ∈ slot.2.children, ∀ path detached id,
          visit lookup owner path detached id c = visit lookup' owner path detached id c :=
        fun slot hslot c hc => hchild c (Node.mem_childNodes_of_slot hslot hc template point _)
      rw [visit, visit, h template (Node.mem_referencedTemplates_of_own rfl)]
      simp only [visitSlots_congr hslots]

end Survey

theorem Descriptor.compile_congr
    (h : ∀ template ∈ root.referencedTemplates, lookup template = lookup' template)
    (name : String) : compile lookup name root = compile lookup' name root := by
  rw [compile, compile, Survey.visit_congr h]

namespace Registry
open Declarations
variable {r r' : Registry} {declared : NameMap Node} {done sorted order : List String}
  {declarations : List Source.Declaration} {source : String}

/-! ## One template after another -/

/-- The names in `done` are registered on top of `r`, and what is new was compiled with the view
that there is now. -/
structure Extends (r : Registry) (declared : NameMap Node) (done : List String) (r' : Registry) :
    Prop where
  settings : r'.settings = r.settings
  keeps : ∀ name D, r.get? name = some D → r'.get? name = some D
  others : ∀ name, name ∉ done → r'.get? name = r.get? name
  compiled : ∀ name ∈ done, r.get? name = none → ∃ root, declared.find? name = some root ∧
    r'.get? name = some (.compile r'.get? name root)

theorem Extends.contains (h : r.Extends declared done r') (hmem : name ∈ done) :
    r'.contains name := by
  cases hname : r.get? name with
  | some D => exact contains_of_get? (h.keeps name D hname)
  | none =>
    obtain ⟨root, _, hroot⟩ := h.compiled name hmem hname
    exact contains_of_get? hroot

theorem get?_register_of_ne (r : Registry) (h : other ≠ name) (root : Node) :
    (r.register name root).get? other = r.get? other := by
  rw [get?_register, if_neg fun hboth => h hboth.1]

theorem settings_register (r : Registry) (name : String) (root : Node) :
    (r.register name root).settings = r.settings := by
  unfold register
  split <;> rfl

theorem Extends.passOver (h : r.Extends declared done r') (hname : r'.contains name) :
    r.Extends declared (done ++ [name]) r' := by
  refine ⟨h.settings, h.keeps, fun other hother => ?_, fun other hother hnone => ?_⟩
  · exact h.others other fun hmem => hother (List.mem_append_left _ hmem)
  · rcases List.mem_append.1 hother with hother | hother
    · exact h.compiled other hother hnone
    · obtain rfl := List.mem_singleton.1 hother
      by_cases hmem : other ∈ done
      · exact h.compiled other hmem hnone
      · rw [contains_eq, h.others other hmem, hnone] at hname
        cases hname

/-- What was compiled before does not reference the new template, and neither does the new one. -/
theorem Extends.register (h : r.Extends declared done r') (hs : Settled declared done)
    (hd : declared.find? name = some root)
    (behind : ∀ other ∈ root.referencedTemplates, declared.contains other → other ∈ done) :
    r.Extends declared (done ++ [name]) (r'.register name root) := by
  cases hnew : r'.contains name with
  | true =>
    rw [register_of_contains hnew]
    exact h.passOver hnew
  | false =>
    have hdone : name ∉ done := by
      intro hmem
      have hcontains := h.contains hmem
      rw [hnew] at hcontains
      cases hcontains
    have hsame (other : String) (hother : other ≠ name) :
        (r'.register name root).get? other = r'.get? other := get?_register_of_ne r' hother root
    have hcompile {user : String} {tree : Node}
        (huser : ∀ other ∈ tree.referencedTemplates, declared.contains other → other ∈ done) :
        Descriptor.compile r'.get? user tree =
          .compile (r'.register name root).get? user tree := by
      refine Descriptor.compile_congr (fun other hother => (hsame other ?_).symm) user
      rintro rfl
      exact hdone (huser other hother (NameMap.contains_of_find? hd))
    refine ⟨(settings_register ..).trans h.settings, fun other D hD => ?_, fun other hother => ?_,
      fun other hother hnone => ?_⟩
    · exact get?_register_of_some (h.keeps other D hD) name root
    · rw [hsame other fun hname => hother (hname ▸ List.mem_append_right _ List.mem_cons_self)]
      exact h.others other fun hmem => hother (List.mem_append_left _ hmem)
    · rcases List.mem_append.1 hother with hother | hother
      · obtain ⟨tree, htree, hget⟩ := h.compiled other hother hnone
        refine ⟨tree, htree, ?_⟩
        rw [hsame other fun hname => hdone (hname ▸ hother), hget,
          hcompile fun _ => hs.mem_of_reference hother htree]
      · obtain rfl := List.mem_singleton.1 hother
        refine ⟨root, hd, ?_⟩
        rw [get?_register, if_pos ⟨rfl, get?_of_contains hnew⟩, hcompile behind]

theorem extends_registerAll (hs : Settled declared sorted) :
    r.Extends declared sorted (r.registerAll declared sorted) := by
  induction hs with
  | nil => exact ⟨rfl, fun _ _ h => h, fun _ _ => rfl, nofun⟩
  | snoc h hd behind ih =>
    rw [registerAll_snoc r _ hd]
    exact ih.register h hd behind

/-! ## A source as a whole -/

theorem firstRepeated_eq_none {seen names : List String} :
    firstRepeated seen names = none ↔ names.Nodup ∧ ∀ name ∈ names, name ∉ seen := by
  induction names generalizing seen with
  | nil => simp [firstRepeated]
  | cons name rest ih =>
    rw [firstRepeated]
    split
    · next hmem => simp [hmem]
    · next hmem =>
      rw [ih, List.nodup_cons, List.forall_mem_cons]
      simp only [List.mem_cons, not_or]
      grind

/-- The declared trees by name. -/
def trees (declarations : List Source.Declaration) : NameMap Node :=
  .ofList (declarations.map fun d => (d.name, d.root))

theorem find?_trees (h : (declarations.map (·.name)).Nodup) :
    (trees declarations).find? name = some root ↔
      ∃ d ∈ declarations, d.name = name ∧ d.root = root := by
  have hnames : ((declarations.map fun d => (d.name, d.root)).map (·.1)).Nodup := by
    rwa [List.map_map]
  rw [trees, NameMap.find?_ofList hnames]
  simp

theorem contains_trees (h : (declarations.map (·.name)).Nodup) :
    (trees declarations).contains name ↔ name ∈ declarations.map (·.name) := by
  rw [NameMap.contains, Option.isSome_iff_exists, List.mem_map]
  simp only [find?_trees h]
  constructor
  · rintro ⟨root, d, hd, hname, _⟩
    exact ⟨d, hd, hname⟩
  · rintro ⟨d, hd, hname⟩
    exact ⟨d.root, d, hd, hname, rfl⟩

theorem arrange_eq_ok : arrange declarations = .ok (declared, order) ↔
    (declarations.map (·.name)).Nodup ∧ declared = trees declarations ∧
      sort declared (declarations.map (·.name)) = .ok order := by
  unfold arrange
  dsimp only
  cases hrepeated : firstRepeated [] (declarations.map (·.name)) with
  | some name =>
    simp only [reduceCtorEq, false_iff]
    rintro ⟨hn, _⟩
    rw [firstRepeated_eq_none.2 ⟨hn, fun _ _ => List.not_mem_nil⟩] at hrepeated
    cases hrepeated
  | none =>
    simp only [(firstRepeated_eq_none.1 hrepeated).1, true_and]
    rw [← trees]
    cases hsort : sort (trees declarations) (declarations.map (·.name)) with
    | error chain =>
      simp only [reduceCtorEq, false_iff]
      rintro ⟨rfl, hsort'⟩
      cases hsort.symm.trans hsort'
    | ok found =>
      simp only [Except.ok.injEq, Prod.mk.injEq]
      constructor
      · rintro ⟨rfl, rfl⟩
        exact ⟨rfl, hsort⟩
      · rintro ⟨rfl, hsort'⟩
        cases hsort.symm.trans hsort'
        exact ⟨rfl, rfl⟩

theorem registerSource_of_sort (hparse : Source.parse source = .ok declarations)
    (hn : (declarations.map (·.name)).Nodup)
    (hsort : sort (trees declarations) (declarations.map (·.name)) = .ok order) (r : Registry) :
    r.registerSource source = (r.registerAll (trees declarations) order, .ok order) :=
  registerSource_of_ok hparse (arrange_eq_ok.2 ⟨hn, rfl, hsort⟩) r

theorem extends_registerSource (hparse : Source.parse source = .ok declarations)
    (h : r.registerSource source = (r', .ok order)) :
    (declarations.map (·.name)).Nodup ∧ order.Perm (declarations.map (·.name)) ∧
      Settled (trees declarations) order ∧ r.Extends (trees declarations) order r' := by
  obtain ⟨_, declared, hparse', harrange, rfl⟩ := registerSource_eq_ok.1 h
  cases hparse.symm.trans hparse'
  obtain ⟨hn, rfl, hsort⟩ := arrange_eq_ok.1 harrange
  have hsettled := settled_sort hsort
  exact ⟨hn, perm_sort hsort hn fun name => (contains_trees hn).symm, hsettled,
    extends_registerAll hsettled⟩

/-- The registry after a source, told by its declarations and the order they were registered in. -/
structure Settles (r : Registry) (declarations : List Source.Declaration) (order : List String)
    (r' : Registry) : Prop where
  /-- The order lists each declared name once. -/
  perm : order.Perm (declarations.map (·.name))
  nodup : order.Nodup
  /-- What a declaration mentions at any depth is listed before it. -/
  behind : ∀ d ∈ declarations, ∀ d' ∈ declarations, d.root.Mentions d'.name →
    order.idxOf d'.name < order.idxOf d.name
  settings : r'.settings = r.settings
  keeps : ∀ name D, r.get? name = some D → r'.get? name = some D
  registers : ∀ d ∈ declarations, r'.contains d.name
  /-- A new template is what its declaration comes to in the registry as it is now. -/
  compiled : ∀ name D, r.get? name = none → r'.get? name = some D →
    ∃ d ∈ declarations, d.name = name ∧ D = .compile r'.get? name d.root

/-- **Nothing stale is left behind by a source.** -/
theorem registerSource_settles (h : r.registerSource source = (r', .ok order)) :
    ∃ declarations, Source.parse source = .ok declarations ∧ r.Settles declarations order r' := by
  obtain ⟨declarations, _, hparse, _, _⟩ := registerSource_eq_ok.1 h
  obtain ⟨hn, hperm, hsettled, hextends⟩ := extends_registerSource hparse h
  have hnodup : order.Nodup := hperm.nodup_iff.2 hn
  have hlisted (d : Source.Declaration) (hd : d ∈ declarations) : d.name ∈ order :=
    hperm.mem_iff.2 (List.mem_map_of_mem hd)
  refine ⟨declarations, hparse, hperm, hnodup, fun d hd d' hd' hmentions => ?_,
    hextends.settings, hextends.keeps, fun d hd => hextends.contains (hlisted d hd),
    fun name D hnone hD => ?_⟩
  · exact hsettled.idxOf_lt hnodup (hlisted d hd) ((find?_trees hn).2 ⟨d, hd, rfl, rfl⟩)
      (Node.mem_referencedTemplates_iff.2 hmentions)
      ((contains_trees hn).2 (List.mem_map_of_mem hd'))
  · have hmem : name ∈ order := by
      by_contra hmem
      rw [hextends.others name hmem, hnone] at hD
      cases hD
    obtain ⟨root, hroot, hget⟩ := hextends.compiled name hmem hnone
    obtain ⟨d, hd, hname, rfl⟩ := (find?_trees hn).1 hroot
    exact ⟨d, hd, hname, Option.some.inj (hD.symm.trans hget)⟩

/-- A page that references an item in the slot of a card, and both behind it. -/
def cardSource : String :=
  "template Page \x7b div \x7b use Card \x7b point #body \x7b use Item \x7d \x7d \x7d \x7d
   template Item \x7b li #label \x7d template Card \x7b div #body \x7d"

def cardDeclarations : List Source.Declaration :=
  [⟨"Page", ⟨9, 13⟩, .element "div" .anonymous .empty
      [.reference "Card" .anonymous .empty
        [("point", ⟨some "body", .empty, [.reference "Item" .anonymous .empty []]⟩)]]⟩,
    ⟨"Item", ⟨76, 80⟩, .element "li" ⟨some "label", .single, false⟩ .empty []⟩,
    ⟨"Card", ⟨104, 108⟩, .element "div" ⟨some "body", .single, false⟩ .empty []⟩]

set_option maxRecDepth 20000 in
/-- The page comes last, and the item that was there before stays. -/
theorem registerSource_settles_card :
    ∃ r' declarations, (empty.register "Item" (.text "x")).registerSource cardSource =
        (r', .ok ["Card", "Item", "Page"]) ∧ Source.parse cardSource = .ok declarations ∧
      (empty.register "Item" (.text "x")).Settles declarations ["Card", "Item", "Page"] r' := by
  have hparse : Source.parse cardSource = .ok cardDeclarations := by with_unfolding_all rfl
  have hsort : sort (trees cardDeclarations) (cardDeclarations.map (·.name)) =
      .ok ["Card", "Item", "Page"] := by cbv
  obtain ⟨r', h⟩ : ∃ r', (empty.register "Item" (.text "x")).registerSource cardSource =
      (r', .ok ["Card", "Item", "Page"]) :=
    ⟨_, registerSource_of_sort hparse (by decide) hsort _⟩
  obtain ⟨declarations, hparse, hsettles⟩ := registerSource_settles h
  exact ⟨r', declarations, h, hparse, hsettles⟩

end Registry
end Stencil
