import Stencil.Proofs.Registry.Compilation
import Stencil.Proofs.Render.Ending

/-! # One source after another

Within a source references are sorted, and a cycle of them is an error. A name that a registered
template waits for may still be declared by a later source, which is sorted for itself. If no source
does that, references always lead to templates that were registered before, so they never lead back
and every rendering ends.
-/
namespace Stencil

namespace Source

/-- The source is well-formed and declares a template of this name. -/
def Declares (source name : String) : Prop :=
  ∃ declarations, parse source = .ok declarations ∧ name ∈ declarations.map (·.name)

end Source

namespace Registry
open Render Source
variable {r : Registry} {name other : String} {root : Node} {D : Descriptor}
  {declared : NameMap Node} {sorted sources : List String} {source : String}

def afterSources (r : Registry) (sources : List String) : Registry := sources.foldl afterSource r

/-- A registered template references another one somewhere in its tree. -/
def Uses (r : Registry) (name other : String) : Prop :=
  ∃ D, r.get? name = some D ∧ other ∈ D.dependencies ∧ r.contains other

/-- A registered template references the name, and nothing is registered under it. -/
def Awaits (r : Registry) (other : String) : Prop :=
  r.contains other = false ∧ ∃ name D, r.get? name = some D ∧ other ∈ D.dependencies

/-- No source declares a name that templates registered before it wait for. -/
def Timely : Registry → List String → Prop
  | _, [] => True
  | r, source :: rest => (∀ name, Declares source name → ¬ r.Awaits name) ∧
      Timely (r.afterSource source) rest

/-- A rank for each template that drops along references; it counts the templates registered before
it. -/
structure Ranking (r : Registry) (rank : String → Nat) : Prop where
  bounded : ∀ name, r.contains name → rank name < r.templates.length
  drops : ∀ name other, r.Uses name other → rank other < rank name

/-- References lead to templates that were registered before. -/
def Layered (r : Registry) : Prop := ∃ rank, r.Ranking rank

theorem layered_withSettings (settings : Settings) : (withSettings settings).Layered :=
  ⟨fun _ => 0, nofun, fun _ _ ⟨_, hD, _⟩ => nomatch hD⟩

/-! ## One registration -/

/-- A new template that does not reference itself, and that none waits for, comes on top. -/
theorem Layered.register (h : r.Layered) (hnew : r.contains name = false)
    (hself : name ∉ root.referencedTemplates) (hawaits : ¬ r.Awaits name) :
    (r.register name root).Layered := by
  obtain ⟨rank, hbounded, hdrops⟩ := h
  have hnone := get?_of_contains hnew
  refine ⟨Function.update rank name r.templates.length, fun other hother => ?_,
    fun user used ⟨D, hD, hmem, hused⟩ => ?_⟩
  · rw [length_register hnew]
    rw [contains_register] at hother
    by_cases ho : other = name
    · rw [ho, Function.update_self]
      exact Nat.lt_succ_self _
    · rw [Function.update_of_ne ho]
      rw [decide_eq_false ho, Bool.false_or] at hother
      exact Nat.lt_succ_of_lt (hbounded other hother)
  · rw [get?_register] at hD
    rw [contains_register] at hused
    split at hD
    · next huser =>
      cases hD
      have hne : used ≠ name := fun hu => hself (hu ▸ hmem)
      rw [decide_eq_false hne, Bool.false_or] at hused
      rw [huser.1, Function.update_self, Function.update_of_ne hne]
      exact hbounded used hused
    · next huser =>
      have hne : user ≠ name := fun hu => huser ⟨hu, hnone⟩
      have hne' : used ≠ name := by
        rintro rfl
        exact hawaits ⟨hnew, user, D, hD, hmem⟩
      rw [decide_eq_false hne', Bool.false_or] at hused
      rw [Function.update_of_ne hne, Function.update_of_ne hne']
      exact hdrops user used ⟨D, hD, hmem, hused⟩

theorem awaits_register (h : (r.register name root).Awaits other) :
    r.Awaits other ∨ other ∈ root.referencedTemplates := by
  obtain ⟨hnew, user, D, hD, hmem⟩ := h
  rw [contains_register, Bool.or_eq_false_iff] at hnew
  rw [get?_register] at hD
  split at hD
  · cases hD
    exact .inr hmem
  · exact .inl ⟨hnew.2, user, D, hD, hmem⟩

/-! ## One source -/

/-- Templates in a settled order can be registered on top of each other, unless registered ones wait
for them. -/
theorem layered_registerAll (h : r.Layered)
    (hawaits : ∀ name, declared.contains name → ¬ r.Awaits name)
    (hsorted : Declarations.Settled declared sorted) :
    (r.registerAll declared sorted).Layered ∧
      (∀ name ∈ sorted, (r.registerAll declared sorted).contains name) ∧
      ∀ name, declared.contains name → ¬ (r.registerAll declared sorted).Awaits name := by
  induction hsorted with
  | nil => exact ⟨h, nofun, hawaits⟩
  | @snoc done name root _ hd behind ih =>
    obtain ⟨hlayered, hdone, hawaits⟩ := ih
    have hstep := registerAll_snoc r done hd
    have hname : declared.contains name := NameMap.contains_of_find? hd
    rw [hstep]
    generalize r.registerAll declared done = r' at *
    refine ⟨?_, fun other hother => ?_, fun other hother hafter => ?_⟩
    · cases hnew : r'.contains name with
      | true => rwa [register_of_contains hnew]
      | false =>
        refine hlayered.register hnew (fun hself => ?_) (hawaits name hname)
        have := hdone name (behind name hself hname)
        rw [hnew] at this
        cases this
    · rw [contains_register, Bool.or_eq_true, decide_eq_true_eq]
      rcases List.mem_append.1 hother with hother | hother
      · exact .inr (hdone other hother)
      · exact .inl (List.mem_singleton.1 hother)
    · rcases awaits_register hafter with hbefore | hmem
      · exact hawaits other hother hbefore
      · have hcontains := hdone other (behind other hmem hother)
        have := hafter.1
        rw [contains_register, hcontains, Bool.or_true] at this
        cases this

theorem layered_afterSource (h : r.Layered)
    (hawaits : ∀ name, Declares source name → ¬ r.Awaits name) :
    (r.afterSource source).Layered := by
  rcases afterSource_cases r source with hsame | ⟨declarations, _, _, hparse, harrange, hresult⟩
  · exact hsame.symm ▸ h
  · obtain ⟨hn, rfl, hsort⟩ := arrange_eq_ok.1 harrange
    rw [hresult]
    exact (layered_registerAll h (fun name hname => hawaits name
      ⟨declarations, hparse, (contains_trees hn).1 hname⟩) (Declarations.settled_sort hsort)).1

theorem layered_afterSources (h : r.Layered) (htimely : r.Timely sources) :
    (r.afterSources sources).Layered := by
  induction sources generalizing r with
  | nil => exact h
  | cons source rest ih => exact ih (layered_afterSource h htimely.1) htimely.2

/-! ## No way back, and an end -/

theorem Ranking.lt_of_transGen {rank : String → Nat} (h : r.Ranking rank)
    (huses : Relation.TransGen r.Uses name other) : rank other < rank name := by
  induction huses with
  | single huses => exact h.drops _ _ huses
  | tail _ huses ih => exact Nat.lt_trans (h.drops _ _ huses) ih

theorem total_inclusion {rank : String → Nat} (h : r.Ranking rank) {levels : Nat}
    (hlevels : r.contains name → rank name < levels) : Total (r.inclusionTo levels) name := by
  induction levels generalizing name with
  | zero =>
    intro expand hexpand
    obtain ⟨D, hD, _⟩ := Option.map_eq_some_iff.1 hexpand
    exact absurd (hlevels (contains_of_get? hD)) (Nat.not_lt_zero _)
  | succ levels ih =>
    intro expand hexpand scope
    obtain ⟨D, hD, rfl⟩ := Option.map_eq_some_iff.1 hexpand
    refine node_isSome (fun template htemplate => ih fun hcontains => ?_) true [scope]
    have hdrops := h.drops name template ⟨D, hD, htemplate, hcontains⟩
    have hbelow := hlevels (contains_of_get? hD)
    omega

theorem Ranking.render_ok {rank : String → Nat} (h : r.Ranking rank) (hname : r.contains name)
    (data : Record) : ∃ html, r.render name data = some (.ok html) := by
  obtain ⟨D, hD⟩ := Option.isSome_iff_exists.1 hname
  have hsome : (node r.settings (r.inclusionTo r.templates.length) true [data] D.root).isSome :=
    node_isSome (fun template _ => total_inclusion h (h.bounded template)) true [data]
  obtain ⟨pieces, hpieces⟩ := Option.isSome_iff_exists.1 hsome
  exact ⟨Piece.writeList r.settings.quote pieces,
    render_eq_ok.2 ⟨D, r.templates.length, hD, by rw [hpieces, Option.map_some]⟩⟩

/-- **No cycle among sources that come in time.** If no source declares a name that templates
registered before it wait for, no template leads back to itself, and each renders to an end. -/
theorem acyclic_afterSources (settings : Settings) (sources : List String)
    (htimely : (withSettings settings).Timely sources) :
    (∀ name, ¬ Relation.TransGen ((withSettings settings).afterSources sources).Uses name name) ∧
      ∀ name data, ((withSettings settings).afterSources sources).contains name →
        ∃ html, ((withSettings settings).afterSources sources).render name data =
          some (.ok html) := by
  obtain ⟨rank, hrank⟩ := layered_afterSources (layered_withSettings settings) htimely
  exact ⟨fun name huses => Nat.lt_irrefl _ (hrank.lt_of_transGen huses),
    fun name data hname => hrank.render_ok hname data⟩

/-! ## Sources in time, and two that are not -/

theorem mem_dependencies_of_awaits (h : r.Awaits other) :
    other ∈ r.templates.flatMap (·.2.dependencies) := by
  obtain ⟨_, name, D, hD, hmem⟩ := h
  exact List.mem_flatMap.2 ⟨(name, D), NameMap.mem_of_find? hD, hmem⟩

def listSource : String :=
  "template List \x7b ul \x7b use Item \x7d \x7d template Item \x7b li #label \x7d"

def pageSource : String := "template Page \x7b div \x7b use List use Item \x7d \x7d"

def listDeclarations : List Source.Declaration :=
  [⟨"List", ⟨9, 13⟩, .element "ul" .anonymous .empty [.reference "Item" .anonymous .empty []]⟩,
    ⟨"Item", ⟨43, 47⟩, .element "li" ⟨some "label", .single, false⟩ .empty []⟩]

theorem afterSource_listSource :
    empty.afterSource listSource =
      empty.registerAll (trees listDeclarations) ["Item", "List"] := by
  have hparse : Source.parse listSource = .ok listDeclarations := by with_unfolding_all rfl
  have hsort : Declarations.sort (trees listDeclarations) (listDeclarations.map (·.name)) =
      .ok ["Item", "List"] := by cbv
  rw [afterSource, registerSource_of_sort hparse (by decide) hsort]

theorem acyclic_afterSources_page :
    empty.Timely [listSource, pageSource] ∧
      (∀ name, ¬ Relation.TransGen (empty.afterSources [listSource, pageSource]).Uses name name) ∧
      ∀ name data, (empty.afterSources [listSource, pageSource]).contains name →
        ∃ html, (empty.afterSources [listSource, pageSource]).render name data =
          some (.ok html) := by
  have htimely : empty.Timely [listSource, pageSource] := by
    refine ⟨fun name _ ⟨_, _, _, hD, _⟩ => (nomatch hD), fun name _ hawaits => ?_, trivial⟩
    have hdependencies :
        (empty.afterSource listSource).templates.flatMap (·.2.dependencies) = ["Item"] := by
      rw [afterSource_listSource]
      decide +kernel
    have hitem : (empty.afterSource listSource).contains "Item" = true := by
      rw [afterSource_listSource]
      decide +kernel
    have hmem := mem_dependencies_of_awaits hawaits
    have hnew := hawaits.1
    rw [hdependencies] at hmem
    rw [List.mem_singleton.1 hmem, hitem] at hnew
    cases hnew
  exact ⟨htimely, acyclic_afterSources _ _ htimely⟩

/-- A registry that took two sources, the first of which waits for what the second declares. -/
def crossed : Registry :=
  empty.afterSources ["template A \x7b use B \x7d", "template B \x7b use A \x7d"]

theorem crossed_eq_register :
    crossed = (empty.register "A" (.reference "B" .anonymous .empty [])).register "B"
      (.reference "A" .anonymous .empty []) := by
  have hparse : Source.parse "template A \x7b use B \x7d" =
      .ok [⟨"A", ⟨9, 10⟩, .reference "B" .anonymous .empty []⟩] := by with_unfolding_all rfl
  have hparse' : Source.parse "template B \x7b use A \x7d" =
      .ok [⟨"B", ⟨9, 10⟩, .reference "A" .anonymous .empty []⟩] := by with_unfolding_all rfl
  rw [crossed, afterSources, List.foldl_cons, List.foldl_cons, List.foldl_nil, afterSource,
    afterSource, registerSource_of_sort hparse (by decide) (by cbv),
    registerSource_of_sort hparse' (by decide) (by cbv)]
  rfl

theorem get?_crossed (h : name = "A" ∨ name = "B") :
    ∃ D other, crossed.get? name = some D ∧ D.root = .reference other .anonymous .empty [] ∧
      (other = "A" ∨ other = "B") := by
  have hA : (crossed.get? "A").map (·.root) = some (.reference "B" .anonymous .empty []) := by
    rw [crossed_eq_register]
    rfl
  have hB : (crossed.get? "B").map (·.root) = some (.reference "A" .anonymous .empty []) := by
    rw [crossed_eq_register]
    rfl
  rcases h with rfl | rfl
  · obtain ⟨D, hD, hroot⟩ := Option.map_eq_some_iff.1 hA
    exact ⟨D, "B", hD, hroot, .inr rfl⟩
  · obtain ⟨D, hD, hroot⟩ := Option.map_eq_some_iff.1 hB
    exact ⟨D, "A", hD, hroot, .inl rfl⟩

theorem inclusion_crossed (h : name = "A" ∨ name = "B") (levels : Nat) :
    ∃ expand, crossed.inclusionTo levels name = some expand ∧ expand [] = none := by
  induction levels generalizing name with
  | zero =>
    obtain ⟨D, other, hD, hroot, hother⟩ := get?_crossed h
    exact ⟨_, congrArg _ hD, rfl⟩
  | succ levels ih =>
    obtain ⟨D, other, hD, hroot, hother⟩ := get?_crossed h
    refine ⟨_, congrArg _ hD, ?_⟩
    -- a reference without a name passes on nothing, so the scope stays empty
    obtain ⟨expand, hexpand, hnone⟩ := ih hother
    rw [expandTo_succ, hroot, node_reference_some _ _ hexpand, emit, hexpand]
    change (expand [] >>= _).map List.flatten = none
    rw [hnone]
    rfl

/-- Two sources that are accepted one after the other can close a cycle, and then rendering does not
end. -/
theorem not_acyclic_afterSources_crossed :
    (¬ ∀ settings sources name,
      ¬ Relation.TransGen ((withSettings settings).afterSources sources).Uses name name) ∧
    ∀ html, ¬ crossed.Renders "A" [] html := by
  constructor
  · intro h
    have huses (name other : String)
        (hroot : (crossed.get? name).map (·.root) = some (.reference other .anonymous .empty []))
        (hother : crossed.contains other) : crossed.Uses name other := by
      obtain ⟨D, hD, hroot⟩ := Option.map_eq_some_iff.1 hroot
      refine ⟨D, hD, ?_, hother⟩
      rw [Descriptor.dependencies, hroot]
      exact Node.mem_referencedTemplates_of_own rfl
    rw [crossed_eq_register] at huses
    have hcycle := h .default ["template A \x7b use B \x7d", "template B \x7b use A \x7d"] "A"
    change ¬ Relation.TransGen crossed.Uses "A" "A" at hcycle
    rw [crossed_eq_register] at hcycle
    exact hcycle (.tail (.single (huses "A" "B" rfl (by decide +kernel)))
      (huses "B" "A" rfl (by decide +kernel)))
  · rintro html ⟨D, levels, hD, hrenders⟩
    obtain ⟨expand, hexpand, hnone⟩ := inclusion_crossed (.inl rfl) (levels + 1)
    obtain ⟨D', hD', rfl⟩ := Option.map_eq_some_iff.1 hexpand
    obtain rfl := Option.some.inj (hD.symm.trans hD')
    have hnone : node crossed.settings (crossed.inclusionTo levels) true [[]] D.root = none := hnone
    rw [hnone] at hrenders
    cases hrenders

end Registry
end Stencil
