import Stencil.Proofs.Registry.Acyclic
import Stencil.Proofs.Registry.Coherence

/-! # Rendering behind a point

Rendering a point goes from template to template, with the data that each reference supplies, until
it comes to the node that declares the point. Each step is there in the registry, so rendering a
point that the table has can only fail to end: because of the content of a slot on the way, or
because of the node itself.
-/
namespace Stencil.Registry
open Render
variable {r : Registry} {name p : String} {D : Descriptor} {entry : PointEntry} {X : Record}
  {markup : String}

/-- The entry of a template, rendered with the data `X`, comes down to a node with the data `Z`. On
the way the content of slots is rendered to the end, each with inclusions that nest so deep. -/
inductive Resolves (r : Registry) :
    Descriptor → PointEntry → Record → Node → Record → Prop
  | own {D : Descriptor} {entry : PointEntry} {X : Record} {m : Node}
      (inherited : entry.inherited = none) (found : D.root.preorder[entry.node]? = some m) :
      Resolves r D entry X m X
  | through {D sub : Descriptor} {entry target : PointEntry} {X X' Z : Record} {m : Node}
      {id : NodeId} {template q : String} {point : PointSpec} {attributes : Attributes}
      {slots : List (String × Slot)} {levels : Nat} (inherited : entry.inherited = some ⟨id, q⟩)
      (found : D.root.preorder[id]? = some (.reference template point attributes slots))
      (registered : r.get? template = some sub)
      (supplied : r.suppliedData (r.inclusionTo levels) sub attributes slots q X = some X')
      (listed : sub.table.point? q = some target) (rest : Resolves r sub target X' m Z) :
      Resolves r D entry X m Z

/-- Rendering what is behind the entry comes to an end, with this markup, if inclusions may nest deep
enough. -/
def RendersEntry (r : Registry) (D : Descriptor) (entry : PointEntry) (X : Record)
    (markup : String) : Prop :=
  ∃ m Z levels, r.Resolves D entry X m Z ∧
    (node r.settings (r.inclusionTo levels) true [Z] m).map (Piece.writeList r.settings.quote) =
      some markup

/-- Rendering the point of the template comes to an end, with this markup, if inclusions may nest
deep enough. -/
def RendersPoint (r : Registry) (name p : String) (X : Record) (markup : String) : Prop :=
  ∃ D entry, r.get? name = some D ∧ D.table.point? p = some entry ∧ r.RendersEntry D entry X markup

theorem Reachable.isAmbiguous_of_point? (hr : r.Reachable) (hD : r.get? name = some D)
    (hp : D.table.point? p = some entry) : D.table.isAmbiguous p = false := by
  obtain ⟨lookup, hcompiled, _⟩ := hr.compiled_against name D hD
  rw [hcompiled] at hp ⊢
  exact PointTable.isAmbiguous_of_point? hp

/-! ## One step -/

theorem Reachable.renderEntry_own (hr : r.Reachable) (hD : r.get? name = some D)
    (hp : D.table.point? p = some entry) (hinherited : entry.inherited = none) (X : Record) :
    ∃ m, D.root.preorder[entry.node]? = some m ∧
      r.renderEntry D p X = (r.renderRoot m X).map .ok := by
  have hclear := hr.isAmbiguous_of_point? hD hp
  obtain ⟨earlier, _, hcompiled, _, hcoherent⟩ := hr.coherent hD
  obtain ⟨_, m, _, hm, _⟩ := (hcoherent p entry (NameMap.mem_of_find? hp)).own hinherited
  refine ⟨m, hm, ?_⟩
  rw [renderEntry]
  simp only [hclear, Bool.false_eq_true, if_false, hp, hinherited, hm]

theorem Reachable.renderEntry_through (hr : r.Reachable) (hD : r.get? name = some D)
    (hp : D.table.point? p = some entry) {sub : Descriptor} {id : NodeId} {template q : String}
    {point : PointSpec} {attributes : Attributes} {slots : List (String × Slot)}
    (hinherited : entry.inherited = some ⟨id, q⟩)
    (hfound : D.root.preorder[id]? = some (.reference template point attributes slots))
    (hsub : r.get? template = some sub) (X : Record) :
    r.renderEntry D p X =
      (r.suppliedData r.inclusion sub attributes slots q X).bind (r.renderEntry sub q) := by
  have hclear := hr.isAmbiguous_of_point? hD hp
  rw [renderEntry]
  simp only [hclear, Bool.false_eq_true, if_false, hp, hinherited, hfound, hsub]
  rfl

/-! ## All the way -/

/-- What an entry that leads to a node in the end is rendered to. No error comes up on the way. -/
theorem renderEntry_of_traces (hr : r.Reachable) {n : Nat} {O : Descriptor} {own : PointEntry}
    (h : r.Traces n D entry O own) (hD : r.get? name = some D)
    (hp : D.table.point? p = some entry) :
    (∀ e, r.renderEntry D p X ≠ some (.error e)) ∧
      ∀ markup, r.renderEntry D p X = some (.ok markup) ↔ r.RendersEntry D entry X markup := by
  induction h generalizing name p X with
  | @own D entry inherited =>
    obtain ⟨m, hm, hstep⟩ := hr.renderEntry_own hD hp inherited X
    refine ⟨by simp [hstep], fun markup => ?_⟩
    have hroot : r.renderEntry D p X = some (.ok markup) ↔ r.renderRoot m X = some markup := by
      simp [hstep]
    rw [hroot, renderRoot_eq_some_iff]
    constructor
    · rintro ⟨levels, hlevels⟩
      exact ⟨m, X, levels, .own inherited hm, hlevels⟩
    · rintro ⟨m', Z, levels, hresolves, hlevels⟩
      cases hresolves with
      | own _ found =>
        cases hm.symm.trans found
        exact ⟨levels, hlevels⟩
      | through inherited' => cases inherited.symm.trans inherited'
  | @link n D sub O entry target own hlink _ ih =>
    cases hlink with
    | @intro id q template point attributes slots _ _ inherited found registered listed =>
      rw [hr.renderEntry_through hD hp inherited found registered]
      constructor
      · intro e herror
        obtain ⟨X', _, hrest⟩ := Option.bind_eq_some_iff.1 herror
        exact (ih (X := X') registered listed).1 e hrest
      · intro markup
        rw [Option.bind_eq_some_iff]
        constructor
        · rintro ⟨X', hdata, hrest⟩
          obtain ⟨n, hn⟩ := suppliedData_eq_some_iff.1 hdata
          obtain ⟨m, Z, levels, hresolves, hlevels⟩ := ((ih registered listed).2 markup).1 hrest
          exact ⟨m, Z, levels, .through inherited found registered hn listed hresolves, hlevels⟩
        · rintro ⟨m, Z, levels, hresolves, hlevels⟩
          cases hresolves with
          | own inherited' => cases inherited.symm.trans inherited'
          | through inherited' found' registered' supplied' listed' rest =>
            cases inherited.symm.trans inherited'
            cases found.symm.trans found'
            cases registered.symm.trans registered'
            cases listed.symm.trans listed'
            exact ⟨_, suppliedData_eq_some_iff.2 ⟨_, supplied'⟩,
              ((ih registered listed).2 markup).2 ⟨m, Z, levels, rest, hlevels⟩⟩

theorem renderPoint_of_point? (hr : r.Reachable) (hD : r.get? name = some D)
    (hp : D.table.point? p = some entry) (X : Record) :
    (∀ e, r.renderPoint name p X ≠ some (.error e)) ∧
      ∀ markup, r.renderPoint name p X = some (.ok markup) ↔ r.RendersEntry D entry X markup := by
  obtain ⟨n, O, own, _, htraces, _⟩ := hr.traced name D p entry hD (NameMap.mem_of_find? hp)
  rw [renderPoint, hD]
  exact renderEntry_of_traces hr htraces hD hp

/-- A point that the table has is rendered from the node it resolves to, if rendering it ends. -/
theorem renderPoint_resolves (hr : r.Reachable) (hD : r.get? name = some D)
    (hp : D.table.point? p = some entry) (ends : r.renderPoint name p X ≠ none) :
    ∃ m Z levels pieces, r.Resolves D entry X m Z ∧
      node r.settings (r.inclusionTo levels) true [Z] m = some pieces ∧
      r.renderPoint name p X = some (.ok (Piece.writeList r.settings.quote pieces)) := by
  obtain ⟨hclean, hok⟩ := renderPoint_of_point? hr hD hp X
  obtain ⟨result, hresult⟩ := Option.ne_none_iff_exists'.1 ends
  cases result with
  | error e => exact absurd hresult (hclean e)
  | ok markup =>
    obtain ⟨m, Z, levels, hresolves, hlevels⟩ := (hok markup).1 hresult
    obtain ⟨pieces, hpieces, rfl⟩ := Option.map_eq_some_iff.1 hlevels
    exact ⟨m, Z, levels, pieces, hresolves, hpieces, hresult⟩

/-! ## When rendering a point fails -/

/-- What rendering the point `p` of the template `name` gives. -/
structure Answers (r : Registry) (name p : String) (X : Record) : Prop where
  notFound : r.renderPoint name p X = some (.error (.notFound name)) ↔ r.get? name = none
  ambiguousPoint : r.renderPoint name p X = some (.error (.ambiguousPoint name p)) ↔
    ∃ D, r.get? name = some D ∧ D.table.isAmbiguous p
  unknownPoint : r.renderPoint name p X = some (.error (.unknownPoint name p)) ↔
    ∃ D, r.get? name = some D ∧ ¬ D.table.isAmbiguous p ∧ D.table.point? p = none
  /-- No other error comes up, not at an inner step either. -/
  error : ∀ e, r.renderPoint name p X = some (.error e) →
    e = .notFound name ∨ e = .ambiguousPoint name p ∨ e = .unknownPoint name p
  ok : ∀ markup, r.renderPoint name p X = some (.ok markup) ↔ r.RendersPoint name p X markup
  /-- There is no answer only for a point of the table that does not end at any depth. -/
  endless : r.renderPoint name p X = none ↔
    (∃ D entry, r.get? name = some D ∧ D.table.point? p = some entry) ∧
      ∀ markup, ¬ r.RendersPoint name p X markup
  /-- Where no template leads back to itself, every point of the table ends. -/
  acyclic : r.Acyclic → ∀ D entry, r.get? name = some D → D.table.point? p = some entry →
    ∃ markup, r.renderPoint name p X = some (.ok markup)
  /-- The way to the node always ends. -/
  ends : ∀ D entry, r.get? name = some D → D.table.point? p = some entry →
    ∃ n O own, r.Traces n D entry O own

/-- An answer that is an error because the table does not have the point. -/
theorem Answers.of_error {e : TemplateError} (hvalue : r.renderPoint name p X = some (.error e))
    (hmissing : ∀ D entry, r.get? name = some D → D.table.point? p ≠ some entry)
    (hnotFound : e = .notFound name ↔ r.get? name = none)
    (hambiguous : e = .ambiguousPoint name p ↔ ∃ D, r.get? name = some D ∧ D.table.isAmbiguous p)
    (hunknown : e = .unknownPoint name p ↔
      ∃ D, r.get? name = some D ∧ ¬ D.table.isAmbiguous p ∧ D.table.point? p = none)
    (herror : e = .notFound name ∨ e = .ambiguousPoint name p ∨ e = .unknownPoint name p) :
    r.Answers name p X where
  notFound := by rw [hvalue, Option.some_inj, Except.error.injEq, hnotFound]
  ambiguousPoint := by rw [hvalue, Option.some_inj, Except.error.injEq, hambiguous]
  unknownPoint := by rw [hvalue, Option.some_inj, Except.error.injEq, hunknown]
  error e' he' := by
    cases hvalue.symm.trans he'
    exact herror
  ok markup := by
    refine iff_of_false (by simp [hvalue]) ?_
    rintro ⟨D, entry, hD, hp, _⟩
    exact hmissing D entry hD hp
  endless := by
    refine iff_of_false (by simp [hvalue]) ?_
    rintro ⟨⟨D, entry, hD, hp⟩, _⟩
    exact hmissing D entry hD hp
  acyclic _ D entry hD hp := absurd hp (hmissing D entry hD)
  ends D entry hD hp := absurd hp (hmissing D entry hD)

/-- **Rendering a point fails exactly when it should**: the template is not registered, or its
table does not have the point. Otherwise there is markup if rendering ends at some depth, as it does
wherever no template leads back to itself. -/
theorem renderPoint_answers (hr : r.Reachable) (name p : String) (X : Record) :
    r.Answers name p X := by
  cases hD : r.get? name with
  | none =>
    have hvalue : r.renderPoint name p X = some (.error (.notFound name)) := by
      rw [renderPoint, hD]
    refine .of_error hvalue ?_ ?_ ?_ ?_ (.inl rfl) <;> simp [hD]
  | some D =>
    have hnamed := hr.name_of_get? hD
    have hfirst : r.renderPoint name p X = r.renderEntry D p X := by rw [renderPoint, hD]
    cases hp : D.table.point? p with
    | none =>
      have hmissing (D' : Descriptor) (entry : PointEntry) (hD' : r.get? name = some D') :
          D'.table.point? p ≠ some entry := by
        cases hD.symm.trans hD'
        simp [hp]
      cases hclear : D.table.isAmbiguous p with
      | true =>
        have hvalue : r.renderPoint name p X = some (.error (.ambiguousPoint name p)) := by
          rw [hfirst, renderEntry, if_pos hclear, hnamed]
        refine .of_error hvalue hmissing ?_ ?_ ?_ (.inr (.inl rfl)) <;> simp [hD, hclear, hp]
      | false =>
        have hvalue : r.renderPoint name p X = some (.error (.unknownPoint name p)) := by
          rw [hfirst, renderEntry]
          simp only [hclear, Bool.false_eq_true, if_false, hp, hnamed]
        refine .of_error hvalue hmissing ?_ ?_ ?_ (.inr (.inr rfl)) <;> simp [hD, hclear, hp]
    | some entry =>
      have hclear := hr.isAmbiguous_of_point? hD hp
      obtain ⟨hclean, hok⟩ := renderPoint_of_point? hr hD hp X
      have hrenders (markup : String) :
          r.RendersPoint name p X markup ↔ r.renderPoint name p X = some (.ok markup) := by
        simp [RendersPoint, hD, hp, hok]
      have hanswer (hsome : r.renderPoint name p X ≠ none) :
          ∃ markup, r.renderPoint name p X = some (.ok markup) := by
        obtain ⟨m, Z, levels, pieces, _, _, hvalue⟩ := renderPoint_resolves hr hD hp hsome
        exact ⟨_, hvalue⟩
      refine ⟨?_, ?_, ?_, fun e he => absurd he (hclean e), fun markup => (hrenders markup).symm,
        ?_, fun hacyclic _ _ _ _ => ?_, fun D' entry' hD' hp' => ?_⟩
      · simp [hclean, hD]
      · simp [hclean, hD, hclear]
      · simp [hclean, hD, hp]
      · constructor
        · intro hnone
          refine ⟨⟨D, entry, hD, hp⟩, fun markup hmarkup => ?_⟩
          rw [hrenders, hnone] at hmarkup
          cases hmarkup
        · rintro ⟨_, hnever⟩
          by_contra hsome
          obtain ⟨markup, hmarkup⟩ := hanswer hsome
          exact hnever markup ((hrenders markup).2 hmarkup)
      · obtain ⟨result, hresult⟩ := (ends_of_acyclic hacyclic).2.1 name p X
        exact hanswer (by simp [hresult])
      · obtain ⟨n, O, own, _, htraces, _⟩ :=
          hr.traced name D' p entry' hD' (NameMap.mem_of_find? hp')
        exact ⟨n, O, own, htraces⟩

/-! ## Two templates that include each other -/

def frontRoot : Node := .element "div" .anonymous .empty
  [.element "p" ⟨some "title", .single, false⟩ .empty [],
    .reference "Back" .anonymous .empty []]

def backRoot : Node := .element "section" .anonymous .empty
  [.reference "Front" .anonymous .empty
    [("title", ⟨some "heading", .empty, [.text "hi"]⟩)]]

def facing : Registry := (empty.register "Front" frontRoot).register "Back" backRoot

/-- The title of the front is rendered through the back, though each includes the other. -/
theorem renderPoint_answers_facing :
    facing.renderPoint "Back" "heading" [] = some (.ok "<p>hi</p>") ∧
      facing.Answers "Back" "heading" [] := by
  have hanswers : facing.Answers "Back" "heading" [] :=
    renderPoint_answers (.register (.register (.withSettings _) _ _) _ _) _ _ _
  refine ⟨(hanswers.ok _).2 ?_, hanswers⟩
  exact ⟨_, _, rfl, rfl, _, _, 0, .through rfl rfl rfl
    (rfl : facing.suppliedData (facing.inclusionTo 0) _ _ _ _ _ = _) rfl (.own rfl rfl),
    by decide +kernel⟩

end Stencil.Registry
