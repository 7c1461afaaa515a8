import Stencil.Proofs.NameMap
import Stencil.Proofs.Point.Table
import Stencil.Registry.Basic

/-! # The registries there are

A registry is made by registrations only, whichever way they come about. So whatever holds of a
registry without templates and survives one registration holds of every registry, and every template
in it was compiled from its own tree.
-/
namespace Stencil.Registry
variable {r : Registry} {name other : String} {D : Descriptor}

inductive Reachable : Registry → Prop
  | withSettings (settings : Settings) : Reachable (.withSettings settings)
  | register {r : Registry} (h : Reachable r) (name : String) (root : Node) :
      Reachable (r.register name root)
  | ensure {r : Registry} (h : Reachable r) (request : Request) : Reachable (r.ensure request).1
  | registerSource {r : Registry} (h : Reachable r) (source : String) :
      Reachable (r.registerSource source).1

/-! ## One registration after another -/

section
variable {motive : Registry → Prop}

mutual

theorem ensure_induct (step : ∀ r, motive r → ∀ name root, motive (r.register name root)) :
    ∀ (request : Request) (r : Registry), motive r → motive (r.ensure request).1
  | .make name root dependencies, r, h => by
    rw [ensure]
    split
    · exact h
    · exact step _ (ensureAll_induct step dependencies r h) name root

theorem ensureAll_induct (step : ∀ r, motive r → ∀ name root, motive (r.register name root)) :
    ∀ (requests : List Request) (r : Registry), motive r → motive (r.ensureAll requests).1
  | [], r, h => h
  | request :: rest, r, h => by
    rw [ensureAll]
    exact ensureAll_induct step rest _ (ensure_induct step request r h)

end

theorem registerAll_induct (step : ∀ r, motive r → ∀ name root, motive (r.register name root))
    (declared : NameMap Node) (names : List String) (r : Registry) (h : motive r) :
    motive (r.registerAll declared names) := by
  unfold registerAll
  induction names generalizing r with
  | nil => exact h
  | cons name names ih =>
    rw [List.foldl_cons]
    refine ih _ ?_
    split
    · exact step r h name _
    · exact h

theorem registerAll_snoc (r : Registry) {declared : NameMap Node} {root : Node}
    (done : List String) (hd : declared.find? name = some root) :
    r.registerAll declared (done ++ [name]) = (r.registerAll declared done).register name root := by
  rw [registerAll, List.foldl_append, List.foldl_cons, List.foldl_nil, hd]
  rfl

/-- The registry after a source. -/
def afterSource (r : Registry) (source : String) : Registry := (r.registerSource source).1

section Sources
variable {source : String} {declarations : List Source.Declaration} {declared : NameMap Node}
  {names : List String} {error : TemplateError}

theorem registerSource_of_error (hparse : Source.parse source = .ok declarations)
    (harrange : arrange declarations = .error error) (r : Registry) :
    r.registerSource source = (r, .error error) := by
  rw [registerSource, hparse]
  simp only [harrange]

theorem registerSource_of_ok (hparse : Source.parse source = .ok declarations)
    (harrange : arrange declarations = .ok (declared, names)) (r : Registry) :
    r.registerSource source = (r.registerAll declared names, .ok names) := by
  rw [registerSource, hparse]
  simp only [harrange]

theorem afterSource_of_error (h : (r.registerSource source).2 = .error error) :
    r.afterSource source = r := by
  unfold afterSource
  cases hparse : Source.parse source with
  | error e => rw [registerSource, hparse]
  | ok declarations =>
    cases harrange : arrange declarations with
    | error e => rw [registerSource_of_error hparse harrange]
    | ok arranged =>
      rw [registerSource_of_ok hparse harrange] at h
      cases h

theorem registerSource_eq_ok {r' : Registry} :
    r.registerSource source = (r', .ok names) ↔
      ∃ declarations declared, Source.parse source = .ok declarations ∧
        arrange declarations = .ok (declared, names) ∧ r' = r.registerAll declared names := by
  constructor
  · intro h
    cases hparse : Source.parse source with
    | error e =>
      rw [registerSource, hparse] at h
      cases h
    | ok declarations =>
      cases harrange : arrange declarations with
      | error e =>
        rw [registerSource_of_error hparse harrange] at h
        cases h
      | ok arranged =>
        rw [registerSource_of_ok hparse harrange] at h
        cases h
        exact ⟨declarations, _, rfl, harrange, rfl⟩
  · rintro ⟨declarations, declared, hparse, harrange, rfl⟩
    exact registerSource_of_ok hparse harrange r

theorem afterSource_cases (r : Registry) (source : String) :
    r.afterSource source = r ∨ ∃ declarations declared names,
      Source.parse source = .ok declarations ∧ arrange declarations = .ok (declared, names) ∧
        r.afterSource source = r.registerAll declared names := by
  cases hdone : (r.registerSource source).2 with
  | error e => exact .inl (afterSource_of_error hdone)
  | ok names =>
    obtain ⟨declarations, declared, hparse, harrange, h⟩ :=
      registerSource_eq_ok.1 (Prod.ext rfl hdone)
    exact .inr ⟨declarations, declared, names, hparse, harrange, h⟩

end Sources

theorem Reachable.induct (withSettings : ∀ settings, motive (.withSettings settings))
    (step : ∀ r, motive r → ∀ name root, motive (r.register name root)) (h : r.Reachable) :
    motive r := by
  induction h with
  | withSettings settings => exact withSettings settings
  | register _ name root ih => exact step _ ih name root
  | ensure _ request ih => exact ensure_induct step request _ ih
  | @registerSource r _ source ih =>
    change motive (r.afterSource source)
    rcases afterSource_cases r source with h | ⟨_, declared, names, _, _, h⟩
    · rwa [h]
    · rw [h]
      exact registerAll_induct step declared names r ih

theorem Reachable.induct_of_reachable (withSettings : ∀ settings, motive (.withSettings settings))
    (step : ∀ r : Registry, r.Reachable → motive r → ∀ name root, motive (r.register name root))
    (h : r.Reachable) : motive r := by
  have hboth := h.induct (motive := fun r => r.Reachable ∧ motive r)
    (fun settings => ⟨.withSettings settings, withSettings settings⟩)
    fun r ih name root => ⟨ih.1.register name root, step r ih.1 ih.2 name root⟩
  exact hboth.2

end

theorem get?_register (r : Registry) (name other : String) (root : Node) :
    (r.register name root).get? other =
      if other = name ∧ r.get? name = none then some (.compile r.get? name root)
      else r.get? other := by
  unfold register
  split
  · next h =>
    have hsome : (r.get? name).isSome := h
    rw [if_neg]
    rintro ⟨_, hnone⟩
    rw [hnone] at hsome
    cases hsome
  · next h =>
    have hnone : r.get? name = none := Option.not_isSome_iff_eq_none.1 h
    refine (NameMap.find?_insert r.templates name other _).trans ?_
    by_cases ho : other = name
    · rw [if_pos ho, if_pos ⟨ho, hnone⟩]
    · rw [if_neg ho, if_neg fun hboth => ho hboth.1]
      rfl

/-- Every stored template was compiled from its tree, under its name. -/
def Compiled (r : Registry) : Prop :=
  ∀ name D, r.get? name = some D → ∃ lookup, D = .compile lookup name D.root

theorem Compiled.register (h : r.Compiled) (name : String) (root : Node) :
    (r.register name root).Compiled := by
  intro other D hD
  rw [get?_register] at hD
  split at hD
  · next ho =>
    cases hD
    exact ⟨r.get?, by rw [ho.1]; rfl⟩
  · exact h other D hD

theorem Reachable.compiled (h : r.Reachable) : r.Compiled :=
  h.induct (fun _ _ _ hD => nomatch hD) fun _ ih => ih.register

theorem get?_register_empty (name : String) (root : Node) :
    (empty.register name root).get? name = some (.compile empty.get? name root) := by
  rw [get?_register, if_pos ⟨rfl, rfl⟩]

theorem get?_register_of_some {other : String} (h : r.get? other = some D) (name : String)
    (root : Node) : (r.register name root).get? other = some D := by
  rw [get?_register, if_neg]
  · exact h
  · rintro ⟨rfl, hnone⟩
    rw [h] at hnone
    cases hnone

theorem contains_eq (r : Registry) (name : String) : r.contains name = (r.get? name).isSome := rfl

theorem contains_of_get? (h : r.get? name = some D) : r.contains name := by
  rw [contains_eq, h]
  rfl

theorem get?_of_contains (h : r.contains name = false) : r.get? name = none :=
  Option.isNone_iff_eq_none.1 (Option.isSome_eq_false_iff.1 h)

theorem contains_register (r : Registry) (name other : String) (root : Node) :
    (r.register name root).contains other = (decide (other = name) || r.contains other) := by
  rw [contains_eq, contains_eq, get?_register]
  by_cases ho : other = name
  · subst ho
    cases h : r.get? other <;> simp
  · simp [ho]

theorem register_of_contains (h : r.contains name) (root : Node) : r.register name root = r :=
  if_pos h

theorem length_register (h : r.contains name = false) (root : Node) :
    (r.register name root).templates.length = r.templates.length + 1 := by
  rw [register, h]
  exact NameMap.length_insert (get?_of_contains h) _

theorem length_le_register (r : Registry) (name : String) (root : Node) :
    r.templates.length ≤ (r.register name root).templates.length := by
  cases h : r.contains name with
  | false =>
    rw [length_register h]
    exact Nat.le_succ _
  | true =>
    apply Nat.le_of_eq
    rw [register_of_contains h]

theorem Reachable.compiled_earlier (h : r.Reachable) : ∀ name D, r.get? name = some D →
    ∃ earlier : Registry, earlier.Reachable ∧ D = .compile earlier.get? name D.root ∧
      ∀ template sub, earlier.get? template = some sub → r.get? template = some sub := by
  refine h.induct_of_reachable (motive := fun r => ∀ name D, r.get? name = some D →
    ∃ earlier : Registry, earlier.Reachable ∧ D = .compile earlier.get? name D.root ∧
      ∀ template sub, earlier.get? template = some sub → r.get? template = some sub)
    (fun _ _ _ hD => nomatch hD) ?_
  intro r hr ih name root other D hD
  have hstays {template : String} {sub : Descriptor} (hsub : r.get? template = some sub) :
      (r.register name root).get? template = some sub := get?_register_of_some hsub name root
  rw [get?_register] at hD
  split at hD
  · next ho =>
    cases hD
    exact ⟨r, hr, by rw [ho.1]; rfl, fun _ _ => hstays⟩
  · obtain ⟨earlier, hearlier, hcompiled, hagainst⟩ := ih other D hD
    exact ⟨earlier, hearlier, hcompiled,
      fun template sub hsub => hstays (hagainst template sub hsub)⟩

theorem Reachable.compiled_against (h : r.Reachable) (name : String) (D : Descriptor)
    (hD : r.get? name = some D) : ∃ lookup, D = .compile lookup name D.root ∧
      ∀ template sub, lookup template = some sub → r.get? template = some sub := by
  obtain ⟨earlier, _, hcompiled, hagainst⟩ := h.compiled_earlier name D hD
  exact ⟨earlier.get?, hcompiled, hagainst⟩

theorem Reachable.name_of_get? (h : r.Reachable) (hD : r.get? name = some D) : D.name = name := by
  obtain ⟨lookup, hcompiled⟩ := h.compiled name D hD
  rw [hcompiled]
  rfl

theorem sorted_register (h : r.templates.Sorted) (name : String) (root : Node) :
    (r.register name root).templates.Sorted := by
  unfold register
  split
  · exact h
  · exact NameMap.sorted_insert h name _

theorem Reachable.sorted (h : r.Reachable) : r.templates.Sorted :=
  h.induct (motive := fun r => r.templates.Sorted) (fun _ => .nil) fun _ ih => sorted_register ih

theorem Reachable.sorted_points (h : r.Reachable) (hD : r.get? name = some D) :
    D.table.points.Sorted := by
  obtain ⟨lookup, hD'⟩ := h.compiled name D hD
  rw [hD']
  exact PointTable.sorted_ofSightings _

end Stencil.Registry
