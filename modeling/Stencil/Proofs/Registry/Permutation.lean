import Stencil.Proofs.Registry.Compilation

/-! # Declarations in any order

The order of the declarations in a source decides in which order they are compiled, but not whether
there is such an order, nor what comes of it. Ranks do not depend on it. And where two registries
hold the same templates of lower rank, a template is compiled to the same descriptor.
-/
namespace Stencil.Registry
open Declarations Source
variable {r r₁ r₂ : Registry} {declared : NameMap Node} {done done' order : List String}
  {declarations declarations' : List Declaration} {name : String} {source source' : String}

/-! ## What comes of an order -/

theorem Extends.get?_of_undeclared (h : r.Extends declared done r₁)
    (hd : declared.contains name = false) : r₁.get? name = r.get? name := by
  cases hname : r.get? name with
  | some D => exact h.keeps name D hname
  | none =>
    rw [← hname]
    apply h.others
    intro hmem
    obtain ⟨root, hroot, _⟩ := h.compiled name hmem hname
    rw [NameMap.contains_of_find? hroot] at hd
    cases hd

/-- Registries that come from the same declarations agree, by induction on the rank. -/
theorem Extends.get?_unique {rank : String → Nat} (hrank : Ranked declared rank)
    (h : r.Extends declared done r₁) (h' : r.Extends declared done' r₂)
    (hsame : ∀ name, name ∈ done ↔ name ∈ done') (name : String) :
    r₁.get? name = r₂.get? name := by
  induction hn : rank name using Nat.strongRecOn generalizing name with
  | ind n ih =>
    cases hname : r.get? name with
    | some D => rw [h.keeps name D hname, h'.keeps name D hname]
    | none =>
      by_cases hmem : name ∈ done
      · obtain ⟨root, hroot, hget⟩ := h.compiled name hmem hname
        obtain ⟨root', hroot', hget'⟩ := h'.compiled name ((hsame name).1 hmem) hname
        obtain rfl := Option.some.inj (hroot.symm.trans hroot')
        rw [hget, hget']
        refine congrArg some (Descriptor.compile_congr (fun other hother => ?_) name)
        cases hother' : declared.contains other with
        | true => exact ih _ (hn ▸ hrank name root hroot other hother hother') other rfl
        | false => rw [h.get?_of_undeclared hother', h'.get?_of_undeclared hother']
      · rw [h.others name hmem, h'.others name fun hmem' => hmem ((hsame name).2 hmem')]

/-! ## Two sources -/

theorem ext_of_sorted (h₁ : r₁.templates.Sorted) (h₂ : r₂.templates.Sorted)
    (hsettings : r₁.settings = r₂.settings) (hget : ∀ name, r₁.get? name = r₂.get? name) :
    r₁ = r₂ := by
  cases r₁
  cases r₂
  obtain rfl := hsettings
  exact congrArg _ (h₁.eq_of_find? h₂ hget)

/-- The declarations of the same templates, in some order. -/
def SameTrees (declarations declarations' : List Declaration) : Prop :=
  (declarations.map fun d => (d.name, d.root)).Perm (declarations'.map fun d => (d.name, d.root))

theorem SameTrees.names (h : SameTrees declarations declarations') :
    (declarations.map (·.name)).Perm (declarations'.map (·.name)) := by
  have hnames := h.map (·.1)
  rwa [List.map_map, List.map_map] at hnames

theorem SameTrees.trees (h : SameTrees declarations declarations')
    (hn : (declarations.map (·.name)).Nodup) : trees declarations = trees declarations' :=
  NameMap.ofList_eq_of_perm h (by rwa [List.map_map])

theorem exists_arrange_iff : (∃ arranged, arrange declarations = .ok arranged) ↔
    (declarations.map (·.name)).Nodup ∧ ∃ rank, Ranked (trees declarations) rank := by
  constructor
  · rintro ⟨⟨declared, order⟩, harrange⟩
    obtain ⟨hn, rfl, hsort⟩ := arrange_eq_ok.1 harrange
    exact ⟨hn, (exists_sort_iff fun name => (contains_trees hn).symm).1 ⟨order, hsort⟩⟩
  · rintro ⟨hn, hrank⟩
    obtain ⟨order, hsort⟩ := (exists_sort_iff fun name => (contains_trees hn).symm).2 hrank
    exact ⟨(_, order), arrange_eq_ok.2 ⟨hn, rfl, hsort⟩⟩

theorem exists_registerSource_iff (hparse : parse source = .ok declarations) :
    (∃ order, (r.registerSource source).2 = .ok order) ↔
      ∃ arranged, arrange declarations = .ok arranged := by
  cases harrange : arrange declarations with
  | error e => simp [registerSource_of_error hparse harrange]
  | ok arranged => simp [registerSource_of_ok hparse harrange]

theorem SameTrees.exists_arrange (h : SameTrees declarations declarations')
    (harrange : ∃ arranged, arrange declarations = .ok arranged) :
    ∃ arranged, arrange declarations' = .ok arranged := by
  obtain ⟨hn, hrank⟩ := exists_arrange_iff.1 harrange
  refine exists_arrange_iff.2 ⟨h.names.nodup_iff.1 hn, ?_⟩
  rwa [← h.trees hn]

/-- **Declarations may come in any order.** Sources that declare the same templates are accepted
alike, and they leave the same registry. -/
theorem registerSource_perm (hparse : parse source = .ok declarations)
    (hparse' : parse source' = .ok declarations') (h : SameTrees declarations declarations')
    (r : Registry) :
    ((∃ order, (r.registerSource source).2 = .ok order) ↔
      ∃ order, (r.registerSource source').2 = .ok order) ∧
    ∀ r₁ order r₂ order', r.registerSource source = (r₁, .ok order) →
      r.registerSource source' = (r₂, .ok order') →
        r₁.settings = r₂.settings ∧ (∀ name, r₁.get? name = r₂.get? name) ∧
          (r.Reachable → r₁ = r₂) := by
  refine ⟨?_, fun r₁ order r₂ order' hr₁ hr₂ => ?_⟩
  · rw [exists_registerSource_iff hparse, exists_registerSource_iff hparse']
    exact ⟨h.exists_arrange, SameTrees.exists_arrange (List.Perm.symm h)⟩
  · obtain ⟨hn, hperm, hsettled, hextends⟩ := extends_registerSource hparse hr₁
    obtain ⟨-, hperm', -, hextends'⟩ := extends_registerSource hparse' hr₂
    rw [← h.trees hn] at hextends'
    have hrank : Ranked (trees declarations) order.idxOf :=
      hsettled.ranked (hperm.nodup_iff.2 hn) fun name hname =>
        hperm.mem_iff.2 ((contains_trees hn).1 hname)
    have horders : order.Perm order' := hperm.trans (h.names.trans hperm'.symm)
    have hsettings : r₁.settings = r₂.settings := hextends.settings.trans hextends'.settings.symm
    have hget := hextends.get?_unique hrank hextends' fun name => horders.mem_iff
    refine ⟨hsettings, hget, fun hr => ?_⟩
    have hsorted := (hr.registerSource source).sorted
    have hsorted' := (hr.registerSource source').sorted
    rw [hr₁] at hsorted
    rw [hr₂] at hsorted'
    exact ext_of_sorted hsorted hsorted' hsettings hget

/-- Two templates that share a third one. -/
def sharedSource : String :=
  "template A \x7b use C \x7d template B \x7b use C \x7d template C \x7b li #label \x7d"

/-- The same templates from the last to the first. -/
def reversedSource : String :=
  "template C \x7b li #label \x7d template B \x7b use C \x7d template A \x7b use C \x7d"

def sharedDeclarations : List Declaration :=
  [⟨"A", ⟨9, 10⟩, .reference "C" .anonymous .empty []⟩,
    ⟨"B", ⟨30, 31⟩, .reference "C" .anonymous .empty []⟩,
    ⟨"C", ⟨51, 52⟩, .element "li" ⟨some "label", .single, false⟩ .empty []⟩]

def reversedDeclarations : List Declaration :=
  [⟨"C", ⟨9, 10⟩, .element "li" ⟨some "label", .single, false⟩ .empty []⟩,
    ⟨"B", ⟨34, 35⟩, .reference "C" .anonymous .empty []⟩,
    ⟨"A", ⟨55, 56⟩, .reference "C" .anonymous .empty []⟩]

/-- The templates are compiled in two orders, and the registry is the same. -/
theorem registerSource_perm_reversed :
    ∃ r declarations declarations', parse sharedSource = .ok declarations ∧
      parse reversedSource = .ok declarations' ∧ SameTrees declarations declarations' ∧
      empty.registerSource sharedSource = (r, .ok ["C", "A", "B"]) ∧
      empty.registerSource reversedSource = (r, .ok ["C", "B", "A"]) := by
  have hparse : parse sharedSource = .ok sharedDeclarations := by with_unfolding_all rfl
  have hparse' : parse reversedSource = .ok reversedDeclarations := by with_unfolding_all rfl
  have hsort : Declarations.sort (trees sharedDeclarations) (sharedDeclarations.map (·.name)) =
      .ok ["C", "A", "B"] := by cbv
  have hsort' : Declarations.sort (trees reversedDeclarations)
      (reversedDeclarations.map (·.name)) = .ok ["C", "B", "A"] := by cbv
  have h₁ := registerSource_of_sort hparse (by decide) hsort empty
  have h₂ := registerSource_of_sort hparse' (by decide) hsort' empty
  have hsame : SameTrees sharedDeclarations reversedDeclarations := (List.reverse_perm _).symm
  obtain ⟨-, -, heq⟩ := (registerSource_perm hparse hparse' hsame empty).2 _ _ _ _ h₁ h₂
  exact ⟨_, sharedDeclarations, reversedDeclarations, hparse, hparse', hsame, h₁,
    heq (.withSettings .default) ▸ h₂⟩

end Stencil.Registry
