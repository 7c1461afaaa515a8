import Mathlib.Data.List.Chain
import Mathlib.Logic.Relation
import Stencil.Proofs.Registry.Permutation
import Stencil.Proofs.Registry.Sources

/-! # Why a source is rejected

A source is rejected if it is malformed, if it declares a name twice, or if its declarations
reference each other in a cycle, and for no other reason. The walk over the declarations keeps the
templates that lead to the one it visits. Each of them references the next, so when it comes to one
of them again, the templates from there on are a cycle. And if there is a cycle there are no ranks,
and the walk cannot find an order.
-/
namespace Stencil

namespace Declarations
variable {declared : NameMap Node} {visiting done order chain : List String} {name other : String}

/-- A declared template references the name, whether that is declared or not. -/
def References (declared : NameMap Node) (name other : String) : Prop :=
  ∃ root, declared.find? name = some root ∧ other ∈ root.referencedTemplates

theorem References.contains (h : References declared name other) : declared.contains name := by
  obtain ⟨root, hroot, _⟩ := h
  exact NameMap.contains_of_find? hroot

/-- The reference leads to a declared template. -/
def Refers (declared : NameMap Node) (name other : String) : Prop :=
  References declared name other ∧ declared.contains other

/-- Names from one back to itself, each related to the next, with no name twice but the first. -/
def IsCycle (r : String → String → Prop) (chain : List String) : Prop :=
  ∃ first rest, chain = first :: (rest ++ [first]) ∧ (first :: rest).Nodup ∧ chain.IsChain r

theorem IsCycle.transGen {r : String → String → Prop} (h : IsCycle r chain) :
    ∃ name, Relation.TransGen r name name := by
  obtain ⟨first, rest, rfl, _, hchain⟩ := h
  refine ⟨first, ?_⟩
  cases rest with
  | nil => exact .single (List.isChain_cons_cons.1 hchain).1
  | cons next rest =>
    obtain ⟨hfirst, hrest⟩ := List.isChain_cons_cons.1 hchain
    exact .head' hfirst
      (List.relationReflTransGen_of_exists_isChain_cons (rest ++ [first]) hrest (by simp))

theorem IsCycle.forall_mem {r : String → String → Prop} {p : String → Prop} (h : IsCycle r chain)
    (hp : ∀ name other, r name other → p name) : ∀ name ∈ chain, p name := by
  obtain ⟨first, rest, rfl, _, hchain⟩ := h
  have hfirst : p first := by
    cases rest with
    | nil => exact hp _ _ (List.isChain_cons_cons.1 hchain).1
    | cons next rest => exact hp _ _ (List.isChain_cons_cons.1 hchain).1
  intro name hname
  rw [← List.cons_append] at hchain hname
  rcases List.mem_append.1 hname with hname | hname
  · exact hchain.backwards_concat_induction p _ (fun name other h _ => hp name other h) hfirst
      name hname
  · exact List.mem_singleton.1 hname ▸ hfirst

/-! ## The templates on the way -/

/-- The templates on the way to `name` lead there, each by a reference to the next. -/
structure Leads (declared : NameMap Node) (visiting : List String) (name : String) : Prop where
  nodup : visiting.Nodup
  linked : (visiting ++ [name]).IsChain (References declared)

theorem leads_nil (declared : NameMap Node) (name : String) : Leads declared [] name :=
  ⟨.nil, .singleton name⟩

theorem Leads.step (h : Leads declared visiting name) (hv : name ∉ visiting)
    (href : References declared name other) : Leads declared (visiting ++ [name]) other where
  nodup := List.nodup_append.2 ⟨h.nodup, List.nodup_singleton name, fun upper hupper _ hname heq =>
    hv (List.mem_singleton.1 hname ▸ heq ▸ hupper)⟩
  linked := by
    refine List.isChain_append.2 ⟨h.linked, .singleton other, fun last hlast _ hother => ?_⟩
    rw [List.getLast?_concat] at hlast
    cases hlast
    cases hother
    exact href

/-- A template on the way is declared, because it references the next one. -/
theorem Leads.contains (h : Leads declared visiting name) (hv : other ∈ visiting) :
    declared.contains other := by
  obtain ⟨front, back, rfl⟩ := List.append_of_mem hv
  have hlinked := h.linked
  rw [List.append_assoc, List.cons_append] at hlinked
  have hback := (List.isChain_append.1 hlinked).2.1
  cases back with
  | nil => exact (List.isChain_cons_cons.1 hback).1.contains
  | cons next back => exact (List.isChain_cons_cons.1 hback).1.contains

theorem Leads.isCycle (h : Leads declared visiting name) (hv : name ∈ visiting) :
    IsCycle (Refers declared) (visiting.dropWhile (· ≠ name) ++ [name]) := by
  obtain ⟨front, back, hsplit, hfront⟩ := List.eq_append_cons_of_mem hv
  have hdrop : visiting.dropWhile (· ≠ name) = name :: back := by
    have hpass : ∀ upper ∈ front, decide (upper ≠ name) := fun upper hupper =>
      decide_eq_true fun heq => hfront (heq ▸ hupper)
    rw [hsplit, List.dropWhile_append_of_pos hpass, List.dropWhile_cons_of_neg (by simp)]
  have hnodup := h.nodup
  have hlinked := h.linked
  rw [hsplit] at hnodup hlinked
  rw [List.append_assoc] at hlinked
  refine ⟨name, back, by rw [hdrop, List.cons_append], (List.nodup_append.1 hnodup).2.1, ?_⟩
  rw [hdrop]
  refine (List.isChain_append.1 hlinked).2.1.imp_of_mem_imp fun upper lower _ hlower href =>
    ⟨href, h.contains ?_⟩
  rw [hsplit]
  rcases List.mem_append.1 hlower with hlower | hlower
  · exact List.mem_append_right _ hlower
  · rw [List.mem_singleton.1 hlower]
    exact List.mem_append_right _ List.mem_cons_self

/-- Whatever the walk reports is a cycle. -/
theorem isCycle_of_walk :
    (∀ visiting done name, Leads declared visiting name →
      ∀ chain, visit declared visiting done name = .error chain →
        IsCycle (Refers declared) chain) ∧
    ∀ visiting done names, (∀ name ∈ names, Leads declared visiting name) →
      ∀ chain, visitAll declared visiting done names = .error chain →
        IsCycle (Refers declared) chain := by
  refine visit.mutual_induct declared _ _ ?done ?cycle ?undeclared ?declared ?nil ?cons
  case done =>
    intro visiting done name hmem _ chain hvisit
    rw [visit_of_mem hmem] at hvisit
    cases hvisit
  case cycle =>
    intro visiting done name hmem hv h chain hvisit
    rw [visit_of_visiting hmem hv] at hvisit
    cases hvisit
    exact h.isCycle hv
  case undeclared =>
    intro visiting done name hmem hv hd _ chain hvisit
    rw [visit_of_undeclared hmem hv hd] at hvisit
    cases hvisit
  case declared =>
    intro visiting done name hmem hv root hd _ ih h chain hvisit
    rw [visit_of_declared hmem hv hd] at hvisit
    refine ih (fun other hother => h.step hv ⟨root, hd, hother⟩) chain ?_
    cases hall : visitAll declared (visiting ++ [name]) done root.referencedTemplates with
    | error chain' =>
      rw [hall] at hvisit
      cases hvisit
      rfl
    | ok middle =>
      rw [hall] at hvisit
      cases hvisit
  case nil =>
    intro visiting done _ chain hvisit
    rw [visitAll] at hvisit
    cases hvisit
  case cons =>
    intro visiting done name rest ih ihrest h chain hvisit
    obtain ⟨hfirst, hrest⟩ := List.forall_mem_cons.1 h
    rw [visitAll] at hvisit
    cases hname : visit declared visiting done name with
    | error chain' =>
      rw [hname] at hvisit
      cases hvisit
      exact ih hfirst chain hname
    | ok middle =>
      rw [hname] at hvisit
      exact ihrest middle hrest chain hvisit

theorem isCycle_of_sort (h : sort declared order = .error chain) :
    IsCycle (Refers declared) chain :=
  isCycle_of_walk.2 [] [] order (fun name _ => leads_nil declared name) chain h

theorem Ranked.lt_of_transGen {rank : String → Nat} (h : Ranked declared rank)
    (hrefers : Relation.TransGen (Refers declared) name other) : rank other < rank name := by
  have hstep {name other : String} (hrefers : Refers declared name other) :
      rank other < rank name := by
    obtain ⟨⟨root, hroot, hother⟩, hcontains⟩ := hrefers
    exact h name root hroot other hother hcontains
  induction hrefers with
  | single hlast => exact hstep hlast
  | tail _ hlast ih => exact Nat.lt_trans (hstep hlast) ih

/-- **A cycle is reported exactly if there is one**, wherever it starts. -/
theorem exists_sort_error_iff (hall : ∀ name, name ∈ order ↔ declared.contains name) :
    (∃ chain, sort declared order = .error chain) ↔
      ∃ name, Relation.TransGen (Refers declared) name name := by
  constructor
  · rintro ⟨chain, hsort⟩
    exact (isCycle_of_sort hsort).transGen
  · rintro ⟨name, hcycle⟩
    cases hsort : sort declared order with
    | error chain => exact ⟨chain, rfl⟩
    | ok sorted =>
      obtain ⟨rank, hrank⟩ := (exists_sort_iff hall).1 ⟨sorted, hsort⟩
      exact absurd (hrank.lt_of_transGen hcycle) (Nat.lt_irrefl _)

end Declarations

namespace Registry
open Declarations Source
variable {r : Registry} {declarations : List Declaration} {source name other : String}
  {chain seen names : List String} {e : TemplateError}

/-! ## The first name that repeats -/

theorem firstRepeated_eq_some : firstRepeated seen names = some name ↔
    ∃ front back, names = front ++ name :: back ∧ (name ∈ front ∨ name ∈ seen) ∧
      front.Nodup ∧ ∀ other ∈ front, other ∉ seen := by
  induction names generalizing seen with
  | nil => simp [firstRepeated]
  | cons first rest ih =>
    rw [firstRepeated]
    constructor
    · intro h
      split at h
      · next hseen =>
        cases h
        exact ⟨[], rest, rfl, .inr hseen, .nil, by simp⟩
      · next hseen =>
        obtain ⟨front, back, rfl, hname, hnodup, hnew⟩ := ih.1 h
        refine ⟨first :: front, back, rfl, ?_, ?_, ?_⟩
        · rcases hname with hname | hname
          · exact .inl (List.mem_cons_of_mem _ hname)
          · rcases List.mem_cons.1 hname with rfl | hname
            · exact .inl List.mem_cons_self
            · exact .inr hname
        · exact List.nodup_cons.2
            ⟨fun hfirst => hnew first hfirst List.mem_cons_self, hnodup⟩
        · exact List.forall_mem_cons.2
            ⟨hseen, fun other hother h => hnew other hother (List.mem_cons_of_mem _ h)⟩
    · rintro ⟨front, back, hsplit, hname, hnodup, hnew⟩
      cases front with
      | nil =>
        cases hsplit
        exact if_pos (hname.resolve_left List.not_mem_nil)
      | cons first' front =>
        cases hsplit
        obtain ⟨hfirst, hfront⟩ := List.forall_mem_cons.1 hnew
        obtain ⟨hlater, hnodup⟩ := List.nodup_cons.1 hnodup
        rw [if_neg hfirst]
        refine ih.2 ⟨front, back, rfl, ?_, hnodup, fun other hother h => ?_⟩
        · rcases hname with hname | hname
          · rcases List.mem_cons.1 hname with rfl | hname
            · exact .inr List.mem_cons_self
            · exact .inl hname
          · exact .inr (List.mem_cons_of_mem _ hname)
        · rcases List.mem_cons.1 h with rfl | h
          · exact hlater hother
          · exact hfront other hother h

/-! ## What a source declares -/

/-- A declaration of this name comes behind another one, and those in front of it do not repeat any
name. -/
def Repeats (declarations : List Declaration) (name : String) : Prop :=
  ∃ front d back, declarations = front ++ d :: back ∧ d.name = name ∧
    name ∈ front.map (·.name) ∧ (front.map (·.name)).Nodup

/-- A declaration of the first name mentions the other one somewhere in its tree, and that is
declared too. -/
def DeclaredUse (declarations : List Declaration) (name other : String) : Prop :=
  (∃ d ∈ declarations, d.name = name ∧ d.root.Mentions other) ∧
    other ∈ declarations.map (·.name)

theorem firstRepeated_eq_some_iff :
    firstRepeated [] (declarations.map (·.name)) = some name ↔ Repeats declarations name := by
  rw [firstRepeated_eq_some]
  constructor
  · rintro ⟨front, back, hsplit, hname, hnodup, -⟩
    obtain ⟨front', rest, rfl, rfl, hrest⟩ := List.map_eq_append_iff.1 hsplit
    obtain ⟨d, back', rfl, rfl, rfl⟩ := List.map_eq_cons_iff.1 hrest
    exact ⟨front', d, back', rfl, rfl, hname.resolve_right List.not_mem_nil, hnodup⟩
  · rintro ⟨front, d, back, rfl, rfl, hname, hnodup⟩
    exact ⟨front.map (·.name), back.map (·.name), by simp, .inl hname, hnodup,
      fun _ _ => List.not_mem_nil⟩

theorem refers_trees (hn : (declarations.map (·.name)).Nodup) :
    Refers (trees declarations) = DeclaredUse declarations := by
  funext name other
  refine propext (and_congr ?_ (contains_trees hn))
  constructor
  · rintro ⟨root, hroot, hother⟩
    obtain ⟨d, hd, hname, rfl⟩ := (find?_trees hn).1 hroot
    exact ⟨d, hd, hname, Node.mem_referencedTemplates_iff.1 hother⟩
  · rintro ⟨d, hd, hname, hmentions⟩
    exact ⟨d.root, (find?_trees hn).2 ⟨d, hd, hname, rfl⟩,
      Node.mem_referencedTemplates_iff.2 hmentions⟩

theorem Repeats.unique (h : Repeats declarations name) (h' : Repeats declarations other) :
    name = other :=
  Option.some.inj ((firstRepeated_eq_some_iff.2 h).symm.trans (firstRepeated_eq_some_iff.2 h'))

theorem Repeats.not_nodup (h : Repeats declarations name) :
    ¬ (declarations.map (·.name)).Nodup := by
  intro hn
  have hnone : firstRepeated [] (declarations.map (·.name)) = none :=
    firstRepeated_eq_none.2 ⟨hn, fun _ _ => List.not_mem_nil⟩
  rw [firstRepeated_eq_some_iff.2 h] at hnone
  cases hnone

/-! ## What becomes of a source -/

theorem arrange_cases (declarations : List Declaration) :
    (∃ name, Repeats declarations name ∧ arrange declarations = .error (.duplicate name)) ∨
      (declarations.map (·.name)).Nodup ∧
        ((∃ chain, IsCycle (DeclaredUse declarations) chain ∧
            arrange declarations = .error (.circularReference chain)) ∨
          (¬ ∃ name, Relation.TransGen (DeclaredUse declarations) name name) ∧
            ∃ arranged, arrange declarations = .ok arranged) := by
  unfold arrange
  dsimp only
  cases hrepeated : firstRepeated [] (declarations.map (·.name)) with
  | some name => exact .inl ⟨name, firstRepeated_eq_some_iff.1 hrepeated, rfl⟩
  | none =>
    have hn := (firstRepeated_eq_none.1 hrepeated).1
    refine .inr ⟨hn, ?_⟩
    rw [← refers_trees hn, ← exists_sort_error_iff fun name => (contains_trees hn).symm, ← trees]
    cases hsort : sort (trees declarations) (declarations.map (·.name)) with
    | error chain => exact .inl ⟨chain, isCycle_of_sort hsort, rfl⟩
    | ok sorted => exact .inr ⟨by simp, _, rfl⟩

/-- What a source comes to, and why. -/
inductive Outcome (r : Registry) (source : String) :
    Registry × Except TemplateError (List String) → Prop
  | malformed {error : ParseError} (h : parse source = .error error) :
      Outcome r source (r, .error (.malformed error))
  | duplicate {declarations : List Declaration} {name : String}
      (h : parse source = .ok declarations) (repeats : Repeats declarations name) :
      Outcome r source (r, .error (.duplicate name))
  | circular {declarations : List Declaration} {chain : List String}
      (h : parse source = .ok declarations) (nodup : (declarations.map (·.name)).Nodup)
      (cycle : IsCycle (DeclaredUse declarations) chain) :
      Outcome r source (r, .error (.circularReference chain))
  | accepted {declarations : List Declaration} {r' : Registry} {order : List String}
      (h : parse source = .ok declarations) (nodup : (declarations.map (·.name)).Nodup)
      (acyclic : ¬ ∃ name, Relation.TransGen (DeclaredUse declarations) name name) :
      Outcome r source (r', .ok order)

theorem outcome_registerSource (r : Registry) (source : String) :
    Outcome r source (r.registerSource source) := by
  cases hparse : parse source with
  | error error =>
    rw [registerSource, hparse]
    exact .malformed hparse
  | ok declarations =>
    rcases arrange_cases declarations with
      ⟨name, hrepeats, harrange⟩ | ⟨hn, ⟨chain, hcycle, harrange⟩ | ⟨hacyclic, _, harrange⟩⟩
    · rw [registerSource_of_error hparse harrange]
      exact .duplicate hparse hrepeats
    · rw [registerSource_of_error hparse harrange]
      exact .circular hparse hn hcycle
    · rw [registerSource_of_ok hparse harrange]
      exact .accepted hparse hn hacyclic

/-- **A source is rejected for a reason, and then nothing changes.** It is malformed; or a name is
declared twice, of which the first one is told; or the declarations have a cycle of references,
which is told from a name on it back to that name. -/
theorem registerSource_rejects (r : Registry) (source : String) :
    (∀ e, (r.registerSource source).2 = .error (.malformed e) ↔ parse source = .error e) ∧
    (∀ name, (r.registerSource source).2 = .error (.duplicate name) ↔
      ∃ declarations, parse source = .ok declarations ∧ Repeats declarations name) ∧
    ((∃ chain, (r.registerSource source).2 = .error (.circularReference chain)) ↔
      ∃ declarations, parse source = .ok declarations ∧ (declarations.map (·.name)).Nodup ∧
        ∃ name, Relation.TransGen (DeclaredUse declarations) name name) ∧
    (∀ chain, (r.registerSource source).2 = .error (.circularReference chain) →
      ∃ declarations, parse source = .ok declarations ∧
        (∀ name ∈ chain, name ∈ declarations.map (·.name)) ∧
        IsCycle (DeclaredUse declarations) chain) ∧
    ∀ e, (r.registerSource source).2 = .error e → (r.registerSource source).1 = r ∧
      ((∃ error, e = .malformed error) ∨ (∃ name, e = .duplicate name) ∨
        ∃ chain, e = .circularReference chain) := by
  have houtcome := outcome_registerSource r source
  generalize r.registerSource source = result at houtcome ⊢
  cases houtcome with
  | malformed hparse => simp [hparse]
  | @duplicate declarations name hparse hrepeats =>
    have hunique (other : String) : name = other ↔ Repeats declarations other :=
      ⟨fun h => h ▸ hrepeats, hrepeats.unique⟩
    simpa [hparse, hunique, hrepeats.not_nodup] using Exists.intro name hrepeats
  | @circular declarations chain hparse hn hcycle =>
    have hclear (name : String) : ¬ Repeats declarations name := fun h => h.not_nodup hn
    have hdeclared : ∀ name ∈ chain, name ∈ declarations.map (·.name) := by
      refine hcycle.forall_mem fun name other huse => ?_
      obtain ⟨⟨d, hd, hname, _⟩, _⟩ := huse
      exact List.mem_map.2 ⟨d, hd, hname⟩
    refine ⟨by simp [hparse], by simp [hparse, hclear], ?_, ?_, ?_⟩
    · exact iff_of_true ⟨chain, rfl⟩ ⟨declarations, hparse, hn, hcycle.transGen⟩
    · rintro _ ⟨⟩
      exact ⟨declarations, hparse, hdeclared, hcycle⟩
    · rintro _ ⟨⟩
      exact ⟨rfl, .inr (.inr ⟨chain, rfl⟩)⟩
  | @accepted declarations _ _ hparse hn hacyclic =>
    have hclear (name : String) : ¬ Repeats declarations name := fun h => h.not_nodup hn
    have hnone (name : String) : ¬ Relation.TransGen (DeclaredUse declarations) name name :=
      fun h => hacyclic ⟨name, h⟩
    simp [hparse, hclear, hnone]

/-- A page that leads to two templates which reference each other. -/
def loopedSource : String :=
  "template Page \x7b use A \x7d template A \x7b div \x7b use B \x7d \x7d
   template B \x7b use Nav \x7b links \x7b use A \x7d \x7d \x7d"

def loopedDeclarations : List Declaration :=
  [⟨"Page", ⟨9, 13⟩, .reference "A" .anonymous .empty []⟩,
    ⟨"A", ⟨33, 34⟩,
      .element "div" .anonymous .empty [.reference "B" .anonymous .empty []]⟩,
    ⟨"B", ⟨65, 66⟩, .reference "Nav" .anonymous .empty
      [("links", ⟨none, .empty, [.reference "A" .anonymous .empty []]⟩)]⟩]

/-- The page is not on the cycle that is told, and what is not declared does not matter. -/
theorem registerSource_rejects_looped :
    (empty.registerSource loopedSource).2 = .error (.circularReference ["A", "B", "A"]) ∧
      (empty.registerSource loopedSource).1 = empty ∧
      ∃ declarations, parse loopedSource = .ok declarations ∧
        (∀ name ∈ ["A", "B", "A"], name ∈ declarations.map (·.name)) ∧
        IsCycle (DeclaredUse declarations) ["A", "B", "A"] := by
  have hparse : parse loopedSource = .ok loopedDeclarations := by with_unfolding_all rfl
  have harrange : arrange loopedDeclarations = .error (.circularReference ["A", "B", "A"]) := by
    cbv
  have hrejected : (empty.registerSource loopedSource).2 =
      .error (.circularReference ["A", "B", "A"]) := by
    rw [registerSource_of_error hparse harrange]
  obtain ⟨-, -, -, hcycle, hkept⟩ := registerSource_rejects empty loopedSource
  exact ⟨hrejected, (hkept _ hrejected).1, hcycle _ hrejected⟩

end Registry
end Stencil
