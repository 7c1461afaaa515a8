import Mathlib.Data.List.Nodup
import Stencil.Proofs.NameMap
import Stencil.Registry.Order

/-! # References come first

In an order that the walk over the declarations has found, each template stands once and behind the
declared templates that it references. So none of them references itself, directly or through others
of the same source. The walk finds such an order whenever there is one, wherever it starts: it never
comes back to a template that it has not finished, because ranks drop on the way.
-/
namespace Stencil.Declarations
variable {declared : NameMap Node} {visiting done done' order sorted : List String}
  {name other : String} {root : Node}

/-! ## One step of the walk -/

theorem visit_of_mem (h : name ∈ done) : visit declared visiting done name = .ok done := by
  rw [visit, if_pos h]

theorem visit_of_visiting (h : name ∉ done) (hv : name ∈ visiting) :
    visit declared visiting done name = .error (visiting.dropWhile (· ≠ name) ++ [name]) := by
  rw [visit, if_neg h, dif_pos hv]

theorem visit_of_undeclared (h : name ∉ done) (hv : name ∉ visiting)
    (hd : declared.find? name = none) : visit declared visiting done name = .ok done := by
  rw [visit, if_neg h, dif_neg hv]
  split
  · rfl
  · next hd' => cases hd.symm.trans hd'

theorem visit_of_declared (h : name ∉ done) (hv : name ∉ visiting)
    (hd : declared.find? name = some root) :
    visit declared visiting done name =
      (visitAll declared (visiting ++ [name]) done root.referencedTemplates).map (· ++ [name]) := by
  rw [visit, if_neg h, dif_neg hv]
  split
  · next hd' => cases hd.symm.trans hd'
  · next root' hd' =>
    obtain rfl := Option.some.inj (hd.symm.trans hd')
    rfl

theorem visitAll_cons {rest : List String} :
    visitAll declared visiting done (name :: rest) = .ok done' ↔
      ∃ middle, visit declared visiting done name = .ok middle ∧
        visitAll declared visiting middle rest = .ok done' := by
  rw [visitAll]
  cases visit declared visiting done name with
  | error chain => simp [Bind.bind, Except.bind]
  | ok middle => simp [Bind.bind, Except.bind]

/-! ## The order that is found -/

/-- Each name is declared, and stands behind the declared names that its tree references. -/
inductive Settled (declared : NameMap Node) : List String → Prop
  | nil : Settled declared []
  | snoc {done : List String} {name : String} {root : Node} (h : Settled declared done)
      (hd : declared.find? name = some root)
      (behind : ∀ other ∈ root.referencedTemplates, declared.contains other → other ∈ done) :
      Settled declared (done ++ [name])

theorem Settled.contains (h : Settled declared done) (hmem : name ∈ done) :
    declared.contains name := by
  induction h with
  | nil => cases hmem
  | snoc _ hd _ ih =>
    rcases List.mem_append.1 hmem with hmem | hmem
    · exact ih hmem
    · rw [List.mem_singleton.1 hmem]
      exact NameMap.contains_of_find? hd

theorem Settled.mem_of_reference (h : Settled declared done) (hmem : name ∈ done)
    (hd : declared.find? name = some root) (hother : other ∈ root.referencedTemplates)
    (hcontains : declared.contains other) : other ∈ done := by
  induction h with
  | nil => cases hmem
  | snoc _ hd' behind ih =>
    apply List.mem_append_left
    rcases List.mem_append.1 hmem with hmem | hmem
    · exact ih hmem
    · rw [List.mem_singleton.1 hmem] at hd
      obtain rfl := Option.some.inj (hd.symm.trans hd')
      exact behind other hother hcontains

/-- A walk from `done` to `done'` over these names went well. It does not finish the templates that
were on the way to it. -/
structure Walked (declared : NameMap Node) (visiting done done' names : List String) : Prop where
  settled : Settled declared done'
  nodup : done'.Nodup
  keeps : done ⊆ done'
  reaches : ∀ name ∈ names, declared.contains name → name ∈ done'
  avoids : ∀ name ∈ visiting, name ∈ done' → name ∈ done

theorem Walked.append {first rest middle : List String}
    (h : Walked declared visiting done middle first)
    (h' : Walked declared visiting middle done' rest) :
    Walked declared visiting done done' (first ++ rest) where
  settled := h'.settled
  nodup := h'.nodup
  keeps := List.Subset.trans h.keeps h'.keeps
  reaches name hname hd := by
    rcases List.mem_append.1 hname with hname | hname
    · exact h'.keeps (h.reaches name hname hd)
    · exact h'.reaches name hname hd
  avoids name hname hmem := h.avoids name hname (h'.avoids name hname hmem)

theorem Walked.finish {middle : List String} (h : name ∉ done) (hv : name ∉ visiting)
    (hd : declared.find? name = some root)
    (hwalk : Walked declared (visiting ++ [name]) done middle root.referencedTemplates) :
    Walked declared visiting done (middle ++ [name]) [name] where
  settled := hwalk.settled.snoc hd hwalk.reaches
  nodup := by
    refine List.nodup_append.2 ⟨hwalk.nodup, List.nodup_singleton name, ?_⟩
    rintro other hother _ hname rfl
    rw [List.mem_singleton.1 hname] at hother
    exact h (hwalk.avoids name (List.mem_append_right _ List.mem_cons_self) hother)
  keeps := List.Subset.trans hwalk.keeps (List.subset_append_left _ _)
  reaches _ hother _ := List.mem_append_right _ hother
  avoids other hother hmem := by
    rcases List.mem_append.1 hmem with hmem | hmem
    · exact hwalk.avoids other (List.mem_append_left _ hother) hmem
    · exact absurd (List.mem_singleton.1 hmem ▸ hother) hv

theorem walked :
    (∀ visiting done name, ∀ done', Settled declared done → done.Nodup →
      visit declared visiting done name = .ok done' →
        Walked declared visiting done done' [name]) ∧
    ∀ visiting done names, ∀ done', Settled declared done → done.Nodup →
      visitAll declared visiting done names = .ok done' →
        Walked declared visiting done done' names := by
  refine visit.mutual_induct declared _ _ ?done ?cycle ?undeclared ?declared ?nil ?cons
  case done =>
    intro visiting done name hmem done' h hn hvisit
    rw [visit_of_mem hmem] at hvisit
    cases hvisit
    exact ⟨h, hn, List.Subset.refl _, fun other hother _ => List.mem_singleton.1 hother ▸ hmem,
      fun _ _ hother => hother⟩
  case cycle =>
    intro visiting done name hmem hv done' h hn hvisit
    rw [visit_of_visiting hmem hv] at hvisit
    cases hvisit
  case undeclared =>
    intro visiting done name hmem hv hd done' h hn hvisit
    rw [visit_of_undeclared hmem hv hd] at hvisit
    cases hvisit
    refine ⟨h, hn, List.Subset.refl _, fun other hother hcontains => ?_, fun _ _ hother => hother⟩
    rw [List.mem_singleton.1 hother, NameMap.contains, hd] at hcontains
    cases hcontains
  case declared =>
    intro visiting done name hmem hv root hd _ ih done' h hn hvisit
    rw [visit_of_declared hmem hv hd] at hvisit
    cases hall : visitAll declared (visiting ++ [name]) done root.referencedTemplates with
    | error chain =>
      rw [hall] at hvisit
      cases hvisit
    | ok middle =>
      rw [hall] at hvisit
      cases hvisit
      exact (ih middle h hn hall).finish hmem hv hd
  case nil =>
    intro visiting done done' h hn hvisit
    rw [visitAll] at hvisit
    cases hvisit
    exact ⟨h, hn, List.Subset.refl _, fun _ hother => absurd hother List.not_mem_nil,
      fun _ _ hother => hother⟩
  case cons =>
    intro visiting done name rest ih ihrest done' h hn hvisit
    obtain ⟨middle, hfirst, hrest⟩ := visitAll_cons.1 hvisit
    have hwalk := ih middle h hn hfirst
    exact hwalk.append (ihrest middle done' hwalk.settled hwalk.nodup hrest)

theorem walked_sort (h : sort declared order = .ok sorted) :
    Walked declared [] [] sorted order :=
  walked.2 [] [] order sorted .nil .nil h

/-- **References come first** in the order of declarations that was found. -/
theorem settled_sort (h : sort declared order = .ok sorted) : Settled declared sorted :=
  (walked_sort h).settled

theorem perm_sort (h : sort declared order = .ok sorted) (hn : order.Nodup)
    (hall : ∀ name, name ∈ order ↔ declared.contains name) : sorted.Perm order := by
  have hwalk := walked_sort h
  refine (List.perm_ext_iff_of_nodup hwalk.nodup hn).2 fun name => ⟨fun hmem => ?_, fun hmem => ?_⟩
  · exact (hall name).2 (hwalk.settled.contains hmem)
  · exact hwalk.reaches name hmem ((hall name).1 hmem)

/-! ## Ranks -/

/-- Each reference from a declared template to another one leads to a lower rank. -/
def Ranked (declared : NameMap Node) (rank : String → Nat) : Prop :=
  ∀ name root, declared.find? name = some root → ∀ other ∈ root.referencedTemplates,
    declared.contains other → rank other < rank name

theorem Settled.idxOf_lt (h : Settled declared done) (hn : done.Nodup) (hmem : name ∈ done)
    (hd : declared.find? name = some root) (hother : other ∈ root.referencedTemplates)
    (hcontains : declared.contains other) : done.idxOf other < done.idxOf name := by
  induction h with
  | nil => cases hmem
  | @snoc done last root' h hd' behind ih =>
    obtain ⟨hdone, -, hlast⟩ := List.nodup_append.1 hn
    by_cases hname : name = last
    · subst hname
      obtain rfl := Option.some.inj (hd.symm.trans hd')
      have hbefore := behind other hother hcontains
      have hnew : name ∉ done := fun hmem => hlast name hmem name List.mem_cons_self rfl
      rw [List.idxOf_append_of_mem hbefore, List.idxOf_append_of_notMem hnew]
      exact Nat.lt_add_right _ (List.idxOf_lt_length_of_mem hbefore)
    · have hold : name ∈ done := by simpa [hname] using hmem
      have hbefore := h.mem_of_reference hold hd hother hcontains
      rw [List.idxOf_append_of_mem hbefore, List.idxOf_append_of_mem hold]
      exact ih hdone hold

theorem Settled.ranked (h : Settled declared sorted) (hn : sorted.Nodup)
    (hall : ∀ name, declared.contains name → name ∈ sorted) : Ranked declared sorted.idxOf := by
  intro name root hd other hother hcontains
  exact h.idxOf_lt hn (hall name (NameMap.contains_of_find? hd)) hd hother hcontains

/-- Every template on the way is declared and has a higher rank than this one. -/
def Above (declared : NameMap Node) (rank : String → Nat) (visiting : List String)
    (name : String) : Prop :=
  ∀ upper ∈ visiting, declared.contains upper ∧ (declared.contains name → rank name < rank upper)

theorem visit_ok {rank : String → Nat} (h : Ranked declared rank) :
    (∀ visiting done name, Above declared rank visiting name →
      ∃ done', visit declared visiting done name = .ok done') ∧
    ∀ visiting done names, (∀ name ∈ names, Above declared rank visiting name) →
      ∃ done', visitAll declared visiting done names = .ok done' := by
  refine visit.mutual_induct declared _ _ ?done ?cycle ?undeclared ?declared ?nil ?cons
  case done =>
    intro visiting done name hmem _
    exact ⟨done, visit_of_mem hmem⟩
  case cycle =>
    -- a template on the way would have a rank below its own
    intro visiting done name hmem hv habove
    obtain ⟨hdeclared, hlt⟩ := habove name hv
    exact absurd (hlt hdeclared) (Nat.lt_irrefl _)
  case undeclared =>
    intro visiting done name hmem hv hd _
    exact ⟨done, visit_of_undeclared hmem hv hd⟩
  case declared =>
    intro visiting done name hmem hv root hd _ ih habove
    have hname : declared.contains name := NameMap.contains_of_find? hd
    obtain ⟨middle, hmiddle⟩ := ih fun other hother upper hupper => by
      rcases List.mem_append.1 hupper with hupper | hupper
      · obtain ⟨hdeclared, hlt⟩ := habove upper hupper
        exact ⟨hdeclared, fun hcontains =>
          Nat.lt_trans (h name root hd other hother hcontains) (hlt hname)⟩
      · obtain rfl := List.mem_singleton.1 hupper
        exact ⟨hname, h upper root hd other hother⟩
    refine ⟨middle ++ [name], ?_⟩
    rw [visit_of_declared hmem hv hd, hmiddle]
    rfl
  case nil =>
    intro visiting done _
    exact ⟨done, by rw [visitAll]⟩
  case cons =>
    intro visiting done name rest ih ihrest habove
    obtain ⟨hfirst, hrest⟩ := List.forall_mem_cons.1 habove
    obtain ⟨middle, hmiddle⟩ := ih hfirst
    obtain ⟨done', hdone'⟩ := ihrest middle hrest
    exact ⟨done', visitAll_cons.2 ⟨middle, hmiddle, hdone'⟩⟩

/-- **An order is found exactly if there are ranks**, whatever the order of declaration. -/
theorem exists_sort_iff (hall : ∀ name, name ∈ order ↔ declared.contains name) :
    (∃ sorted, sort declared order = .ok sorted) ↔ ∃ rank, Ranked declared rank := by
  constructor
  · rintro ⟨sorted, hsort⟩
    have hwalk := walked_sort hsort
    exact ⟨sorted.idxOf, hwalk.settled.ranked hwalk.nodup fun name hname =>
      hwalk.reaches name ((hall name).2 hname) hname⟩
  · rintro ⟨rank, hrank⟩
    exact (visit_ok hrank).2 [] [] order fun _ _ _ hupper => absurd hupper List.not_mem_nil

end Stencil.Declarations
