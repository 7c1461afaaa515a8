import Mathlib.Data.Finset.Card
import Mathlib.Order.WellFounded
import Stencil.Live.Document

/-! # Documents as forests

The lists of children and the table of parents say the same thing twice. `Forest` is the condition
under which they agree and no node is below itself. In a forest a node has at most one place below
another, and no node lies deeper than the document has nodes; this is why the walks over a document
may be cut off where they are.
-/
namespace Stencil.Live.Document
variable {d : Document} {root id p c x y : Handle} {m n : Nat}

/-- The table of parents has `p` as the parent of `c`. -/
def Links (d : Document) (p c : Handle) : Prop := d.parent? c = some p

structure Forest (d : Document) : Prop where
  sizes : d.parents.size = d.size
  mem_children : ∀ p c, c ∈ d.children p ↔ d.Links p c
  nodup_children : ∀ p, (d.children p).Nodup
  acyclic : WellFounded d.Links
  free_nodup : d.free.Nodup
  free_lt : ∀ id ∈ d.free, id < d.size
  free_text : ∀ id ∈ d.free, d.get? id = some (.text "")
  free_parent : ∀ id ∈ d.free, d.parent? id = none

/-- The handle belongs to a node that is not waiting to be used again. -/
def InUse (d : Document) (id : Handle) : Prop := id < d.size ∧ id ∉ d.free

/-- `id` stands `n` levels below `root`. -/
inductive Below (d : Document) (root : Handle) : Nat → Handle → Prop
  | here : Below d root 0 root
  | child {n : Nat} {p c : Handle} (above : Below d root n p) (link : d.Links p c) :
      Below d root (n + 1) c

/-- `id` is `root` or stands below it. -/
def Within (d : Document) (root id : Handle) : Prop := ∃ n, d.Below root n id

theorem Within.refl (d : Document) (id : Handle) : d.Within id id := ⟨0, .here⟩

theorem Below.within (h : d.Below root n id) : d.Within root id := ⟨n, h⟩

theorem Below.trans (hx : d.Below root m x) (hy : d.Below x n y) : d.Below root (m + n) y := by
  induction hy with
  | here => exact hx
  | child _ link ih => exact ih.child link

theorem Within.trans (hx : d.Within root x) (hy : d.Within x y) : d.Within root y := by
  obtain ⟨m, hm⟩ := hx
  obtain ⟨n, hn⟩ := hy
  exact ⟨m + n, hm.trans hn⟩

theorem Links.within (h : d.Links p c) : d.Within p c := ⟨1, .child .here h⟩

theorem Below.top_unique (hx : d.Below x n id) (hy : d.Below y n id) : x = y := by
  induction hx generalizing y with
  | here => cases hy; rfl
  | child _ link ih =>
    cases hy with
    | child above link' =>
      obtain rfl := Option.some.inj (link.symm.trans link')
      exact ih above

theorem Below.split (h : d.Below root (m + n) id) : ∃ x, d.Below root m x ∧ d.Below x n id := by
  induction n generalizing id with
  | zero => exact ⟨id, h, .here⟩
  | succ n ih =>
    cases h with
    | child above link =>
      obtain ⟨x, hx, hp⟩ := ih above
      exact ⟨x, hx, hp.child link⟩

theorem Within.cases_parent (h : d.Within root id) :
    id = root ∨ ∃ p, d.Within root p ∧ d.Links p id := by
  obtain ⟨n, hn⟩ := h
  cases hn with
  | here => exact .inl rfl
  | child above link => exact .inr ⟨_, above.within, link⟩

theorem Within.parent (h : d.Within root id) (hne : id ≠ root) (link : d.Links p id) :
    d.Within root p := by
  rcases h.cases_parent with rfl | ⟨q, hq, hl⟩
  · exact absurd rfl hne
  · exact Option.some.inj (link.symm.trans hl) ▸ hq

theorem Within.comparable (hx : d.Within x id) (hy : d.Within y id) :
    d.Within x y ∨ d.Within y x := by
  obtain ⟨n, hn⟩ := hx
  induction hn with
  | here => exact .inr hy
  | child above link ih =>
    rcases hy.cases_parent with rfl | ⟨q, hq, hl⟩
    · exact .inl (above.child link).within
    · obtain rfl := Option.some.inj (link.symm.trans hl)
      exact ih hq

theorem Below.lt_size (hf : d.Forest) (h : d.Below root (n + 1) id) : id < d.size := by
  cases h with
  | child _ link =>
    rw [← hf.sizes]
    by_contra hge
    rw [Links, parent?, Array.getElem?_eq_none (Nat.le_of_not_lt hge)] at link
    cases link

theorem children_eq_nil_of_size_le (h : d.size ≤ id) : d.children id = [] := by
  simp [children, get?, Array.getElem?_eq_none h]

theorem Links.lt_size (hf : d.Forest) (h : d.Links p c) : p < d.size := by
  by_contra hge
  have hm := (hf.mem_children p c).2 h
  rw [children_eq_nil_of_size_le (Nat.le_of_not_lt hge)] at hm
  cases hm

theorem Below.ne_root (hf : d.Forest) (h : d.Below root (n + 1) id) : id ≠ root := by
  have chain : ∀ {k x}, d.Below root (k + 1) x → Relation.TransGen d.Links root x := by
    intro k
    induction k with
    | zero =>
      intro x hx
      cases hx with
      | child above link => cases above; exact .single link
    | succ k ih =>
      intro x hx
      cases hx with
      | child above link => exact .tail (ih above) link
  rintro rfl
  exact hf.acyclic.transGen.irrefl.irrefl _ (chain h)

theorem Within.antisymm (hf : d.Forest) (hx : d.Within x y) (hy : d.Within y x) : x = y := by
  obtain ⟨m, hm⟩ := hx
  obtain ⟨n, hn⟩ := hy
  have hl := hm.trans hn
  cases m with
  | zero => cases hm; rfl
  | succ m =>
    rw [Nat.succ_add] at hl
    exact absurd rfl (hl.ne_root hf)

theorem Links.not_within (hf : d.Forest) (h : d.Links p c) : ¬ d.Within c p := by
  rintro ⟨n, hn⟩
  exact (hn.child h).ne_root hf rfl

theorem Below.level_unique (hf : d.Forest) (hm : d.Below root m id) (hn : d.Below root n id) :
    m = n := by
  have le : ∀ {k l : Nat}, d.Below root k id → d.Below root l id → l ≤ k := by
    intro k l hk hl
    by_contra hlt
    obtain ⟨j, rfl⟩ := Nat.exists_eq_add_of_lt (Nat.lt_of_not_le hlt)
    rw [show k + j + 1 = (j + 1) + k by omega] at hl
    obtain ⟨x, hx, hxk⟩ := hl.split
    exact hx.ne_root hf (hxk.top_unique hk)
  exact Nat.le_antisymm (le hn hm) (le hm hn)

theorem Below.level_lt (hf : d.Forest) (h : d.Below root n id) (hid : id < d.size) :
    n < d.size := by
  classical
  let above (x : Handle) : Finset Handle := (Finset.range d.size).filter (d.Within · x)
  have count : n < (above id).card := by
    induction h with
    | here => exact Finset.card_pos.2 ⟨_, Finset.mem_filter.2 ⟨Finset.mem_range.2 hid, .refl d _⟩⟩
    | @child n p c _ link ih =>
      refine Nat.lt_of_le_of_lt (ih (link.lt_size hf)) (Finset.card_lt_card ?_)
      refine (Finset.ssubset_iff_of_subset ?_).2 ⟨c, ?_, ?_⟩
      · intro x hx
        rw [Finset.mem_filter] at hx ⊢
        exact ⟨hx.1, hx.2.trans link.within⟩
      · exact Finset.mem_filter.2 ⟨Finset.mem_range.2 hid, .refl d _⟩
      · exact fun hc => link.not_within hf (Finset.mem_filter.1 hc).2
  calc n < (above id).card := count
    _ ≤ (Finset.range d.size).card := Finset.card_filter_le ..
    _ = d.size := Finset.card_range _

theorem Links.disjoint (hf : d.Forest) (hx : d.Links p x) (hy : d.Links p y) (hne : x ≠ y) :
    ¬ (d.Within x id ∧ d.Within y id) := by
  rintro ⟨hxi, hyi⟩
  rcases hxi.comparable hyi with h | h
  · exact hx.not_within hf (h.parent hne.symm hy)
  · exact hy.not_within hf (h.parent hne hx)

end Stencil.Live.Document
