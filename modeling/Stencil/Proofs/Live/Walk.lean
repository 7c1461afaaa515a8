import Mathlib.Data.List.Chain
import Stencil.Proofs.Live.Forest

/-! # Walks over a forest

Climbing finds the chain of nodes from a root down to a node exactly if the node is within the root,
and the walk downwards meets everything within a node once. In a forest neither is cut off.
-/
namespace Stencil.Live.Document
variable {d : Document} {root id x y : Handle} {n steps : Nat} {chain below : List Handle}

/-! ## Upwards -/

theorem climb_sound (h : d.climb root steps id below = some chain)
    (hb : (id :: below).IsChain d.Links) :
    chain.IsChain d.Links ∧ chain.head? = some root ∧ (id :: below) <:+ chain := by
  induction steps generalizing id below with
  | zero => simp [climb] at h
  | succ steps ih =>
    unfold climb at h
    split at h
    · next heq =>
      cases h
      exact ⟨hb, by simp [heq], List.suffix_refl _⟩
    · split at h
      · cases h
      · next parent hp =>
        obtain ⟨hc, hh, hs⟩ := ih h (List.isChain_cons_cons.2 ⟨hp, hb⟩)
        exact ⟨hc, hh, (List.suffix_cons ..).trans hs⟩

theorem climb_complete (hf : d.Forest) (h : d.Below root n id) (hn : n < steps)
    (below : List Handle) : (d.climb root steps id below).isSome := by
  induction h generalizing steps below with
  | here =>
    obtain ⟨k, rfl⟩ := Nat.exists_eq_add_of_lt hn
    simp [climb]
  | @child n p c above link ih =>
    obtain ⟨k, rfl⟩ := Nat.exists_eq_add_of_lt hn
    have hne : c ≠ root := (above.child link).ne_root hf
    have hl : d.parent? c = some p := link
    simpa [climb, hne, hl] using ih (by omega) (c :: below)

theorem below_of_isChain (h : (root :: chain).IsChain d.Links)
    (hx : (root :: chain)[n]? = some x) : d.Below root n x := by
  induction n generalizing x with
  | zero => cases hx; exact .here
  | succ n ih =>
    obtain ⟨hlt, rfl⟩ := List.getElem?_eq_some_iff.1 hx
    have hprev : (root :: chain)[n]? = some (root :: chain)[n] :=
      List.getElem?_eq_getElem (Nat.lt_of_succ_lt hlt)
    exact (ih hprev).child (List.isChain_iff_getElem.1 h n hlt)

theorem ancestorChain?_sound (h : d.ancestorChain? root id = some chain) :
    chain.IsChain d.Links ∧ chain.head? = some root ∧ chain.getLast? = some id := by
  obtain ⟨hc, hh, pre, rfl⟩ := climb_sound h (List.isChain_singleton id)
  exact ⟨hc, hh, by simp⟩

theorem within_of_ancestorChain? (h : d.ancestorChain? root id = some chain) :
    d.Within root id := by
  obtain ⟨hc, hh, hl⟩ := ancestorChain?_sound h
  obtain ⟨rest, rfl⟩ := List.head?_eq_some_iff.1 hh
  rw [List.getLast?_eq_getElem?] at hl
  exact (below_of_isChain hc hl).within

theorem ancestorChain?_isSome (hf : d.Forest) :
    (d.ancestorChain? root id).isSome ↔ d.Within root id := by
  constructor
  · intro h
    obtain ⟨chain, hc⟩ := Option.isSome_iff_exists.1 h
    exact within_of_ancestorChain? hc
  · rintro ⟨n, hn⟩
    refine climb_complete hf hn ?_ []
    cases n with
    | zero => exact Nat.succ_pos _
    | succ n => exact Nat.lt_succ_of_lt (hn.level_lt hf (hn.lt_size hf))

theorem ancestorChain?_eq_none (hf : d.Forest) :
    d.ancestorChain? root id = none ↔ ¬ d.Within root id := by
  rw [← ancestorChain?_isSome hf, Option.not_isSome_iff_eq_none]

/-! ## Downwards -/

theorem within_of_mem_subtreeWithin (hf : d.Forest) (h : x ∈ d.subtreeWithin n id) :
    d.Within id x := by
  induction n generalizing id with
  | zero => simp [subtreeWithin] at h
  | succ n ih =>
    rw [subtreeWithin, List.mem_cons, List.mem_flatMap] at h
    rcases h with rfl | ⟨c, hc, hx⟩
    · exact .refl d x
    · exact ((hf.mem_children id c).1 hc).within.trans (ih hx)

theorem Below.first_step (h : d.Below root (n + 1) id) :
    ∃ c, d.Links root c ∧ d.Below c n id := by
  rw [Nat.add_comm] at h
  obtain ⟨c, hc, hid⟩ := h.split
  cases hc with
  | child above link => cases above; exact ⟨c, link, hid⟩

theorem mem_subtreeWithin (hf : d.Forest) (h : d.Below id n x) (hn : n < steps) :
    x ∈ d.subtreeWithin steps id := by
  induction n generalizing id steps with
  | zero =>
    cases h
    obtain ⟨k, rfl⟩ := Nat.exists_eq_add_of_lt hn
    simp [subtreeWithin]
  | succ n ih =>
    obtain ⟨c, link, hx⟩ := h.first_step
    obtain ⟨k, rfl⟩ := Nat.exists_eq_add_of_lt hn
    refine List.mem_cons_of_mem _ (List.mem_flatMap.2 ⟨c, (hf.mem_children id c).2 link, ?_⟩)
    exact ih hx (by omega)

theorem mem_subtree (hf : d.Forest) (hid : id < d.size) : x ∈ d.subtree id ↔ d.Within id x := by
  constructor
  · exact within_of_mem_subtreeWithin hf
  · rintro ⟨n, hn⟩
    refine mem_subtreeWithin hf hn ?_
    cases n with
    | zero => exact Nat.lt_of_le_of_lt (Nat.zero_le _) hid
    | succ n => exact hn.level_lt hf (hn.lt_size hf)

theorem nodup_subtreeWithin (hf : d.Forest) (n : Nat) (id : Handle) :
    (d.subtreeWithin n id).Nodup := by
  induction n generalizing id with
  | zero => exact .nil
  | succ n ih =>
    refine List.nodup_cons.2 ⟨?_, List.nodup_flatMap.2 ⟨fun c _ => ih c, ?_⟩⟩
    · intro h
      obtain ⟨c, hc, hid⟩ := List.mem_flatMap.1 h
      exact ((hf.mem_children id c).1 hc).not_within hf (within_of_mem_subtreeWithin hf hid)
    · refine (hf.nodup_children id).imp_of_mem fun {x y} hx hy hne z hzx hzy => ?_
      exact ((hf.mem_children id x).1 hx).disjoint hf ((hf.mem_children id y).1 hy) hne
        ⟨within_of_mem_subtreeWithin hf hzx, within_of_mem_subtreeWithin hf hzy⟩

end Stencil.Live.Document
