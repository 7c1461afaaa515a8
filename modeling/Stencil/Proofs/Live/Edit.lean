import Mathlib.Data.List.Nodup
import Mathlib.Data.List.Perm.Basic
import Stencil.Proofs.Live.Walk

/-! # What the edits of a document change

For each primitive edit, what stands under every handle afterwards: storing a node, taking a node
away from its parent, appending it to another one, and freeing a subtree. Each of them keeps a
forest a forest.
-/
namespace Stencil.Live

namespace Content

def children : Content → List Handle
  | .text _ => []
  | .element _ _ children => children

theorem children_mapChildren (f : List Handle → List Handle) (hf : f [] = [])
    (c : Content) : (c.mapChildren f).children = f c.children := by
  cases c with
  | text => exact hf.symm
  | element => rfl

theorem mapChildren_eq_self {f : List Handle → List Handle} {c : Content}
    (h : f c.children = c.children) : c.mapChildren f = c := by
  cases c with
  | text => rfl
  | element => exact congrArg _ h

@[simp] theorem mapChildren_mapChildren (f g : List Handle → List Handle) (c : Content) :
    (c.mapChildren f).mapChildren g = c.mapChildren fun cs => g (f cs) := by
  cases c <;> rfl

end Content

namespace Document
variable {d : Document} {id p c x y : Handle} {content : Content}

theorem children_eq (d : Document) (id : Handle) :
    d.children id = ((d.get? id).map Content.children).getD [] := by
  unfold children
  rcases d.get? id with _ | ⟨⟩ | ⟨⟩ <;> rfl

theorem children_of_get? (h : d.get? id = some content) : d.children id = content.children := by
  rw [children_eq, h]
  rfl

theorem get?_lt_size (h : d.get? id = some content) : id < d.size :=
  (Array.getElem?_eq_some_iff.1 h).1

theorem get?_eq_none_iff : d.get? id = none ↔ d.size ≤ id := Array.getElem?_eq_none_iff

theorem join_push_none {α : Type} (a : Array (Option α)) (i : Nat) :
    (a.push none)[i]?.join = a[i]?.join := by
  rw [Array.getElem?_push]
  split
  · next h => rw [h, Array.getElem?_eq_none (Nat.le_refl _)]; rfl
  · rfl

theorem join_setIfInBounds {α : Type} (a : Array (Option α)) (i j : Nat) (v : Option α) :
    (a.setIfInBounds i v)[j]?.join = if j = i ∧ i < a.size then v else a[j]?.join := by
  rw [Array.getElem?_setIfInBounds]
  by_cases hj : i = j
  · subst hj
    by_cases hi : i < a.size <;> simp [hi]
  · simp [hj, Ne.symm hj]

theorem parent?_eq_none (hf : d.Forest) (h : d.size ≤ id) : d.parent? id = none := by
  rw [parent?, Array.getElem?_eq_none (hf.sizes ▸ h)]
  rfl

/-! ## Storing a node -/

def fresh (d : Document) : Handle := d.free.headD d.size

theorem alloc_fst (d : Document) (content : Content) : (d.alloc content).1 = d.fresh := by
  unfold alloc fresh
  cases d.free <;> rfl

theorem not_inUse_fresh (d : Document) : ¬ d.InUse d.fresh := by
  rintro ⟨hlt, hfree⟩
  unfold fresh at hlt hfree
  cases hd : d.free with
  | nil => simp [hd] at hlt
  | cons id rest => simp [hd] at hfree

theorem children_fresh (hf : d.Forest) : d.children d.fresh = [] := by
  unfold fresh
  cases hd : d.free with
  | nil => exact children_eq_nil_of_size_le (Nat.le_refl _)
  | cons id rest => exact children_of_get? (hf.free_text id (by simp [hd]))

theorem parent?_fresh (hf : d.Forest) : d.parent? d.fresh = none := by
  unfold fresh
  cases hd : d.free with
  | nil => exact parent?_eq_none hf (Nat.le_refl _)
  | cons id rest => exact hf.free_parent id (by simp [hd])

theorem free_alloc (d : Document) (content : Content) :
    (d.alloc content).2.free = d.free.tail := by
  unfold alloc
  cases d.free <;> rfl

theorem get?_alloc (hf : d.Forest) (content : Content) (x : Handle) :
    (d.alloc content).2.get? x = if x = d.fresh then some content else d.get? x := by
  unfold alloc fresh get?
  cases hd : d.free with
  | nil => simpa [size] using Array.getElem?_push
  | cons id rest =>
    have hid : id < d.contents.size := hf.free_lt id (by simp [hd])
    simp [Array.getElem?_setIfInBounds, hid, eq_comm]

theorem parent?_alloc (hf : d.Forest) (content : Content) (x : Handle) :
    (d.alloc content).2.parent? x = d.parent? x := by
  have hnone := parent?_fresh hf
  unfold fresh at hnone
  unfold alloc
  cases hd : d.free with
  | nil => exact join_push_none d.parents x
  | cons id rest =>
    rw [hd] at hnone
    refine (join_setIfInBounds d.parents id x none).trans ?_
    split
    · next hx => exact hx.1 ▸ hnone.symm
    · rfl

theorem size_alloc_le (d : Document) (content : Content) : d.size ≤ (d.alloc content).2.size := by
  unfold alloc size
  cases d.free <;> simp

theorem fresh_lt_size_alloc (hf : d.Forest) (content : Content) :
    d.fresh < (d.alloc content).2.size := by
  exact get?_lt_size ((get?_alloc hf content d.fresh).trans (if_pos rfl))

theorem children_alloc (hf : d.Forest) (hc : content.children = []) (x : Handle) :
    (d.alloc content).2.children x = d.children x := by
  rw [children_eq, get?_alloc hf]
  split
  · next hx => rw [hx, children_fresh hf, ← hc]; rfl
  · exact (children_eq d x).symm

theorem inUse_alloc (hf : d.Forest) (content : Content) (x : Handle) :
    (d.alloc content).2.InUse x ↔ x = d.fresh ∨ d.InUse x := by
  have hnodup := hf.free_nodup
  have hlt := hf.free_lt
  unfold InUse
  rw [free_alloc]
  unfold fresh alloc
  cases hd : d.free with
  | nil =>
    simpa [size, or_comm] using Nat.lt_succ_iff_lt_or_eq
  | cons id rest =>
    rw [hd, List.nodup_cons] at hnodup
    have hid := hlt id (by simp [hd])
    by_cases hx : x = id
    · subst hx
      simpa [size] using ⟨hid, hnodup.1⟩
    · simp [size, hx]

theorem links_alloc (hf : d.Forest) : (d.alloc content).2.Links = d.Links := by
  funext p c
  rw [Links, parent?_alloc hf, Links]

theorem fresh_not_mem_tail (hf : d.Forest) : d.fresh ∉ d.free.tail := by
  have hnodup := hf.free_nodup
  unfold fresh
  cases hd : d.free with
  | nil => simp
  | cons first rest =>
    rw [hd] at hnodup
    exact (List.nodup_cons.1 hnodup).1

theorem Forest.alloc (hf : d.Forest) (hc : content.children = []) :
    (d.alloc content).2.Forest where
  sizes := by
    have hs := hf.sizes
    unfold Document.alloc size at *
    cases d.free <;> simpa using hs
  mem_children p c := by
    rw [children_alloc hf hc, links_alloc hf]
    exact hf.mem_children p c
  nodup_children p := by
    rw [children_alloc hf hc]
    exact hf.nodup_children p
  acyclic := by
    rw [links_alloc hf]
    exact hf.acyclic
  free_nodup := by
    rw [free_alloc]
    exact hf.free_nodup.tail
  free_lt id hid := by
    rw [free_alloc] at hid
    exact Nat.lt_of_lt_of_le (hf.free_lt id (List.mem_of_mem_tail hid)) (size_alloc_le d content)
  free_text id hid := by
    rw [free_alloc] at hid
    have hne : id ≠ d.fresh := by
      rintro rfl
      exact fresh_not_mem_tail hf hid
    rw [get?_alloc hf, if_neg hne]
    exact hf.free_text id (List.mem_of_mem_tail hid)
  free_parent id hid := by
    rw [free_alloc] at hid
    rw [parent?_alloc hf]
    exact hf.free_parent id (List.mem_of_mem_tail hid)

/-! ## Changing the lists of children and the table of parents -/

theorem get?_modifyChildren (d : Document) (p : Handle) (f : List Handle → List Handle)
    (x : Handle) :
    (d.modifyChildren p f).get? x =
      if x = p then (d.get? x).map (Content.mapChildren f) else d.get? x := by
  unfold modifyChildren get?
  rw [Array.getElem?_modify]
  simp only [eq_comm]

theorem parent?_setParent (d : Document) (c : Handle) (q : Option Handle) (x : Handle) :
    (d.setParent c q).parent? x = if x = c ∧ c < d.parents.size then q else d.parent? x :=
  join_setIfInBounds d.parents c x q

theorem Links.lt_parents_size (h : d.Links p c) : c < d.parents.size := by
  by_contra hge
  rw [Links, parent?, Array.getElem?_eq_none (Nat.le_of_not_lt hge)] at h
  cases h

theorem filter_children_of_not_links (hf : d.Forest) (h : ¬ d.Links x id) :
    (d.children x).filter (· != id) = d.children x := by
  refine List.filter_eq_self.2 fun c hc => ?_
  rw [bne_iff_ne]
  rintro rfl
  exact h ((hf.mem_children x c).1 hc)

theorem map_filter_of_not_links (hf : d.Forest) (h : ¬ d.Links x id) :
    (d.get? x).map (Content.mapChildren (·.filter (· != id))) = d.get? x := by
  have hfilter := filter_children_of_not_links hf h
  cases hx : d.get? x with
  | none => rfl
  | some content =>
    rw [children_of_get? hx] at hfilter
    exact congrArg some (Content.mapChildren_eq_self hfilter)

theorem get?_detach (hf : d.Forest) (id x : Handle) :
    (d.detach id).get? x = (d.get? x).map (Content.mapChildren (·.filter (· != id))) := by
  unfold detach
  cases hp : d.parent? id with
  | none =>
    refine (map_filter_of_not_links hf fun h => ?_).symm
    rw [Links, hp] at h
    cases h
  | some parent =>
    refine (get?_modifyChildren d parent _ x).trans ?_
    split
    · rfl
    · next hne =>
      exact (map_filter_of_not_links hf fun h => hne (Option.some.inj (h.symm.trans hp))).symm

theorem get?_detach_of_not_links (hf : d.Forest) (h : ¬ d.Links x id) :
    (d.detach id).get? x = d.get? x :=
  (get?_detach hf id x).trans (map_filter_of_not_links hf h)

theorem children_detach (hf : d.Forest) (id x : Handle) :
    (d.detach id).children x = (d.children x).filter (· != id) := by
  rw [children_eq, get?_detach hf, children_eq]
  cases d.get? x with
  | none => rfl
  | some content => exact Content.children_mapChildren _ rfl content

theorem parent?_detach (d : Document) (id x : Handle) :
    (d.detach id).parent? x = if x = id then none else d.parent? x := by
  unfold detach
  cases hp : d.parent? id with
  | none => split <;> simp_all
  | some parent =>
    have hlt : id < d.parents.size := Links.lt_parents_size hp
    refine (parent?_setParent _ id none x).trans ?_
    have hsize : (d.modifyChildren parent fun cs => cs.filter (· != id)).parents = d.parents := rfl
    simp only [hsize, hlt, and_true]
    rfl

theorem free_detach (d : Document) (id : Handle) : (d.detach id).free = d.free := by
  unfold detach
  cases d.parent? id <;> rfl

theorem size_detach (d : Document) (id : Handle) : (d.detach id).size = d.size := by
  unfold detach
  cases d.parent? id with
  | none => rfl
  | some parent => exact Array.size_modify

theorem links_detach : (d.detach id).Links p c ↔ c ≠ id ∧ d.Links p c := by
  unfold Links
  rw [parent?_detach]
  by_cases hc : c = id <;> simp [hc]

theorem Forest.detach (hf : d.Forest) (id : Handle) : (d.detach id).Forest where
  sizes := by
    rw [size_detach, ← hf.sizes]
    unfold Document.detach
    cases d.parent? id with
    | none => rfl
    | some parent => exact Array.size_setIfInBounds
  mem_children p c := by
    rw [children_detach hf, List.mem_filter, bne_iff_ne, hf.mem_children, links_detach, and_comm]
  nodup_children p := by
    rw [children_detach hf]
    exact (hf.nodup_children p).filter _
  acyclic := hf.acyclic.mono fun p c h => (links_detach.1 h).2
  free_nodup := by
    rw [free_detach]
    exact hf.free_nodup
  free_lt x hx := by
    rw [free_detach] at hx
    rw [size_detach]
    exact hf.free_lt x hx
  free_text x hx := by
    rw [free_detach] at hx
    rw [get?_detach hf, hf.free_text x hx]
    rfl
  free_parent x hx := by
    rw [free_detach] at hx
    rw [parent?_detach, hf.free_parent x hx]
    exact ite_self none

/-! ## Appending a node -/

def appended (d : Document) (p c : Handle) : Document :=
  ((d.detach c).modifyChildren p (· ++ [c])).setParent c (some p)

theorem append_of (hf : d.Forest) (hp : d.isElement p) (hw : ¬ d.Within c p) :
    d.append p c = (d.appended p c, true) := by
  unfold append
  rw [(ancestorChain?_eq_none hf).2 hw, hp]
  rfl

theorem append_of_not (hf : d.Forest) (h : ¬ (d.isElement p ∧ ¬ d.Within c p)) :
    d.append p c = (d, false) := by
  unfold append
  rw [if_pos]
  rw [← ancestorChain?_eq_none hf] at h
  simpa [Option.isSome_iff_ne_none, imp_iff_not_or] using h

theorem append_snd (hf : d.Forest) :
    (d.append p c).2 = true ↔ d.isElement p ∧ ¬ d.Within c p := by
  by_cases h : d.isElement p ∧ ¬ d.Within c p
  · rw [append_of hf h.1 h.2]
    exact iff_of_true rfl h
  · rw [append_of_not hf h]
    exact iff_of_false Bool.false_ne_true h

theorem get?_appended (hf : d.Forest) (p c x : Handle) :
    (d.appended p c).get? x = (d.get? x).map (Content.mapChildren fun cs =>
      if x = p then cs.filter (· != c) ++ [c] else cs.filter (· != c)) := by
  refine (get?_modifyChildren (d.detach c) p _ x).trans ?_
  rw [get?_detach hf, Option.map_map]
  split
  · exact congrArg (fun f => (d.get? x).map f) (funext (Content.mapChildren_mapChildren _ _))
  · rfl

theorem children_appended (hf : d.Forest) (hp : d.isElement p) (c x : Handle) :
    (d.appended p c).children x =
      if x = p then (d.children x).filter (· != c) ++ [c]
      else (d.children x).filter (· != c) := by
  rw [children_eq, get?_appended hf, children_eq]
  split
  · next hx =>
    subst hx
    unfold isElement at hp
    split at hp
    · next heq => rw [heq]; rfl
    · cases hp
  · cases d.get? x with
    | none => rfl
    | some content => exact Content.children_mapChildren _ rfl content

theorem parent?_appended (hf : d.Forest) (hc : c < d.size) (p x : Handle) :
    (d.appended p c).parent? x = if x = c then some p else d.parent? x := by
  have hlt : c < (d.detach c).parents.size := by rwa [(hf.detach c).sizes, size_detach]
  refine (parent?_setParent _ c (some p) x).trans ?_
  have hsame : ((d.detach c).modifyChildren p (· ++ [c])).parents = (d.detach c).parents := rfl
  rw [hsame]
  split
  · next hx => rw [if_pos hx.1]
  · next hx =>
    have hne : x ≠ c := fun h => hx ⟨h, hlt⟩
    rw [if_neg hne]
    exact (parent?_detach d c x).trans (if_neg hne)

theorem free_appended (d : Document) (p c : Handle) : (d.appended p c).free = d.free :=
  free_detach d c

theorem size_appended (d : Document) (p c : Handle) : (d.appended p c).size = d.size :=
  Array.size_modify.trans (size_detach d c)

theorem links_appended (hf : d.Forest) (hc : c < d.size) :
    (d.appended p c).Links y x ↔ x = c ∧ y = p ∨ x ≠ c ∧ d.Links y x := by
  unfold Links
  rw [parent?_appended hf hc]
  by_cases hx : x = c <;> simp [hx, eq_comm]

theorem acyclic_appended (hf : d.Forest) (hc : c < d.size) (hw : ¬ d.Within c p) :
    WellFounded (d.appended p c).Links := by
  have outside : ∀ x, ¬ d.Within c x → Acc (d.appended p c).Links x := by
    intro x
    induction x using hf.acyclic.induction with
    | h x ih =>
      refine fun hx => .intro x fun y hy => ?_
      rcases (links_appended hf hc).1 hy with ⟨rfl, _⟩ | ⟨_, link⟩
      · exact absurd (.refl d x) hx
      · exact ih y link fun h => hx (h.trans link.within)
  refine ⟨fun x => ?_⟩
  induction x using hf.acyclic.induction with
  | h x ih =>
    refine .intro x fun y hy => ?_
    rcases (links_appended hf hc).1 hy with ⟨_, rfl⟩ | ⟨_, link⟩
    · exact outside y hw
    · exact ih y link

theorem Forest.appended (hf : d.Forest) (hp : d.isElement p) (hc : d.InUse c)
    (hw : ¬ d.Within c p) : (d.appended p c).Forest where
  sizes := by
    rw [size_appended, ← size_detach d c, ← (hf.detach c).sizes]
    exact Array.size_setIfInBounds
  mem_children q x := by
    rw [children_appended hf hp, links_appended hf hc.1]
    have hq := hf.mem_children q x
    by_cases hx : x = c <;> by_cases hqp : q = p <;> simp [hx, hqp] <;> simp_all
  nodup_children q := by
    have hq := (hf.nodup_children q).filter (· != c)
    rw [children_appended hf hp]
    split
    · exact List.nodup_append.2 ⟨hq, by simp, by simp⟩
    · exact hq
  acyclic := acyclic_appended hf hc.1 hw
  free_nodup := by
    rw [free_appended]
    exact hf.free_nodup
  free_lt x hx := by
    rw [free_appended] at hx
    rw [size_appended]
    exact hf.free_lt x hx
  free_text x hx := by
    rw [free_appended] at hx
    rw [get?_appended hf, hf.free_text x hx]
    rfl
  free_parent x hx := by
    rw [free_appended] at hx
    have hne : x ≠ c := by
      rintro rfl
      exact hc.2 hx
    rw [parent?_appended hf hc.1, if_neg hne]
    exact hf.free_parent x hx

/-! ## Freeing a subtree -/

theorem size_foldl_recycle (d : Document) (ids : List Handle) :
    (ids.foldl recycle d).size = d.size := by
  induction ids generalizing d with
  | nil => rfl
  | cons id ids ih => exact (ih _).trans Array.size_setIfInBounds

theorem free_foldl_recycle (d : Document) (ids : List Handle) :
    (ids.foldl recycle d).free = ids.reverse ++ d.free := by
  induction ids generalizing d with
  | nil => rfl
  | cons id ids ih => simp [ih, recycle]

theorem size_parents_foldl_recycle (d : Document) (ids : List Handle) :
    (ids.foldl recycle d).parents.size = d.parents.size := by
  induction ids generalizing d with
  | nil => rfl
  | cons id ids ih => exact (ih _).trans Array.size_setIfInBounds

theorem get?_foldl_recycle {ids : List Handle} (hids : ∀ id ∈ ids, id < d.size) (x : Handle) :
    (ids.foldl recycle d).get? x = if x ∈ ids then some (.text "") else d.get? x := by
  induction ids generalizing d with
  | nil => rfl
  | cons id ids ih =>
    have hsize : (d.recycle id).size = d.size := Array.size_setIfInBounds
    have hid : id < d.contents.size := hids id (by simp)
    rw [List.foldl_cons, ih fun y hy => hsize ▸ hids y (by simp [hy])]
    by_cases hx : x = id
    · subst hx
      simp [recycle, get?, hid]
    · simp [recycle, get?, hx, Ne.symm hx]

theorem parent?_foldl_recycle (hf : d.parents.size = d.size) {ids : List Handle}
    (hids : ∀ id ∈ ids, id < d.size) (x : Handle) :
    (ids.foldl recycle d).parent? x = if x ∈ ids then none else d.parent? x := by
  induction ids generalizing d with
  | nil => rfl
  | cons id ids ih =>
    have hsize : (d.recycle id).size = d.size := Array.size_setIfInBounds
    have hid : id < d.parents.size := hf ▸ hids id (by simp)
    rw [List.foldl_cons, ih (by rw [hsize, ← hf]; exact Array.size_setIfInBounds)
      fun y hy => hsize ▸ hids y (by simp [hy])]
    have hp : (d.recycle id).parent? x = if x = id then none else d.parent? x :=
      (join_setIfInBounds d.parents id x none).trans (by simp [hid]; rfl)
    by_cases hx : x = id
    · subst hx
      rw [if_pos rfl] at hp
      simp [hp]
    · rw [if_neg hx] at hp
      simp [hp, hx]

theorem perm_pendingWithin (d : Document) (depth : Nat) (id : Handle) :
    (d.pendingWithin depth id).Perm (d.subtreeWithin depth id) := by
  induction depth generalizing id with
  | zero => exact .refl _
  | succ depth ih =>
    exact .cons id (.flatMap (List.reverse_perm _) fun child _ => ih child)

theorem mem_pendingWithin (hf : d.Forest) (hid : id < d.size) :
    x ∈ d.pendingWithin d.size id ↔ d.Within id x :=
  (perm_pendingWithin d d.size id).mem_iff.trans (mem_subtree hf hid)

theorem free_release (d : Document) (id : Handle) :
    (d.release id).free = (d.pendingWithin d.size id).reverse ++ d.free := free_foldl_recycle d _

theorem size_release (d : Document) (id : Handle) : (d.release id).size = d.size :=
  size_foldl_recycle d _

theorem InUse.of_within (hf : d.Forest) (hid : d.InUse id) (hx : d.Within id x) : d.InUse x := by
  obtain ⟨n, hn⟩ := hx
  cases hn with
  | here => exact hid
  | @child n p x above link =>
    refine ⟨(above.child link).lt_size hf, fun h => ?_⟩
    have hnone := hf.free_parent x h
    rw [Links, hnone] at link
    cases link

theorem get?_release (hf : d.Forest) (hid : d.InUse id) (x : Handle) [Decidable (d.Within id x)] :
    (d.release id).get? x = if d.Within id x then some (.text "") else d.get? x := by
  have hmem := mem_pendingWithin hf hid.1 (x := x)
  refine (get?_foldl_recycle (fun y hy => ?_) x).trans (if_congr hmem rfl rfl)
  exact (hid.of_within hf ((mem_pendingWithin hf hid.1).1 hy)).1

theorem parent?_release (hf : d.Forest) (hid : d.InUse id) (x : Handle)
    [Decidable (d.Within id x)] :
    (d.release id).parent? x = if d.Within id x then none else d.parent? x := by
  have hmem := mem_pendingWithin hf hid.1 (x := x)
  refine (parent?_foldl_recycle hf.sizes (fun y hy => ?_) x).trans (if_congr hmem rfl rfl)
  exact (hid.of_within hf ((mem_pendingWithin hf hid.1).1 hy)).1

theorem links_release (hf : d.Forest) (hid : d.InUse id) :
    (d.release id).Links p c ↔ ¬ d.Within id c ∧ d.Links p c := by
  classical
  unfold Links
  rw [parent?_release hf hid]
  by_cases hc : d.Within id c <;> simp [hc]

theorem children_release (hf : d.Forest) (hid : d.InUse id) (x : Handle)
    [Decidable (d.Within id x)] :
    (d.release id).children x = if d.Within id x then [] else d.children x := by
  rw [children_eq, get?_release hf hid, children_eq]
  split <;> rfl

theorem mem_free_release (hf : d.Forest) (hid : d.InUse id) :
    x ∈ (d.release id).free ↔ d.Within id x ∨ x ∈ d.free := by
  rw [free_release, List.mem_append, List.mem_reverse, mem_pendingWithin hf hid.1]

theorem within_iff_of_links (hroot : d.parent? id = none) (link : d.Links p c) :
    d.Within id p ↔ d.Within id c := by
  refine ⟨fun h => h.trans link.within, fun h => h.parent ?_ link⟩
  rintro rfl
  rw [Links, hroot] at link
  cases link

theorem Forest.release (hf : d.Forest) (hid : d.InUse id) (hroot : d.parent? id = none) :
    (d.release id).Forest := by
  classical
  exact {
    sizes := (size_parents_foldl_recycle d _).trans (hf.sizes.trans (size_release d id).symm)
    mem_children := by
      intro p c
      rw [children_release hf hid, links_release hf hid]
      by_cases hp : d.Within id p
      · simp only [hp, if_true, List.not_mem_nil, false_iff]
        exact fun h => h.1 ((within_iff_of_links hroot h.2).1 hp)
      · rw [if_neg hp, hf.mem_children]
        exact ⟨fun link => ⟨fun hc => hp ((within_iff_of_links hroot link).2 hc), link⟩, And.right⟩
    nodup_children := by
      intro p
      rw [children_release hf hid]
      split
      · exact .nil
      · exact hf.nodup_children p
    acyclic := hf.acyclic.mono fun p c h => ((links_release hf hid).1 h).2
    free_nodup := by
      rw [free_release]
      have hnodup := (perm_pendingWithin d d.size id).nodup_iff.2 (nodup_subtreeWithin hf d.size id)
      refine List.nodup_append.2 ⟨List.nodup_reverse.2 hnodup, hf.free_nodup, ?_⟩
      rintro x hx y hy rfl
      rw [List.mem_reverse, mem_pendingWithin hf hid.1] at hx
      exact (hid.of_within hf hx).2 hy
    free_lt := by
      intro x hx
      rw [size_release]
      rcases (mem_free_release hf hid).1 hx with h | h
      · exact (hid.of_within hf h).1
      · exact hf.free_lt x h
    free_text := by
      intro x hx
      rw [get?_release hf hid]
      rcases (mem_free_release hf hid).1 hx with h | h
      · exact if_pos h
      · rw [hf.free_text x h]
        exact ite_self _
    free_parent := by
      intro x hx
      rw [parent?_release hf hid]
      rcases (mem_free_release hf hid).1 hx with h | h
      · exact if_pos h
      · rw [hf.free_parent x h]
        exact ite_self _ }

end Document
end Stencil.Live
