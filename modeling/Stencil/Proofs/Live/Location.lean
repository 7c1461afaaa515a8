import Stencil.Live.Location
import Stencil.Proofs.Live.Walk
import Stencil.Proofs.Point.Path

/-! # Paths down and chains up

`Document.Leads` says where a path leads to when its repeated segments take given indices. Following
a path downwards and matching it against the chain of nodes above an element are both described by
this one relation, so each undoes the other.
-/
namespace Stencil.Live

/-- The indices are so small that every position on the path is a machine word, and so is the
position of the last of the fixed siblings that follow it. -/
def Selector.Fits (s : Selector) (path : Path) : Prop :=
  ∀ key base trailing, .repeated key base trailing ∈ path →
    ∀ i, s.index? key = some i → base + i + trailing < wordSize

theorem Selector.Fits.tail {s : Selector} {segment : Segment} {path : Path}
    (h : s.Fits (segment :: path)) : s.Fits path :=
  fun key base trailing hmem => h key base trailing (List.mem_cons_of_mem segment hmem)

theorem Selector.index?_withIndex (s : Selector) (key : String) (i : Nat) (other : String) :
    (s.withIndex key i).index? other = if other = key then some i else s.index? other :=
  NameMap.find?_insert s.indices key other i

namespace Document
variable {d : Document} {root id p c a e target : Handle} {path : Path} {indices : List Nat}
  {found : Option Nat}

/-- The segments of a path, resolved one after another from a node on, lead to the target; each
repeated segment takes the next index. -/
inductive Leads (d : Document) : Path → List Nat → Handle → Handle → Prop
  | here (id : Handle) : Leads d [] [] id id
  | fixed {segment : Segment} {path : Path} {indices : List Nat} {position : Nat}
      {id child target : Handle} (hkey : segment.key? = none)
      (resolved : segment.resolve none (d.elementChildren id).length = .ok (some position))
      (taken : (d.elementChildren id)[position]? = some child)
      (rest : Leads d path indices child target) : Leads d (segment :: path) indices id target
  | repeated {key : String} {base trailing i : Nat} {path : Path} {indices : List Nat}
      {position : Nat} {id child target : Handle}
      (resolved : (Segment.repeated key base trailing).resolve (some i)
        (d.elementChildren id).length = .ok (some position))
      (taken : (d.elementChildren id)[position]? = some child)
      (rest : Leads d path indices child target) :
      Leads d (.repeated key base trailing :: path) (i :: indices) id target

/-! ## Element children -/

theorem mem_elementChildren (hf : d.Forest) :
    c ∈ d.elementChildren p ↔ d.Links p c ∧ d.isElement c := by
  rw [elementChildren, List.mem_filter, hf.mem_children]

theorem nodup_elementChildren (hf : d.Forest) (p : Handle) : (d.elementChildren p).Nodup :=
  (hf.nodup_children p).filter _

theorem length_elementChildren_le (hf : d.Forest) (p : Handle) :
    (d.elementChildren p).length ≤ d.size := by
  have hsub : d.elementChildren p ⊆ List.range d.size := by
    intro c hc
    rw [List.mem_range]
    exact (Below.child .here ((mem_elementChildren hf).1 hc).1).lt_size hf
  have hle := ((nodup_elementChildren hf p).subperm hsub).length_le
  rwa [List.length_range] at hle

theorem isElement_of_links (hf : d.Forest) (h : d.Links p c) : d.isElement p := by
  have hmem := (hf.mem_children p c).2 h
  unfold children at hmem
  unfold isElement
  split at hmem
  · next heq => rfl
  · cases hmem

theorem step?_eq_some_iff (hf : d.Forest) {s : Step} :
    d.step? p c = some s ↔
      (d.elementChildren p)[s.index]? = some c ∧ s.siblings = (d.elementChildren p).length := by
  unfold step?
  rw [Option.map_eq_some_iff]
  constructor
  · rintro ⟨k, hk, rfl⟩
    obtain ⟨hlt, hget, _⟩ := List.idxOf?_eq_some_iff.1 hk
    exact ⟨List.getElem?_eq_some_iff.2 ⟨hlt, hget⟩, rfl⟩
  · rintro ⟨hget, hsiblings⟩
    obtain ⟨hlt, hget⟩ := List.getElem?_eq_some_iff.1 hget
    refine ⟨s.index, ?_, ?_⟩
    · refine List.idxOf?_eq_some_iff.2 ⟨hlt, hget, fun j hj he => ?_⟩
      have hij := (nodup_elementChildren hf p).getElem_inj_iff.1 (he.trans hget.symm)
      exact Nat.ne_of_lt hj hij
    · cases s
      exact congrArg _ hsiblings.symm

theorem step?_isSome (hf : d.Forest) : (d.step? p c).isSome ↔ d.Links p c ∧ d.isElement c := by
  rw [step?, Option.isSome_map, List.isSome_idxOf?, mem_elementChildren hf]

/-! ## Downwards -/

theorem Leads.level (hf : d.Forest) (h : d.Leads path indices id target) :
    d.Below id path.length target := by
  have deeper {id child target : Handle} {position n : Nat}
      (taken : (d.elementChildren id)[position]? = some child) (h : d.Below child n target) :
      d.Below id (n + 1) target := by
    have link := ((mem_elementChildren hf).1 (List.mem_of_getElem? taken)).1
    rw [Nat.add_comm]
    exact (Below.child .here link).trans h
  induction h with
  | here id => exact .here
  | fixed _ _ taken _ ih => exact deeper taken ih
  | repeated _ taken _ ih => exact deeper taken ih

section Following
variable {s t : Selector} {segment : Segment} {front back : Path} {parent : Handle}

theorem follow?_cons_eq_some_iff :
    d.follow? s (segment :: path) id = .ok (some e) ↔
      ∃ position child,
        segment.resolve (segment.key?.bind s.index?) (d.elementChildren id).length =
            .ok (some position) ∧
          (d.elementChildren id)[position]? = some child ∧ d.follow? s path child = .ok (some e) := by
  rw [follow?, Checked.bind_eq_ok]
  constructor
  · rintro ⟨position, hposition, h⟩
    cases hchild : position.bind ((d.elementChildren id)[·]?) with
    | none =>
      rw [hchild] at h
      cases h
    | some child =>
      rw [hchild] at h
      obtain ⟨position, rfl, htaken⟩ := Option.bind_eq_some_iff.1 hchild
      exact ⟨position, child, hposition, htaken, h⟩
  · rintro ⟨position, child, hposition, htaken, h⟩
    refine ⟨some position, hposition, ?_⟩
    rw [Option.bind_some, htaken]
    exact h

/-- Following a path takes the indices that the selector has for the keys on it. -/
theorem follow?_eq_some_iff :
    d.follow? s path id = .ok (some e) ↔
      ∃ indices : List Nat, path.keys.map s.index? = indices.map some ∧
        d.Leads path indices id e := by
  induction path generalizing id with
  | nil =>
    constructor
    · intro h
      cases h
      exact ⟨[], rfl, .here e⟩
    · rintro ⟨indices, _, h⟩
      cases h
      rfl
  | cons segment path ih =>
    rw [follow?_cons_eq_some_iff]
    cases hkey : segment.key? with
    | none =>
      simp only [Path.keys_fixed hkey, Option.bind_none]
      constructor
      · rintro ⟨position, child, hres, htaken, hrest⟩
        obtain ⟨indices, hindices, hleads⟩ := ih.1 hrest
        exact ⟨indices, hindices, .fixed hkey hres htaken hleads⟩
      · rintro ⟨indices, hindices, h⟩
        cases h with
        | fixed _ hres htaken hleads =>
          exact ⟨_, _, hres, htaken, ih.2 ⟨indices, hindices, hleads⟩⟩
        | repeated => cases hkey
    | some key =>
      obtain ⟨base, trailing, rfl⟩ := Segment.key?_eq_some_iff.1 hkey
      simp only [Path.keys_repeated, List.map_cons, Option.bind_some]
      constructor
      · rintro ⟨position, child, hres, htaken, hrest⟩
        obtain ⟨indices, hindices, hleads⟩ := ih.1 hrest
        cases hi : s.index? key with
        | none =>
          rw [hi, Segment.resolve_repeated_none] at hres
          cases hres
        | some i =>
          rw [hi] at hres
          exact ⟨i :: indices, by rw [hindices, List.map_cons], .repeated hres htaken hleads⟩
      · rintro ⟨indices, hindices, h⟩
        cases h with
        | fixed hkey' => cases hkey'
        | repeated hres htaken hleads =>
          obtain ⟨hi, hrest⟩ := List.cons.inj hindices
          exact ⟨_, _, hi ▸ hres, htaken, ih.2 ⟨_, hrest, hleads⟩⟩

theorem follow?_congr (h : ∀ key ∈ path.keys, s.index? key = t.index? key) :
    d.follow? s path id = d.follow? t path id := by
  induction path generalizing id with
  | nil => rfl
  | cons segment path ih =>
    have hindex : segment.key?.bind s.index? = segment.key?.bind t.index? := by
      cases hkey : segment.key? with
      | none => rfl
      | some key => exact h key (List.mem_filterMap.2 ⟨segment, List.mem_cons_self, hkey⟩)
    have hrest : ∀ key ∈ Path.keys path, s.index? key = t.index? key := by
      intro key hmem
      obtain ⟨other, hother, hkey⟩ := List.mem_filterMap.1 hmem
      exact h key (List.mem_filterMap.2 ⟨other, List.mem_cons_of_mem segment hother, hkey⟩)
    simp only [follow?, hindex, ih hrest]

theorem exists_follow? (hpath : ∀ segment ∈ path, segment.FitsIn wordSize) (hfits : s.Fits path)
    (d : Document) (id : Handle) : ∃ found, d.follow? s path id = .ok found := by
  induction path generalizing id with
  | nil => exact ⟨_, rfl⟩
  | cons segment path ih =>
    obtain ⟨hsegment, hpath⟩ := List.forall_mem_cons.1 hpath
    obtain ⟨position, hposition⟩ : ∃ position, segment.resolve (segment.key?.bind s.index?)
        (d.elementChildren id).length = .ok position := by
      refine hsegment.resolve (fun key base trailing i heq hi => ?_) _
      subst heq
      exact hfits key base trailing List.mem_cons_self i hi
    rw [follow?, hposition, Checked.ok_bind]
    cases position.bind ((d.elementChildren id)[·]?) with
    | none => exact ⟨none, rfl⟩
    | some child => exact ih hpath hfits.tail child

theorem follow?_append (h : d.follow? s front id = .ok (some parent)) :
    d.follow? s (front ++ back) id = d.follow? s back parent := by
  induction front generalizing id with
  | nil =>
    cases h
    rfl
  | cons segment front ih =>
    obtain ⟨position, child, hposition, htaken, h⟩ := follow?_cons_eq_some_iff.1 h
    rw [List.cons_append, follow?, hposition, Checked.ok_bind, Option.bind_some, htaken]
    exact ih h

variable {key : String} {base trailing i : Nat}

theorem follow?_repeated (hi : s.index? key = some i) (hword : base + i + trailing < wordSize) :
    d.follow? s [.repeated key base trailing] id =
      .ok (if base + i + trailing < (d.elementChildren id).length
        then (d.elementChildren id)[base + i]? else none) := by
  have hindex : (Segment.repeated key base trailing).key?.bind s.index? = some i := hi
  rw [follow?, hindex, Segment.resolve_repeated_of_lt hword, Checked.ok_bind]
  by_cases hlt : base + i + trailing < (d.elementChildren id).length
  · have hposition : base + i < (d.elementChildren id).length := by omega
    rw [if_pos hlt, if_pos hlt, Option.bind_some, List.getElem?_eq_getElem hposition]
    rfl
  · rw [if_neg hlt, if_neg hlt]
    rfl

theorem follow?_repeated_of_le (hi : s.index? key = some i)
    (hword : wordSize ≤ base + i + trailing) :
    d.follow? s (.repeated key base trailing :: path) id = .error {} := by
  have hindex : (Segment.repeated key base trailing).key?.bind s.index? = some i := hi
  rw [follow?, hindex, Segment.resolve_repeated_of_le hword, Checked.error_bind]

end Following

/-! ## Upwards -/

/-- The chain has steps all the way unless it ends in a text. -/
theorem steps?_isSome (hf : d.Forest) {chain : List Handle} (hc : (root :: chain).IsChain d.Links)
    (hlast : (root :: chain).getLast? = some target) :
    (d.steps? (root :: chain)).isSome ↔ target = root ∨ d.isElement target := by
  induction chain generalizing root with
  | nil =>
    cases hlast
    exact iff_of_true rfl (.inl rfl)
  | cons child chain ih =>
    obtain ⟨link, htail⟩ := List.isChain_cons_cons.1 hc
    rw [List.getLast?_cons_cons] at hlast
    have hbelow : d.Within child target := by
      rw [List.getLast?_eq_getElem?] at hlast
      exact (below_of_isChain htail hlast).within
    have hne : target ≠ root := by
      rintro rfl
      exact link.not_within hf hbelow
    have hchild : target = child ∨ d.isElement child := by
      rcases hbelow with ⟨n, hn⟩
      cases n with
      | zero => cases hn; exact .inl rfl
      | succ n =>
        obtain ⟨x, hx, _⟩ := hn.first_step
        exact .inr (isElement_of_links hf hx)
    constructor
    · intro h
      obtain ⟨steps, h⟩ := Option.isSome_iff_exists.1 h
      rw [steps?, Option.bind_eq_some_iff] at h
      obtain ⟨s, hs, h⟩ := h
      obtain ⟨rest, hrest, _⟩ := Option.map_eq_some_iff.1 h
      rcases (ih htail hlast).1 (Option.isSome_of_eq_some hrest) with rfl | h
      · exact .inr ((step?_isSome hf).1 (Option.isSome_of_eq_some hs)).2
      · exact .inr h
    · rintro (h | h)
      · exact absurd h hne
      · have helement : d.isElement child := hchild.elim (fun he => he ▸ h) id
        obtain ⟨s, hs⟩ := Option.isSome_iff_exists.1 ((step?_isSome hf).2 ⟨link, helement⟩)
        obtain ⟨rest, hrest⟩ := Option.isSome_iff_exists.1 ((ih htail hlast).2 (.inr h))
        rw [steps?, hs, Option.bind_some, hrest]
        rfl

theorem steps?_cons {chain : List Handle} {steps : List Step}
    (h : d.steps? (root :: c :: chain) = some steps) :
    ∃ s rest, steps = s :: rest ∧ d.step? root c = some s ∧ d.steps? (c :: chain) = some rest := by
  rw [steps?, Option.bind_eq_some_iff] at h
  obtain ⟨s, hs, h⟩ := h
  obtain ⟨rest, hrest, rfl⟩ := Option.map_eq_some_iff.1 h
  exact ⟨s, rest, rfl, hs, hrest⟩

theorem step_of_taken (hf : d.Forest) {chain : List Handle} {child : Handle} {position n : Nat}
    {s : Step} (hc : (root :: c :: chain).IsChain d.Links) (ha : (c :: chain)[n]? = some a)
    (hchild : d.Below child n a) (taken : (d.elementChildren root)[position]? = some child)
    (hs : d.step? root c = some s) :
    child = c ∧ s = ⟨position, (d.elementChildren root).length⟩ := by
  obtain rfl := hchild.top_unique (below_of_isChain (List.isChain_cons_cons.1 hc).2 ha)
  obtain ⟨hget, hsiblings⟩ := (step?_eq_some_iff hf).1 hs
  obtain ⟨hlt, hget⟩ := List.getElem?_eq_some_iff.1 hget
  obtain ⟨hlt', taken⟩ := List.getElem?_eq_some_iff.1 taken
  have hindex := (nodup_elementChildren hf root).getElem_inj_iff.1 (hget.trans taken.symm)
  cases s
  cases hindex
  cases hsiblings
  exact ⟨rfl, rfl⟩

theorem length_steps? {chain : List Handle} {steps : List Step}
    (h : d.steps? (root :: chain) = some steps) : steps.length = chain.length := by
  induction chain generalizing root steps with
  | nil =>
    cases h
    rfl
  | cons c chain ih =>
    obtain ⟨s, later, rfl, _, hlater⟩ := steps?_cons h
    rw [List.length_cons, List.length_cons, ih hlater]

theorem captureSteps_cons {segment : Segment} {s : Step} {steps : List Step} :
    captureSteps (segment :: path) (s :: steps) = .ok (some found) ↔
      ∃ index later, segment.capture s.index s.siblings = .ok (some index) ∧
        captureSteps path steps = .ok (some later) ∧ found = later.or index := by
  rw [captureSteps, Checked.bind_eq_ok]
  constructor
  · rintro ⟨index, hcapture, h⟩
    cases index with
    | none => cases h
    | some index =>
      obtain ⟨later, hlater, h⟩ := Checked.bind_eq_ok.1 h
      obtain ⟨later, rfl, rfl⟩ := Option.map_eq_some_iff.1 (Except.ok.inj h)
      exact ⟨index, later, hcapture, hlater, rfl⟩
  · rintro ⟨index, later, hcapture, hlater, rfl⟩
    refine ⟨some index, hcapture, ?_⟩
    simp only [hlater, Checked.ok_bind]
    rfl

/-- What a path leads to is recognized, and with the last index taken. -/
theorem Leads.captureSteps (hf : d.Forest) (h : d.Leads path indices root a)
    {chain : List Handle} {steps : List Step}
    (hc : (root :: chain).IsChain d.Links) (ha : (root :: chain)[path.length]? = some a)
    (hs : d.steps? (root :: chain) = some steps) :
    captureSteps path steps = .ok (some indices.getLast?) := by
  induction h generalizing chain steps with
  | here id => rfl
  | fixed hkey resolved taken rest ih =>
    cases chain with
    | nil => cases ha
    | cons c chain =>
      obtain ⟨s, later, rfl, hstep, hlater⟩ := steps?_cons hs
      obtain ⟨rfl, rfl⟩ := step_of_taken hf hc ha (rest.level hf) taken hstep
      exact captureSteps_cons.2 ⟨none, _, Segment.capture_of_resolve_fixed hkey resolved,
        ih (List.isChain_cons_cons.1 hc).2 ha hlater, Option.or_none.symm⟩
  | @repeated key base trailing i path indices position id child target resolved taken rest ih =>
    cases chain with
    | nil => cases ha
    | cons c chain =>
      obtain ⟨s, later, rfl, hstep, hlater⟩ := steps?_cons hs
      obtain ⟨rfl, rfl⟩ := step_of_taken hf hc ha (rest.level hf) taken hstep
      refine captureSteps_cons.2 ⟨some i, _, Segment.capture_of_resolve_repeated resolved,
        ih (List.isChain_cons_cons.1 hc).2 ha hlater, ?_⟩
      rw [List.getLast?_cons]
      cases indices.getLast? <;> rfl

theorem Leads.capturePath (hf : d.Forest) (h : d.Leads path indices root a)
    {chain : List Handle} {steps : List Step}
    (hc : (root :: chain).IsChain d.Links) (ha : (root :: chain)[path.length]? = some a)
    (hs : d.steps? (root :: chain) = some steps) :
    capturePath path steps = .ok (some indices.getLast?) := by
  obtain ⟨hlt, _⟩ := List.getElem?_eq_some_iff.1 ha
  rw [List.length_cons, ← length_steps? hs] at hlt
  rw [Live.capturePath, if_neg (by omega)]
  exact h.captureSteps hf hc ha hs

theorem leads_of_captureSteps (hf : d.Forest) {chain : List Handle} {steps : List Step}
    {last : Option Nat} (hc : (root :: chain).IsChain d.Links)
    (hs : d.steps? (root :: chain) = some steps) (hlength : path.length ≤ chain.length)
    (h : captureSteps path steps = .ok (some last)) :
    ∃ a indices, (root :: chain)[path.length]? = some a ∧ d.Leads path indices root a ∧
      last = indices.getLast? := by
  induction path generalizing root chain steps last with
  | nil =>
    cases h
    exact ⟨root, [], rfl, .here root, rfl⟩
  | cons segment path ih =>
    cases chain with
    | nil => exact absurd hlength (Nat.not_succ_le_zero _)
    | cons c chain =>
      obtain ⟨s, later, rfl, hstep, hlater⟩ := steps?_cons hs
      obtain ⟨taken, hsiblings⟩ := (step?_eq_some_iff hf).1 hstep
      have hlt := (List.getElem?_eq_some_iff.1 taken).1
      obtain ⟨index, last, hcapture, hlast, rfl⟩ := captureSteps_cons.1 h
      rw [hsiblings] at hcapture
      obtain ⟨a, indices, ha, hleads, rfl⟩ := ih (List.isChain_cons_cons.1 hc).2 hlater
        (Nat.le_of_succ_le_succ hlength) hlast
      cases hkey : segment.key? with
      | none =>
        obtain ⟨rfl, hres⟩ := Segment.resolve_of_capture_fixed hkey hlt hcapture
        exact ⟨a, indices, ha, .fixed hkey hres taken hleads, Option.or_none⟩
      | some key =>
        obtain ⟨base, trailing, rfl⟩ := Segment.key?_eq_some_iff.1 hkey
        obtain ⟨i, rfl, hres⟩ := Segment.resolve_of_capture_repeated hcapture
        refine ⟨a, i :: indices, ha, .repeated hres taken hleads, ?_⟩
        rw [List.getLast?_cons]
        cases indices.getLast? <;> rfl

theorem leads_of_capturePath (hf : d.Forest) {chain : List Handle} {steps : List Step}
    {last : Option Nat} (hc : (root :: chain).IsChain d.Links)
    (hs : d.steps? (root :: chain) = some steps) (h : capturePath path steps = .ok (some last)) :
    ∃ a indices, (root :: chain)[path.length]? = some a ∧ d.Leads path indices root a ∧
      last = indices.getLast? := by
  unfold capturePath at h
  split at h
  · cases h
  · next hlt =>
    exact leads_of_captureSteps hf hc hs (by rw [← length_steps? hs]; omega) h

/-! ## Without overflow -/

theorem index_lt_of_steps? (hf : d.Forest) {chain : List Handle} {steps : List Step}
    (h : d.steps? (root :: chain) = some steps) : ∀ s ∈ steps, s.index < d.size := by
  induction chain generalizing root steps with
  | nil =>
    cases h
    exact fun s hs => nomatch hs
  | cons c chain ih =>
    obtain ⟨s, later, rfl, hstep, hlater⟩ := steps?_cons h
    refine List.forall_mem_cons.2 ⟨?_, ih hlater⟩
    obtain ⟨hlt, _⟩ := List.getElem?_eq_some_iff.1 ((step?_eq_some_iff hf).1 hstep).1
    exact hlt.trans_le (length_elementChildren_le hf root)

end Document

variable {limit : Nat} {path : Path} {steps : List Step}

theorem exists_captureSteps (hpath : ∀ segment ∈ path, segment.FitsIn limit)
    (hsteps : ∀ s ∈ steps, s.index + limit ≤ wordSize) :
    ∃ found, captureSteps path steps = .ok found := by
  induction path generalizing steps with
  | nil => exact ⟨_, rfl⟩
  | cons segment path ih =>
    cases steps with
    | nil => exact ⟨_, rfl⟩
    | cons s steps =>
      obtain ⟨hsegment, hpath⟩ := List.forall_mem_cons.1 hpath
      obtain ⟨hstep, hsteps⟩ := List.forall_mem_cons.1 hsteps
      obtain ⟨index, hindex⟩ := hsegment.capture hstep s.siblings
      obtain ⟨later, hlater⟩ := ih hpath hsteps
      cases index with
      | none => exact ⟨none, by rw [captureSteps, hindex]; rfl⟩
      | some index => exact ⟨later.map (·.or index), by simp [captureSteps, hindex, hlater]⟩

theorem exists_capturePath (hpath : ∀ segment ∈ path, segment.FitsIn limit)
    (hsteps : ∀ s ∈ steps, s.index + limit ≤ wordSize) :
    ∃ found, capturePath path steps = .ok found := by
  unfold capturePath
  split
  · exact ⟨none, rfl⟩
  · exact exists_captureSteps hpath hsteps

theorem exists_matchPoints {points : NameMap PointEntry}
    (hpoints : ∀ point ∈ points, ∀ segment ∈ point.2.path, segment.FitsIn limit)
    (hsteps : ∀ s ∈ steps, s.index + limit ≤ wordSize) :
    ∃ loc, matchPoints steps points = .ok loc := by
  induction points with
  | nil => exact ⟨[], rfl⟩
  | cons point points ih =>
    obtain ⟨hpoint, hpoints⟩ := List.forall_mem_cons.1 hpoints
    obtain ⟨found, hfound⟩ := exists_capturePath hpoint hsteps
    obtain ⟨rest, hrest⟩ := ih hpoints
    cases found with
    | none => exact ⟨rest, by simp [matchPoints, hfound, hrest]⟩
    | some index => exact ⟨(point.1, index.getD 0) :: rest, by simp [matchPoints, hfound, hrest]⟩

end Stencil.Live
