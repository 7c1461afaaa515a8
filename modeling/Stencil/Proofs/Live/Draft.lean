import Stencil.Live.Materialize
import Stencil.Proofs.Live.Fragment

/-! # Reading markup into a tree

A draft is what has been read of some markup as nested fragments, apart from any document: the
innermost open element with what stands in it so far, and the elements around it. `Draft.step` takes
one token. Building markup below an element of a document goes through the same drafts: the open
elements are a path down to the place where the next node goes, and what stands beside that path is
finished.
-/
namespace Stencil.Live

/-- An element that is still open, with what stands in it so far. -/
structure Frame where
  tag : String
  attributes : Attributes
  before : List Fragment

namespace Frame

def close (f : Frame) : Fragment := .element f.tag f.attributes f.before

def add (f : Frame) (child : Fragment) : Frame := { f with before := f.before ++ [child] }

def addText (f : Frame) (s : String) : Frame :=
  match f.before.getLast? with
  | some (.text t) => { f with before := f.before.dropLast ++ [.text (t ++ s)] }
  | _ => f.add (.text s)

end Frame

/-- The innermost open element and those around it; the last of all is never closed by markup. -/
structure Draft where
  inner : Frame
  outer : List Frame

namespace Draft

/-- Whether an element of that name is open, the last one not counted. -/
def isOpen (tag : String) : Frame → List Frame → Bool
  | _, [] => false
  | f, g :: outer => f.tag == tag || isOpen tag g outer

theorem isOpen_add (tag : String) (f : Frame) (child : Fragment) (outer : List Frame) :
    isOpen tag (f.add child) outer = isOpen tag f outer := by
  cases outer with
  | nil => rfl
  | cons g outer => rfl

/-- Closes elements from the innermost on, up to and including the first one of that name. -/
def closeThrough (tag : String) (f : Frame) : List Frame → Draft
  | [] => ⟨f, []⟩
  | g :: outer =>
    if f.tag = tag then ⟨g.add f.close, outer⟩ else closeThrough tag (g.add f.close) outer

def step (b : Draft) : Markup.Token → Draft
  | .startTag name attributes selfClosing =>
    if selfClosing || isChildless name then ⟨b.inner.add (.element name attributes []), b.outer⟩
    else ⟨⟨name, attributes, []⟩, b.inner :: b.outer⟩
  | .endTag name => if isOpen name b.inner b.outer then closeThrough name b.inner b.outer else b
  | .text s => ⟨b.inner.addText s, b.outer⟩

/-- Closes everything that is open; what is left is the outermost element. -/
def finish (f : Frame) : List Frame → Frame
  | [] => f
  | g :: outer => finish (g.add f.close) outer

def read (tag : String) (attributes : Attributes) (tokens : List Markup.Token) : Fragment :=
  let b := tokens.foldl step ⟨⟨tag, attributes, []⟩, []⟩
  (finish b.inner b.outer).close

end Draft

namespace Document
variable {d d' : Document} {p c x : Handle} {content : Content}

/-! ## A new child -/

/-- The document with a new node as the last child of `p`. -/
def planted (d : Document) (p : Handle) (content : Content) : Document :=
  (d.alloc content).2.appended p d.fresh

theorem inUse_of_isElement (hf : d.Forest) (hp : d.isElement p) : d.InUse p := by
  unfold isElement at hp
  split at hp
  · next heq =>
    refine ⟨get?_lt_size heq, fun h => ?_⟩
    rw [hf.free_text p h] at heq
    cases heq
  · cases hp

theorem ne_fresh_of_isElement (hf : d.Forest) (hp : d.isElement p) : p ≠ d.fresh := by
  rintro rfl
  exact not_inUse_fresh d (inUse_of_isElement hf hp)

theorem isElement_alloc (hf : d.Forest) (hp : d.isElement p) (content : Content) :
    (d.alloc content).2.isElement p := by
  unfold isElement at *
  rwa [get?_alloc hf, if_neg (ne_fresh_of_isElement hf hp)]

theorem not_within_fresh (hf : d.Forest) (hp : d.isElement p) (hc : content.children = []) :
    ¬ (d.alloc content).2.Within d.fresh p := by
  rintro ⟨n, hn⟩
  cases n with
  | zero => cases hn; exact ne_fresh_of_isElement hf hp rfl
  | succ n =>
    obtain ⟨q, link, _⟩ := hn.first_step
    have hq := ((hf.alloc hc).mem_children d.fresh q).2 link
    rw [children_alloc hf hc, children_fresh hf] at hq
    cases hq

theorem append_alloc (hf : d.Forest) (hp : d.isElement p) (hc : content.children = []) :
    (d.alloc content).2.append p d.fresh = (d.planted p content, true) :=
  append_of (hf.alloc hc) (isElement_alloc hf hp content) (not_within_fresh hf hp hc)

theorem Forest.planted (hf : d.Forest) (hp : d.isElement p) (hc : content.children = []) :
    (d.planted p content).Forest :=
  (hf.alloc hc).appended (isElement_alloc hf hp content)
    ((inUse_alloc hf content d.fresh).2 (.inl rfl)) (not_within_fresh hf hp hc)

theorem parent?_planted (hf : d.Forest) (hc : content.children = []) (p x : Handle) :
    (d.planted p content).parent? x = if x = d.fresh then some p else d.parent? x := by
  have hlt := fresh_lt_size_alloc hf content
  rw [planted, parent?_appended (hf.alloc hc) hlt, parent?_alloc hf]

theorem get?_planted (hf : d.Forest) (hp : d.isElement p) (hc : content.children = [])
    (x : Handle) :
    (d.planted p content).get? x =
      if x = d.fresh then some content
      else if x = p then (d.get? x).map (Content.mapChildren (· ++ [d.fresh]))
      else d.get? x := by
  rw [planted, get?_appended (hf.alloc hc), get?_alloc hf]
  by_cases hx : x = d.fresh
  · have hne : x ≠ p := fun h => ne_fresh_of_isElement hf hp (h ▸ hx)
    rw [if_pos hx, if_pos hx]
    refine congrArg some (Content.mapChildren_eq_self ?_)
    simp [hc, hne]
  · have hlinks : ¬ d.Links x d.fresh := by simp [Links, parent?_fresh hf]
    have hfilter := filter_children_of_not_links hf hlinks
    rw [if_neg hx, if_neg hx]
    cases hg : d.get? x with
    | none => simp
    | some e =>
      rw [children_of_get? hg] at hfilter
      cases e with
      | text s => simp [Content.mapChildren]
      | element tag attributes children =>
        replace hfilter : children.filter (· != d.fresh) = children := hfilter
        by_cases hp' : x = p <;> simp [Content.mapChildren, hfilter, hp']

/-! ## A longer text -/

def retexted (d : Document) (id : Handle) (s : String) : Document :=
  { d with contents := d.contents.setIfInBounds id (.text s) }

theorem get?_retexted {s t : String} (h : d.get? c = some (.text t)) (x : Handle) :
    (d.retexted c s).get? x = if x = c then some (.text s) else d.get? x := by
  have hlt : c < d.contents.size := get?_lt_size h
  by_cases hx : x = c
  · subst hx
    simp [get?, retexted, hlt]
  · simp [get?, retexted, hx, Ne.symm hx]

theorem children_retexted {s t : String} (h : d.get? c = some (.text t)) (x : Handle) :
    (d.retexted c s).children x = d.children x := by
  rw [children_eq, get?_retexted h, children_eq]
  split
  · next hx => rw [hx, h]; rfl
  · rfl

theorem Forest.retexted (hf : d.Forest) {s t : String} (h : d.get? c = some (.text t))
    (hfree : c ∉ d.free) : (d.retexted c s).Forest where
  sizes := hf.sizes.trans Array.size_setIfInBounds.symm
  mem_children p x := by
    rw [children_retexted h]
    exact hf.mem_children p x
  nodup_children p := by
    rw [children_retexted h]
    exact hf.nodup_children p
  acyclic := hf.acyclic
  free_nodup := hf.free_nodup
  free_lt x hx := Nat.lt_of_lt_of_eq (hf.free_lt x hx) Array.size_setIfInBounds.symm
  free_text x hx := by
    have hne : x ≠ c := fun he => hfree (he ▸ hx)
    rw [get?_retexted h, if_neg hne]
    exact hf.free_text x hx
  free_parent := hf.free_parent

/-! ## The path of open elements -/

/-- The element under `h` is the one of the frame: its finished children show what stands before,
and the child that is still open, if there is one, comes behind them. -/
def Holds (d : Document) (inner : Option Handle) (f : Frame) (h : Handle) : Prop :=
  ∃ cs, d.get? h = some (.element f.tag f.attributes (cs ++ inner.toList)) ∧
    cs.map d.fragment = f.before

/-- The frames of a draft stand under the handles, each below the next; `inner` is the open child of
the first one. -/
inductive Spine (d : Document) : Option Handle → List Frame → List Handle → Prop
  | nil {inner : Option Handle} : Spine d inner [] []
  | cons {inner : Option Handle} {f : Frame} {fs : List Frame} {h : Handle} {hs : List Handle}
      (head : d.Holds inner f h) (tail : Spine d (some h) fs hs) :
      Spine d inner (f :: fs) (h :: hs)

variable {inner : Option Handle} {f g : Frame} {fs : List Frame} {h k : Handle} {hs : List Handle}

theorem Holds.isElement (hh : d.Holds inner f h) : d.isElement h := by
  obtain ⟨cs, hget, _⟩ := hh
  simp [Document.isElement, hget]

theorem Holds.tag? (hh : d.Holds inner f h) : d.tag? h = some f.tag := by
  obtain ⟨cs, hget, _⟩ := hh
  simp [Document.tag?, hget]

theorem Holds.links (hf : d.Forest) (hh : d.Holds (some k) f h) : d.Links h k := by
  obtain ⟨cs, hget, _⟩ := hh
  refine (hf.mem_children h k).1 ?_
  rw [children_of_get? hget]
  simp [Content.children]

theorem Holds.fragment (hf : d.Forest) (hh : d.Holds none f h) : d.fragment h = f.close := by
  obtain ⟨cs, hget, hbefore⟩ := hh
  rw [fragment_of_element hf hget, Option.toList_none, List.append_nil, hbefore]
  rfl

theorem Holds.add (hh : d.Holds (some k) f h) : d.Holds none (f.add (d.fragment k)) h := by
  obtain ⟨cs, hget, hbefore⟩ := hh
  exact ⟨cs ++ [k], by simpa [Frame.add] using hget, by simp [Frame.add, hbefore]⟩

theorem Spine.length_eq (hs' : Spine d inner fs hs) : fs.length = hs.length := by
  induction hs' with
  | nil => rfl
  | cons _ _ ih => exact congrArg (· + 1) ih

theorem Spine.isElement (hs' : Spine d inner fs hs) : ∀ x ∈ hs, d.isElement x := by
  induction hs' with
  | nil => exact nofun
  | cons head _ ih => exact List.forall_mem_cons.2 ⟨head.isElement, ih⟩

theorem Spine.add (hs' : Spine d (some k) (f :: fs) (h :: hs)) :
    Spine d none (f.add (d.fragment k) :: fs) (h :: hs) := by
  cases hs' with
  | cons head tail => exact .cons head.add tail

theorem Spine.close (hf : d.Forest) (hs' : Spine d none (f :: g :: fs) (h :: hs)) :
    Spine d none (g.add f.close :: fs) hs := by
  cases hs' with
  | cons head tail =>
    cases tail with
    | cons next rest => exact head.fragment hf ▸ .cons next.add rest

theorem Spine.finish (hf : d.Forest) (hs' : Spine d none (f :: fs) (hs ++ [c])) :
    d.fragment c = (Draft.finish f fs).close := by
  induction hs generalizing f fs with
  | nil =>
    cases hs' with
    | cons head tail =>
      cases tail with
      | nil => exact head.fragment hf
  | cons h hs ih =>
    cases fs with
    | nil =>
      have hlen := hs'.length_eq
      simp at hlen
    | cons g fs =>
      have hfinish := ih (hs'.close hf)
      exact hfinish

/-- The elements that an end tag closes are those that the draft closes. -/
theorem Spine.closeThrough (hf : d.Forest) (tag : String)
    (hs' : Spine d none (f :: fs) (hs ++ [c])) :
    match hs.dropWhile (d.tag? · != some tag) with
    | [] => Draft.isOpen tag f fs = false
    | _ :: rest => Draft.isOpen tag f fs = true ∧
        Spine d none ((Draft.closeThrough tag f fs).inner :: (Draft.closeThrough tag f fs).outer)
          (rest ++ [c]) := by
  induction hs generalizing f fs with
  | nil =>
    cases hs' with
    | cons head tail =>
      cases tail with
      | nil => rfl
  | cons h hs ih =>
    have htag : d.tag? h = some f.tag := by
      cases hs' with
      | cons head _ => exact head.tag?
    cases fs with
    | nil =>
      have hlen := hs'.length_eq
      simp at hlen
    | cons g fs =>
      have hclose := hs'.close hf
      by_cases he : f.tag = tag
      · simp only [List.dropWhile_cons, htag, he, bne_self_eq_false, Bool.false_eq_true, if_false]
        simp only [Draft.isOpen, Draft.closeThrough, he, beq_self_eq_true, Bool.true_or, if_true,
          true_and]
        exact hclose
      · have hne : (f.tag == tag) = false := by simpa using he
        have hne' : (some f.tag != some tag) = true := by simpa using he
        simp only [List.dropWhile_cons, htag, hne', if_true]
        simp only [Draft.isOpen, Draft.closeThrough, hne, he, Bool.false_or, if_false]
        have := ih hclose
        rwa [Draft.isOpen_add] at this

theorem Holds.congr_outside (hf : d.Forest) (hf' : d'.Forest) (hh : d.Holds (some k) f h)
    (hp : d.Within k p) (same : ∀ x, d.InUse x → ¬ d.Within p x → d'.get? x = d.get? x) :
    d'.Holds (some k) f h := by
  have link := hh.links hf
  have hin := inUse_of_isElement hf hh.isElement
  obtain ⟨cs, hget, hbefore⟩ := hh
  have hchildren : d.children h = cs ++ [k] := children_of_get? hget
  have hnodup := hf.nodup_children h
  rw [hchildren, List.nodup_append] at hnodup
  refine ⟨cs, ?_, ?_⟩
  · rw [same h hin fun hw => link.not_within hf (hp.trans hw)]
    exact hget
  · rw [← hbefore]
    refine List.map_congr_left fun c hc => ?_
    have hlink : d.Links h c := (hf.mem_children h c).1 (by simp [hchildren, hc])
    have hc' := hin.of_within hf hlink.within
    refine fragment_congr hf hf' hc'.1 fun x hx => same x (hc'.of_within hf hx) fun hw => ?_
    exact hlink.disjoint hf link (hnodup.2.2 c hc k (by simp)) ⟨hx, hp.trans hw⟩

theorem Spine.congr_outside (hf : d.Forest) (hf' : d'.Forest) (hs' : Spine d (some k) fs hs)
    (hp : d.Within k p) (same : ∀ x, d.InUse x → ¬ d.Within p x → d'.get? x = d.get? x) :
    Spine d' (some k) fs hs := by
  induction fs generalizing k hs with
  | nil => cases hs'; exact .nil
  | cons f fs ih =>
    cases hs' with
    | cons head tail =>
      exact .cons (head.congr_outside hf hf' hp same) (ih tail ((head.links hf).within.trans hp))

/-- A new node becomes the open child of the innermost element. -/
theorem Spine.planted (hf : d.Forest) (hc : content.children = [])
    (hs' : Spine d none (f :: fs) (p :: hs)) :
    Spine (d.planted p content) (some d.fresh) (f :: fs) (p :: hs) := by
  cases hs' with
  | cons head tail =>
    have hp := head.isElement
    have hin := inUse_of_isElement hf hp
    have hf' := hf.planted hp hc
    have hget := get?_planted hf hp hc
    have hne {x : Handle} (hx : d.InUse x) : x ≠ d.fresh := by
      rintro rfl
      exact not_inUse_fresh d hx
    refine .cons ?_ (tail.congr_outside hf hf' (.refl d p) fun x hx hw => ?_)
    · obtain ⟨cs, hpget, hbefore⟩ := head
      rw [Option.toList_none, List.append_nil] at hpget
      refine ⟨cs, ?_, ?_⟩
      · rw [hget, if_neg (hne hin), if_pos rfl, hpget]
        rfl
      · rw [← hbefore]
        refine List.map_congr_left fun c hmem => ?_
        have link : d.Links p c := (hf.mem_children p c).1 (by rwa [children_of_get? hpget])
        have hc' := hin.of_within hf link.within
        refine fragment_congr hf hf' hc'.1 fun x hx => ?_
        have hxp : x ≠ p := by
          rintro rfl
          exact link.not_within hf hx
        rw [hget, if_neg (hne (hc'.of_within hf hx)), if_neg hxp]
    · have hxp : x ≠ p := by
        rintro rfl
        exact hw (.refl d x)
      rw [hget, if_neg (hne hx), if_neg hxp]

/-- A longer text at the end of the innermost element. -/
theorem Spine.retexted (hf : d.Forest) {s t : String} (hlast : (d.children p).getLast? = some c)
    (hc : d.get? c = some (.text t)) (hs' : Spine d none (f :: fs) (p :: hs)) :
    Spine (d.retexted c (t ++ s)) none (f.addText s :: fs) (p :: hs) := by
  cases hs' with
  | cons head tail =>
    have hin := inUse_of_isElement hf head.isElement
    have link : d.Links p c := (hf.mem_children p c).1 (List.mem_of_getLast? hlast)
    have hf' := hf.retexted (s := t ++ s) hc (hin.of_within hf link.within).2
    have hget := get?_retexted (s := t ++ s) hc
    refine .cons ?_ (tail.congr_outside hf hf' (.refl d p) fun x _ hw => ?_)
    · obtain ⟨cs, hpget, hbefore⟩ := head
      rw [Option.toList_none, List.append_nil] at hpget
      rw [children_of_get? hpget] at hlast
      obtain ⟨pre, rfl⟩ := List.getLast?_eq_some_iff.1 hlast
      have hnodup := hf.nodup_children p
      rw [children_of_get? hpget, Content.children, List.nodup_append] at hnodup
      have hadd : f.addText s = { f with before := pre.map d.fragment ++ [.text (t ++ s)] } := by
        rw [Frame.addText, ← hbefore, List.map_append, List.map_singleton, fragment_of_text hc]
        simp
      have hpc : p ≠ c := by
        rintro rfl
        rw [hpget] at hc
        cases hc
      refine ⟨pre ++ [c], ?_, ?_⟩
      · rw [hget, if_neg hpc, hpget, hadd]
        simp
      · rw [hadd, List.map_append, List.map_singleton,
          fragment_of_text ((hget c).trans (if_pos rfl))]
        refine congrArg (· ++ _) (List.map_congr_left fun y hy => ?_)
        have hlink : d.Links p y := (hf.mem_children p y).1 (by
          rw [children_of_get? hpget]
          exact List.mem_append_left _ hy)
        refine fragment_congr hf hf' (hin.of_within hf hlink.within).1 fun x hx => ?_
        rw [hget, if_neg]
        rintro rfl
        exact hlink.disjoint hf link (hnodup.2.2 y hy x (by simp)) ⟨hx, .refl d x⟩
    · rw [hget, if_neg]
      rintro rfl
      exact hw link.within

end Document

/-! ## Building is drafting -/

open Document

structure Builder.Builds (b : Builder) (draft : Draft) : Prop where
  forest : b.document.Forest
  spine : Spine b.document none (draft.inner :: draft.outer) (b.opened ++ [b.container])
  top : b.document.parent? b.container = none

namespace Builder
variable {b : Builder} {draft : Draft}

theorem handles_eq (b : Builder) : ∃ hs, b.opened ++ [b.container] = b.parent :: hs := by
  unfold parent
  cases b.opened with
  | nil => exact ⟨[], rfl⟩
  | cons h hs => exact ⟨hs ++ [b.container], rfl⟩

theorem Builds.isElement_parent (h : b.Builds draft) : b.document.isElement b.parent := by
  have hs := h.spine
  obtain ⟨hs', he⟩ := b.handles_eq
  rw [he] at hs
  cases hs with
  | cons head _ => exact head.isElement

theorem Builds.inUse_container (h : b.Builds draft) : b.document.InUse b.container :=
  inUse_of_isElement h.forest (h.spine.isElement b.container (by simp))

theorem Builds.place (h : b.Builds draft) {content : Content} (hc : content.children = []) :
    ({ b with document := (b.document.alloc content).2 } : Builder).place
        (b.document.alloc content).1 =
      { b with document := b.document.planted b.parent content } := by
  have happ := append_alloc h.forest h.isElement_parent hc
  rw [alloc_fst]
  unfold Builder.place
  rw [show ({ b with document := (b.document.alloc content).2 } : Builder).parent = b.parent
    from rfl,
    happ]

theorem Builds.planted (h : b.Builds draft) {content : Content} (hc : content.children = []) :
    (b.document.planted b.parent content).Forest ∧
      Spine (b.document.planted b.parent content) (some b.document.fresh)
        (draft.inner :: draft.outer) (b.opened ++ [b.container]) ∧
      (b.document.planted b.parent content).parent? b.container = none := by
  have hspine := h.spine
  obtain ⟨hs, hhandles⟩ := b.handles_eq
  rw [hhandles] at hspine ⊢
  refine ⟨h.forest.planted h.isElement_parent hc, hspine.planted h.forest hc, ?_⟩
  rw [parent?_planted h.forest hc, if_neg, h.top]
  intro he
  exact not_inUse_fresh b.document (he ▸ h.inUse_container)

theorem Builds.get?_fresh (h : b.Builds draft) {content : Content} (hc : content.children = []) :
    (b.document.planted b.parent content).get? b.document.fresh = some content :=
  (get?_planted h.forest h.isElement_parent hc _).trans (if_pos rfl)

theorem Builds.add (h : b.Builds draft) {content : Content} (hc : content.children = []) :
    ({ b with document := b.document.planted b.parent content } : Builder).Builds
      ⟨draft.inner.add ((b.document.planted b.parent content).fragment b.document.fresh),
        draft.outer⟩ := by
  obtain ⟨hf, hspine, htop⟩ := h.planted hc
  obtain ⟨hs, hhandles⟩ := b.handles_eq
  refine ⟨hf, ?_, htop⟩
  rw [hhandles] at hspine
  exact hhandles ▸ hspine.add

theorem Builds.startElement (h : b.Builds draft) (tag : String) (attributes : Attributes)
    (closed : Bool) :
    (b.startElement tag attributes closed).Builds
      (if closed then ⟨draft.inner.add (.element tag attributes []), draft.outer⟩
        else ⟨⟨tag, attributes, []⟩, draft.inner :: draft.outer⟩) := by
  have hc : (Content.element tag attributes []).children = [] := rfl
  have hget := h.get?_fresh hc
  obtain ⟨hf, hspine, htop⟩ := h.planted hc
  have hstart : b.startElement tag attributes closed =
      (fun placed : Builder =>
        if closed then placed
        else { placed with
          opened := (b.document.alloc (.element tag attributes [])).1 :: placed.opened })
      (({ b with document := (b.document.alloc (.element tag attributes [])).2 } : Builder).place
        (b.document.alloc (.element tag attributes [])).1) := rfl
  rw [hstart, h.place hc, alloc_fst]
  cases closed with
  | true =>
    have hadd := h.add hc
    rw [fragment_of_element hf hget] at hadd
    exact hadd
  | false =>
    exact ⟨hf, .cons ⟨[], hget, rfl⟩ hspine, htop⟩

theorem Builds.map_children (h : b.Builds draft) :
    (b.document.children b.parent).map b.document.fragment = draft.inner.before := by
  have hspine := h.spine
  obtain ⟨hs, hhandles⟩ := b.handles_eq
  rw [hhandles] at hspine
  cases hspine with
  | cons head _ =>
    obtain ⟨cs, hget, hcs⟩ := head
    rw [children_of_get? hget, ← hcs]
    simp [Content.children]

theorem Builds.addText_new (h : b.Builds draft) {s : String}
    (hlast : ∀ t, draft.inner.before.getLast? ≠ some (.text t))
    (hb : b.addText s = { b with document := b.document.planted b.parent (.text s) }) :
    (b.addText s).Builds ⟨draft.inner.addText s, draft.outer⟩ := by
  have hadd := h.add (show (Content.text s).children = [] from rfl)
  rw [fragment_of_text (h.get?_fresh rfl)] at hadd
  have hdraft : draft.inner.addText s = draft.inner.add (.text s) := by
    unfold Frame.addText
    split
    · next t ht => exact absurd ht (hlast t)
    · rfl
  rw [hb, hdraft]
  exact hadd

theorem Builds.addText (h : b.Builds draft) (s : String) :
    (b.addText s).Builds ⟨draft.inner.addText s, draft.outer⟩ := by
  have hbefore := h.map_children
  cases hl : (b.document.children b.parent).getLast? with
  | none =>
    refine h.addText_new ?_ ?_
    · rw [← hbefore, List.getLast?_map, hl]
      simp
    · unfold Builder.addText
      rw [hl, ← h.place rfl]
      rfl
  | some c =>
    have link : b.document.Links b.parent c :=
      (h.forest.mem_children b.parent c).1 (List.mem_of_getLast? hl)
    cases hg : b.document.get? c with
    | none =>
      have hlt := (Below.child .here link).lt_size h.forest
      exact absurd (get?_eq_none_iff.1 hg) (Nat.not_le_of_lt hlt)
    | some content =>
      cases content with
      | text t =>
        have hb : b.addText s = { b with document := b.document.retexted c (t ++ s) } := by
          unfold Builder.addText
          simp only [hl, Option.bind_some, hg, Option.map_some]
          rfl
        have hspine := h.spine
        obtain ⟨hs, hhandles⟩ := b.handles_eq
        rw [hhandles] at hspine
        rw [hb]
        refine ⟨?_, ?_, h.top⟩
        · exact h.forest.retexted hg
            ((inUse_of_isElement h.forest h.isElement_parent).of_within h.forest link.within).2
        · exact hhandles ▸ hspine.retexted h.forest hl hg
      | element tag attributes children =>
        refine h.addText_new ?_ ?_
        · rw [← hbefore, List.getLast?_map, hl, Option.map_some, fragment_of_element h.forest hg]
          simp
        · unfold Builder.addText
          rw [hl, ← h.place rfl]
          simp only [Option.bind_some, hg, Option.map_some]
          rfl

theorem Builds.endElement (h : b.Builds draft) (tag : String) :
    (b.endElement tag).Builds
      (if Draft.isOpen tag draft.inner draft.outer then
        Draft.closeThrough tag draft.inner draft.outer else draft) := by
  have hclose := h.spine.closeThrough h.forest tag
  unfold Builder.endElement
  cases hrest : b.opened.dropWhile (b.document.tag? · != some tag) with
  | nil =>
    rw [hrest] at hclose
    rw [if_neg (ne_true_of_eq_false hclose)]
    exact h
  | cons closed outer =>
    rw [hrest] at hclose
    rw [if_pos hclose.1]
    exact ⟨h.forest, hclose.2, h.top⟩

theorem Builds.step (h : b.Builds draft) (token : Markup.Token) :
    (b.step token).Builds (draft.step token) := by
  cases token with
  | startTag name attributes selfClosing => exact h.startElement name attributes _
  | endTag name => exact h.endElement name
  | text s => exact h.addText s

theorem Builds.run (h : b.Builds draft) (tokens : List Markup.Token) :
    (tokens.foldl Builder.step b).Builds (tokens.foldl Draft.step draft) := by
  induction tokens generalizing b draft with
  | nil => exact h
  | cons token tokens ih => exact ih (h.step token)

theorem container_step (b : Builder) (token : Markup.Token) :
    (b.step token).container = b.container := by
  cases token with
  | startTag name attributes selfClosing =>
    simp only [Builder.step, Builder.startElement, Builder.place]
    split <;> rfl
  | endTag name =>
    simp only [Builder.step, Builder.endElement]
    split <;> rfl
  | text s =>
    simp only [Builder.step, Builder.addText, Builder.place]
    split <;> rfl

theorem container_run (b : Builder) (tokens : List Markup.Token) :
    (tokens.foldl Builder.step b).container = b.container := by
  induction tokens generalizing b with
  | nil => rfl
  | cons token tokens ih => exact (ih (b.step token)).trans (container_step b token)

end Builder

namespace Document
variable {d : Document} {c : Handle} {tag : String} {attributes : Attributes}

theorem builds_of_leaf (hf : d.Forest) (hget : d.get? c = some (.element tag attributes []))
    (htop : d.parent? c = none) : Builder.Builds ⟨d, c, []⟩ ⟨⟨tag, attributes, []⟩, []⟩ :=
  ⟨hf, .cons ⟨[], hget, rfl⟩ .nil, htop⟩

theorem Forest.build (hf : d.Forest) (hget : d.get? c = some (.element tag attributes []))
    (htop : d.parent? c = none) (tokens : List Markup.Token) : (d.build c tokens).Forest :=
  ((builds_of_leaf hf hget htop).run tokens).forest

theorem fragment_build (hf : d.Forest) (hget : d.get? c = some (.element tag attributes []))
    (htop : d.parent? c = none) (tokens : List Markup.Token) :
    (d.build c tokens).fragment c = Draft.read tag attributes tokens := by
  have hrun := (builds_of_leaf hf hget htop).run tokens
  have hspine := hrun.spine
  rw [Builder.container_run] at hspine
  exact hspine.finish hrun.forest

theorem parent?_build (hf : d.Forest) (hget : d.get? c = some (.element tag attributes []))
    (htop : d.parent? c = none) (tokens : List Markup.Token) :
    (d.build c tokens).parent? c = none := by
  have hrun := (builds_of_leaf hf hget htop).run tokens
  have := hrun.top
  rwa [Builder.container_run] at this

theorem inUse_build (hf : d.Forest) (hget : d.get? c = some (.element tag attributes []))
    (htop : d.parent? c = none) (tokens : List Markup.Token) : (d.build c tokens).InUse c := by
  have hrun := (builds_of_leaf hf hget htop).run tokens
  have := hrun.inUse_container
  rwa [Builder.container_run] at this

end Document
end Stencil.Live
