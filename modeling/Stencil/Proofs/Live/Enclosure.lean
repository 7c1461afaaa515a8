import Stencil.Proofs.Live.Reachable

/-! # Drafts inside other elements

A draft goes on as it would alone when further elements are open around it, until an end tag reaches
out of it: one that has the name of an element around it and closes none of its own. So what is read
inside some elements comes to what the tokens before that end tag come to alone, and the elements
around it are only closed.
-/
namespace Stencil.Live

namespace Frame
variable {f : Frame} {e : Fragment}

/-- The first element that stands in an open one. -/
def first? (f : Frame) : Option Fragment := f.before.find? Fragment.isElement

theorem first?_add (h : f.first? = some e) (child : Fragment) :
    (f.add child).first? = some e := by
  rw [first?, add, List.find?_append, ← first?, h, Option.some_or]

theorem first?_addText (f : Frame) (s : String) : (f.addText s).first? = f.first? := by
  unfold addText
  split
  · next t ht =>
    obtain ⟨pre, hpre⟩ := List.getLast?_eq_some_iff.1 ht
    simp [first?, hpre, Fragment.isElement]
  · simp [first?, add, Fragment.isElement]

theorem tag_addText (f : Frame) (s : String) : (f.addText s).tag = f.tag := by
  unfold addText
  split <;> rfl

end Frame

namespace Draft
variable {b : Draft} {f g : Frame} {outer gs : List Frame} {e : Fragment} {name : String}
  {names around : List String} {token : Markup.Token} {tokens : List Markup.Token}

def inside (b : Draft) (gs : List Frame) : Draft := ⟨b.inner, b.outer ++ gs⟩

/-- The outermost element. -/
def base (f : Frame) : List Frame → Frame
  | [] => f
  | g :: outer => base g outer

/-- What tokens come to when all is closed at their end. -/
def whole (b : Draft) (tokens : List Markup.Token) : Frame :=
  let b := tokens.foldl step b
  finish b.inner b.outer

/-! ## The outermost element -/

theorem tag_base_add (f : Frame) (child : Fragment) (outer : List Frame) :
    (base (f.add child) outer).tag = (base f outer).tag := by
  cases outer <;> rfl

theorem tag_base_closeThrough (name : String) (f : Frame) (outer : List Frame) :
    (base (closeThrough name f outer).inner (closeThrough name f outer).outer).tag =
      (base f outer).tag := by
  induction outer generalizing f with
  | nil => rfl
  | cons g outer ih =>
    rw [closeThrough]
    split
    · exact tag_base_add g f.close outer
    · exact (ih (g.add f.close)).trans (tag_base_add g f.close outer)

theorem tag_base_step (b : Draft) (token : Markup.Token) :
    (base (b.step token).inner (b.step token).outer).tag = (base b.inner b.outer).tag := by
  cases token with
  | startTag name attributes selfClosing =>
    simp only [step]
    split
    · exact tag_base_add ..
    · rfl
  | endTag name =>
    simp only [step]
    split
    · exact tag_base_closeThrough ..
    · rfl
  | text s =>
    simp only [step]
    cases b.outer with
    | nil => exact b.inner.tag_addText s
    | cons => rfl

theorem first?_base_add (h : (base f outer).first? = some e) (child : Fragment) :
    (base (f.add child) outer).first? = some e := by
  cases outer with
  | nil => exact Frame.first?_add h child
  | cons g outer => exact h

theorem first?_base_closeThrough (name : String) (h : (base f outer).first? = some e) :
    (base (closeThrough name f outer).inner (closeThrough name f outer).outer).first? = some e := by
  induction outer generalizing f with
  | nil => exact h
  | cons g outer ih =>
    have hnext : (base g outer).first? = some e := h
    rw [closeThrough]
    split
    · exact first?_base_add hnext f.close
    · exact ih (first?_base_add hnext f.close)

theorem first?_finish (h : (base f outer).first? = some e) : (finish f outer).first? = some e := by
  induction outer generalizing f with
  | nil => exact h
  | cons g outer ih =>
    have hnext : (base g outer).first? = some e := h
    exact ih (first?_base_add hnext f.close)

theorem first?_base_step (h : (base b.inner b.outer).first? = some e) (token : Markup.Token) :
    (base (b.step token).inner (b.step token).outer).first? = some e := by
  cases token with
  | startTag name attributes selfClosing =>
    simp only [step]
    split
    · exact first?_base_add h _
    · exact h
  | endTag name =>
    simp only [step]
    split
    · exact first?_base_closeThrough name h
    · exact h
  | text s =>
    simp only [step]
    cases houter : b.outer with
    | nil =>
      rw [houter] at h
      exact (b.inner.first?_addText s).trans h
    | cons g outer =>
      rw [houter] at h
      exact h

/-- **The first element stays** as it is, whatever comes behind it. -/
theorem first?_whole (h : (base b.inner b.outer).first? = some e) (tokens : List Markup.Token) :
    (b.whole tokens).first? = some e := by
  induction tokens generalizing b with
  | nil => exact first?_finish h
  | cons token tokens ih => exact ih (first?_base_step h token)

/-! ## End tags that reach out -/

/-- Whether the token is an end tag with one of these names and closes nothing of the draft. -/
def reachesOut (around : List String) (b : Draft) : Markup.Token → Bool
  | .endTag name => around.contains name && !isOpen name b.inner b.outer
  | _ => false

/-- The tokens in front of the first one that reaches out. -/
def confined (around : List String) (b : Draft) : List Markup.Token → List Markup.Token
  | [] => []
  | token :: tokens =>
    if b.reachesOut around token then [] else token :: confined around (b.step token) tokens

theorem isOpen_append (name : String) (f : Frame) (outer gs : List Frame) :
    isOpen name f (outer ++ gs) = (isOpen name f outer || isOpen name (base f outer) gs) := by
  induction outer generalizing f with
  | nil => rfl
  | cons g outer ih => rw [List.cons_append, isOpen, isOpen, base, ih, Bool.or_assoc]

theorem isOpen_congr_tag (h : f.tag = g.tag) (name : String) (outer : List Frame) :
    isOpen name f outer = isOpen name g outer := by
  cases outer with
  | nil => rfl
  | cons => rw [isOpen, isOpen, h]

theorem closeThrough_append (h : isOpen name f outer) (gs : List Frame) :
    closeThrough name f (outer ++ gs) = (closeThrough name f outer).inside gs := by
  induction outer generalizing f with
  | nil => cases h
  | cons g outer ih =>
    rw [List.cons_append, closeThrough, closeThrough]
    split
    · rfl
    · next hne =>
      refine ih ?_
      rw [isOpen, beq_false_of_ne hne, Bool.false_or] at h
      rw [isOpen_add]
      exact h

/-- The elements around a draft have all their names, but for the last one. -/
def Names (around : List String) (b : Draft) (gs : List Frame) : Prop :=
  ∀ name, isOpen name (base b.inner b.outer) gs → name ∈ around

theorem Names.step (h : Names around b gs) (token : Markup.Token) :
    Names around (b.step token) gs := by
  intro name hname
  rw [isOpen_congr_tag (tag_base_step b token)] at hname
  exact h name hname

theorem isOpen_inside (h : Names around b gs) (hname : name ∉ around) :
    isOpen name (b.inside gs).inner (b.inside gs).outer = isOpen name b.inner b.outer := by
  have hnone : isOpen name (base b.inner b.outer) gs = false :=
    Bool.eq_false_of_not_eq_true fun hopen => hname (h name hopen)
  rw [inside, isOpen_append, hnone, Bool.or_false]

theorem step_inside (h : Names around b gs) (hin : b.reachesOut around token = false) :
    (b.inside gs).step token = (b.step token).inside gs := by
  cases token with
  | startTag name attributes selfClosing =>
    simp only [step]
    split <;> rfl
  | text s => rfl
  | endTag name =>
    simp only [step]
    cases hopen : isOpen name b.inner b.outer with
    | true =>
      have hopen' : isOpen name (b.inside gs).inner (b.inside gs).outer := by
        rw [inside, isOpen_append, hopen, Bool.true_or]
      rw [if_pos hopen', if_pos rfl]
      exact closeThrough_append hopen gs
    | false =>
      have hname : name ∉ around := by
        simpa [reachesOut, hopen] using hin
      rw [isOpen_inside h hname, hopen]
      rfl

theorem reachesOut_inside (h : Names around b gs) (hin : b.reachesOut around token = false) :
    (b.inside gs).reachesOut names token = b.reachesOut names token := by
  cases token with
  | startTag | text => rfl
  | endTag name =>
    cases hopen : isOpen name b.inner b.outer with
    | true => simp [reachesOut, inside, isOpen_append, hopen]
    | false =>
      have hname : name ∉ around := by
        simpa [reachesOut, hopen] using hin
      rw [reachesOut, reachesOut, isOpen_inside h hname]

theorem reachesOut_append (around names : List String) (b : Draft) (token : Markup.Token) :
    b.reachesOut (around ++ names) token = (b.reachesOut around token || b.reachesOut names token) := by
  cases token with
  | startTag | text => rfl
  | endTag name => simp [reachesOut, Bool.and_or_distrib_right]

theorem confined_confined (h : Names around b gs) (names : List String)
    (tokens : List Markup.Token) :
    confined around b (confined names (b.inside gs) tokens) = confined (around ++ names) b tokens := by
  induction tokens generalizing b with
  | nil => rfl
  | cons token tokens ih =>
    rw [confined, confined, reachesOut_append]
    cases hin : b.reachesOut around token with
    | true =>
      split
      · rfl
      · simp [confined, hin]
    | false =>
      rw [reachesOut_inside h hin, Bool.false_or]
      split
      · rfl
      · rw [confined, hin, if_neg Bool.false_ne_true, step_inside h hin, ih (h.step token)]

theorem confined_congr (h : ∀ name, name ∈ around ↔ name ∈ names) (b : Draft)
    (tokens : List Markup.Token) : confined around b tokens = confined names b tokens := by
  have hsame (b : Draft) (token : Markup.Token) :
      b.reachesOut around token = b.reachesOut names token := by
    cases token with
    | startTag | text => rfl
    | endTag name =>
      have hcontains : around.contains name = names.contains name := by
        rw [Bool.eq_iff_iff, List.contains_iff_mem, List.contains_iff_mem, h]
      rw [reachesOut, reachesOut, hcontains]
  induction tokens generalizing b with
  | nil => rfl
  | cons token tokens ih => rw [confined, confined, hsame, ih]

theorem confined_nil (b : Draft) (tokens : List Markup.Token) : confined [] b tokens = tokens := by
  induction tokens generalizing b with
  | nil => rfl
  | cons token tokens ih => cases token <;> simp [confined, reachesOut, ih]

theorem confined_append (h : confined around b tokens = tokens) (more : List Markup.Token) :
    confined around b (tokens ++ more) = tokens ++ confined around (tokens.foldl step b) more := by
  induction tokens generalizing b with
  | nil => rfl
  | cons token tokens ih =>
    rw [confined] at h
    split at h
    · cases h
    · next hin =>
      rw [List.cons_append, confined, if_neg hin, ih (List.cons.inj h).2]
      rfl

theorem confined_prefix (around : List String) (b : Draft) (tokens : List Markup.Token) :
    confined around b tokens <+: tokens := by
  induction tokens generalizing b with
  | nil => exact List.prefix_refl _
  | cons token tokens ih =>
    rw [confined]
    split
    · exact List.nil_prefix
    · exact List.cons_prefix_cons.2 ⟨rfl, ih _⟩

/-! ## One element around -/

theorem finish_append_singleton (f g : Frame) (outer : List Frame) :
    finish f (outer ++ [g]) = g.add (finish f outer).close := by
  induction outer generalizing f with
  | nil => rfl
  | cons g' outer ih => exact ih (g'.add f.close)

theorem closeThrough_reach (h : isOpen name f outer = false) (hname : (base f outer).tag = name)
    (g : Frame) :
    closeThrough name f (outer ++ [g]) = ⟨g.add (finish f outer).close, []⟩ := by
  induction outer generalizing f with
  | nil => exact if_pos hname
  | cons g' outer ih =>
    rw [isOpen, Bool.or_eq_false_iff] at h
    rw [List.cons_append, closeThrough, if_neg (ne_of_beq_false h.1)]
    refine ih ?_ ((tag_base_add g' f.close outer).trans hname)
    rw [isOpen_add]
    exact h.2

theorem step_reach (h : b.reachesOut [(base b.inner b.outer).tag] token) (g : Frame) :
    (b.inside [g]).step token = ⟨g.add (b.whole []).close, []⟩ := by
  cases token with
  | startTag | text => cases h
  | endTag name =>
    obtain ⟨hname, hopen⟩ := Bool.and_eq_true_iff.1 h
    have hname : name = (base b.inner b.outer).tag :=
      List.mem_singleton.1 (List.contains_iff_mem.1 hname)
    have hopen : isOpen name b.inner b.outer = false := by simpa using hopen
    have hreach : isOpen name (b.inside [g]).inner (b.inside [g]).outer := by
      simp [inside, isOpen_append, isOpen, hname]
    simp only [step]
    rw [if_pos hreach]
    exact closeThrough_reach hopen hname.symm g

theorem names_singleton (b : Draft) (g : Frame) : Names [(base b.inner b.outer).tag] b [g] := by
  intro name hname
  rw [isOpen, isOpen, Bool.or_false, beq_iff_eq] at hname
  exact List.mem_singleton.2 hname.symm

theorem first?_whole_inside (hg : g.first? = none) (b : Draft) (tokens : List Markup.Token) :
    ((b.inside [g]).whole tokens).first? =
      some (b.whole (confined [(base b.inner b.outer).tag] b tokens)).close := by
  have hadd (f : Frame) : (g.add f.close).first? = some f.close := by
    rw [Frame.first?, Frame.add, List.find?_append, ← Frame.first?, hg]
    rfl
  induction tokens generalizing b with
  | nil =>
    rw [whole, List.foldl_nil, inside, finish_append_singleton]
    exact hadd _
  | cons token tokens ih =>
    rw [confined]
    split
    · next hout =>
      rw [whole, List.foldl_cons, step_reach hout]
      exact first?_whole (b := ⟨g.add (b.whole []).close, []⟩) (hadd _) tokens
    · next hin =>
      have hstep := step_inside (names_singleton b g) (Bool.eq_false_of_not_eq_true hin)
      rw [whole, List.foldl_cons, hstep]
      refine (ih (b.step token)).trans ?_
      rw [tag_base_step]
      rfl

/-! ## The name of the outermost element -/

def retagged (s : String) (f : Frame) : List Frame → Draft
  | [] => ⟨{ f with tag := s }, []⟩
  | g :: outer => ⟨f, (retagged s g outer).inner :: (retagged s g outer).outer⟩

theorem retagged_add (s : String) (f : Frame) (child : Fragment) (outer : List Frame) :
    retagged s (f.add child) outer =
      ⟨(retagged s f outer).inner.add child, (retagged s f outer).outer⟩ := by
  cases outer <;> rfl

theorem isOpen_retagged (name s : String) (f : Frame) (outer : List Frame) :
    isOpen name (retagged s f outer).inner (retagged s f outer).outer = isOpen name f outer := by
  induction outer generalizing f with
  | nil => rfl
  | cons g outer ih => rw [retagged, isOpen, isOpen, ih]

theorem closeThrough_retagged (name s : String) (f : Frame) (outer : List Frame)
    (h : isOpen name f outer) :
    closeThrough name (retagged s f outer).inner (retagged s f outer).outer =
      retagged s (closeThrough name f outer).inner (closeThrough name f outer).outer := by
  induction outer generalizing f with
  | nil => cases h
  | cons g outer ih =>
    rw [retagged, closeThrough, closeThrough]
    split
    · exact (retagged_add s g f.close outer).symm
    · next hne =>
      rw [isOpen, beq_false_of_ne hne, Bool.false_or, ← isOpen_add name g f.close] at h
      have hnext := ih (g.add f.close) h
      rw [retagged_add] at hnext
      exact hnext

theorem before_finish_retagged (s : String) (f : Frame) (outer : List Frame) :
    (finish (retagged s f outer).inner (retagged s f outer).outer).before =
      (finish f outer).before := by
  induction outer generalizing f with
  | nil => rfl
  | cons g outer ih =>
    have hnext := ih (g.add f.close)
    rw [retagged_add] at hnext
    exact hnext

theorem step_retagged (s : String) (b : Draft) (token : Markup.Token) :
    (retagged s b.inner b.outer).step token =
      retagged s (b.step token).inner (b.step token).outer := by
  cases token with
  | startTag name attributes selfClosing =>
    simp only [step]
    split
    · exact (retagged_add ..).symm
    · rfl
  | endTag name =>
    simp only [step, isOpen_retagged]
    split
    · next hopen => exact closeThrough_retagged name s b.inner b.outer hopen
    · rfl
  | text t =>
    simp only [step]
    cases b.outer with
    | nil =>
      simp only [retagged, Frame.addText]
      split <;> rfl
    | cons => rfl

theorem first?_whole_retagged (s : String) (b : Draft) (tokens : List Markup.Token) :
    ((retagged s b.inner b.outer).whole tokens).first? = (b.whole tokens).first? := by
  induction tokens generalizing b with
  | nil => exact congrArg (List.find? Fragment.isElement) (before_finish_retagged s b.inner b.outer)
  | cons token tokens ih =>
    rw [whole, List.foldl_cons, step_retagged]
    exact ih (b.step token)

theorem confined_retagged (around : List String) (s : String) (b : Draft)
    (tokens : List Markup.Token) :
    confined around (retagged s b.inner b.outer) tokens = confined around b tokens := by
  induction tokens generalizing b with
  | nil => rfl
  | cons token tokens ih =>
    have hout : (retagged s b.inner b.outer).reachesOut around token = b.reachesOut around token := by
      cases token with
      | startTag | text => rfl
      | endTag name => rw [reachesOut, reachesOut, isOpen_retagged]
    rw [confined, confined, hout, step_retagged, ih]

/-! ## Elements one inside the other -/

/-- A new draft. -/
def root (tag : String) : Draft := ⟨⟨tag, .empty, []⟩, []⟩

def opening (tag : String) : Markup.Token := .startTag tag .empty false

theorem step_opening (h : ¬ isChildless name) (b : Draft) :
    b.step (opening name) = (root name).inside (b.inner :: b.outer) := by
  have hnot : isChildless name = false := Bool.eq_false_of_not_eq_true h
  simp [step, opening, hnot, root, inside]

theorem foldl_opening {tags : List String} (h : ∀ tag ∈ tags, ¬ isChildless tag) (s : String)
    (gs : List Frame) :
    ∃ gs', (tags.map opening).foldl step ((root s).inside gs) =
        (root (tags.getLastD s)).inside gs' ∧
      tags.getLastD s :: gs'.map Frame.tag = tags.reverse ++ s :: gs.map Frame.tag := by
  induction tags generalizing s gs with
  | nil => exact ⟨gs, rfl, rfl⟩
  | cons tag tags ih =>
    obtain ⟨hfirst, hrest⟩ := List.forall_mem_cons.1 h
    obtain ⟨gs', hrun, htags⟩ := ih hrest tag (⟨s, .empty, []⟩ :: gs)
    refine ⟨gs', ?_, ?_⟩
    · rw [List.map_cons, List.foldl_cons, step_opening hfirst, List.getLastD_cons]
      exact hrun
    · rw [List.getLastD_cons, htags]
      simp

theorem mem_of_isOpen (h : isOpen name f outer) : name ∈ ((f :: outer).map Frame.tag).dropLast := by
  induction outer generalizing f with
  | nil => cases h
  | cons g outer ih =>
    rw [isOpen, Bool.or_eq_true_iff, beq_iff_eq] at h
    rw [List.map_cons, List.map_cons, List.dropLast_cons_cons, List.mem_cons]
    exact h.imp Eq.symm ih

theorem confined_openings (around : List String) (b : Draft) (tags : List String)
    (tokens : List Markup.Token) :
    confined around b (tags.map opening ++ tokens) =
      tags.map opening ++ confined around ((tags.map opening).foldl step b) tokens := by
  refine confined_append ?_ tokens
  induction tags generalizing b with
  | nil => rfl
  | cons tag tags ih => exact congrArg (opening tag :: ·) (ih (b.step (opening tag)))

theorem descend?_one (f : Frame) : f.close.descend? 1 = f.first? := by
  rw [Frame.close, Fragment.descend?, Frame.first?]
  cases f.before.find? Fragment.isElement <;> rfl

/-- Inside elements that have just been opened tokens come to what they come to alone, up to the
first end tag that reaches out. -/
theorem descend?_openings {tags : List String} (h : ∀ tag ∈ tags, ¬ isChildless tag) (s : String)
    (tokens : List Markup.Token) (n : Nat) :
    ((root s).whole (tags.map opening ++ tokens)).close.descend? (tags.length + n) =
      ((root (tags.getLastD s)).whole
        (confined tags (root (tags.getLastD s)) tokens)).close.descend? n := by
  induction tags generalizing s tokens with
  | nil => rw [confined_nil, List.length_nil, Nat.zero_add]; rfl
  | cons tag tags ih =>
    obtain ⟨hfirst, hrest⟩ := List.forall_mem_cons.1 h
    obtain ⟨gs, hrun, htags⟩ := foldl_opening hrest tag []
    have hnames : Names tags (root (tags.getLastD tag)) gs := by
      intro name hname
      have hmem := mem_of_isOpen hname
      rw [List.map_cons] at hmem
      have hlast : (base (root (tags.getLastD tag)).inner (root (tags.getLastD tag)).outer).tag =
          tags.getLastD tag := rfl
      rw [hlast, htags] at hmem
      simpa using hmem
    have hconfined : confined [tag] (root tag) (tags.map opening ++ tokens) =
        tags.map opening ++ confined [tag] ((root (tags.getLastD tag)).inside gs) tokens := by
      rw [confined_openings, ← hrun]
      rfl
    have hsame : ∀ name, name ∈ tags ++ [tag] ↔ name ∈ tag :: tags := by simp [or_comm]
    calc ((root s).whole ((tag :: tags).map opening ++ tokens)).close.descend?
          ((tag :: tags).length + n)
      _ = (((root tag).inside [⟨s, .empty, []⟩]).whole
            (tags.map opening ++ tokens)).first?.bind (Fragment.descend? (tags.length + n)) := by
        rw [List.length_cons, Nat.succ_add, List.map_cons, List.cons_append, whole, List.foldl_cons,
          step_opening hfirst]
        rfl
      _ = ((root tag).whole (tags.map opening ++
            confined [tag] ((root (tags.getLastD tag)).inside gs) tokens)).close.descend?
              (tags.length + n) := by
        rw [first?_whole_inside rfl, ← hconfined]
        rfl
      _ = ((root (tags.getLastD tag)).whole (confined (tags ++ [tag])
            (root (tags.getLastD tag)) tokens)).close.descend? n := by
        rw [ih hrest, confined_confined hnames]
      _ = _ := by
        rw [List.getLastD_cons, confined_congr hsame]

theorem descend?_openings_succ {tags : List String} (h : ∀ tag ∈ tags, ¬ isChildless tag)
    (s : String) (tokens : List Markup.Token) :
    ((root s).whole (tags.map opening ++ tokens)).close.descend? (tags.length + 1) =
      ((root s).whole (confined tags (root s) tokens)).first? := by
  rw [descend?_openings h]
  have hroot : root (tags.getLastD s) = retagged (tags.getLastD s) (root s).inner (root s).outer := rfl
  rw [hroot, confined_retagged]
  exact (descend?_one _).trans (first?_whole_retagged (tags.getLastD s) (root s) _)

/-! ## End tags behind everything -/

theorem finish_closeThrough (name : String) (f : Frame) (outer : List Frame) :
    finish (closeThrough name f outer).inner (closeThrough name f outer).outer = finish f outer := by
  induction outer generalizing f with
  | nil => rfl
  | cons g outer ih =>
    rw [closeThrough]
    split
    · rfl
    · exact ih (g.add f.close)

theorem whole_append_endTags (b : Draft) (tokens : List Markup.Token) (ends : List String) :
    b.whole (tokens ++ ends.map .endTag) = b.whole tokens := by
  have hends (b : Draft) : b.whole (ends.map .endTag) = finish b.inner b.outer := by
    induction ends generalizing b with
    | nil => rfl
    | cons name ends ih =>
      refine (ih (b.step (.endTag name))).trans ?_
      simp only [step]
      split
      · exact finish_closeThrough name b.inner b.outer
      · rfl
  rw [whole, List.foldl_append]
  exact hends _

end Draft
end Stencil.Live
