import Stencil.Proofs.Live.Location
import Stencil.Proofs.Live.ReadBack
import Stencil.Proofs.Render.Elements

/-! # What a piece is read as

The element that a piece is read as, with its attributes and texts, depends on the piece alone and
not on what stands around it. So a piece shows the same wherever it is materialized. Only text could
run into text beside it, and the tags of an element keep its own texts apart from what is outside.
-/
namespace Stencil.Live
open Markup

/-- The elements right inside a fragment. -/
def Fragment.inner : Fragment → List Fragment
  | text _ => []
  | element _ _ children => children.filter isElement

def ReadsAs (cs : List Char) (node : Fragment) : Prop :=
  ∀ (f : Frame) (outer : List Frame) (rest : List Char),
    Draft.after ⟨f, outer⟩ (cs ++ rest) = Draft.after ⟨f.add node, outer⟩ rest

/-- The characters are read as these children of an element that holds nothing yet. -/
def Fills (cs : List Char) (children : List Fragment) : Prop :=
  ∀ (tag : String) (attributes : Attributes) (outer : List Frame) (rest : List Char),
    EndsRun rest → Draft.after ⟨⟨tag, attributes, []⟩, outer⟩ (cs ++ rest) =
      Draft.after ⟨⟨tag, attributes, children⟩, outer⟩ rest

/-- The element that a piece is read as. -/
structure Images (quote : QuoteStyle) (piece : Piece) (image : Fragment) : Prop where
  isElement : image.isElement
  reads : ReadsAs (piece.write quote).toList image

/-- The piece is read as what it is: as one element, or as text without any. -/
def Legible (quote : QuoteStyle) : Piece → Prop
  | .raw markup => '<' ∉ markup.toList
  | piece => ∃ image, Images quote piece image

variable {cs : List Char} {tag : String} {attributes : Attributes} {f g : Fragment}
  {children : List Fragment} {quote : QuoteStyle} {piece : Piece} {pieces : List Piece}

theorem after_nil (b : Draft) : b.after [] = b := by
  rw [Draft.after, Markup.read, unifyLineEnds, tokensOf]
  rfl

theorem ReadsAs.unique (h : ReadsAs cs f) (hother : ReadsAs cs g) : f = g := by
  have hboth := (h ⟨"", .empty, []⟩ [] []).symm.trans (hother ⟨"", .empty, []⟩ [] [])
  rw [after_nil, after_nil] at hboth
  exact (List.cons.inj (congrArg (fun b : Draft => b.inner.before) hboth)).1

theorem Fills.unique {children' : List Fragment} (h : Fills cs children)
    (hother : Fills cs children') : children = children' := by
  have hboth := (h "" .empty [] [] (.inl rfl)).symm.trans (hother "" .empty [] [] (.inl rfl))
  rw [after_nil, after_nil] at hboth
  exact congrArg (fun b : Draft => b.inner.before) hboth

theorem Fills.readsAs_element (h : Fills cs children) (name : IsTagName tag)
    (lowered : IsLowered tag) (parent : ¬ isChildless tag) (keys : HasKeys attributes)
    (quote : QuoteStyle) :
    ReadsAs ((openTag tag attributes quote false).toList ++ cs ++ (closeTag tag).toList)
      (.element tag (readBack attributes quote) children) := by
  have hclosed : isChildless tag = false := Bool.eq_false_of_not_eq_true parent
  intro f outer rest
  have hrun : EndsRun ((closeTag tag).toList ++ rest) := .inr ⟨_, by simp [closeTag]; rfl⟩
  rw [List.append_assoc, List.append_assoc, Draft.after, read_openTag_eq name keys, lowered.nameOf,
    List.foldl_cons, Draft.step, hclosed, Bool.or_self, if_neg Bool.false_ne_true]
  refine (h tag (readBack attributes quote) (f :: outer) _ hrun).trans ?_
  rw [Draft.after, read_closeTag_eq name, lowered.nameOf, List.foldl_cons, Draft.step, Draft.isOpen,
    beq_self_eq_true, Bool.true_or, if_pos rfl, Draft.closeThrough, if_pos rfl]
  rfl

theorem Fills.readsAs (h : Fills cs children) (word : IsWord tag) (parent : ¬ isChildless tag)
    (keys : HasKeys attributes) (quote : QuoteStyle) :
    ∃ found, ReadsAs ((openTag tag attributes quote false).toList ++ cs ++ (closeTag tag).toList)
      (.element tag found children) :=
  ⟨_, h.readsAs_element word.isTagName word.isLowered parent keys quote⟩

theorem endsRun_write (h : piece.isElement) (quote : QuoteStyle) (rest : List Char) :
    EndsRun ((piece.write quote).toList ++ rest) := by
  cases piece with
  | raw => cases h
  | element =>
    rw [Piece.write, String.toList_append, String.toList_append, toList_openTag]
    exact .inr ⟨_, rfl⟩
  | void =>
    rw [Piece.write, toList_openTag]
    exact .inr ⟨_, rfl⟩
  | marker =>
    rw [Piece.write, String.toList_append, String.toList_append]
    exact .inr ⟨_, rfl⟩

theorem Legible.exists_images (h : Legible quote piece) (he : piece.isElement) :
    ∃ image, Images quote piece image := by
  cases piece with
  | raw => cases he
  | element | void | marker => exact h

/-! ## Children -/

/-- The last child is not a text, so a text that follows is a node of its own. -/
def EndsClean (children : List Fragment) : Prop := ∀ s, children.getLast? ≠ some (.text s)

theorem endsClean_concat (h : f.isElement) (children : List Fragment) :
    EndsClean (children ++ [f]) := by
  intro s hs
  rw [List.getLast?_concat] at hs
  cases hs
  cases h

theorem addText_of_endsClean {frame : Frame} (h : EndsClean frame.before) (s : String) :
    frame.addText s = frame.add (.text s) := by
  unfold Frame.addText
  split
  · next t ht => exact absurd ht (h t)
  · rfl

theorem fills_run (h : '<' ∉ cs) :
    ∃ texts : List Fragment, texts.filter Fragment.isElement = [] ∧
      ∀ (frame : Frame) (outer : List Frame) (rest : List Char), EndsClean frame.before →
        EndsRun rest → Draft.after ⟨frame, outer⟩ (cs ++ rest) =
          Draft.after ⟨{ frame with before := frame.before ++ texts }, outer⟩ rest := by
  by_cases hne : cs = []
  · refine ⟨[], rfl, fun frame outer rest _ _ => ?_⟩
    rw [hne, List.append_nil, List.nil_append]
  · obtain ⟨s, hs⟩ := read_run hne h
    refine ⟨[.text s], rfl, fun frame outer rest hclean hrest => ?_⟩
    rw [Draft.after, hs rest hrest, List.foldl_cons, Draft.step, addText_of_endsClean hclean]
    rfl

/-- Pieces behind some text are read as the same children in every element where no text precedes
them. The text is here for the induction: raw pieces beside each other are read as one text. -/
theorem fills_text_writeList (cs : List Char) (h : ∀ p ∈ pieces, Legible quote p) (hcs : '<' ∉ cs) :
    ∃ children, List.Forall₂ (Images quote) (pieces.filter Piece.isElement)
        (children.filter Fragment.isElement) ∧
      ∀ (frame : Frame) (outer : List Frame) (rest : List Char), EndsClean frame.before →
        EndsRun rest →
          Draft.after ⟨frame, outer⟩ (cs ++ (Piece.writeList quote pieces).toList ++ rest) =
            Draft.after ⟨{ frame with before := frame.before ++ children }, outer⟩ rest := by
  induction pieces generalizing cs with
  | nil =>
    obtain ⟨texts, hnone, hrun⟩ := fills_run hcs
    refine ⟨texts, by rw [hnone]; exact .nil, fun frame outer rest hclean hrest => ?_⟩
    rw [Piece.writeList, String.toList_empty, List.append_nil]
    exact hrun frame outer rest hclean hrest
  | cons piece pieces ih =>
    obtain ⟨hlegible, hrest⟩ := List.forall_mem_cons.1 h
    by_cases helement : piece.isElement
    · obtain ⟨image, himage⟩ := hlegible.exists_images helement
      obtain ⟨texts, hnone, hrun⟩ := fills_run hcs
      obtain ⟨children, hchildren, hfill⟩ := ih [] hrest List.not_mem_nil
      refine ⟨texts ++ image :: children, ?_, fun frame outer rest hclean hend => ?_⟩
      · rw [List.filter_append, hnone, List.nil_append, List.filter_cons, List.filter_cons,
          if_pos helement, if_pos himage.isElement]
        exact .cons himage hchildren
      · have hfirst := hrun frame outer _ hclean (endsRun_write helement quote
          ((Piece.writeList quote pieces).toList ++ rest))
        have hlater := hfill ⟨frame.tag, frame.attributes, frame.before ++ texts ++ [image]⟩ outer
          rest (endsClean_concat himage.isElement _) hend
        rw [Piece.writeList, String.toList_append]
        simp only [List.append_assoc, List.nil_append] at hfirst hlater ⊢
        rw [hfirst, himage.reads]
        simpa [Frame.add] using hlater
    · cases piece with
      | element | void | marker => exact absurd rfl helement
      | raw markup =>
        have hcs' : '<' ∉ cs ++ markup.toList := by
          rw [List.mem_append, not_or]
          exact ⟨hcs, hlegible⟩
        obtain ⟨children, hchildren, hfill⟩ := ih _ hrest hcs'
        refine ⟨children, hchildren, fun frame outer rest hclean hend => ?_⟩
        have hall := hfill frame outer rest hclean hend
        rw [Piece.writeList, String.toList_append, Piece.write]
        simpa [List.append_assoc] using hall

theorem fills_writeList (h : ∀ p ∈ pieces, Legible quote p) :
    ∃ children, List.Forall₂ (Images quote) (pieces.filter Piece.isElement)
        (children.filter Fragment.isElement) ∧
      Fills (Piece.writeList quote pieces).toList children := by
  obtain ⟨children, hchildren, hfill⟩ := fills_text_writeList [] h List.not_mem_nil
  exact ⟨children, hchildren, fun tag attributes outer rest hend =>
    hfill ⟨tag, attributes, []⟩ outer rest nofun hend⟩

/-- **A piece shows the same wherever it stands**: an element is read with what its content fills it
with. -/
theorem images_element (h : Fills (Piece.writeList quote pieces).toList children)
    (word : IsWord tag) (parent : ¬ isChildless tag) (keys : HasKeys attributes) :
    ∃ found, Images quote (.element tag attributes pieces) (.element tag found children) := by
  obtain ⟨found, hreads⟩ := h.readsAs word parent keys quote
  refine ⟨found, rfl, ?_⟩
  rwa [Piece.write, String.toList_append, String.toList_append]

theorem readsAs_void (name : IsTagName tag) (lowered : IsLowered tag) (keys : HasKeys attributes)
    (quote : QuoteStyle) :
    ReadsAs (openTag tag attributes quote true).toList
      (.element tag (readBack attributes quote) []) := by
  intro frame outer rest
  rw [Draft.after, read_openTag_eq name keys, lowered.nameOf, List.foldl_cons, Draft.step,
    Bool.true_or, if_pos rfl]
  rfl

theorem images_void (word : IsWord tag) (keys : HasKeys attributes) (quote : QuoteStyle) :
    ∃ found, Images quote (.void tag attributes) (.element tag found []) :=
  ⟨_, rfl, readsAs_void word.isTagName word.isLowered keys quote⟩

theorem legible_marker (message : String) : Legible quote (.marker message) := by
  obtain ⟨texts, _, hrun⟩ := fills_run (not_mem_escapeText message)
  have hfill : Fills (escapeText message).toList texts := fun tag attributes outer rest hend =>
    hrun ⟨tag, attributes, []⟩ outer rest nofun hend
  obtain ⟨found, hreads⟩ := hfill.readsAs isWord_error (by decide) hasKeys_empty quote
  refine ⟨.element "error" found texts, rfl, ?_⟩
  simpa [Piece.write, openTag, closeTag, attributeText, Attributes.empty] using hreads

theorem Images.unique (h : Images quote piece f) (h' : Images quote piece g) : f = g :=
  h.reads.unique h'.reads

/-! ## Taking the element out -/

theorem ReadsAs.fills (h : ReadsAs cs f) : Fills cs [f] := fun _ _ outer rest _ => h _ outer rest

theorem readsAs_wrap {tags : List String} {markup : String}
    (h : ∀ tag ∈ tags, IsWord tag ∧ ¬ isChildless tag) (hm : ReadsAs markup.toList f)
    (hf : f.isElement) : ∃ g, g.isElement ∧ ReadsAs (wrap tags markup).toList g ∧
      g.descend? tags.length = some f := by
  induction tags with
  | nil => exact ⟨f, hf, hm, rfl⟩
  | cons tag tags ih =>
    obtain ⟨word, parent⟩ := h tag List.mem_cons_self
    obtain ⟨g, hg, hreads, hdescend⟩ := ih fun t ht => h t (List.mem_cons_of_mem tag ht)
    obtain ⟨found, hreads'⟩ := hreads.fills.readsAs word parent hasKeys_empty .double
    refine ⟨.element tag found [g], rfl, ?_, ?_⟩
    · simpa [wrap, openTag, closeTag, attributeText, Attributes.empty] using hreads'
    · rw [List.length_cons, Fragment.descend?, List.find?_cons_of_pos hg]
      exact hdescend

theorem ofMarkup?_of_readsAs {markup : String} (h : ReadsAs markup.toList f) (hf : f.isElement) :
    Fragment.ofMarkup? markup = some f := by
  obtain ⟨g, hg, hreads, hdescend⟩ := readsAs_wrap (scaffold_words markup) h hf
  have hafter := hreads ⟨"div", .empty, []⟩ [] []
  rw [List.append_nil, after_nil] at hafter
  have hread : Draft.read "div" .empty (tokens (wrap (scaffold markup) markup)) =
      .element "div" .empty [g] := by
    unfold Draft.read
    rw [show (tokens (wrap (scaffold markup) markup)).foldl Draft.step
      ⟨⟨"div", .empty, []⟩, []⟩ = _ from hafter]
    rfl
  rw [Fragment.ofMarkup?, hread, Fragment.descend?, List.find?_cons_of_pos hg]
  exact hdescend

theorem ReadsAs.materialize {d : Document} {markup : String} (h : ReadsAs markup.toList f)
    (hf : f.isElement) (hd : d.Forest) :
    ∃ root d', d.materialize markup = (.ok root, d') ∧ d'.Forest ∧ d'.fragment root = f := by
  obtain ⟨hforest, hresult⟩ := Document.materialize_spec hd markup
  rw [ofMarkup?_of_readsAs h hf] at hresult
  obtain ⟨root, hroot, _, _, hfragment⟩ := hresult
  exact ⟨root, _, Prod.ext hroot rfl, hforest, hfragment⟩

theorem Images.materialize {d : Document} (h : Images quote piece f) (hd : d.Forest) :
    ∃ root d', d.materialize (piece.write quote) = (.ok root, d') ∧ d'.Forest ∧
      d'.fragment root = f :=
  h.reads.materialize h.isElement hd

/-! ## Paths -/

/-- The element right inside a fragment that a segment leads to; a repetition is taken at its first
place. -/
def Fragment.child? (f : Fragment) (segment : Segment) : Option Fragment :=
  (segment.resolve (some 0) f.inner.length).toOption.join.bind (f.inner[·]?)

theorem Fragment.child?_eq_some_iff {f g : Fragment} {segment : Segment} :
    f.child? segment = some g ↔
      ∃ k, segment.resolve (some 0) f.inner.length = .ok (some k) ∧ f.inner[k]? = some g := by
  rw [child?, Option.bind_eq_some_iff]
  cases segment.resolve (some 0) f.inner.length <;> simp [Except.toOption]

/-- The segments of a path lead from a fragment to one inside it. -/
def Fragment.follow? : Path → Fragment → Option Fragment
  | [], f => some f
  | segment :: path, f => (f.child? segment).bind (follow? path)

theorem Fragment.follow?_append (path rel : Path) (f : Fragment) :
    f.follow? (path ++ rel) = (f.follow? path).bind (follow? rel) := by
  induction path generalizing f with
  | nil => rfl
  | cons segment path ih =>
    rw [List.cons_append, follow?, follow?, Option.bind_assoc]
    congr 1
    exact funext ih

theorem resolve_first {segment : Segment} {index : Option Nat} {count k : Nat}
    (hindex : ∀ i, index = some i → i = 0) (h : segment.resolve index count = .ok (some k)) :
    segment.resolve (some 0) count = .ok (some k) := by
  cases index with
  | some i =>
    obtain rfl := hindex i rfl
    exact h
  | none =>
    cases segment with
    | index | fromEnd => exact h
    | repeated => cases h

namespace Document
variable {d : Document} {id e : Handle} {path : Path} {s : Selector}

theorem map_fragment_elementChildren (hf : d.Forest) (id : Handle) :
    (d.elementChildren id).map d.fragment = (d.fragment id).inner := by
  cases hg : d.get? id with
  | none =>
    rw [fragment_of_none hg, elementChildren, children, hg]
    rfl
  | some content =>
    cases content with
    | text s =>
      rw [fragment_of_text hg, elementChildren, children, hg]
      rfl
    | element tag attributes children =>
      rw [fragment_of_element hf hg, Fragment.inner, elementChildren, children_of_get? hg,
        List.filter_map]
      congr 2
      exact funext fun c => (isElement_fragment hf c).symm

theorem content_of_fragment (hf : d.Forest) (h : d.fragment id = .element tag attributes children) :
    d.tag? id = some tag ∧ (d.children id).map d.fragment = children := by
  cases hg : d.get? id with
  | none =>
    rw [fragment_of_none hg] at h
    cases h
  | some content =>
    cases content with
    | text s =>
      rw [fragment_of_text hg] at h
      cases h
    | element tag' attributes' children' =>
      rw [fragment_of_element hf hg] at h
      cases h
      rw [tag?, hg, children_of_get? hg]
      exact ⟨rfl, rfl⟩

theorem fragment_of_follow? (hf : d.Forest) (hs : ∀ key i, s.index? key = some i → i = 0)
    (h : d.follow? s path id = .ok (some e)) :
    (d.fragment id).follow? path = some (d.fragment e) := by
  induction path generalizing id with
  | nil =>
    cases h
    rfl
  | cons segment path ih =>
    obtain ⟨k, child, hk, hchild, hrest⟩ := follow?_cons_eq_some_iff.1 h
    have hindex (i : Nat) (hi : segment.key?.bind s.index? = some i) : i = 0 := by
      obtain ⟨key, _, hkey⟩ := Option.bind_eq_some_iff.1 hi
      exact hs key i hkey
    have hfirst : (d.fragment id).child? segment = some (d.fragment child) := by
      rw [Fragment.child?_eq_some_iff, ← map_fragment_elementChildren hf, List.length_map]
      exact ⟨k, resolve_first hindex hk, by rw [List.getElem?_map, hchild, Option.map_some]⟩
    rw [Fragment.follow?, hfirst]
    exact ih hrest

end Document

theorem Images.located {d d' : Document} {root e : Handle} {path : Path} {s : Selector}
    (h : Images quote piece f) (hd : d.Forest)
    (hroot : d.materialize (piece.write quote) = (.ok root, d'))
    (hs : ∀ key i, s.index? key = some i → i = 0)
    (hfollow : d'.follow? s path root = .ok (some e)) :
    d'.Forest ∧ f.follow? path = some (d'.fragment e) := by
  obtain ⟨root', d'', hmaterialize, hforest, hfragment⟩ := h.materialize hd
  cases hmaterialize.symm.trans hroot
  have hlead := Document.fragment_of_follow? hforest hs hfollow
  rw [hfragment] at hlead
  exact ⟨hforest, hlead⟩

end Stencil.Live
