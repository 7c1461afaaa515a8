import Stencil.Proofs.Live.Image
import Stencil.Proofs.Markup.Escaping

/-! # Written trees read back

A tree that is written and read again comes back in its normal form: markup does not show where one
text ends and the next begins, nor texts without characters, and attributes are read in the order of
their keys. Reading goes from left to right with one text pending, so the normal form of some
children is compared with what is read behind a text that may still grow.
-/
namespace Stencil.Live
open Markup
variable {f : Fragment} {children : List Fragment}

namespace Fragment

/-- Puts a node in front of others: a text runs into a text behind it, and an empty one is left
out. -/
def join : Fragment → List Fragment → List Fragment
  | text s, text t :: rest => text (s ++ t) :: rest
  | text s, rest => if s = "" then rest else text s :: rest
  | child, rest => child :: rest

mutual

/-- The tree with texts beside each other joined, empty texts left out and the attributes of each
element in the order of their keys. -/
def normal : Fragment → Fragment
  | text s => text s
  | element tag attributes children => element tag attributes.sorted (normalList children)

def normalList : List Fragment → List Fragment
  | [] => []
  | child :: rest => join (normal child) (normalList rest)

end

/-- A tree that markup can show: its names, values and texts are read as they are written, and
elements without a closing tag have no children. -/
inductive Writable : Fragment → Prop
  | text {s : String} (verbatim : IsVerbatim s) : Writable (.text s)
  | element {tag : String} {attributes : Attributes} {children : List Fragment}
      (name : IsTagName tag) (lowered : IsLowered tag)
      (keys : ∀ e ∈ attributes.entries, IsKey e.1 ∧ IsLowered e.1)
      (values : ∀ e ∈ attributes.entries, IsVerbatim e.2)
      (void : isChildless tag → children = [])
      (inner : ∀ child ∈ children, Writable child) : Writable (.element tag attributes children)

theorem join_empty (rest : List Fragment) : join (text "") rest = rest := by
  cases rest with
  | nil => rfl
  | cons child rest => cases child <;> simp [join]

theorem join_join (s t : String) (rest : List Fragment) :
    join (text s) (join (text t) rest) = join (text (s ++ t)) rest := by
  cases rest with
  | nil => by_cases ht : t = "" <;> simp [join, ht]
  | cons child rest =>
    cases child with
    | text u => simp [join, String.append_assoc]
    | element => by_cases ht : t = "" <;> simp [join, ht]

theorem isElement_normal (f : Fragment) : f.normal.isElement = f.isElement := by
  cases f <;> rfl

end Fragment

open Fragment

/-! ## Children are read one after the other -/

/-- What reading a node adds to an open element: no empty text. -/
def Frame.take (frame : Frame) : Fragment → Frame
  | .text s => if s = "" then frame else frame.addText s
  | child => frame.add child

theorem Frame.take_element (h : f.isElement) (frame : Frame) : frame.take f = frame.add f := by
  cases f with
  | text => cases h
  | element => rfl

theorem Frame.addText_addText (frame : Frame) (s t : String) :
    (frame.addText s).addText t = frame.addText (s ++ t) := by
  cases hlast : frame.before.getLast? with
  | none => simp [Frame.addText, Frame.add, hlast]
  | some child =>
    cases child with
    | text u => simp [Frame.addText, hlast, String.append_assoc]
    | element => simp [Frame.addText, Frame.add, hlast]

theorem Frame.take_text {before : List Fragment} (h : EndsClean before) (tag : String)
    (attributes : Attributes) (s t : String) :
    Frame.take ⟨tag, attributes, before ++ join (.text s) []⟩ (.text t) =
      ⟨tag, attributes, before ++ join (.text (s ++ t)) []⟩ := by
  by_cases ht : t = ""
  · simp [Frame.take, ht]
  · have hne : s ++ t ≠ "" := by simp [ht]
    by_cases hs : s = ""
    · have hclean : Frame.addText ⟨tag, attributes, before⟩ t =
          Frame.add ⟨tag, attributes, before⟩ (.text t) := addText_of_endsClean h t
      simpa [Frame.take, join, ht, hs, Frame.add] using hclean
    · simp [Frame.take, Frame.addText, join, ht, hs]

/-- **Children come to their normal form**, also behind a text that is pending. -/
theorem foldl_take (children before : List Fragment) (h : EndsClean before) (tag : String)
    (attributes : Attributes) (s : String) :
    (children.map normal).foldl Frame.take ⟨tag, attributes, before ++ join (.text s) []⟩ =
      ⟨tag, attributes, before ++ join (.text s) (normalList children)⟩ := by
  induction children generalizing before s with
  | nil => rfl
  | cons child children ih =>
    rw [List.map_cons, List.foldl_cons, normalList]
    cases hchild : child.normal with
    | text t => rw [Frame.take_text h, ih _ h, join_join]
    | element t a cs =>
      have hlater := ih (before ++ join (.text s) [] ++ [.element t a cs]) (endsClean_concat rfl _) ""
      rw [join_empty, join_empty, List.append_nil] at hlater
      rw [Frame.take_element rfl, Frame.add, hlater]
      by_cases hs : s = "" <;> simp [join, hs]

def Takes (cs : List Char) (f : Fragment) : Prop :=
  ∀ (frame : Frame) (outer : List Frame) (rest : List Char),
    Draft.after ⟨frame, outer⟩ (cs ++ rest) = Draft.after ⟨frame.take f, outer⟩ rest

theorem takes_iff_readsAs {cs : List Char} (h : f.isElement) : Takes cs f ↔ ReadsAs cs f := by
  simp only [Takes, ReadsAs, Frame.take_element h]

theorem takes_text {s : String} (h : IsVerbatim s) : Takes (escapeText s).toList (.text s) := by
  intro frame outer rest
  by_cases hs : s = ""
  · simp [hs, escapeText, Frame.take]
  · obtain ⟨t, tokens, hread, hrest⟩ := read_escapeText h hs rest
    rw [Draft.after, hread, List.foldl_cons, Draft.step, Frame.take, if_neg hs]
    rcases hrest with ⟨rfl, hrest⟩ | hrest
    · rw [Draft.after, hrest, String.append_empty]
    · rw [Draft.after, hrest, List.foldl_cons, Draft.step, Frame.addText_addText]

theorem fills_markupList (h : ∀ child ∈ children, Takes child.markup.toList child.normal) :
    Fills (markupList children).toList (normalList children) := by
  have run (frame : Frame) (outer : List Frame) (rest : List Char) :
      Draft.after ⟨frame, outer⟩ ((markupList children).toList ++ rest) =
        Draft.after ⟨(children.map normal).foldl Frame.take frame, outer⟩ rest := by
    induction children generalizing frame with
    | nil => simp [markupList]
    | cons child children ih =>
      obtain ⟨hfirst, hrest⟩ := List.forall_mem_cons.1 h
      rw [markupList, String.toList_append, List.append_assoc, hfirst, ih hrest]
      rfl
  intro tag attributes outer rest _
  have hall := foldl_take children [] nofun tag attributes ""
  rw [join_empty, join_empty] at hall
  exact (run _ outer rest).trans (congrArg (fun frame => Draft.after ⟨frame, outer⟩ rest) hall)

/-- **A tree is read as its normal form**, wherever it stands. -/
theorem takes_markup (h : f.Writable) : Takes f.markup.toList f.normal := by
  induction h with
  | text verbatim => exact takes_text verbatim
  | @element tag attributes children name lowered keys values void inner ih =>
    have hkeys : HasKeys attributes := fun e he => (keys e he).1
    have hback : readBack attributes .double = attributes.sorted :=
      readBack_eq (fun e he => ⟨(keys e he).2, values e he⟩) .double
    refine (takes_iff_readsAs (isElement_normal _)).2 ?_
    by_cases hvoid : isChildless tag
    · obtain rfl := void hvoid
      have hreads := readsAs_void name lowered hkeys .double
      rw [hback] at hreads
      simpa [markup, hvoid, normal, normalList] using hreads
    · have hreads := (fills_markupList ih).readsAs_element name lowered hvoid hkeys .double
      rw [hback] at hreads
      simpa [markup, hvoid, normal] using hreads

namespace Document
variable {d target : Document} {e : Handle}

/-- **Serialization reads back.** The markup of an element whose tree markup can show is read, into
any document, as the normal form of that tree. -/
theorem materialize_outerMarkup (hd : d.Reachable) (ht : target.Reachable) (he : d.isElement e)
    (hw : (d.fragment e).Writable) :
    ∃ root d', target.materialize (d.outerMarkup e) = (.ok root, d') ∧
      d'.fragment root = (d.fragment e).normal := by
  have helement : (d.fragment e).normal.isElement := by
    rw [isElement_normal, isElement_fragment hd.forest]
    exact he
  have hreads : ReadsAs (d.outerMarkup e).toList (d.fragment e).normal :=
    (takes_iff_readsAs helement).1 (takes_markup hw)
  obtain ⟨root, d', hroot, _, hfragment⟩ := hreads.materialize helement ht.forest
  exact ⟨root, d', hroot, hfragment⟩

theorem Reachable.planted_text {p : Handle} (h : d.Reachable) (hp : d.isElement p) (s : String) :
    (d.planted p (.text s)).Reachable := by
  have happend := (h.createText s).append p d.fresh ((inUse_alloc h.forest _ _).2 (.inl rfl))
  rwa [Document.createText, append_alloc h.forest hp rfl] at happend

/-- A table cell with attributes out of order and its text in three nodes. -/
def cell : Document :=
  let attributes := Attributes.ofList [("title", "\"<"), ("class", "a&b")]
  (((Document.empty.createElement "td" attributes).2.planted 0 (.text "1 <")).planted 0
    (.text "")).planted 0 (.text " 2")

/-- The cell comes back with one text and with its attributes in order. -/
theorem materialize_outerMarkup_cell :
    cell.Reachable ∧ cell.isElement 0 ∧ (cell.fragment 0).Writable ∧
      ∃ root d', cell.materialize (cell.outerMarkup 0) = (.ok root, d') ∧
        d'.fragment root = .element "td" (Attributes.ofList [("class", "a&b"), ("title", "\"<")])
          [.text "1 < 2"] := by
  have hcell : cell.Reachable := by
    have htag := Reachable.empty.createElement "td"
      (Attributes.ofList [("title", "\"<"), ("class", "a&b")])
    have hfirst := htag.planted_text (p := 0) rfl "1 <"
    have hempty := hfirst.planted_text (p := 0) rfl ""
    exact hempty.planted_text rfl " 2"
  have hfragment : cell.fragment 0 = .element "td"
      (Attributes.ofList [("title", "\"<"), ("class", "a&b")])
      [.text "1 <", .text "", .text " 2"] := rfl
  have hentries : (Attributes.ofList [("title", "\"<"), ("class", "a&b")]).entries =
      [("title", "\"<"), ("class", "a&b")] := rfl
  have hwritable : (cell.fragment 0).Writable := by
    rw [hfragment]
    refine .element ⟨'t', ['d'], rfl, by decide, ?_⟩ ?_ ?_ ?_ nofun ?_
    · simp [isTagNamePart, isTagBlank]
    · simp [IsLowered]
    · rw [hentries]
      simp [IsKey, IsLowered, isKeyPart, isTagNamePart, isTagBlank]
    · rw [hentries]
      simp [IsVerbatim]
    · intro child hchild
      simp only [List.mem_cons, List.not_mem_nil, or_false] at hchild
      rcases hchild with rfl | rfl | rfl <;> exact .text (by simp [IsVerbatim])
  obtain ⟨root, d', hroot, hback⟩ := materialize_outerMarkup hcell hcell rfl hwritable
  refine ⟨hcell, rfl, hwritable, root, d', hroot, hback.trans ?_⟩
  rw [hfragment, normal, ← Attributes.ofList_nameMap]
  rfl

end Document
end Stencil.Live
