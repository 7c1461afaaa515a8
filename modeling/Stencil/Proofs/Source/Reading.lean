import Stencil.Proofs.Data.Record
import Stencil.Proofs.NameMap
import Stencil.Proofs.Source.Derivation
import Stencil.Proofs.Source.Spelling
import Stencil.Source.Parse

/-! # Reading what is written

A place in a source where the next item may start can be reached in two states: one in which all
heads are finished, and one in which the last head could still go on. Both read the next item alike,
so they count as the same place. The tokens of a tree then lead from one place to another, by
induction on the tree. What is written is derived by trees, so a list of declarations is read as
itself.
-/
namespace Stencil.Source

/-- A token that starts an item or ends the braces. No head goes on with one. -/
def Token.isItem : Token → Bool
  | .word _ | .string _ | .keyword .reference | .mark .braceClose => true
  | _ => false

def Progress.isOpen : Progress → Bool
  | .name | .id | .star | .exported => true
  | _ => false

def Marks.Suit (m : Marks) : Subject → Prop
  | .slot _ => ∃ id, m = .named id
  | _ => True

def takesNodes : List Frame → Bool
  | .slots _ _ :: _ => false
  | _ => true

variable {read : List Declaration} {name : String} {span : Span}

namespace State
variable {s s₁ s' : State} {stack stack' : List Frame} {focus : Focus} {head head' : Head}
  {progress progress' : Progress} {place : List Frame × Focus} {token : Token}
  {tokens tokens' : List Token}

/-! ## Runs -/

theorem run_append {front : List Lexeme} (h : s.run front = (s', [])) (back : List Lexeme) :
    s.run (front ++ back) = s'.run back := by
  induction front generalizing s with
  | nil =>
    cases h
    rfl
  | cons lexeme front ih =>
    rw [run] at h
    rw [List.cons_append, run]
    cases hs : s.step lexeme with
    | none => simp [hs] at h
    | some s₁ =>
      simp only [hs] at h ⊢
      exact ih h

/-- The tokens lead from one state to another, at whatever bytes they stand. -/
def Reads (s : State) (tokens : List Token) (s' : State) : Prop :=
  ∀ lexemes : List Lexeme, lexemes.map (·.token) = tokens → s.run lexemes = (s', [])

theorem Reads.nil (s : State) : Reads s [] s := by
  intro lexemes h
  rw [List.map_eq_nil_iff.1 h, run]

theorem Reads.cons (h : ∀ span, s.step ⟨token, span⟩ = some s₁) (rest : Reads s₁ tokens s') :
    Reads s (token :: tokens) s' := by
  intro lexemes hmap
  obtain ⟨⟨t, span⟩, later, rfl, rfl, hlater⟩ := List.map_eq_cons_iff.1 hmap
  rw [run, h span]
  exact rest later hlater

theorem Reads.append (h : Reads s tokens s₁) (h' : Reads s₁ tokens' s') :
    Reads s (tokens ++ tokens') s' := by
  intro lexemes hmap
  obtain ⟨front, back, rfl, hfront, hback⟩ := List.map_eq_append_iff.1 hmap
  rw [run_append (h front hfront)]
  exact h' back hback

theorem Reads.onHead (h : head.step progress token = some (head', progress'))
    (rest : Reads (.within read name span stack (.head head' progress')) tokens s') :
    Reads (.within read name span stack (.head head progress)) (token :: tokens) s' :=
  .cons (fun _ => by simp only [step, h]) rest

/-! ## Places -/

/-- The state is at a place where no head is unfinished, or a head may end there. -/
inductive Stands (read : List Declaration) (name : String) (span : Span) :
    State → List Frame × Focus → Prop
  | item (stack : List Frame) :
      Stands read name span (.within read name span stack .item) (stack, .item)
  | close (stack : List Frame) (root : Node) :
      Stands read name span (.within read name span stack (.close root)) (stack, .close root)
  | head {head : Head} {progress : Progress} (stack : List Frame) (h : Head.mayEnd progress) :
      Stands read name span (.within read name span stack (.head head progress))
        (finish head [] [] stack)

theorem stands_addNode (node : Node) (stack : List Frame) :
    Stands read name span (.within read name span (addNode node stack).1 (addNode node stack).2)
      (addNode node stack) := by
  cases stack with
  | nil => exact .close [] node
  | cons frame stack =>
    cases frame with
    | children => exact .item _
    | slots => exact .close _ node

theorem stands_finish (head : Head) (children : List Node) (slots : NameMap Slot)
    (stack : List Frame) :
    Stands read name span (.within read name span (finish head children slots stack).1
      (finish head children slots stack).2) (finish head children slots stack) := by
  obtain ⟨subject, point, attributes⟩ := head
  cases subject with
  | element tag => exact stands_addNode _ stack
  | reference template => exact stands_addNode _ stack
  | slot name =>
    cases stack with
    | nil => exact .item []
    | cons frame stack => cases frame <;> exact .item _

theorem step_head_eq_none (hmay : Head.mayEnd progress) (h : token.isItem) :
    head.step progress token = none := by
  cases progress with
  | hash | list | key | colon | value => cases hmay
  | name | id | star | exported | attributes =>
    cases token with
    | keyword k => cases k <;> first | rfl | cases h
    | mark m => cases m <;> first | rfl | cases h
    | word | string => rfl

theorem Stands.step (h : Stands read name span s place) (htoken : token.isItem) (span' : Span) :
    s.step ⟨token, span'⟩ = settledStep read name span token place := by
  cases h with
  | item => rfl
  | close => rfl
  | @head head progress stack hmay =>
    have hbrace : token ≠ .mark .braceOpen := by
      rintro rfl
      cases htoken
    simp only [State.step, step_head_eq_none hmay htoken, hmay, if_true, hbrace, if_false, settled]

theorem Stands.step_item (h : Stands read name span s (stack, .item)) (htoken : token.isItem)
    (hitem : itemStep stack token = some (stack', focus)) (span' : Span) :
    s.step ⟨token, span'⟩ = some (.within read name span stack' focus) := by
  rw [h.step htoken, settledStep, hitem]
  rfl

theorem itemStep_string (h : takesNodes stack) (text : String) :
    itemStep stack (.string text) = some (addNode (.text text) stack) := by
  cases stack with
  | nil => rfl
  | cons frame stack => cases frame <;> first | rfl | cases h

theorem itemStep_word (h : takesNodes stack) (tag : String) :
    itemStep stack (.word tag) = some (stack, .head (.ofElement tag) .name) := by
  cases stack with
  | nil => rfl
  | cons frame stack => cases frame <;> first | rfl | cases h

theorem itemStep_reference (h : takesNodes stack) :
    itemStep stack (.keyword .reference) = some (stack, .reference) := by
  cases stack with
  | nil => rfl
  | cons frame stack => cases frame <;> first | rfl | cases h

/-! ## Heads -/

/-- Behind its name a head takes its marks. -/
theorem reads_marks {subject : Subject} (m : Marks) (suit : m.Suit subject) :
    ∃ progress, Progress.isOpen progress ∧
      Reads (.within read name span stack (.head ⟨subject, .anonymous, .empty⟩ .name)) m.tokens
        (.within read name span stack (.head ⟨subject, m.spec, .empty⟩ progress)) := by
  obtain ⟨id, exported⟩ := m
  have marked (h : ∀ id', Marks.mk id exported ≠ .named id') (point : PointSpec) :
      ¬ (Head.mk subject point .empty).isSlot := by
    cases subject with
    | element | reference => exact Bool.false_ne_true
    | slot name =>
      obtain ⟨id', hid⟩ := suit
      exact absurd hid (h id')
  have starred (name : String) (id' : Option String) :
      Marks.mk (some (name, true)) exported ≠ .named id' := by
    cases id' <;> simp [Marks.named]
  rcases id with _ | ⟨id, star⟩
  · cases exported with
    | false => exact ⟨.name, rfl, .nil _⟩
    | true => exact ⟨.exported, rfl, .onHead (if_neg (marked (by simp [Marks.named]) _)) (.nil _)⟩
  · cases star with
    | false =>
      cases exported with
      | false => exact ⟨.id, rfl, .onHead rfl (.onHead rfl (.nil _))⟩
      | true =>
        have hexport := marked (by simp [Marks.named]) ⟨some id, .single, false⟩
        exact ⟨.exported, rfl, .onHead rfl (.onHead rfl (.onHead (if_neg hexport) (.nil _)))⟩
    | true =>
      have hstar := marked (starred id) ⟨some id, .single, false⟩
      cases exported with
      | false => exact ⟨.star, rfl, .onHead rfl (.onHead rfl (.onHead (if_neg hstar) (.nil _)))⟩
      | true =>
        have hexport := marked (starred id) ⟨some id, .multiple, false⟩
        exact ⟨.exported, rfl, .onHead rfl (.onHead rfl
          (.onHead (if_neg hstar) (.onHead (if_neg hexport) (.nil _))))⟩

theorem reads_lists {entries : List (String × String)} (h : Lists entries tokens) (head : Head) :
    Reads (.within read name span stack (.head head .list)) tokens
      (.within read name span stack (.head
        { head with attributes := entries.foldl (fun a e => a.insert e.1 e.2) head.attributes }
        .attributes)) := by
  induction h generalizing head with
  | close => exact .onHead rfl (.nil _)
  | last hname =>
    rcases hname with rfl | rfl <;>
      exact .onHead rfl (.onHead rfl (.onHead rfl (.onHead rfl (.nil _))))
  | @more token key value entries tokens hname _ ih =>
    have hrest := ih { head with attributes := head.attributes.insert key value }
    rcases hname with rfl | rfl <;>
      exact .onHead rfl (.onHead rfl (.onHead rfl (.onHead rfl hrest)))

theorem lists_entries (first : Entry) (more : List Entry) (comma : Bool) :
    Lists ((first :: more).map Entry.pair) (first.tokens ++ Entry.moreTokens more comma) := by
  have hnames (key : Key) : Names key.token key.name := by
    cases key with
    | word name => exact .inr rfl
    | string text => exact .inl rfl
  induction more generalizing first with
  | nil =>
    cases comma with
    | false => exact .last (hnames first.key)
    | true => exact .more (hnames first.key) .close
  | cons next more ih =>
    rw [Entry.moreTokens_cons]
    exact .more (hnames first.key) (ih next)

theorem reads_entries {subject : Subject} {point : PointSpec} (l : EntryList)
    (hopen : progress.isOpen) :
    ∃ progress', Head.mayEnd progress' ∧
      Reads (.within read name span stack (.head ⟨subject, point, .empty⟩ progress)) l.tokens
        (.within read name span stack (.head ⟨subject, point, l.attributes⟩ progress')) := by
  have hlist : Head.step ⟨subject, point, .empty⟩ progress (.mark .bracketOpen) =
      some (⟨subject, point, .empty⟩, .list) := by
    cases progress <;> first | rfl | cases hopen
  cases l with
  | absent =>
    refine ⟨progress, ?_, .nil _⟩
    cases progress <;> first | rfl | cases hopen
  | empty => exact ⟨.attributes, rfl, .onHead hlist (.onHead rfl (.nil _))⟩
  | listed first more comma =>
    exact ⟨.attributes, rfl, .onHead hlist (reads_lists (lists_entries first more comma) _)⟩

/-! ## Phrases -/

def Arrives (read : List Declaration) (name : String) (span : Span) (s : State)
    (tokens : List Token) (place : List Frame × Focus) : Prop :=
  ∃ s', Reads s tokens s' ∧ Stands read name span s' place

theorem Stands.arrives (h : Stands read name span s place) : Arrives read name span s [] place :=
  ⟨s, .nil s, h⟩

theorem Reads.arrives (h : Reads s tokens s₁) (rest : Arrives read name span s₁ tokens' place) :
    Arrives read name span s (tokens ++ tokens') place := by
  obtain ⟨s', hreads, hstands⟩ := rest
  exact ⟨s', h.append hreads, hstands⟩

theorem Arrives.append {place' : List Frame × Focus} (h : Arrives read name span s tokens place)
    (rest : ∀ s', Stands read name span s' place → Arrives read name span s' tokens' place') :
    Arrives read name span s (tokens ++ tokens') place' := by
  obtain ⟨s', hreads, hstands⟩ := h
  exact hreads.arrives (rest s' hstands)

theorem Arrives.cons (h : ∀ span, s.step ⟨token, span⟩ = some s₁)
    (rest : Arrives read name span s₁ tokens place) :
    Arrives read name span s (token :: tokens) place := by
  obtain ⟨s', hreads, hstands⟩ := rest
  exact ⟨s', .cons h hreads, hstands⟩

theorem arrives_head {subject : Subject} (m : Marks) (l : EntryList) (suit : m.Suit subject)
    (rest : ∀ progress, Head.mayEnd progress → Arrives read name span
      (.within read name span stack (.head ⟨subject, m.spec, l.attributes⟩ progress)) tokens
        place) :
    Arrives read name span
      (.within read name span stack (.head ⟨subject, .anonymous, .empty⟩ .name))
      (m.tokens ++ l.tokens ++ tokens) place := by
  obtain ⟨progress, hopen, hmarks⟩ := reads_marks m suit
  obtain ⟨progress', hmay, hentries⟩ := reads_entries l hopen
  exact (hmarks.append hentries).arrives (rest progress' hmay)

theorem arrives_braces {head : Head} {children : List Node}
    {slots : NameMap Slot} (hmay : Head.mayEnd progress) {frame : Frame}
    (h : Arrives read name span (.within read name span (head.frame :: stack) .item) tokens
      (frame :: stack, .item))
    (hclose : itemStep (frame :: stack) (.mark .braceClose) =
      some (finish head children slots stack)) :
    Arrives read name span (.within read name span stack (.head head progress))
      (.mark .braceOpen :: (tokens ++ [.mark .braceClose])) (finish head children slots stack) := by
  have hopen (span' : Span) : (State.within read name span stack (.head head progress)).step
      ⟨.mark .braceOpen, span'⟩ = some (.within read name span (head.frame :: stack) .item) := by
    have hnone : head.step progress (.mark .braceOpen) = none := by cases progress <;> rfl
    simp only [step, hnone, hmay, if_true]
  refine .cons hopen (h.append fun s' hs' => .cons (hs'.step_item rfl hclose) ?_)
  exact (stands_finish head children slots stack).arrives

end State

open State

/-- What reading the tokens of a symbol comes to, at any place where the grammar has it. -/
def Symbol.Reading (read : List Declaration) (name : String) (span : Span) (tokens : List Token) :
    (symbol : Symbol) → symbol.Value → Prop
  | .node, n => ∀ (s : State) (stack : List Frame), takesNodes stack →
      Stands read name span s (stack, .item) → Arrives read name span s tokens (addNode n stack)
  | .nodes, ns => ∀ (s : State) (head : Head) (before : List Node) (stack : List Frame),
      Stands read name span s (.children head before :: stack, .item) →
      Arrives read name span s tokens (.children head (ns.reverse ++ before) :: stack, .item)
  | .body, ns => ∀ (head : Head) (progress : Progress) (stack : List Frame),
      head.frame = .children head [] → Head.mayEnd progress →
      Arrives read name span (.within read name span stack (.head head progress)) tokens
        (finish head ns [] stack)
  | .slots, ss => ∀ (s : State) (head : Head) (before : NameMap Slot) (stack : List Frame),
      Stands read name span s (.slots head before :: stack, .item) →
      Arrives read name span s tokens
        (.slots head (ss.foldl (fun m e => m.insert e.1 e.2) before) :: stack, .item)
  | .overrides, ss => ∀ (head : Head) (progress : Progress) (stack : List Frame),
      head.frame = .slots head [] → Head.mayEnd progress →
      Arrives read name span (.within read name span stack (.head head progress)) tokens
        (finish head [] ss stack)

/-- What is derived is read as what it stands for. -/
theorem Derivation.reading {symbol : Symbol} (d : Derivation symbol) :
    symbol.Reading read name span d.tokens d.value := by
  induction d with
  | text text =>
    intro s stack hstack hs
    exact .cons (hs.step_item rfl (itemStep_string hstack text)) (stands_addNode _ stack).arrives
  | element tag marks entries inner ih =>
    intro s stack hstack hs
    refine .cons (hs.step_item rfl (itemStep_word hstack tag)) ?_
    exact arrives_head marks entries trivial fun progress hmay => ih _ progress stack rfl hmay
  | reference template marks entries inner ih =>
    intro s stack hstack hs
    refine .cons (hs.step_item rfl (itemStep_reference hstack)) (.cons (fun _ => rfl) ?_)
    exact arrives_head marks entries trivial fun progress hmay => ih _ progress stack rfl hmay
  | noNodes =>
    intro s head before stack hs
    exact hs.arrives
  | moreNodes first rest ihfirst ihrest =>
    intro s head before stack hs
    rw [value, List.reverse_cons, List.append_assoc]
    exact (ihfirst s (.children head before :: stack) rfl hs).append
      fun s' hs' => ihrest s' head (first.value :: before) stack hs'
  | noBody =>
    intro head progress stack _ hmay
    exact (Stands.head stack hmay).arrives
  | body nodes ih =>
    intro head progress stack hframe hmay
    have hinner := ih (.within read name span (head.frame :: stack) .item) head [] stack
      (hframe ▸ .item _)
    refine arrives_braces hmay hinner ?_
    rw [List.append_nil, itemStep, List.reverse_reverse]
    rfl
  | noSlots =>
    intro s head before stack hs
    exact hs.arrives
  | moreSlots slot id entries inner rest ihinner ihrest =>
    intro s head before stack hs
    have hspec : (Marks.named id).spec = ⟨id, .single, false⟩ := by cases id <;> rfl
    have hslot : Arrives read name span
        (.within read name span (.slots head before :: stack) (.head (.ofSlot slot) .name))
        ((Marks.named id).tokens ++ entries.tokens ++ inner.tokens)
        (.slots head (before.insert slot ⟨id, entries.attributes, inner.value⟩) :: stack,
          .item) := by
      refine arrives_head (Marks.named id) entries ⟨id, rfl⟩ ?_
      rw [hspec]
      exact fun progress hmay => ihinner _ progress _ rfl hmay
    exact .cons (hs.step_item rfl rfl) (hslot.append fun s' hs' => ihrest s' head _ stack hs')
  | noOverrides =>
    intro head progress stack _ hmay
    exact (Stands.head stack hmay).arrives
  | overrides slots ih =>
    intro head progress stack hframe hmay
    have hinner := ih (.within read name span (head.frame :: stack) .item) head [] stack
      (hframe ▸ .item _)
    exact arrives_braces hmay hinner rfl

/-! ## What is written is derived -/

def Phrase.Derived (tokens : List Token) : Phrase → Prop
  | .node n => ∃ d : Derivation .node, d.value = n ∧ d.tokens = tokens
  | .nodes ns => ∃ d : Derivation .nodes, d.value = ns ∧ d.tokens = tokens
  | .body ns => ∃ d : Derivation .body, d.value = ns ∧ d.tokens = tokens
  | .slots ss => ∃ d : Derivation .slots, d.value = ss ∧ d.tokens = tokens
  | .overrides ss => ∃ d : Derivation .overrides, d.value = ss ∧ d.tokens = tokens

theorem exists_marks {point : PointSpec} (h : point.isWritable) :
    ∃ m : Marks, m.spec = point ∧ m.tokens = pointTokens point := by
  obtain ⟨id, cardinality, exported⟩ := point
  cases id with
  | none =>
    cases cardinality with
    | single => exact ⟨⟨none, exported⟩, rfl, rfl⟩
    | multiple => cases h
  | some id =>
    cases cardinality with
    | single => exact ⟨⟨some (id, false), exported⟩, rfl, rfl⟩
    | multiple => exact ⟨⟨some (id, true), exported⟩, rfl, rfl⟩

theorem exists_key {token : Token} {key : String} (h : Names token key) :
    ∃ k : Key, k.token = token ∧ k.name = key := by
  rcases h with rfl | rfl
  · exact ⟨.string key, rfl, rfl⟩
  · exact ⟨.word key, rfl, rfl⟩

theorem exists_entryList {entries : List (String × String)} {tokens : List Token}
    (h : Lists entries tokens) :
    ∃ l : EntryList, l.pairs = entries ∧ l.tokens = .mark .bracketOpen :: tokens := by
  induction h with
  | close => exact ⟨.empty, rfl, rfl⟩
  | last hname =>
    obtain ⟨key, rfl, rfl⟩ := exists_key hname
    exact ⟨.listed ⟨key, _⟩ [] false, rfl, rfl⟩
  | more hname _ ih =>
    obtain ⟨key, rfl, rfl⟩ := exists_key hname
    obtain ⟨l, rfl, hl⟩ := ih
    cases l with
    | absent => cases hl
    | empty =>
      cases hl
      exact ⟨.listed ⟨key, _⟩ [] true, rfl, rfl⟩
    | listed first more comma =>
      cases hl
      exact ⟨.listed ⟨key, _⟩ (first :: more) comma, rfl, by simp [EntryList.tokens,
        Entry.moreTokens_cons, Entry.tokens]⟩

theorem exists_entries {attributes : Attributes} {tokens : List Token}
    (h : SpellsAttributes attributes tokens) :
    ∃ l : EntryList, l.attributes = attributes ∧ l.tokens = tokens := by
  cases h with
  | absent => exact ⟨.absent, rfl, rfl⟩
  | brackets hlists =>
    obtain ⟨l, hpairs, htokens⟩ := exists_entryList hlists
    exact ⟨l, by rw [EntryList.attributes, hpairs, Attributes.ofList_entries], htokens⟩

/-- The trees of the grammar take in all that can be written. -/
theorem derived_of_spells {phrase : Phrase} {tokens : List Token} (h : Spells phrase tokens)
    (hw : phrase.Writable) : phrase.Derived tokens := by
  induction h with
  | text text => exact ⟨.text text, rfl, rfl⟩
  | element written _ ih =>
    obtain ⟨_, hpoint, hchildren⟩ := writable_element hw
    obtain ⟨m, rfl, hm⟩ := exists_marks hpoint
    obtain ⟨l, rfl, rfl⟩ := exists_entries written
    obtain ⟨d, rfl, rfl⟩ := ih hchildren
    exact ⟨.element _ m l d, rfl, by rw [Derivation.tokens, hm]⟩
  | reference written _ ih =>
    obtain ⟨_, hpoint, hslots⟩ := writable_reference hw
    obtain ⟨m, rfl, hm⟩ := exists_marks hpoint
    obtain ⟨l, rfl, rfl⟩ := exists_entries written
    obtain ⟨d, rfl, rfl⟩ := ih hslots
    exact ⟨.reference _ m l d, rfl, by rw [Derivation.tokens, hm]⟩
  | noNodes => exact ⟨.noNodes, rfl, rfl⟩
  | moreNodes _ _ ihfirst ihrest =>
    obtain ⟨hnode, hnodes⟩ := List.forall_mem_cons.1 hw
    obtain ⟨first, rfl, rfl⟩ := ihfirst hnode
    obtain ⟨rest, rfl, rfl⟩ := ihrest hnodes
    exact ⟨.moreNodes first rest, rfl, rfl⟩
  | noBody => exact ⟨.noBody, rfl, rfl⟩
  | body _ ih =>
    obtain ⟨d, rfl, rfl⟩ := ih hw
    exact ⟨.body d, rfl, rfl⟩
  | noSlots => exact ⟨.noSlots, rfl, rfl⟩
  | @moreSlots name id attributes children slots listed inner rest written _ _ ihbody ihrest =>
    obtain ⟨hsorted, hslots⟩ := hw
    obtain ⟨⟨_, _, hchildren⟩, hlater⟩ := List.forall_mem_cons.1 hslots
    obtain ⟨l, rfl, rfl⟩ := exists_entries written
    obtain ⟨d, rfl, rfl⟩ := ihbody hchildren
    obtain ⟨later, rfl, rfl⟩ := ihrest ⟨(List.pairwise_cons.1 hsorted).2, hlater⟩
    have hid : (Marks.named id).tokens = pointTokens ⟨id, .single, false⟩ := by
      cases id <;> rfl
    exact ⟨.moreSlots name id l d later, rfl, by rw [Derivation.tokens, hid]⟩
  | noOverrides => exact ⟨.noOverrides, rfl, rfl⟩
  | overrides _ ih =>
    obtain ⟨d, rfl, rfl⟩ := ih hw
    exact ⟨.overrides d, NameMap.ofList_of_sorted hw.1, rfl⟩

/-! ## Declarations -/

/-- The lexemes are a way to write the declarations, each with the span of its name. -/
inductive Writes : List Declaration → List Lexeme → Prop
  | nil : Writes [] []
  | cons {d : Declaration} {declarations : List Declaration} {keyword opening closing : Span}
      {root rest : List Lexeme} (spelled : Spells (.node d.root) (root.map (·.token)))
      (more : Writes declarations rest) :
      Writes (d :: declarations)
        (⟨.keyword .template, keyword⟩ :: ⟨.word d.name, d.span⟩ :: ⟨.mark .braceOpen, opening⟩ ::
          (root ++ ⟨.mark .braceClose, closing⟩ :: rest))

/-- The text is a way to write the declarations. -/
def Written (declarations : List Declaration) (text : String) : Prop :=
  ∃ lexemes, Writes declarations lexemes ∧ Layout 0 lexemes text.toList

/-- What a declaration is about, wherever its name stands. -/
def Declaration.named (d : Declaration) : String × Node := (d.name, d.root)

theorem run_of_derives {trees : List Template} {lexemes : List Lexeme} (h : Derives trees lexemes)
    (read : List Declaration) :
    (State.between read).run lexemes =
      (.between ((trees.map Template.declaration).reverse ++ read), []) := by
  induction h generalizing read with
  | nil => rfl
  | @cons t more keyword opening closing inner rest derived _ ih =>
    obtain ⟨s', hreads, hs'⟩ :=
      t.root.reading (.within read t.name t.span [] .item) [] rfl (.item [])
    have hclose : s'.step ⟨.mark .braceClose, closing⟩ = some (.between (t.declaration :: read)) :=
      hs'.step rfl closing
    have htail := ih (t.declaration :: read)
    have hopen : (State.between read).run (⟨.keyword .template, keyword⟩ ::
          ⟨.word t.name, t.span⟩ :: ⟨.mark .braceOpen, opening⟩ ::
            (inner ++ ⟨.mark .braceClose, closing⟩ :: rest)) =
        (State.within read t.name t.span [] .item).run
          (inner ++ ⟨.mark .braceClose, closing⟩ :: rest) := rfl
    rw [hopen, State.run_append (hreads inner derived), State.run, hclose, List.map_cons,
      List.reverse_cons, List.append_assoc]
    exact htail

theorem parse_of_derives {trees : List Template} {text : String} (h : Derives trees (lex text)) :
    parse text = .ok (trees.map Template.declaration) := by
  have hrun := run_of_derives h []
  rw [List.append_nil] at hrun
  simp only [parse, State.start, hrun, State.result?, List.reverse_reverse]

theorem derives_of_writes {declarations : List Declaration} {lexemes : List Lexeme}
    (h : Writes declarations lexemes) (hw : ∀ d ∈ declarations, d.root.Writable) :
    ∃ trees, Derives trees lexemes ∧ trees.map Template.declaration = declarations := by
  induction h with
  | nil => exact ⟨[], .nil, rfl⟩
  | @cons d declarations keyword opening closing inner rest spelled _ ih =>
    obtain ⟨hroot, hrest⟩ := List.forall_mem_cons.1 hw
    obtain ⟨root, hvalue, htokens⟩ := derived_of_spells spelled hroot
    obtain ⟨trees, hderives, rfl⟩ := ih hrest
    refine ⟨⟨d.name, d.span, root⟩ :: trees, .cons htokens.symm hderives, ?_⟩
    rw [List.map_cons, Template.declaration, hvalue]

theorem parse_of_written {declarations : List Declaration} {text : String}
    (h : Written declarations text) (hw : ∀ d ∈ declarations, d.root.Writable) :
    parse text = .ok declarations := by
  obtain ⟨lexemes, hwrites, hlayout⟩ := h
  obtain ⟨trees, hderives, rfl⟩ := derives_of_writes hwrites hw
  have hlex : lex text = lexemes := hlayout.lexFrom_eq
  exact parse_of_derives (hlex ▸ hderives)

theorem infix_of_writes {declarations : List Declaration} {lexemes : List Lexeme}
    (h : Writes declarations lexemes) {d : Declaration} (hd : d ∈ declarations) :
    ∃ keyword, [⟨.keyword .template, keyword⟩, ⟨.word d.name, d.span⟩] <:+: lexemes := by
  induction h with
  | nil => cases hd
  | @cons d' declarations keyword opening closing root rest _ _ ih =>
    rcases List.mem_cons.1 hd with rfl | hd
    · exact ⟨keyword, [], _, rfl⟩
    · obtain ⟨keyword', hnext⟩ := ih hd
      have hrest : rest <:+ root ++ ⟨.mark .braceClose, closing⟩ :: rest :=
        List.suffix_append_of_suffix (List.suffix_cons ..)
      refine ⟨keyword', hnext.trans (hrest.trans ?_).isInfix⟩
      exact ⟨[_, _, _], rfl⟩

theorem span_of_written {declarations : List Declaration} {text : String}
    (h : Written declarations text) {d : Declaration} (hd : d ∈ declarations) :
    ∃ before gap after : String, text = before ++ "template" ++ gap ++ d.name ++ after ∧
      Gap gap.toList ∧ d.span.start = (before ++ "template" ++ gap).utf8ByteSize ∧
      d.span.stop = d.span.start + d.name.utf8ByteSize := by
  obtain ⟨lexemes, hwrites, hlayout⟩ := h
  obtain ⟨keyword, hnext⟩ := infix_of_writes hwrites hd
  obtain ⟨before, gap, after, htext, hgap, hstart, hstop⟩ := hlayout.span hnext
  refine ⟨.ofList before, .ofList gap, .ofList after, ?_, ?_, ?_, ?_⟩
  · apply String.toList_injective
    simp [htext, Token.spelling, Keyword.spelling]
  · simpa using hgap
  · rw [← bytes_eq_utf8ByteSize]
    simpa [Token.spelling, Keyword.spelling] using hstart
  · rw [← bytes_eq_utf8ByteSize]
    exact hstop

/-- Declarations of trees that can be written can be written. -/
theorem exists_written {named : List (String × Node)}
    (h : ∀ e ∈ named, isIdentifier e.1 ∧ e.2.Writable) :
    ∃ declarations text, Written declarations text ∧ declarations.map (·.named) = named := by
  have spelled : ∃ tokens, Spellable tokens ∧ ∀ lexemes : List Lexeme,
      lexemes.map (·.token) = tokens →
        ∃ declarations, Writes declarations lexemes ∧ declarations.map (·.named) = named := by
    induction named with
    | nil =>
      refine ⟨[], by simp [Spellable], fun lexemes hmap => ⟨[], ?_, rfl⟩⟩
      rw [List.map_eq_nil_iff.1 hmap]
      exact .nil
    | cons e named ih =>
      obtain ⟨⟨hname, hroot⟩, hrest⟩ := List.forall_mem_cons.1 h
      obtain ⟨root, hspells, hspellable⟩ := exists_spells e.2 hroot
      obtain ⟨rest, hspellable', hwrites⟩ := ih hrest
      refine ⟨.keyword .template :: .word e.1 :: .mark .braceOpen ::
        (root ++ .mark .braceClose :: rest), ?_, fun lexemes hmap => ?_⟩
      · simp only [spellable_cons, spellable_append]
        exact ⟨rfl, hname, rfl, hspellable, rfl, hspellable'⟩
      · obtain ⟨⟨_, keyword⟩, _, rfl, rfl, hnamed⟩ := List.map_eq_cons_iff.1 hmap
        obtain ⟨⟨_, span⟩, _, rfl, rfl, hopened⟩ := List.map_eq_cons_iff.1 hnamed
        obtain ⟨⟨_, opening⟩, _, rfl, rfl, hinner⟩ := List.map_eq_cons_iff.1 hopened
        obtain ⟨inner, _, rfl, rfl, hclosed⟩ := List.map_eq_append_iff.1 hinner
        obtain ⟨⟨_, closing⟩, later, rfl, rfl, hlater⟩ := List.map_eq_cons_iff.1 hclosed
        obtain ⟨declarations, hwritten, rfl⟩ := hwrites later hlater
        exact ⟨⟨e.1, span, e.2⟩ :: declarations, .cons hspells hwritten, rfl⟩
  obtain ⟨tokens, hspellable, hwrites⟩ := spelled
  obtain ⟨lexemes, cs, hlayout, hmap⟩ := exists_layout 0 hspellable
  obtain ⟨declarations, hwritten, hnamed⟩ := hwrites lexemes hmap
  refine ⟨declarations, .ofList cs, ⟨lexemes, hwritten, ?_⟩, hnamed⟩
  rwa [String.toList_ofList]

/-- **Parsing undoes writing.** Whatever trees with proper names are declared, they can be written;
and however they are written, the text is parsed as these declarations, each with the bytes of its
name behind the keyword. -/
theorem parse_written (named : List (String × Node))
    (h : ∀ e ∈ named, isIdentifier e.1 ∧ e.2.Writable) :
    (∃ declarations text, Written declarations text ∧ declarations.map (·.named) = named) ∧
    ∀ declarations text, Written declarations text → declarations.map (·.named) = named →
      parse text = .ok declarations ∧
      ∀ d ∈ declarations, ∃ before gap after : String,
        text = before ++ "template" ++ gap ++ d.name ++ after ∧ Gap gap.toList ∧
        d.span.start = (before ++ "template" ++ gap).utf8ByteSize ∧
        d.span.stop = d.span.start + d.name.utf8ByteSize := by
  refine ⟨exists_written h, ?_⟩
  rintro declarations text hwritten rfl
  refine ⟨parse_of_written hwritten fun d hd => ?_, fun d hd => span_of_written hwritten hd⟩
  exact (h d.named (List.mem_map_of_mem hd)).2

/-- A comment with a quotation in it stands between a name and its brace. -/
def notedSource : String := "template T // \"T\"\n\x7b b \x7b \"\\\"\" \x7d \x7d"

def notedRoot : Node := .element "b" .anonymous .empty [.text "\""]

theorem parse_written_noted :
    Written [⟨"T", ⟨9, 10⟩, notedRoot⟩] notedSource ∧
      parse notedSource = .ok [⟨"T", ⟨9, 10⟩, notedRoot⟩] := by
  have hblank : Gap [' '] := .blank rfl .nil
  have hcomment : '\n' ∉ " \"T\"".toList := by decide
  have hnote : Gap (" // \"T\"\n".toList) := .blank rfl (.comment hcomment .nil)
  have hlayout : Layout 0
      [⟨.keyword .template, ⟨0, 8⟩⟩, ⟨.word "T", ⟨9, 10⟩⟩, ⟨.mark .braceOpen, ⟨18, 19⟩⟩,
        ⟨.word "b", ⟨20, 21⟩⟩, ⟨.mark .braceOpen, ⟨22, 23⟩⟩, ⟨.string "\"", ⟨24, 28⟩⟩,
        ⟨.mark .braceClose, ⟨29, 30⟩⟩, ⟨.mark .braceClose, ⟨31, 32⟩⟩] notedSource.toList :=
    .token .nil (.inl rfl) rfl <|
    .token hblank (.inr (by decide)) (by decide) <|
    .token hnote (.inr (by decide)) rfl <|
    .token hblank (.inr (by decide)) (by decide) <|
    .token hblank (.inr (by decide)) rfl <|
    .token hblank (.inr (by decide)) rfl <|
    .token hblank (.inr (by decide)) rfl <|
    .token hblank (.inr (by decide)) rfl <| .finish .nil
  have hroot : Spells (.node notedRoot)
      [.word "b", .mark .braceOpen, .string "\"", .mark .braceClose] :=
    .element .absent (.body (.moreNodes (.text "\"") .noNodes))
  have hwrites : Writes [⟨"T", ⟨9, 10⟩, notedRoot⟩]
      (⟨.keyword .template, ⟨0, 8⟩⟩ :: ⟨.word "T", ⟨9, 10⟩⟩ :: ⟨.mark .braceOpen, ⟨18, 19⟩⟩ ::
        ([⟨.word "b", ⟨20, 21⟩⟩, ⟨.mark .braceOpen, ⟨22, 23⟩⟩, ⟨.string "\"", ⟨24, 28⟩⟩,
          ⟨.mark .braceClose, ⟨29, 30⟩⟩] ++ [⟨.mark .braceClose, ⟨31, 32⟩⟩])) :=
    .cons hroot .nil
  have hwritten : Written [⟨"T", ⟨9, 10⟩, notedRoot⟩] notedSource := ⟨_, hwrites, hlayout⟩
  have hnamed : ∀ e ∈ [("T", notedRoot)], isIdentifier e.1 ∧ e.2.Writable := by
    intro e he
    obtain rfl := List.mem_singleton.1 he
    have hwritable : notedRoot.Writable := by
      unfold Node.Writable
      decide
    exact ⟨by decide, hwritable⟩
  exact ⟨hwritten, ((parse_written [("T", notedRoot)] hnamed).2 _ _ hwritten rfl).1⟩

end Stencil.Source
