import Stencil.Proofs.Source.Reading

/-! # How a source can go on

Whatever has been read so far, there are tokens with which the source may end. A head goes on until
it may end, then the braces are closed one after another, and a declaration without a node gets one.
-/
namespace Stencil.Source

variable {read : List Declaration} {name : String} {span : Span} {s : State}
  {stack : List Frame} {focus : Focus} {place : List Frame × Focus} {token : Token}
  {more : List Token}

/-- The tokens can be written, and the source may end behind them. -/
def State.EndsWith (s : State) (more : List Token) : Prop :=
  Spellable more ∧ ∀ lexemes : List Lexeme, lexemes.map (·.token) = more →
    ∃ read, s.run lexemes = (.between read, [])

namespace State.EndsWith

theorem between (read : List Declaration) : (State.between read).EndsWith [] := by
  refine ⟨by simp [Spellable], fun lexemes h => ⟨read, ?_⟩⟩
  rw [List.map_eq_nil_iff.1 h, State.run]

theorem cons (token : Token) (hspellable : token.isSpellable)
    (h : ∀ span, ∃ s', s.step ⟨token, span⟩ = some s' ∧ s'.EndsWith more) :
    s.EndsWith (token :: more) := by
  refine ⟨spellable_cons.2 ⟨hspellable, ?_⟩, fun lexemes hmap => ?_⟩
  · obtain ⟨_, _, hmore, _⟩ := h default
    exact hmore
  · obtain ⟨⟨_, span⟩, later, rfl, rfl, hlater⟩ := List.map_eq_cons_iff.1 hmap
    obtain ⟨s', hstep, _, hends⟩ := h span
    rw [State.run, hstep]
    exact hends later hlater

theorem step {s' : State} (token : Token) (hspellable : token.isSpellable)
    (hstep : ∀ span, s.step ⟨token, span⟩ = some s') (h : s'.EndsWith more) :
    s.EndsWith (token :: more) :=
  cons token hspellable fun span => ⟨s', hstep span, h⟩

end State.EndsWith

/-! ## Places -/

/-- Where an item has ended: the next one may start, or the declaration ends. -/
def Focus.IsSettled : Focus → Prop
  | .item | .close _ => True
  | _ => False

theorem addNode_settled (node : Node) (stack : List Frame) :
    (addNode node stack).2.IsSettled ∧ (addNode node stack).1.length = stack.length := by
  rcases stack with _ | ⟨_ | _, _⟩ <;> exact ⟨trivial, rfl⟩

theorem finish_settled (head : Head) (children : List Node) (slots : NameMap Slot)
    (stack : List Frame) :
    (finish head children slots stack).2.IsSettled ∧
      (finish head children slots stack).1.length = stack.length := by
  obtain ⟨subject, point, attributes⟩ := head
  cases subject with
  | element | reference => exact addNode_settled _ stack
  | slot name => rcases stack with _ | ⟨_ | _, _⟩ <;> exact ⟨trivial, rfl⟩

theorem endsWith_close {root : Node} (h : State.Stands read name span s (stack, .close root)) :
    s.EndsWith [.mark .braceClose] :=
  .step _ rfl (h.step rfl) (.between _)

theorem endsWith_item {stack' : List Frame} (token : Token)
    (h : State.Stands read name span s (stack, .item)) (htoken : token.isItem)
    (hspellable : token.isSpellable) (hitem : itemStep stack token = some (stack', focus))
    (hmore : (State.within read name span stack' focus).EndsWith more) :
    s.EndsWith (token :: more) :=
  .step token hspellable (h.step_item htoken hitem) hmore

/-- The braces are closed from the inside. The induction is on how many are open. -/
theorem exists_endsWith_of_stands (h : State.Stands read name span s place)
    (hsettled : place.2.IsSettled) : ∃ more, s.EndsWith more := by
  obtain ⟨stack, focus⟩ := place
  induction hn : stack.length generalizing s stack focus with
  | zero =>
    obtain rfl := List.length_eq_zero_iff.1 hn
    cases focus with
    | close root => exact ⟨_, endsWith_close h⟩
    | item =>
      have hclose : (State.within read name span [] (.close (.text ""))).EndsWith _ :=
        endsWith_close (.close [] _)
      exact ⟨_, endsWith_item (.string "") h rfl rfl rfl hclose⟩
    | reference | head => exact hsettled.elim
  | succ n ih =>
    obtain ⟨frame, stack, rfl⟩ := List.exists_cons_of_length_eq_add_one hn
    cases focus with
    | close root => exact ⟨_, endsWith_close h⟩
    | item =>
      -- the brace ends an item of the braces around it, where one pair less is open
      have closed (head : Head) (children : List Node) (slots : NameMap Slot)
          (hitem : itemStep (frame :: stack) (.mark .braceClose) =
            some (finish head children slots stack)) : ∃ more, s.EndsWith more := by
        obtain ⟨hfocus, hlength⟩ := finish_settled head children slots stack
        obtain ⟨more, hmore⟩ := ih _ _ (State.stands_finish head children slots stack) hfocus
          (hlength.trans (Nat.succ.inj hn))
        exact ⟨_, endsWith_item _ h rfl rfl hitem hmore⟩
      cases frame with
      | children head read => exact closed head read.reverse [] rfl
      | slots head read => exact closed head [] read rfl
    | reference | head => exact hsettled.elim

/-! ## States -/

theorem exists_endsWith_head {head : Head} {progress : Progress} (hmay : Head.mayEnd progress) :
    ∃ more, (State.within read name span stack (.head head progress)).EndsWith more :=
  exists_endsWith_of_stands (.head stack hmay) (finish_settled head [] [] stack).1

theorem endsWith_onHead {head head' : Head} {progress progress' : Progress} (token : Token)
    (hstep : head.step progress token = some (head', progress')) (hspellable : token.isSpellable)
    (h : (State.within read name span stack (.head head' progress')).EndsWith more) :
    (State.within read name span stack (.head head progress)).EndsWith (token :: more) :=
  .step token hspellable (fun _ => by simp only [State.step, hstep]) h

/-- A head goes on until it may end. -/
theorem exists_endsWith_onHead (head : Head) (progress : Progress) :
    ∃ more, (State.within read name span stack (.head head progress)).EndsWith more := by
  have ended (head : Head) :
      ∃ more, (State.within read name span stack (.head head .attributes)).EndsWith more :=
    exists_endsWith_head rfl
  have value (head : Head) :
      ∃ more, (State.within read name span stack (.head head .value)).EndsWith more := by
    obtain ⟨more, hmore⟩ := ended head
    exact ⟨_, endsWith_onHead (.mark .bracketClose) rfl rfl hmore⟩
  have colon (head : Head) (key : String) :
      ∃ more, (State.within read name span stack (.head head (.colon key))).EndsWith more := by
    obtain ⟨more, hmore⟩ := value { head with attributes := head.attributes.insert key "" }
    exact ⟨_, endsWith_onHead (.string "") rfl rfl hmore⟩
  cases progress with
  | name | id | star | exported | attributes => exact exists_endsWith_head rfl
  | hash =>
    obtain ⟨more, hmore⟩ : ∃ more, (State.within read name span stack
        (.head { head with point := { head.point with id := some "x" } } .id)).EndsWith more :=
      exists_endsWith_head rfl
    exact ⟨_, endsWith_onHead (.word "x") rfl (by decide) hmore⟩
  | list =>
    obtain ⟨more, hmore⟩ := ended head
    exact ⟨_, endsWith_onHead (.mark .bracketClose) rfl rfl hmore⟩
  | key key =>
    obtain ⟨more, hmore⟩ := colon head key
    exact ⟨_, endsWith_onHead (.mark .colon) rfl rfl hmore⟩
  | colon key => exact colon head key
  | value => exact value head

theorem endsWith_opened (read : List Declaration) (name : String) (span : Span) :
    (State.within read name span [] .item).EndsWith [.string "", .mark .braceClose] :=
  endsWith_item _ (.item []) rfl rfl rfl (endsWith_close (.close [] (.text "")))

/-- **No dead ends.** From every state a source can go on so that it may end. -/
theorem exists_endsWith (s : State) : ∃ more, s.EndsWith more := by
  have opening (read : List Declaration) (name : String) (span : Span) :
      (State.opening read name span).EndsWith
        [.mark .braceOpen, .string "", .mark .braceClose] :=
    .step _ rfl (fun _ => rfl) (endsWith_opened read name span)
  cases s with
  | between read => exact ⟨_, .between read⟩
  | naming read =>
    exact ⟨_, .cons (.word "x") (by decide) fun span => ⟨_, rfl, opening read "x" span⟩⟩
  | opening read name span => exact ⟨_, opening read name span⟩
  | within read name span stack focus =>
    cases focus with
    | item => exact exists_endsWith_of_stands (.item stack) trivial
    | close root => exact exists_endsWith_of_stands (.close stack root) trivial
    | head head progress => exact exists_endsWith_onHead head progress
    | reference =>
      obtain ⟨more, hmore⟩ : ∃ more, (State.within read name span stack
          (.head (.ofReference "x") .name)).EndsWith more :=
        exists_endsWith_onHead (.ofReference "x") .name
      exact ⟨_, .step (.word "x") (by decide) (fun _ => rfl) hmore⟩

end Stencil.Source
