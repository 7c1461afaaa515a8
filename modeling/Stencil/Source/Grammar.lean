import Stencil.Source.Token
import Stencil.Template.Node

/-! # The grammar of template source

A source is a list of declarations, each `template` with a name and one node in braces:

    node  = STRING | WORD point attributes body | use WORD point attributes slots
    point = (# WORD *?)? export?          attributes = ([ (attribute (, attribute)* ,?)? ])?
    body  = (\x7b node* \x7d)?            attribute  = (WORD | STRING) : STRING
    slots = (\x7b slot* \x7d)?            slot       = WORD (# WORD)? attributes body

Reading goes token by token. A `State` holds what has been read so far: the finished declarations,
the open braces with their contents, and how far the innermost construct has come. One token of
lookahead decides every step, so a token is refused exactly if no source continues with it.
-/
namespace Stencil.Source

structure Declaration where
  name : String
  span : Span
  root : Node

/-- What the head of a construct introduces. -/
inductive Subject
  | element (tag : String)
  | reference (template : String)
  | slot (name : String)
  deriving DecidableEq

/-- What has been read of an element, a reference or a slot in front of its braces. -/
structure Head where
  subject : Subject
  point : PointSpec
  attributes : Attributes

/-- How far a head has been read: what stands last. -/
inductive Progress
  | name
  | hash
  | id
  | star
  | exported
  /-- Behind an opening bracket or a comma. -/
  | list
  | key (key : String)
  | colon (key : String)
  | value
  /-- Behind the closing bracket. -/
  | attributes
  deriving DecidableEq

/-- An open pair of braces, with its contents from the last to the first. -/
inductive Frame
  | children (head : Head) (read : List Node)
  | slots (head : Head) (read : NameMap Slot)

inductive Focus
  /-- The next item of the innermost braces, or their end. -/
  | item
  /-- The name behind `use`. -/
  | reference
  | head (head : Head) (progress : Progress)
  /-- The end of the declaration, behind its node. -/
  | close (root : Node)

inductive State
  /-- Between declarations. -/
  | between (read : List Declaration)
  /-- Behind `template`. -/
  | naming (read : List Declaration)
  /-- Behind the name of a declaration. -/
  | opening (read : List Declaration) (name : String) (span : Span)
  | within (read : List Declaration) (name : String) (span : Span) (stack : List Frame)
      (focus : Focus)

/-- What a token list may go on with. Words and strings are not listed among them. -/
inductive Expectation
  | token (token : Token)
  | endOfInput
  deriving DecidableEq

def Expectation.describe : Expectation → String
  | token t => t.describe
  | endOfInput => "end of input"

namespace Head

def ofElement (tag : String) : Head := ⟨.element tag, .anonymous, .empty⟩

def ofReference (template : String) : Head := ⟨.reference template, .anonymous, .empty⟩

def ofSlot (name : String) : Head := ⟨.slot name, .anonymous, .empty⟩

def isSlot (h : Head) : Bool :=
  match h.subject with
  | .slot _ => true
  | _ => false

/-- What the marks behind the name of a head may be. The mark of a slot is its id alone. -/
def expected (h : Head) : Progress → List Expectation
  | .name =>
    .token (.mark .hash) :: (if h.isSlot then [] else [.token (.keyword .exported)]) ++ attributes
  | .hash => []
  | .id => if h.isSlot then attributes else
      .token (.mark .star) :: .token (.keyword .exported) :: attributes
  | .star => .token (.keyword .exported) :: attributes
  | .exported => attributes
  | .list => [.token (.mark .bracketClose)]
  | .key _ => [.token (.mark .colon)]
  | .colon _ => []
  | .value => [.token (.mark .comma), .token (.mark .bracketClose)]
  | .attributes => [.token (.mark .braceOpen)]
where
  attributes : List Expectation := [.token (.mark .bracketOpen), .token (.mark .braceOpen)]

def mayEnd : Progress → Bool
  | .name | .id | .star | .exported | .attributes => true
  | _ => false

/-- A word inside brackets is a key, and a string is a key or a value. -/
def listed (h : Head) : Progress → Token → Option (Head × Progress)
  | .list, .word k | .list, .string k => some (h, .key k)
  | .list, .mark .bracketClose => some (h, .attributes)
  | .key k, .mark .colon => some (h, .colon k)
  | .colon k, .string v => some ({ h with attributes := h.attributes.insert k v }, .value)
  | .value, .mark .comma => some (h, .list)
  | .value, .mark .bracketClose => some (h, .attributes)
  | _, _ => none

def step (h : Head) (progress : Progress) (token : Token) : Option (Head × Progress) :=
  match progress, token with
  | .name, .mark .hash => some (h, .hash)
  | .hash, .word id => some ({ h with point := { h.point with id := some id } }, .id)
  | .id, .mark .star =>
    if h.isSlot then none
    else some ({ h with point := { h.point with cardinality := .multiple } }, .star)
  | .name, .keyword .exported | .id, .keyword .exported | .star, .keyword .exported =>
    if h.isSlot then none
    else some ({ h with point := { h.point with exported := true } }, .exported)
  | .name, .mark .bracketOpen | .id, .mark .bracketOpen | .star, .mark .bracketOpen
  | .exported, .mark .bracketOpen => some (h, .list)
  | progress, token => h.listed progress token

def frame (h : Head) : Frame :=
  match h.subject with
  | .reference _ => .slots h []
  | _ => .children h []

end Head

/-- Adds a finished node to the braces that are open, or ends the node of the declaration. -/
def addNode (node : Node) : List Frame → List Frame × Focus
  | .children head read :: stack => (.children head (node :: read) :: stack, .item)
  | stack => (stack, .close node)

def finish (head : Head) (children : List Node) (slots : NameMap Slot) (stack : List Frame) :
    List Frame × Focus :=
  match head.subject with
  | .element tag => addNode (.element tag head.point head.attributes children) stack
  | .reference template => addNode (.reference template head.point head.attributes slots) stack
  | .slot name =>
    match stack with
    | .slots owner read :: stack =>
      (.slots owner (read.insert name ⟨head.point.id, head.attributes, children⟩) :: stack, .item)
    | stack => (stack, .item)

def itemExpected : List Frame → List Expectation
  | [] => [.token (.keyword .reference)]
  | .children _ _ :: _ => [.token (.keyword .reference), .token (.mark .braceClose)]
  | .slots _ _ :: _ => [.token (.mark .braceClose)]

def itemStep (stack : List Frame) (token : Token) : Option (List Frame × Focus) :=
  match stack, token with
  | .slots head read :: rest, .mark .braceClose => some (finish head [] read rest)
  | .slots head read :: rest, .word name =>
    some (.slots head read :: rest, .head (.ofSlot name) .name)
  | .slots _ _ :: _, _ => none
  | .children head read :: rest, .mark .braceClose => some (finish head read.reverse [] rest)
  | stack, .string text => some (addNode (.text text) stack)
  | stack, .word tag => some (stack, .head (.ofElement tag) .name)
  | stack, .keyword .reference => some (stack, .reference)
  | _, _ => none

/-- A place where no head is unfinished. -/
def settled (stack : List Frame) (focus : Focus) : List Frame × Focus :=
  match focus with
  | .head head progress => if Head.mayEnd progress then finish head [] [] stack else (stack, focus)
  | _ => (stack, focus)

def settledExpected : List Frame × Focus → List Expectation
  | (stack, .item) => itemExpected stack
  | (_, .close _) => [.token (.mark .braceClose)]
  | _ => []

def focusExpected (stack : List Frame) (focus : Focus) : List Expectation :=
  match focus with
  | .head head progress =>
    let own := head.expected progress
    if Head.mayEnd progress then
      own ++ settledExpected (settled stack focus)
    else own
  | _ => settledExpected (stack, focus)

namespace State

def start : State := .between []

/-- What the tokens may go on with, words and strings left out, in the order they are tried. -/
def expected : State → List Expectation
  | .between _ => [.token (.keyword .template), .endOfInput]
  | .naming _ => []
  | .opening _ _ _ => [.token (.mark .braceOpen)]
  | .within _ _ _ stack focus => focusExpected stack focus

def settledStep (read : List Declaration) (name : String) (span : Span) (token : Token) :
    List Frame × Focus → Option State
  | (stack, .item) =>
    (itemStep stack token).map fun (stack, focus) => .within read name span stack focus
  | (stack, .reference) =>
    match token with
    | .word template => some (.within read name span stack (.head (.ofReference template) .name))
    | _ => none
  | (_, .close root) =>
    match token with
    | .mark .braceClose => some (.between (⟨name, span, root⟩ :: read))
    | _ => none
  | (_, .head _ _) => none

def step (s : State) (lexeme : Lexeme) : Option State :=
  match s, lexeme.token with
  | .between read, .keyword .template => some (.naming read)
  | .naming read, .word name => some (.opening read name lexeme.span)
  | .opening read name span, .mark .braceOpen => some (.within read name span [] .item)
  | .within read name span stack (.head head progress), token =>
    match head.step progress token with
    | some (head, progress) => some (.within read name span stack (.head head progress))
    | none =>
      if Head.mayEnd progress then
        if token = .mark .braceOpen then some (.within read name span (head.frame :: stack) .item)
        else settledStep read name span token (settled stack (.head head progress))
      else none
  | .within read name span stack focus, token => settledStep read name span token (stack, focus)
  | _, _ => none

def result? : State → Option (List Declaration)
  | .between read => some read.reverse
  | _ => none

/-- Reads tokens up to the end, or up to the first one that is refused, which then comes first in
what is left. -/
def run (s : State) : List Lexeme → State × List Lexeme
  | [] => (s, [])
  | lexeme :: rest =>
    match s.step lexeme with
    | some s => s.run rest
    | none => (s, lexeme :: rest)

end State
end Stencil.Source
