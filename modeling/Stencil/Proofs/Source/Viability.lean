import Stencil.Proofs.Source.Acceptance
import Stencil.Proofs.Source.Completion

/-! # Where a source goes wrong

Tokens are viable if a source that is parsed can start with them. Whatever has been read without a
refusal is viable, since it can always be completed; and a token that is refused makes it viable no
more, since what is accepted does not depend on where the tokens stand. So an error is found at the
first token that no source has there, or at the end of one that only lacks more tokens. The span of
such an end starts where the source ends, but it stops where the last token does.
-/
namespace Stencil.Source

variable {s s' : State} {lexeme : Lexeme} {front back lexemes lexemes' rest : List Lexeme}
  {tokens more : List Token} {read : List Declaration}

def Valid (tokens : List Token) : Prop :=
  ∃ source declarations, parse source = .ok declarations ∧ (lex source).map (·.token) = tokens

def Viable (tokens : List Token) : Prop := ∃ more, Valid (tokens ++ more)

theorem Viable.of_append (h : Viable (tokens ++ more)) : Viable tokens := by
  obtain ⟨later, hvalid⟩ := h
  exact ⟨more ++ later, by rwa [← List.append_assoc]⟩

/-! ## Runs -/

theorem State.run_split (h : s.run lexemes = (s', rest)) :
    ∃ front, lexemes = front ++ rest ∧ s.run front = (s', []) ∧
      ∀ lexeme ∈ rest.head?, s'.step lexeme = none := by
  induction lexemes generalizing s with
  | nil =>
    cases h
    exact ⟨[], rfl, rfl, nofun⟩
  | cons lexeme lexemes ih =>
    rw [run] at h
    cases hstep : s.step lexeme with
    | none =>
      simp only [hstep] at h
      cases h
      exact ⟨[], rfl, rfl, fun _ hhead => Option.some.inj hhead ▸ hstep⟩
    | some s₁ =>
      simp only [hstep] at h
      obtain ⟨front, rfl, hfront, hrefused⟩ := ih h
      exact ⟨lexeme :: front, rfl, by simp only [run, hstep, hfront], hrefused⟩

theorem accepted_congr (hmap : lexemes.map (·.token) = lexemes'.map (·.token))
    (h : State.start.run lexemes = (.between read, [])) :
    ∃ read', State.start.run lexemes' = (.between read', []) := by
  -- a run carries spans along, so the two runs are compared through the grammar
  obtain ⟨trees, hderives, _⟩ := derives_of_run h
  obtain ⟨trees', hderives'⟩ := exists_derives (hmap ▸ hderives.map_token)
  exact ⟨_, run_of_derives hderives' []⟩

def unplaced (tokens : List Token) : List Lexeme := tokens.map (⟨·, default⟩)

theorem map_token_unplaced (tokens : List Token) : (unplaced tokens).map (·.token) = tokens := by
  rw [unplaced, List.map_map]
  exact List.map_id tokens

theorem valid_of_run (hspellable : Spellable (lexemes.map (·.token)))
    (h : State.start.run lexemes = (.between read, [])) : Valid (lexemes.map (·.token)) := by
  obtain ⟨lexemes', cs, hlayout, hmap⟩ := exists_layout 0 hspellable
  obtain ⟨read', hrun⟩ := accepted_congr hmap.symm h
  have hlex : lex (.ofList cs) = lexemes' := by
    rw [lex, String.toList_ofList]
    exact hlayout.lexFrom_eq
  exact ⟨.ofList cs, read'.reverse, parse_of_between (hlex ▸ hrun), hlex ▸ hmap⟩

theorem run_of_valid (h : Valid (lexemes.map (·.token))) :
    ∃ read, State.start.run lexemes = (.between read, []) := by
  obtain ⟨source, declarations, hparse, hmap⟩ := h
  exact accepted_congr hmap (parse_eq_ok_iff_run.1 hparse)

theorem viable_of_run (hspellable : Spellable (front.map (·.token)))
    (h : State.start.run front = (s, [])) : Viable (front.map (·.token)) := by
  obtain ⟨more, hmore, hends⟩ := exists_endsWith s
  obtain ⟨read, hread⟩ := hends (unplaced more) (map_token_unplaced more)
  have hmap : (front ++ unplaced more).map (·.token) = front.map (·.token) ++ more := by
    rw [List.map_append, map_token_unplaced]
  have hrun : State.start.run (front ++ unplaced more) = (.between read, []) := by
    rw [State.run_append h, hread]
  have hvalid := valid_of_run (hmap ▸ spellable_append.2 ⟨hspellable, hmore⟩) hrun
  exact ⟨more, hmap ▸ hvalid⟩

theorem not_viable_of_run (h : State.start.run front = (s, [])) (hstep : s.step lexeme = none) :
    ¬ Viable ((front ++ [lexeme]).map (·.token)) := by
  rintro ⟨more, hvalid⟩
  have hmap : (front ++ [lexeme]).map (·.token) ++ more =
      (front ++ lexeme :: unplaced more).map (·.token) := by
    simp [map_token_unplaced]
  obtain ⟨read, hrun⟩ := run_of_valid (hmap ▸ hvalid)
  rw [State.run_append h, State.run, hstep] at hrun
  cases hrun

/-! ## Faults -/

/-- The first lexeme that no source has there, or none if the lexemes only lack more of them. -/
inductive Fault (lexemes : List Lexeme) : Option Lexeme → Prop
  | token {front back : List Lexeme} {lexeme : Lexeme} (h : lexemes = front ++ lexeme :: back)
      (viable : Viable (front.map (·.token)))
      (refused : ¬ Viable ((front ++ [lexeme]).map (·.token))) : Fault lexemes (some lexeme)
  | ending (viable : Viable (lexemes.map (·.token)))
      (unfinished : ¬ Valid (lexemes.map (·.token))) : Fault lexemes none

/-- The bytes of a fault. -/
def faultSpan (source : String) : Option Lexeme → Span
  | some lexeme => lexeme.span
  | none => ⟨source.utf8ByteSize, source.utf8ByteSize⟩

theorem not_viable_of_fault (h : lexemes = front ++ lexeme :: back)
    (refused : ¬ Viable ((front ++ [lexeme]).map (·.token))) :
    ¬ Viable (lexemes.map (·.token)) := by
  intro hviable
  rw [h, List.append_cons, List.map_append] at hviable
  exact refused hviable.of_append

theorem length_le_of_viable (hfront : front ++ [lexeme] <+: lexemes)
    (hviable : lexemes' <+: lexemes) (refused : ¬ Viable ((front ++ [lexeme]).map (·.token)))
    (viable : Viable (lexemes'.map (·.token))) : lexemes'.length ≤ front.length := by
  by_contra hlength
  have hle : (front ++ [lexeme]).length ≤ lexemes'.length := by
    rw [List.length_append, List.length_singleton]
    omega
  obtain ⟨more, hmore⟩ := List.prefix_of_prefix_length_le hfront hviable hle
  rw [← hmore, List.map_append] at viable
  exact refused viable.of_append

theorem Fault.unique {fault fault' : Option Lexeme} (h : Fault lexemes fault)
    (h' : Fault lexemes fault') : fault = fault' := by
  have before {front back : List Lexeme} {lexeme : Lexeme}
      (h : lexemes = front ++ lexeme :: back) : front ++ [lexeme] <+: lexemes :=
    ⟨back, by rw [h, ← List.append_cons]⟩
  cases h with
  | ending viable unfinished =>
    cases h' with
    | ending => rfl
    | token hlexemes' _ refused' => exact absurd viable (not_viable_of_fault hlexemes' refused')
  | @token front back lexeme hlexemes viable refused =>
    cases h' with
    | ending viable' => exact absurd viable' (not_viable_of_fault hlexemes refused)
    | @token front' back' lexeme' hlexemes' viable' refused' =>
      have hfront := before hlexemes
      have hfront' := before hlexemes'
      have hlength : front.length = front'.length := Nat.le_antisymm
        (length_le_of_viable hfront' ((List.prefix_append ..).trans hfront) refused' viable)
        (length_le_of_viable hfront ((List.prefix_append ..).trans hfront') refused viable')
      have hrest := (List.append_inj (hlexemes.symm.trans hlexemes') hlength).2
      rw [(List.cons.inj hrest).1]

/-! ## Errors -/

theorem spellable_lex (source : String) : Spellable ((lex source).map (·.token)) := by
  intro token htoken
  obtain ⟨lexeme, hmem, rfl⟩ := List.mem_map.1 htoken
  exact (of_mem_lexFrom hmem).1

theorem span_mem_lex {source : String} (h : lexeme ∈ lex source) :
    lexeme.span.start ≤ lexeme.span.stop ∧ lexeme.span.stop ≤ source.utf8ByteSize := by
  obtain ⟨_, _, hle, hstop⟩ := of_mem_lexFrom h
  rw [bytes_eq_utf8ByteSize, Nat.zero_add] at hstop
  exact ⟨hle, hstop⟩

theorem fault_of_refused {source : String}
    (h : State.start.run (lex source) = (s, lexeme :: rest)) :
    Fault (lex source) (some lexeme) := by
  obtain ⟨front, hlex, hfront, hrefused⟩ := State.run_split h
  have hspellable := spellable_lex source
  rw [hlex, List.map_append, spellable_append] at hspellable
  exact .token hlex (viable_of_run hspellable.1 hfront)
    (not_viable_of_run hfront (hrefused lexeme rfl))

theorem fault_of_unfinished {source : String} (h : State.start.run (lex source) = (s, []))
    (hs : s.result? = none) : Fault (lex source) none := by
  refine .ending (viable_of_run (spellable_lex source) h) fun hvalid => ?_
  obtain ⟨read, hrun⟩ := run_of_valid hvalid
  rw [h] at hrun
  cases hrun
  cases hs

/-- Where the end of a source is said to stop: where the last token does. -/
def reportedStop (source : String) : Nat :=
  ((lex source).getLast?.map (·.span.stop)).getD source.utf8ByteSize

theorem reportedStop_le (source : String) : reportedStop source ≤ source.utf8ByteSize := by
  unfold reportedStop
  cases hlast : (lex source).getLast? with
  | none => exact Nat.le_refl _
  | some last => exact (span_mem_lex (List.mem_of_getLast? hlast)).2

theorem reportedStop_eq_iff (source : String) : reportedStop source = source.utf8ByteSize ↔
    ∀ last ∈ (lex source).getLast?, last.span.stop = source.utf8ByteSize := by
  unfold reportedStop
  cases (lex source).getLast? with
  | none => simp
  | some last => simp

/-- What an error says about a fault. Its span lies inside the source and starts at the fault. It is
the span of the fault unless that is the end of the source and something follows the last token:
then it stops at the token, in front of where it starts. -/
structure Reports (source : String) (fault : Option Lexeme) (e : ParseError) : Prop where
  found : e.found = fault.map (·.token)
  start : e.span.start = (faultSpan source fault).start
  stop_of_ending : fault = none → ∀ last ∈ (lex source).getLast?, e.span.stop = last.span.stop
  start_le : e.span.start ≤ source.utf8ByteSize
  stop_le : e.span.stop ≤ source.utf8ByteSize
  span_iff : e.span = faultSpan source fault ↔
    (fault = none → ∀ last ∈ (lex source).getLast?, last.span.stop = source.utf8ByteSize)

theorem reports_token {source : String} (h : lexeme ∈ lex source) (expected : List Expectation) :
    Reports source (some lexeme) ⟨lexeme.span, some lexeme.token, expected⟩ := by
  obtain ⟨hle, hstop⟩ := span_mem_lex h
  exact ⟨rfl, rfl, nofun, hle.trans hstop, hstop, iff_of_true rfl nofun⟩

theorem reports_ending (source : String) (expected : List Expectation) :
    Reports source none ⟨⟨source.utf8ByteSize, reportedStop source⟩, none, expected⟩ where
  found := rfl
  start := rfl
  stop_of_ending _ last hlast := by
    rw [reportedStop, Option.mem_def.1 hlast]
    rfl
  start_le := Nat.le_refl _
  stop_le := reportedStop_le source
  span_iff := by
    rw [faultSpan, Span.mk.injEq, eq_self, true_and]
    exact (reportedStop_eq_iff source).trans ⟨fun hall _ => hall, fun hall => hall rfl⟩

/-- **Where an error is.** A source that is not parsed has one error, and the error reports the only
fault there is. -/
theorem parse_error_fault {source : String} (h : ∀ declarations, parse source ≠ .ok declarations) :
    ∃ e fault, parse source = .error e ∧ (∀ other, Fault (lex source) other ↔ other = fault) ∧
      Reports source fault e := by
  have only {fault : Option Lexeme} (hfault : Fault (lex source) fault) (other : Option Lexeme) :
      Fault (lex source) other ↔ other = fault :=
    ⟨fun hother => hother.unique hfault, fun hother => hother ▸ hfault⟩
  rcases hrun : State.start.run (lex source) with ⟨s, _ | ⟨lexeme, rest⟩⟩
  · have hs : s.result? = none := by
      cases s with
      | between read => exact absurd (parse_of_between hrun) (h _)
      | naming | opening | within => rfl
    exact ⟨_, none, parse_of_unfinished hrun hs, only (fault_of_unfinished hrun hs),
      reports_ending source s.expected⟩
  · have hmem : lexeme ∈ lex source := by
      obtain ⟨front, hlex, _⟩ := State.run_split hrun
      rw [hlex]
      exact List.mem_append_right front List.mem_cons_self
    exact ⟨_, some lexeme, parse_of_refused hrun, only (fault_of_refused hrun),
      reports_token hmem s.expected⟩

/-- The colon of an attribute is left out. -/
def colonlessSource : String := "template T \x7b div [class \"x\"] \x7d"

theorem lex_colonless : lex colonlessSource =
    [⟨.keyword .template, ⟨0, 8⟩⟩, ⟨.word "T", ⟨9, 10⟩⟩, ⟨.mark .braceOpen, ⟨11, 12⟩⟩,
      ⟨.word "div", ⟨13, 16⟩⟩, ⟨.mark .bracketOpen, ⟨17, 18⟩⟩, ⟨.word "class", ⟨18, 23⟩⟩,
      ⟨.string "x", ⟨24, 27⟩⟩, ⟨.mark .bracketClose, ⟨27, 28⟩⟩,
      ⟨.mark .braceClose, ⟨29, 30⟩⟩] := by
  decide +kernel

theorem parse_error_fault_colonless :
    (∀ declarations, parse colonlessSource ≠ .ok declarations) ∧
      parse colonlessSource =
        .error ⟨⟨24, 27⟩, some (.string "x"), [.token (.mark .colon)]⟩ ∧
      ∀ other, Fault (lex colonlessSource) other ↔ other = some ⟨.string "x", ⟨24, 27⟩⟩ := by
  have hrun : State.start.run (lex colonlessSource) =
      (.within [] "T" ⟨9, 10⟩ [] (.head (.ofElement "div") (.key "class")),
        [⟨.string "x", ⟨24, 27⟩⟩, ⟨.mark .bracketClose, ⟨27, 28⟩⟩,
          ⟨.mark .braceClose, ⟨29, 30⟩⟩]) := by
    rw [lex_colonless]
    rfl
  have hparse : parse colonlessSource =
      .error ⟨⟨24, 27⟩, some (.string "x"), [.token (.mark .colon)]⟩ := parse_of_refused hrun
  have herror (declarations : List Declaration) : parse colonlessSource ≠ .ok declarations := by
    intro h
    cases hparse.symm.trans h
  obtain ⟨e, fault, he, honly, hreports⟩ := parse_error_fault herror
  rw [hparse] at he
  cases he
  obtain ⟨lexeme, rfl, htoken⟩ := Option.map_eq_some_iff.1 hreports.found.symm
  have hbytes : (⟨24, 27⟩ : Span) = lexeme.span :=
    hreports.span_iff.2 fun hnone => absurd hnone (Option.some_ne_none lexeme)
  obtain ⟨token, span⟩ := lexeme
  cases htoken
  cases hbytes
  exact ⟨herror, hparse, honly⟩

/-- The span of the end is reversed if a blank follows the last token. -/
theorem not_parse_error_fault_blank :
    ¬ ∀ (source : String) (e : ParseError) (fault : Option Lexeme), parse source = .error e →
      Fault (lex source) fault → e.span = faultSpan source fault := by
  intro h
  have hlex : lex "template A \x7b " = [⟨.keyword .template, ⟨0, 8⟩⟩, ⟨.word "A", ⟨9, 10⟩⟩,
      ⟨.mark .braceOpen, ⟨11, 12⟩⟩] := by
    decide +kernel
  have hrun : State.start.run (lex "template A \x7b ") =
      (.within [] "A" ⟨9, 10⟩ [] .item, []) := by
    rw [hlex]
    rfl
  have hspan := h _ _ _ (parse_of_unfinished hrun rfl) (fault_of_unfinished hrun rfl)
  rw [hlex] at hspan
  cases hspan

end Stencil.Source
