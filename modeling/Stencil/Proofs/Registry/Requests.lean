import Mathlib.Data.List.Nodup
import Stencil.Proofs.Registry.Reachable

/-! # Templates registered on first use

A request that is reached is skipped if its name is taken. Otherwise its template is built: the
requests that it depends on are served in order, and it is registered behind them. So the way a tree
of requests is served can be told as a course of events, in which each event depends only on the
registry that the ones before it have left. If no name occurs below itself, no template is built
twice.
-/
namespace Stencil

namespace Request

def name : Request → String
  | make name _ _ => name

def root : Request → Node
  | make _ root _ => root

def dependencies : Request → List Request
  | make _ _ dependencies => dependencies

variable {name other : String} {root : Node} {dependencies rest requests : List Request}

/-- The name is that of the request, or of one that it depends on, however far down. -/
inductive Asks (name : String) : Request → Prop
  | own (root : Node) (dependencies : List Request) : Asks name (.make name root dependencies)
  | dependency {d : Request} {dependencies : List Request} (other : String) (root : Node)
      (hd : d ∈ dependencies) (h : Asks name d) : Asks name (.make other root dependencies)

theorem asks_make :
    (make other root dependencies).Asks name ↔ name = other ∨ ∃ d ∈ dependencies, d.Asks name := by
  constructor
  · intro h
    cases h with
    | own => exact .inl rfl
    | dependency _ _ hd h => exact .inr ⟨_, hd, h⟩
  · rintro (rfl | ⟨d, hd, h⟩)
    · exact .own root dependencies
    · exact .dependency other root hd h

/-- No name occurs below itself. -/
inductive Unnested : Request → Prop
  | make {name : String} {root : Node} {dependencies : List Request}
      (own : ∀ d ∈ dependencies, ¬ d.Asks name) (inner : ∀ d ∈ dependencies, Unnested d) :
      Unnested (.make name root dependencies)

theorem unnested_make :
    (make name root dependencies).Unnested ↔
      (∀ d ∈ dependencies, ¬ d.Asks name) ∧ ∀ d ∈ dependencies, d.Unnested := by
  constructor
  · rintro ⟨own, inner⟩
    exact ⟨own, inner⟩
  · rintro ⟨own, inner⟩
    exact .make own inner

@[elab_as_elim]
theorem list_induct {motive : List Request → Prop} (nil : motive [])
    (cons : ∀ name root dependencies rest, motive dependencies → motive rest →
      motive (.make name root dependencies :: rest)) : ∀ requests, motive requests
  | [] => nil
  | .make name root dependencies :: rest =>
    cons name root dependencies rest (list_induct nil cons dependencies) (list_induct nil cons rest)

/-! ## The course of events -/

inductive Event
  /-- The request is reached, and its name is taken. -/
  | skipped (request : Request)
  /-- The request is reached, and building its tree begins. -/
  | began (request : Request)
  /-- The tree is built, and the template is registered. -/
  | registered (request : Request)

def Event.began? : Event → Option Request
  | began request => some request
  | _ => none

def Event.registered? : Event → Option Request
  | registered request => some request
  | _ => none

/-- The names that are built, in the order in which that begins. -/
def built (events : List Event) : List String := (events.filterMap Event.began?).map Request.name

/-- The ways in which requests may be served. Nothing happens below a request that is skipped, and
one that is begun is registered behind the requests that it depends on. -/
inductive Course : List Request → List Event → Prop
  | nil : Course [] []
  | skip {rest : List Request} {later : List Event} (request : Request) (h : Course rest later) :
      Course (request :: rest) (.skipped request :: later)
  | build {request : Request} {rest : List Request} {inner later : List Event}
      (inside : Course request.dependencies inner) (h : Course rest later) :
      Course (request :: rest) (.began request :: inner ++ .registered request :: later)

variable {events inner later : List Event} {request : Request}

@[simp] theorem built_nil : built [] = [] := rfl

@[simp] theorem built_skipped (request : Request) (later : List Event) :
    built (.skipped request :: later) = built later := rfl

@[simp] theorem built_build (request : Request) (inner later : List Event) :
    built (.began request :: inner ++ .registered request :: later) =
      request.name :: (built inner ++ built later) := by
  simp [built, List.filterMap_cons, Event.began?]

theorem Course.asks (h : Course requests events) (hname : name ∈ built events) :
    ∃ request ∈ requests, request.Asks name := by
  induction h with
  | nil => cases hname
  | skip _ _ ih =>
    obtain ⟨request, hmem, hasks⟩ := ih hname
    exact ⟨request, List.mem_cons_of_mem _ hmem, hasks⟩
  | @build request rest inner later _ _ ihInside ih =>
    rw [built_build, List.mem_cons, List.mem_append] at hname
    obtain ⟨own, root, dependencies⟩ := request
    rcases hname with rfl | hname | hname
    · exact ⟨_, List.mem_cons_self, .own root dependencies⟩
    · obtain ⟨d, hd, hasks⟩ := ihInside hname
      exact ⟨_, List.mem_cons_self, .dependency own root hd hasks⟩
    · obtain ⟨request, hmem, hasks⟩ := ih hname
      exact ⟨request, List.mem_cons_of_mem _ hmem, hasks⟩

end Request

namespace Registry
open Request
variable {r : Registry} {name : String} {D : Descriptor} {requests : List Request}
  {request : Request} {events before later : List Event} {e : Event}

/-- The registry that events leave. -/
def afterEvents (r : Registry) (events : List Event) : Registry :=
  (events.filterMap Event.registered?).foldl
    (fun r request => r.register request.name request.root) r

@[simp] theorem afterEvents_nil (r : Registry) : r.afterEvents [] = r := rfl

@[simp] theorem afterEvents_skipped (r : Registry) (request : Request) (later : List Event) :
    r.afterEvents (.skipped request :: later) = r.afterEvents later := rfl

@[simp] theorem afterEvents_began (r : Registry) (request : Request) (later : List Event) :
    r.afterEvents (.began request :: later) = r.afterEvents later := rfl

@[simp] theorem afterEvents_registered (r : Registry) (request : Request) (later : List Event) :
    r.afterEvents (.registered request :: later) =
      (r.register request.name request.root).afterEvents later := rfl

@[simp] theorem afterEvents_append (r : Registry) (events later : List Event) :
    r.afterEvents (events ++ later) = (r.afterEvents events).afterEvents later := by
  simp [afterEvents]

theorem get?_afterEvents_of_some (h : r.get? name = some D) (events : List Event) :
    (r.afterEvents events).get? name = some D := by
  induction events generalizing r with
  | nil => exact h
  | cons e later ih =>
    cases e with
    | skipped | began => exact ih h
    | registered request => exact ih (get?_register_of_some h request.name request.root)

theorem contains_afterEvents_of_contains (h : r.contains name) (events : List Event) :
    (r.afterEvents events).contains name := by
  obtain ⟨D, hD⟩ := Option.isSome_iff_exists.1 h
  exact contains_of_get? (get?_afterEvents_of_some hD events)

theorem contains_afterEvents (h : Course requests events) (r : Registry) (name : String) :
    (r.afterEvents events).contains name ↔ r.contains name ∨ name ∈ built events := by
  induction h generalizing r with
  | nil => simp
  | skip request _ ih => exact ih r
  | @build request rest inner later _ _ ihInside ih =>
    rw [built_build, List.cons_append, afterEvents_began, afterEvents_append,
      afterEvents_registered, ih, contains_register, Bool.or_eq_true, decide_eq_true_eq, ihInside,
      List.mem_cons, List.mem_append]
    tauto

/-! ## Events that the registry allows -/

/-- What may happen next: a request is skipped if its name is taken and begun if it is not. It is
registered under a name that is free, when all that it depends on is registered. -/
def Permits (r : Registry) : Event → Prop
  | .skipped request => r.contains request.name
  | .began request => r.contains request.name = false
  | .registered request => r.contains request.name = false ∧
      ∀ d ∈ request.dependencies, r.contains d.name

def PermitsAll : Registry → List Event → Prop
  | _, [] => True
  | r, e :: later => r.Permits e ∧ (r.afterEvents [e]).PermitsAll later

theorem permitsAll_append (events later : List Event) :
    r.PermitsAll (events ++ later) ↔
      r.PermitsAll events ∧ (r.afterEvents events).PermitsAll later := by
  induction events generalizing r with
  | nil => simp [PermitsAll]
  | cons e events ih =>
    rw [List.cons_append, PermitsAll, PermitsAll, ih, and_assoc, ← afterEvents_append]
    rfl

theorem PermitsAll.permits (h : r.PermitsAll (before ++ e :: later)) :
    (r.afterEvents before).Permits e :=
  ((permitsAll_append before (e :: later)).1 h).2.1

theorem PermitsAll.contains_eq_false (h : r.PermitsAll events) (hname : name ∈ built events) :
    r.contains name = false := by
  obtain ⟨request, hmem, rfl⟩ := List.mem_map.1 hname
  obtain ⟨e, he, hbegan⟩ := List.mem_filterMap.1 hmem
  obtain ⟨before, later, rfl⟩ := List.append_of_mem he
  cases e with
  | skipped | registered => cases hbegan
  | began request =>
    cases hbegan
    have hfree : (r.afterEvents before).contains request.name = false := h.permits
    rw [← Bool.not_eq_true] at hfree ⊢
    exact fun hcontains => hfree (contains_afterEvents_of_contains hcontains before)

theorem contains_of_course (h : Course requests events) (hpermits : r.PermitsAll events) :
    ∀ request ∈ requests, (r.afterEvents events).contains request.name := by
  induction h generalizing r with
  | nil => exact nofun
  | @skip rest later request _ ih =>
    exact List.forall_mem_cons.2
      ⟨contains_afterEvents_of_contains hpermits.1 later, ih hpermits.2⟩
  | @build request rest inner later inside hrest _ ih =>
    have hlater := ((permitsAll_append (.began request :: inner) _).1 hpermits).2.2
    rw [afterEvents_append]
    refine List.forall_mem_cons.2 ⟨?_, ih hlater⟩
    apply contains_afterEvents_of_contains (r := (r.afterEvents inner).register _ request.root)
    rw [contains_register, decide_eq_true rfl, Bool.true_or]

theorem nodup_built (h : Course requests events) (hpermits : r.PermitsAll events)
    (hunnested : ∀ request ∈ requests, request.Unnested) : (built events).Nodup := by
  induction h generalizing r with
  | nil => exact List.nodup_nil
  | skip request _ ih => exact ih hpermits.2 (List.forall_mem_cons.1 hunnested).2
  | @build request rest inner later inside hrest ihInside ih =>
    obtain ⟨hinner, _, hlater⟩ := (permitsAll_append (.began request :: inner) _).1 hpermits
    obtain ⟨hrequest, hrests⟩ := List.forall_mem_cons.1 hunnested
    obtain ⟨own, root, dependencies⟩ := request
    obtain ⟨howns, hinners⟩ := unnested_make.1 hrequest
    have hown : own ∉ built inner := by
      intro hmem
      obtain ⟨d, hd, hasks⟩ := inside.asks hmem
      exact howns d hd hasks
    -- what comes later is free when the first request and all below it are registered
    have hfree (name : String) (hname : name ∈ built later) : name ≠ own ∧ name ∉ built inner := by
      have hcontains := hlater.contains_eq_false hname
      rw [afterEvents_registered, afterEvents_nil, contains_register, Bool.or_eq_false_iff,
        decide_eq_false_iff_not, afterEvents_began, ← Bool.not_eq_true,
        contains_afterEvents inside, not_or] at hcontains
      exact ⟨hcontains.1, hcontains.2.2⟩
    rw [built_build, List.nodup_cons, List.mem_append, not_or, List.nodup_append]
    exact ⟨⟨hown, fun hmem => (hfree own hmem).1 rfl⟩, ihInside hinner.2 hinners, ih hlater hrests,
      fun name hname name' hname' heq => (hfree name' hname').2 (heq ▸ hname)⟩

/-! ## How requests are served -/

theorem ensureAll_of_contains (h : r.contains request.name) (rest : List Request) :
    r.ensureAll (request :: rest) = r.ensureAll rest := by
  obtain ⟨name, root, dependencies⟩ := request
  have h : r.contains name := h
  rw [ensureAll, ensure, if_pos h]
  rfl

theorem ensureAll_of_free (h : r.contains request.name = false) (rest : List Request) :
    r.ensureAll (request :: rest) =
      let inner := r.ensureAll request.dependencies
      let later := (inner.1.register request.name request.root).ensureAll rest
      (later.1, request.name :: (inner.2 ++ later.2)) := by
  obtain ⟨name, root, dependencies⟩ := request
  have h : r.contains name = false := h
  rw [ensureAll, ensure, if_neg (Bool.eq_false_iff.1 h)]
  rfl

theorem ensureAll_singleton (r : Registry) (request : Request) :
    r.ensureAll [request] = r.ensure request := by
  rw [ensureAll]
  simp only [ensureAll, List.append_nil]

/-- Requests are served in a course of events that the registry permits. -/
theorem exists_course (requests : List Request)
    (hunnested : ∀ request ∈ requests, request.Unnested) (r : Registry) :
    ∃ events, Course requests events ∧ r.PermitsAll events ∧
      r.ensureAll requests = (r.afterEvents events, built events) := by
  induction requests using Request.list_induct generalizing r with
  | nil => exact ⟨[], .nil, trivial, rfl⟩
  | cons name root dependencies rest ihInside ih =>
    obtain ⟨hrequest, hrest⟩ := List.forall_mem_cons.1 hunnested
    obtain ⟨hown, hinners⟩ := unnested_make.1 hrequest
    let request := Request.make name root dependencies
    cases hname : r.contains name with
    | true =>
      obtain ⟨later, hcourse, hpermits, heq⟩ := ih hrest r
      refine ⟨.skipped request :: later, .skip request hcourse, ⟨hname, hpermits⟩, ?_⟩
      have hserved : r.ensureAll (request :: rest) = r.ensureAll rest :=
        ensureAll_of_contains hname rest
      rw [hserved, heq]
      rfl
    | false =>
      obtain ⟨inner, hinside, hinner, heqInner⟩ := ihInside hinners r
      -- none of the dependencies takes the name of the request
      have hfree : (r.afterEvents inner).contains name = false := by
        rw [← Bool.not_eq_true, contains_afterEvents hinside, not_or, Bool.not_eq_true]
        refine ⟨hname, fun hmem => ?_⟩
        obtain ⟨d, hd, hasks⟩ := hinside.asks hmem
        exact hown d hd hasks
      obtain ⟨later, hcourse, hlater, heqLater⟩ :=
        ih hrest ((r.afterEvents inner).register name root)
      refine ⟨.began request :: inner ++ .registered request :: later,
        .build hinside hcourse, ?_, ?_⟩
      · rw [permitsAll_append]
        have hdependencies := contains_of_course hinside hinner
        exact ⟨⟨hname, hinner⟩, ⟨hfree, hdependencies⟩, hlater⟩
      · have hserved : r.ensureAll (request :: rest) = _ := ensureAll_of_free hname rest
        rw [hserved]
        simp only [request, Request.dependencies, Request.name, Request.root, heqInner, heqLater,
          built_build, afterEvents_append, afterEvents_began, afterEvents_registered]

/-- **Each template is built once, behind what it depends on.** A request without a name below
itself is served in a course of events each of which is permitted when it happens. No name is built
twice, a template is compiled against the registry that it finds, and what was registered before
stays. -/
theorem ensure_course (r : Registry) (request : Request) (h : request.Unnested) :
    ∃ events, Course [request] events ∧
      r.ensure request = (r.afterEvents events, built events) ∧ (built events).Nodup ∧
      (∀ before e later, events = before ++ e :: later → (r.afterEvents before).Permits e) ∧
      (∀ before new later, events = before ++ .registered new :: later →
        (r.ensure request).1.get? new.name =
          some (.compile (r.afterEvents before).get? new.name new.root)) ∧
      ∀ name D, r.get? name = some D → (r.ensure request).1.get? name = some D := by
  have hunnested : ∀ request' ∈ [request], request'.Unnested := by simpa using h
  obtain ⟨events, hcourse, hpermits, heq⟩ := exists_course [request] hunnested r
  rw [ensureAll_singleton] at heq
  rw [heq]
  refine ⟨events, hcourse, rfl, nodup_built hcourse hpermits hunnested, ?_, ?_, ?_⟩
  · rintro before e later rfl
    exact hpermits.permits
  · rintro before new later rfl
    have hfree : (r.afterEvents before).contains new.name = false := hpermits.permits.1
    rw [afterEvents_append, afterEvents_registered]
    apply get?_afterEvents_of_some
    rw [get?_register, if_pos ⟨rfl, get?_of_contains hfree⟩]
  · intro name D hD
    exact get?_afterEvents_of_some hD events

/-! ## A page whose parts share an item -/

def iconRequest : Request := .make "Icon" (.element "i" .anonymous .empty []) []

def itemRequest : Request :=
  .make "Item" (.element "li" .anonymous .empty [.reference "Icon" .anonymous .empty []])
    [iconRequest]

def pageRequest : Request :=
  .make "Page" (.element "div" .anonymous .empty [.reference "List" .anonymous .empty []])
    [.make "List" (.element "ul" .anonymous .empty [.reference "Item" .anonymous .empty []])
      [itemRequest], itemRequest]

theorem unnested_pageRequest : pageRequest.Unnested := by
  simp [pageRequest, itemRequest, iconRequest, unnested_make, asks_make]

/-- The icon is there before, and the item is built once. -/
theorem ensure_course_page :
    pageRequest.Unnested ∧ ∃ events, Course [pageRequest] events ∧
      built events = ["Page", "List", "Item"] ∧
      ((empty.register "Icon" (.text "*")).ensure pageRequest).1 =
        (empty.register "Icon" (.text "*")).afterEvents events := by
  obtain ⟨events, hcourse, heq, _⟩ :=
    ensure_course (empty.register "Icon" (.text "*")) pageRequest unnested_pageRequest
  have hbuilt : ((empty.register "Icon" (.text "*")).ensure pageRequest).2 =
      ["Page", "List", "Item"] := by decide
  rw [heq] at hbuilt
  exact ⟨unnested_pageRequest, events, hcourse, hbuilt, congrArg Prod.fst heq⟩

end Registry
end Stencil
