import Stencil.Proofs.Point.Occurrence
import Stencil.Proofs.Point.Survey
import Stencil.Proofs.Registry.Points

/-! # The keys on a path

Each repetition on a path was met before the point that the path leads to, and it is a point itself.
So the table holds every key on a path with the part of the path that ends there, unless the key is
ambiguous. A key that occurs twice would need two such parts, which is why it is always ambiguous.
-/
namespace Stencil

namespace PointTable

/-- Every key on a path is ambiguous, or the table holds it with the beginning of the path. -/
def ListsKeys (t : PointTable) : Prop :=
  ∀ p entry front key base trailing back, t.point? p = some entry →
    entry.path = front ++ .repeated key base trailing :: back →
    t.isAmbiguous key ∨ t.path? key = some (front ++ [.repeated key base trailing])

theorem ListsKeys.nodup {t : PointTable} {p : String} {entry : PointEntry} (h : t.ListsKeys)
    (hp : t.point? p = some entry)
    (hclear : ∀ key ∈ entry.path.keys, t.isAmbiguous key = false) : entry.path.keys.Nodup := by
  have hlisted {i : Nat} (hi : i < entry.path.length) {key : String}
      (hkey : entry.path[i].key? = some key) :
      t.path? key = some (entry.path.take i ++ [entry.path[i]]) := by
    have hmem : key ∈ entry.path.keys := List.mem_filterMap.2 ⟨_, List.getElem_mem hi, hkey⟩
    obtain ⟨base, trailing, hsegment⟩ := Segment.key?_eq_some_iff.1 hkey
    have hsplit : entry.path = entry.path.take i ++ entry.path[i] :: entry.path.drop (i + 1) := by
      rw [← List.drop_eq_getElem_cons hi, List.take_append_drop]
    rw [hsegment] at hsplit ⊢
    apply (h p entry _ key base trailing _ hp hsplit).resolve_left
    rw [hclear key hmem]
    exact Bool.false_ne_true
  rw [Path.keys, List.Nodup, List.pairwise_filterMap, List.pairwise_iff_getElem]
  rintro i j hi hj hlt key hkey _ hkey' rfl
  -- two occurrences would end two parts of different length
  have hpaths := Option.some.inj ((hlisted hi hkey).symm.trans (hlisted hj hkey'))
  have hsame := congrArg List.length hpaths
  simp only [List.length_append, List.length_take, List.length_singleton] at hsame
  omega

end PointTable

namespace Survey
variable {lookup : String → Option Descriptor} {owner template q key : String} {node : Node}
  {place : Place} {point : PointSpec} {attributes : Attributes} {slots : List (String × Slot)}
  {sub : Descriptor} {target : PointEntry} {front back left right : Path} {segment : Segment}
  {base trailing : Nat}

theorem split_of_append_eq (h : left ++ right = front ++ segment :: back) :
    (∃ back', left = front ++ segment :: back') ∨
      ∃ front', front = left ++ front' ∧ right = front' ++ segment :: back := by
  rcases List.append_eq_append_iff.1 h with ⟨front', rfl, hright⟩ | ⟨back', rfl, hback⟩
  · exact .inr ⟨front', rfl, hright⟩
  · cases back' with
    | nil => exact .inr ⟨[], by simp, by simpa using hback.symm⟩
    | cons segment' back' =>
      obtain ⟨rfl, rfl⟩ := List.cons.inj hback
      exact .inl ⟨back', rfl⟩

/-- The key is the name of a point with this path, or it is ambiguous in a template below. -/
def MeetsKey (lookup : String → Option Descriptor) (owner : String) (root : Node) (key : String)
    (path : Path) : Prop :=
  Occurs lookup owner root key path ∨ AmbiguousBelow lookup root key

theorem meetsKey_of_entry (hlists : sub.table.ListsKeys)
    (hplace : Place.Reaches lookup (.root node) place) (hattached : place.detached = false)
    (hreference : place.node = .reference template point attributes slots)
    (hsub : lookup template = some sub) (hq : sub.table.point? q = some target)
    (hpath : target.path = front ++ .repeated key base trailing :: back) :
    MeetsKey lookup owner node key (place.path ++ (front ++ [.repeated key base trailing])) := by
  rcases hlists q target front key base trailing back hq hpath with hambiguous | hlisted
  · exact .inr ⟨place, template, point, attributes, slots, sub, hplace, hattached, hreference, hsub,
      hambiguous⟩
  · obtain ⟨entry, hentry, hpath'⟩ := Option.map_eq_some_iff.1 hlisted
    refine .inl ⟨place, _, hplace, hattached,
      .inherited hreference hsub (NameMap.mem_of_find? hentry), ?_⟩
    rw [through, hpath']

theorem occurs_of_segment {path : Path} {detached : Bool} {next : NodeId} {pre post : List Node}
    {c : Node} (hplace : Place.Reaches lookup (.root node) (.child path detached next pre c post))
    (hattached : (Place.child path detached next pre c post).detached = false)
    (hlast : (Place.child path detached next pre c post).path =
      path ++ [.repeated key base trailing]) :
    Occurs lookup owner node key (path ++ [.repeated key base trailing]) := by
  have hsegment := List.append_cancel_left hlast
  have hkey := Placement.key?_between (pre.map Footprint.ofNode) (post.map Footprint.ofNode)
    (Footprint.ofNode c)
  rw [List.singleton_inj.1 hsegment] at hkey
  obtain ⟨spec, hpoint, _, hid⟩ := Footprint.key?_ofNode.1 hkey.symm
  exact ⟨_, _, hplace, hattached, .own hpoint hid, hlast⟩

/-- Every key on the path to a place is met on the way there. The induction is on the way. -/
theorem meetsKey_of_reaches (hlists : ∀ template sub, lookup template = some sub →
      sub.table.ListsKeys) (h : Place.Reaches lookup (.root node) place)
    (hattached : place.detached = false)
    (hpath : place.path = front ++ .repeated key base trailing :: back) :
    MeetsKey lookup owner node key (front ++ [.repeated key base trailing]) := by
  induction h generalizing front back with
  | refl => simp [Place.root] at hpath
  | @tail place next hplace hstep ih =>
    have habove := hstep.grows.2 hattached
    have hnext := hplace.tail hstep
    -- what is left behind `place` is the segment of the child itself
    have hown {front' : Path} {segment : Segment}
        (h : [segment] = front' ++ .repeated key base trailing :: back) :
        front' = [] ∧ segment = .repeated key base trailing := by
      cases front' with
      | nil => exact ⟨rfl, (List.cons.inj h).1⟩
      | cons _ front' => simp at h
    cases hstep with
    | child element split =>
      rcases split_of_append_eq hpath with ⟨back', hback⟩ | ⟨front', rfl, hlast⟩
      · exact ih habove hback
      · obtain ⟨rfl, hsegment⟩ := hown hlast
        rw [List.append_nil]
        exact .inl (occurs_of_segment hnext hattached (congrArg (place.path ++ [·]) hsegment))
    | slotChild reference among registered listed split =>
      rcases split_of_append_eq hpath with ⟨back', hback⟩ | ⟨front', rfl, hlast⟩
      · rcases split_of_append_eq hback with ⟨back', hback⟩ | ⟨front', rfl, htarget⟩
        · exact ih habove hback
        · rw [List.append_assoc]
          exact meetsKey_of_entry (hlists _ _ registered) hplace habove reference registered listed
            htarget
      · obtain ⟨rfl, hsegment⟩ := hown hlast
        rw [List.append_nil]
        exact .inl (occurs_of_segment hnext hattached (congrArg (_ ++ [·]) hsegment))

end Survey

namespace Descriptor
open Survey

/-- If the tables of the referenced templates list their keys, so does the table of a template. -/
theorem listsKeys_compile {lookup : String → Option Descriptor} (name : String) (root : Node)
    (hlists : ∀ template sub, lookup template = some sub → sub.table.ListsKeys)
    (hsorted : ∀ template sub, lookup template = some sub → sub.table.points.Sorted) :
    (compile lookup name root).table.ListsKeys := by
  intro p entry front key base trailing back hp hpath
  have hsums : PointTable.Sums (visit lookup name [] false 0 root)
      (compile lookup name root).table := PointTable.sums_ofSightings _
  have hmeets : MeetsKey lookup name root key (front ++ [.repeated key base trailing]) := by
    obtain ⟨place, hplace, hnoted⟩ := Place.mem_visit_iff.1 (PointTable.sighted_of_point? hp)
    obtain ⟨hattached, ⟨_, _, _, rfl⟩ |
      ⟨template, _, _, _, sub, q, target, hreference, hsub, htarget, rfl, _⟩⟩ :=
        point_of_noted hnoted
    · exact meetsKey_of_reaches hlists hplace hattached hpath
    · rcases split_of_append_eq hpath with ⟨back', hback⟩ | ⟨front', rfl, htarget'⟩
      · exact meetsKey_of_reaches hlists hplace hattached hback
      · rw [List.append_assoc]
        exact meetsKey_of_entry (hlists _ _ hsub) hplace hattached hreference hsub
          (NameMap.find?_of_mem (hsorted _ _ hsub) htarget) htarget'
  rw [hsums.ambiguous, hsums.path]
  by_cases hdisputed : PointTable.Disputed (visit lookup name [] false 0 root) key
  · exact .inl hdisputed
  · refine .inr ⟨hdisputed, ?_⟩
    rcases hmeets with hoccurs | hbelow
    · exact sighted_iff_occurs.2 hoccurs
    · exact absurd (.inl (ambiguous_mem_visit.2 hbelow)) hdisputed

end Descriptor

namespace Registry
variable {r : Registry} {name : String} {D : Descriptor}

theorem Reachable.listsKeys (h : r.Reachable) (hD : r.get? name = some D) : D.table.ListsKeys := by
  refine h.induct_of_reachable (motive := fun r => ∀ name D, r.get? name = some D →
    D.table.ListsKeys) (fun _ _ _ hD => nomatch hD) ?_ name D hD
  intro r hr ih name root other D hD
  rw [get?_register] at hD
  split at hD
  · cases hD
    exact Descriptor.listsKeys_compile name root ih fun _ _ hsub => hr.sorted_points hsub
  · exact ih other D hD

theorem Reachable.ambiguousPoint_mem_issues (h : r.Reachable) (hD : r.get? name = some D)
    (p : String) : .ambiguousPoint p ∈ D.table.issues ↔ D.table.isAmbiguous p := by
  obtain ⟨lookup, hcompiled⟩ := h.compiled name D hD
  have hsums : PointTable.Sums (Survey.visit lookup name [] false 0 D.root) D.table := by
    rw [hcompiled]
    exact PointTable.sums_ofSightings _
  rw [hsums.issue, hsums.ambiguous, PointTable.Due]

theorem Reachable.ambiguous_of_not_nodup (h : r.Reachable) (hD : r.get? name = some D)
    {p : String} {entry : PointEntry} (hp : D.table.point? p = some entry)
    (htwice : ¬ entry.path.keys.Nodup) :
    ∃ key ∈ entry.path.keys, D.table.isAmbiguous key ∧
      .ambiguousPoint key ∈ D.table.issues := by
  by_contra hnone
  refine htwice ((h.listsKeys hD).nodup hp fun key hkey => eq_false_of_ne_true fun hambiguous => ?_)
  exact hnone ⟨key, hkey, hambiguous, (h.ambiguousPoint_mem_issues hD key).2 hambiguous⟩

end Registry
end Stencil
