import Mathlib.Data.List.Nodup
import Stencil.Proofs.Point.Table

/-! # What a table says of the sightings

Sightings are recorded one after the other, and a name may be entered, dropped and barred on the
way. The table that comes out can be told from what was sighted, without the order: a name is
ambiguous if it was sighted with two paths or as an ambiguous one, every other name that was sighted
is held with its path, and each issue is reported once.
-/
namespace Stencil

def Sighting.issue? : Sighting → Option Issue
  | .point .. | .ambiguous _ => none
  | .unaddressable name => some (.unaddressablePoint name)
  | .unresolved template => some (.unresolvedTemplate template)
  | .unknownSlot template slot => some (.unknownSlot template slot)

namespace PointTable
variable {t : PointTable} {seen seen' : List Sighting} {s : Sighting} {name other : String}
  {entry : PointEntry} {path p q : Path} {issue new : Issue}

def path? (t : PointTable) (name : String) : Option Path := (t.point? name).map (·.path)

/-- The name was sighted as a point at the end of this path. -/
def Sighted (seen : List Sighting) (name : String) (path : Path) : Prop :=
  ∃ entry, .point name entry ∈ seen ∧ entry.path = path

/-- The name was sighted as an ambiguous one, or at the ends of different paths. -/
def Disputed (seen : List Sighting) (name : String) : Prop :=
  .ambiguous name ∈ seen ∨ ∃ p q, p ≠ q ∧ Sighted seen name p ∧ Sighted seen name q

def Due (seen : List Sighting) : Issue → Prop
  | .ambiguousPoint name => Disputed seen name
  | issue => ∃ s ∈ seen, s.issue? = some issue

/-- The table says of the sightings what there is to say. -/
structure Sums (seen : List Sighting) (t : PointTable) : Prop where
  ambiguous : ∀ name, t.isAmbiguous name ↔ Disputed seen name
  path : ∀ name path, t.path? name = some path ↔ ¬ Disputed seen name ∧ Sighted seen name path
  issue : ∀ issue, issue ∈ t.issues ↔ Due seen issue
  nodup : t.issues.Nodup

/-! ## One more sighting -/

theorem sighted_concat :
    Sighted (seen ++ [s]) name path ↔
      Sighted seen name path ∨ ∃ entry, s = .point name entry ∧ entry.path = path := by
  simp only [Sighted, List.mem_append, List.mem_singleton, or_and_right, exists_or, eq_comm]

theorem sighted_concat_of_issue? (hs : s.issue? = some new) :
    Sighted (seen ++ [s]) name path ↔ Sighted seen name path := by
  rw [sighted_concat, or_iff_left]
  rintro ⟨entry, rfl, _⟩
  cases hs

theorem sighted_concat_point :
    Sighted (seen ++ [.point name entry]) other path ↔
      Sighted seen other path ∨ (other = name ∧ path = entry.path) := by
  rw [sighted_concat]
  apply or_congr_right
  constructor
  · rintro ⟨_, h, rfl⟩
    cases h
    exact ⟨rfl, rfl⟩
  · rintro ⟨rfl, rfl⟩
    exact ⟨entry, rfl, rfl⟩

theorem sighted_concat_ambiguous :
    Sighted (seen ++ [.ambiguous name]) other path ↔ Sighted seen other path := by
  rw [sighted_concat, or_iff_left]
  rintro ⟨_, h, _⟩
  cases h

theorem disputed_concat_of_issue? (hs : s.issue? = some new) :
    Disputed (seen ++ [s]) name ↔ Disputed seen name := by
  have hambiguous : Sighting.ambiguous name ∈ seen ++ [s] ↔ .ambiguous name ∈ seen := by
    rw [List.mem_append, or_iff_left]
    intro h
    rw [← List.mem_singleton.1 h] at hs
    cases hs
  simp only [Disputed, hambiguous, sighted_concat_of_issue? hs]

theorem disputed_concat_ambiguous :
    Disputed (seen ++ [.ambiguous name]) other ↔ other = name ∨ Disputed seen other := by
  simp only [Disputed, sighted_concat_ambiguous, List.mem_append, List.mem_singleton,
    Sighting.ambiguous.injEq]
  tauto

theorem disputed_concat_point :
    Disputed (seen ++ [.point name entry]) other ↔
      Disputed seen other ∨ (other = name ∧ ∃ q, q ≠ entry.path ∧ Sighted seen other q) := by
  have hambiguous : Sighting.ambiguous other ∈ seen ++ [.point name entry] ↔
      .ambiguous other ∈ seen := by simp
  simp only [Disputed, hambiguous, sighted_concat_point, or_assoc]
  apply or_congr_right
  constructor
  · rintro ⟨p, q, hne, hp | ⟨hname, rfl⟩, hq | ⟨hname', rfl⟩⟩
    · exact .inl ⟨p, q, hne, hp, hq⟩
    · exact .inr ⟨hname', p, hne, hp⟩
    · exact .inr ⟨hname, q, hne.symm, hq⟩
    · exact absurd rfl hne
  · rintro (⟨p, q, hne, hp, hq⟩ | ⟨rfl, q, hne, hq⟩)
    · exact ⟨p, q, hne, .inl hp, .inl hq⟩
    · exact ⟨q, entry.path, hne, .inl hq, .inr ⟨rfl, rfl⟩⟩

theorem exists_issue?_concat :
    (∃ s' ∈ seen ++ [s], s'.issue? = some issue) ↔
      s.issue? = some issue ∨ ∃ s' ∈ seen, s'.issue? = some issue := by
  simp only [List.mem_append, List.mem_singleton, or_and_right, exists_or, exists_eq_left, or_comm]

theorem issue?_ne (s : Sighting) (name : String) : s.issue? ≠ some (.ambiguousPoint name) := by
  cases s <;> nofun

theorem due_concat_of_issue? (hs : s.issue? = some new) :
    Due (seen ++ [s]) issue ↔ issue = new ∨ Due seen issue := by
  cases issue with
  | ambiguousPoint name =>
    simp only [Due, disputed_concat_of_issue? hs]
    rw [or_iff_right]
    rintro rfl
    exact issue?_ne s name hs
  | unresolvedTemplate | unknownSlot | unaddressablePoint =>
    simp only [Due, exists_issue?_concat, hs, Option.some.injEq]
    rw [eq_comm]

theorem due_concat_of_disputed (hs : s.issue? = none)
    (hdisputed : ∀ other, Disputed (seen ++ [s]) other ↔ other = name ∨ Disputed seen other) :
    Due (seen ++ [s]) issue ↔ issue = .ambiguousPoint name ∨ Due seen issue := by
  cases issue with
  | ambiguousPoint other => simp [Due, hdisputed]
  | unresolvedTemplate | unknownSlot | unaddressablePoint =>
    simp [Due, hs]

theorem due_concat_of_undisputed (hs : s.issue? = none)
    (hdisputed : ∀ other, Disputed (seen ++ [s]) other ↔ Disputed seen other) :
    Due (seen ++ [s]) issue ↔ Due seen issue := by
  cases issue with
  | ambiguousPoint other => exact hdisputed other
  | unresolvedTemplate | unknownSlot | unaddressablePoint =>
    simp [Due, hs]

theorem due_of_issue? (hs : s.issue? = some issue) : Due seen issue ↔ s ∈ seen := by
  have hself (h : s ∈ seen) : ∃ s' ∈ seen, s'.issue? = some issue := ⟨s, h, hs⟩
  have honly (h : ∃ s' ∈ seen, s'.issue? = some issue) : s ∈ seen := by
    obtain ⟨s', hs', hissue⟩ := h
    cases s <;> cases hs <;> cases s' <;> cases hissue <;> exact hs'
  cases s <;> cases hs <;> exact ⟨honly, hself⟩

theorem due_unaddressable :
    Due seen (.unaddressablePoint name) ↔ .unaddressable name ∈ seen := due_of_issue? rfl

/-! ## Reporting, marking and recording -/

theorem mem_issues_report : issue ∈ (t.report new).issues ↔ issue = new ∨ issue ∈ t.issues := by
  unfold report
  split
  · next h =>
    constructor
    · exact .inr
    · rintro (rfl | h')
      · exact h
      · exact h'
  · simp [or_comm]

theorem nodup_report (h : t.issues.Nodup) (new : Issue) : (t.report new).issues.Nodup := by
  unfold report
  split
  · exact h
  · next hnew =>
    rw [← List.concat_eq_append]
    exact List.Nodup.concat hnew h

theorem path?_report (t : PointTable) (issue : Issue) (name : String) :
    (t.report issue).path? name = t.path? name := by
  rw [path?, point?, points_report]
  rfl

theorem path?_markAmbiguous (t : PointTable) (name other : String) :
    (t.markAmbiguous name).path? other = if other = name then none else t.path? other := by
  rw [path?, point?, points_markAmbiguous, NameMap.find?_erase]
  split <;> rfl

theorem mem_issues_markAmbiguous :
    issue ∈ (t.markAmbiguous name).issues ↔
      (issue = .ambiguousPoint name ∧ t.isAmbiguous name = false) ∨ issue ∈ t.issues := by
  unfold markAmbiguous
  simp only
  split
  · next h =>
    change t.isAmbiguous name at h
    simp [h]
  · next h =>
    change ¬ t.isAmbiguous name at h
    rw [mem_issues_report]
    simp [h]

theorem nodup_markAmbiguous (h : t.issues.Nodup) (name : String) :
    (t.markAmbiguous name).issues.Nodup := by
  unfold markAmbiguous
  simp only
  split
  · exact h
  · apply nodup_report
    exact h

namespace Sums

theorem sighted_iff (h : Sums seen t) (hname : ¬ Disputed seen name) :
    Sighted seen name path ↔ t.path? name = some path := by
  rw [h.path, and_iff_right hname]

theorem report (h : Sums seen t) (hs : s.issue? = some new) :
    Sums (seen ++ [s]) (t.report new) where
  ambiguous name := by
    rw [isAmbiguous_report, h.ambiguous, disputed_concat_of_issue? hs]
  path name path := by
    rw [path?_report, h.path, disputed_concat_of_issue? hs, sighted_concat_of_issue? hs]
  issue issue := by
    rw [mem_issues_report, h.issue, due_concat_of_issue? hs]
  nodup := nodup_report h.nodup new

/-- A name is barred that the new sighting puts in dispute. -/
theorem markAmbiguous (h : Sums seen t) (hs : s.issue? = none)
    (hdisputed : ∀ other, Disputed (seen ++ [s]) other ↔ other = name ∨ Disputed seen other)
    (hsighted : ∀ other path, other ≠ name →
      (Sighted (seen ++ [s]) other path ↔ Sighted seen other path)) :
    Sums (seen ++ [s]) (t.markAmbiguous name) where
  ambiguous other := by
    rw [isAmbiguous_markAmbiguous, hdisputed, ← h.ambiguous]
    simp
  path other path := by
    rw [path?_markAmbiguous, hdisputed]
    by_cases ho : other = name
    · simp [ho]
    · rw [if_neg ho, h.path, hsighted other path ho]
      simp [ho]
  issue issue := by
    have hbarred : t.isAmbiguous name = false ↔ ¬ Disputed seen name := by
      rw [← h.ambiguous, Bool.not_eq_true]
    rw [mem_issues_markAmbiguous, h.issue, due_concat_of_disputed hs hdisputed, hbarred]
    constructor
    · rintro (⟨rfl, _⟩ | hdue)
      · exact .inl rfl
      · exact .inr hdue
    · rintro (rfl | hdue)
      · by_cases hname : Disputed seen name
        · exact .inr hname
        · exact .inl ⟨rfl, hname⟩
      · exact .inr hdue
  nodup := nodup_markAmbiguous h.nodup name

theorem keep (h : Sums seen t) (hs : s.issue? = none)
    (hdisputed : ∀ other, Disputed (seen ++ [s]) other ↔ Disputed seen other)
    (hsighted : ∀ other path, ¬ Disputed seen other →
      (Sighted (seen ++ [s]) other path ↔ Sighted seen other path)) :
    Sums (seen ++ [s]) t where
  ambiguous other := by rw [h.ambiguous, hdisputed]
  path other path := by
    rw [h.path, hdisputed]
    exact and_congr_right fun ho => (hsighted other path ho).symm
  issue issue := by
    rw [h.issue, due_concat_of_undisputed hs hdisputed]
  nodup := h.nodup

theorem insert (h : Sums seen t) (hname : ¬ Disputed seen name) (hnone : t.path? name = none) :
    Sums (seen ++ [.point name entry]) { t with points := t.points.insert name entry } := by
  have hunseen (q : Path) : ¬ Sighted seen name q := by
    rw [h.sighted_iff hname, hnone]
    nofun
  have hdisputed (other : String) :
      Disputed (seen ++ [.point name entry]) other ↔ Disputed seen other := by
    rw [disputed_concat_point, or_iff_left]
    rintro ⟨rfl, q, _, hq⟩
    exact hunseen q hq
  refine ⟨fun other => ?_, fun other path => ?_, fun issue => ?_, h.nodup⟩
  · rw [hdisputed, ← h.ambiguous]
    rfl
  · rw [hdisputed, sighted_concat_point, path?, point?, NameMap.find?_insert]
    by_cases ho : other = name
    · subst ho
      simp [hname, hunseen, eq_comm]
    · rw [if_neg ho]
      simp only [ho, false_and, or_false]
      exact h.path other path
  · rw [due_concat_of_undisputed rfl hdisputed]
    exact h.issue issue

theorem record (h : Sums seen t) (s : Sighting) : Sums (seen ++ [s]) (t.record s) := by
  cases s with
  | unaddressable name => exact h.report rfl
  | unresolved template => exact h.report rfl
  | unknownSlot template slot => exact h.report rfl
  | ambiguous name =>
    apply h.markAmbiguous rfl
    · intro other
      exact disputed_concat_ambiguous
    · intro other path _
      exact sighted_concat_ambiguous
  | point name entry =>
    unfold PointTable.record
    simp only
    split
    · next hbarred =>
      -- a name that is barred stays barred, whatever else it leads to
      have hname := (h.ambiguous name).1 hbarred
      apply h.keep rfl
      · intro other
        rw [disputed_concat_point, or_iff_left_of_imp]
        rintro ⟨rfl, _⟩
        exact hname
      · intro other path ho
        rw [sighted_concat_point, or_iff_left]
        rintro ⟨rfl, _⟩
        exact ho hname
    · next hclear =>
      have hname : ¬ Disputed seen name := fun hd => hclear ((h.ambiguous name).2 hd)
      split
      · next hnone => exact h.insert hname (by rw [path?, hnone, Option.map_none])
      · next known hknown =>
        have hseen (q : Path) : Sighted seen name q ↔ known.path = q := by
          rw [h.sighted_iff hname, path?, hknown, Option.map_some, Option.some.injEq]
        split
        · next hpath =>
          -- it leads where it led before
          apply h.keep rfl
          · intro other
            rw [disputed_concat_point, or_iff_left]
            rintro ⟨rfl, q, hne, hq⟩
            exact hne (((hseen q).1 hq).symm.trans hpath)
          · intro other path _
            rw [sighted_concat_point, or_iff_left_of_imp]
            rintro ⟨rfl, rfl⟩
            exact (hseen _).2 hpath
        · next hpath =>
          -- it leads to a second place
          apply h.markAmbiguous rfl
          · intro other
            rw [disputed_concat_point, or_comm]
            apply or_congr_left
            constructor
            · exact And.left
            · rintro rfl
              exact ⟨rfl, known.path, hpath, (hseen _).2 rfl⟩
          · intro other path ho
            rw [sighted_concat_point, or_iff_left]
            rintro ⟨rfl, _⟩
            exact ho rfl

theorem foldl (h : Sums seen t) (sightings : List Sighting) :
    Sums (seen ++ sightings) (sightings.foldl PointTable.record t) := by
  induction sightings generalizing seen t with
  | nil => rwa [List.append_nil]
  | cons s sightings ih =>
    rw [List.append_cons]
    exact ih (h.record s)

end Sums

theorem sums_empty : Sums [] empty where
  ambiguous name := by simp [isAmbiguous, empty, NameMap.contains, Disputed, Sighted]
  path name path := by simp [path?, point?, empty, Sighted]
  issue issue := by cases issue <;> simp [empty, Due, Disputed, Sighted]
  nodup := List.nodup_nil

theorem sums_ofSightings (sightings : List Sighting) : Sums sightings (ofSightings sightings) :=
  sums_empty.foldl sightings

theorem path_of_point? (h : (ofSightings seen).point? name = some entry) :
    ¬ Disputed seen name ∧ ∀ path, Sighted seen name path ↔ path = entry.path := by
  have hsums := sums_ofSightings seen
  have hpath : (ofSightings seen).path? name = some entry.path := by rw [path?, h, Option.map_some]
  have hclear := ((hsums.path _ _).1 hpath).1
  refine ⟨hclear, fun path => ?_⟩
  rw [hsums.sighted_iff hclear, hpath, Option.some.injEq, eq_comm]

theorem isAmbiguous_of_point? (h : (ofSightings seen).point? name = some entry) :
    (ofSightings seen).isAmbiguous name = false := by
  have hclear := (path_of_point? h).1
  rwa [← (sums_ofSightings seen).ambiguous, Bool.not_eq_true] at hclear

theorem path_of_sighted {other : PointEntry} (h : (ofSightings seen).point? name = some entry)
    (hother : .point name other ∈ seen) : other.path = entry.path :=
  ((path_of_point? h).2 _).1 ⟨other, hother, rfl⟩

/-! ## In any order -/

/-- Both tables hold the same names with the same paths, and report the same. -/
structure Agrees (t t' : PointTable) : Prop where
  ambiguous : ∀ name, t.isAmbiguous name = t'.isAmbiguous name
  path : ∀ name, t.path? name = t'.path? name
  issues : t.issues.Perm t'.issues

theorem Sums.of_perm (h : Sums seen t) (hperm : seen.Perm seen') : Sums seen' t := by
  have hsighted (name : String) (path : Path) : Sighted seen' name path ↔ Sighted seen name path := by
    simp only [Sighted, hperm.mem_iff]
  have hdisputed (name : String) : Disputed seen' name ↔ Disputed seen name := by
    simp only [Disputed, hperm.mem_iff, hsighted]
  refine ⟨fun name => ?_, fun name path => ?_, fun issue => ?_, h.nodup⟩
  · rw [hdisputed, h.ambiguous]
  · rw [hdisputed, hsighted, h.path]
  · rw [h.issue]
    cases issue with
    | ambiguousPoint name => exact (hdisputed name).symm
    | unresolvedTemplate | unknownSlot | unaddressablePoint => simp only [Due, hperm.mem_iff]

theorem Sums.agrees {t' : PointTable} (h : Sums seen t) (h' : Sums seen t') : t.Agrees t' where
  ambiguous name := by rw [Bool.eq_iff_iff, h.ambiguous, h'.ambiguous]
  path name := by
    ext path
    rw [h.path, h'.path]
  issues := by
    apply (List.perm_ext_iff_of_nodup h.nodup h'.nodup).2
    intro issue
    rw [h.issue, h'.issue]

theorem agrees_of_perm (h : seen.Perm seen') : (ofSightings seen).Agrees (ofSightings seen') :=
  ((sums_ofSightings seen).of_perm h).agrees (sums_ofSightings seen')

end PointTable
end Stencil
