import FlatTree.Proofs.PathLaws

/-!
Canonical paths. A canonical path is the root, or segments with one slash before
each. Reading the segments off a canonical path and spelling the path from them
are inverse, and the tests that the flat tree makes on texts come out as tests on
lists of segments: the parent drops the last segment, a path is under another
when it has more segments of the same beginning, and siblings are in the order of
their last segments.
-/

namespace FlatTree

/-- What stands between two slashes of a path. -/
abbrev Segment := List Char

namespace Path

/-- A segment that a canonical path may have. -/
def Proper (segment : Segment) : Prop := segment ≠ [] ∧ '/' ∉ segment

/-- The path that leads from the root over the given segments. -/
def ofSegments (segments : List Segment) : Path :=
  if segments = [] then root else segments.flatMap fun segment => '/' :: segment

/-- The segments of a path. -/
def segments (path : Path) : List Segment :=
  (path.splitOn '/').filter (· ≠ [])

/-- A slash, or segments with one slash before each. -/
def Canonical (path : Path) : Prop :=
  ∃ segments : List Segment, (∀ segment ∈ segments, Proper segment) ∧
    path = ofSegments segments

variable {segments first second : List Segment} {segment : Segment}

theorem ofSegments_nil : ofSegments [] = root := rfl

theorem ofSegments_of_ne_nil (h : segments ≠ []) :
    ofSegments segments = segments.flatMap fun segment => '/' :: segment := by
  unfold ofSegments
  rw [if_neg h]

theorem ofSegments_append (hfirst : first ≠ []) (hsecond : second ≠ []) :
    ofSegments (first ++ second) = ofSegments first ++ ofSegments second := by
  rw [ofSegments_of_ne_nil hfirst, ofSegments_of_ne_nil hsecond,
    ofSegments_of_ne_nil (by simp [hfirst]), List.flatMap_append]

/-- The path of an entry right in a directory. -/
theorem ofSegments_concat (segments : List Segment) (segment : Segment) :
    ofSegments (segments ++ [segment]) =
      (segments.flatMap fun segment => '/' :: segment) ++ '/' :: segment := by
  rw [ofSegments_of_ne_nil (by simp), List.flatMap_append]
  simp

theorem splitOn_flatMap (h : ∀ segment ∈ segments, Proper segment) (segment : Segment)
    (hsegment : '/' ∉ segment) :
    (segment ++ segments.flatMap fun segment => '/' :: segment).splitOn '/' =
      segment :: segments := by
  induction segments generalizing segment with
  | nil => simpa using List.splitOn_eq_singleton hsegment
  | cons next rest ih =>
      have hnext := h next (by simp)
      rw [List.flatMap_cons, List.cons_append,
        List.splitOn_append_cons_self_of_not_mem hsegment]
      rw [ih (fun other member => h other (by simp [member])) next hnext.2]

/-- The segments that a canonical path was spelled from are read off it again. -/
theorem segments_ofSegments (h : ∀ segment ∈ segments, Proper segment) :
    (ofSegments segments).segments = segments := by
  by_cases hnil : segments = []
  · rw [hnil]
    rfl
  · have hsplit := splitOn_flatMap h [] (by simp)
    unfold Path.segments
    rw [ofSegments_of_ne_nil hnil]
    simp only [List.nil_append] at hsplit
    rw [hsplit, List.filter_cons_of_neg (by simp), List.filter_eq_self]
    intro other member
    simpa using (h other member).1

theorem ofSegments_injective (hfirst : ∀ segment ∈ first, Proper segment)
    (hsecond : ∀ segment ∈ second, Proper segment)
    (h : ofSegments first = ofSegments second) : first = second := by
  rw [← segments_ofSegments hfirst, h, segments_ofSegments hsecond]

theorem ofSegments_eq_root (h : ∀ segment ∈ segments, Proper segment) :
    ofSegments segments = root ↔ segments = [] := by
  constructor
  · intro hroot
    exact ofSegments_injective h (by simp) hroot
  · rintro rfl
    rfl

theorem ofSegments_ne_root (h : ∀ segment ∈ segments, Proper segment)
    (hne : segments ≠ []) : ofSegments segments ≠ root :=
  fun hroot => hne ((ofSegments_eq_root h).mp hroot)

/-- A path of segments does not end in a slash. -/
theorem flatMap_eq_append_last (h : ∀ segment ∈ segments, Proper segment)
    (hne : segments ≠ []) :
    ∃ front last, (segments.flatMap fun segment => '/' :: segment) = front ++ [last] ∧
      last ≠ '/' := by
  obtain ⟨before, segment, rfl⟩ := List.eq_nil_or_concat segments |>.resolve_left hne
  obtain ⟨hsegment, hslash⟩ := h segment (by simp)
  obtain ⟨start, last, rfl⟩ := List.eq_nil_or_concat segment |>.resolve_left hsegment
  refine ⟨(before.flatMap fun segment => '/' :: segment) ++ '/' :: start, last, ?_, ?_⟩
  · simp
  · rintro rfl
    exact hslash (by simp)

/-- The parent of a path has all segments but the last. -/
theorem parent_ofSegments (h : ∀ segment ∈ segments, Proper segment)
    (hsegment : Proper segment) :
    parent (ofSegments (segments ++ [segment])) = ofSegments segments := by
  rw [ofSegments_concat]
  by_cases hnil : segments = []
  · rw [hnil]
    exact parent_slash segment hsegment.2
  · obtain ⟨front, last, hspelled, hlast⟩ := flatMap_eq_append_last h hnil
    rw [ofSegments_of_ne_nil hnil, hspelled]
    exact parent_append_slash front segment last hlast hsegment.2

theorem flatMap_under (hfirst : ∀ segment ∈ first, Proper segment)
    (hsecond : ∀ segment ∈ second, Proper segment) {rest : Path}
    (h : (second.flatMap fun segment => '/' :: segment) =
      (first.flatMap fun segment => '/' :: segment) ++ '/' :: rest) :
    ∃ more, more ≠ [] ∧ second = first ++ more := by
  induction first generalizing second with
  | nil =>
      refine ⟨second, ?_, rfl⟩
      rintro rfl
      simp at h
  | cons segment first ih =>
      cases second with
      | nil => simp at h
      | cons other second =>
          have hsegment := (hfirst segment (by simp)).2
          have hother := (hsecond other (by simp)).2
          simp only [List.flatMap_cons, List.cons_append, List.append_assoc,
            List.cons.injEq, true_and] at h
          have hnext : ∃ next,
              (first.flatMap fun segment => '/' :: segment) ++ '/' :: rest =
                '/' :: next := by
            cases first with
            | nil => exact ⟨rest, rfl⟩
            | cons front first => exact ⟨_, rfl⟩
          obtain ⟨next, hnext⟩ := hnext
          rw [hnext] at h
          cases second with
          | nil =>
              simp only [List.flatMap_nil, List.append_nil] at h
              exact absurd (by simp [h]) hother
          | cons third second =>
              have hhead := append_slash_inj hother hsegment
                (by simpa using h : other ++ '/' ::
                  (third ++ second.flatMap fun segment => '/' :: segment) =
                    segment ++ '/' :: next)
              obtain ⟨rfl, htail⟩ := hhead
              have hspelled : ((third :: second).flatMap fun segment => '/' :: segment) =
                  (first.flatMap fun segment => '/' :: segment) ++ '/' :: rest := by
                rw [hnext, ← htail]
                simp
              obtain ⟨more, hne, hsame⟩ := ih
                (fun segment member => hfirst segment (by simp [member]))
                (fun segment member => hsecond segment (List.mem_cons_of_mem _ member))
                hspelled
              exact ⟨more, hne, by rw [hsame]; rfl⟩

/-- A canonical path is under another, other than the root, when it goes on with
more segments. -/
theorem under_ofSegments (hfirst : ∀ segment ∈ first, Proper segment)
    (hsecond : ∀ segment ∈ second, Proper segment) (hne : first ≠ []) :
    (ofSegments second).Under (ofSegments first) ↔
      ∃ more, more ≠ [] ∧ second = first ++ more := by
  rw [under_iff, ofSegments_of_ne_nil hne]
  constructor
  · rintro ⟨rest, h⟩
    have hsome : second ≠ [] := by
      rintro rfl
      obtain ⟨segment, first, rfl⟩ := List.exists_cons_of_ne_nil hne
      have hlength := congrArg List.length h
      simp [ofSegments_nil, root] at hlength
    rw [ofSegments_of_ne_nil hsome] at h
    exact flatMap_under hfirst hsecond h
  · rintro ⟨more, hmore, rfl⟩
    obtain ⟨segment, more, rfl⟩ := List.exists_cons_of_ne_nil hmore
    refine ⟨segment ++ more.flatMap fun segment => '/' :: segment, ?_⟩
    rw [ofSegments_of_ne_nil (by simp)]
    simp

/-- Exchanging the front of a canonical path exchanges its first segments. -/
theorem rebase_ofSegments {source target more : List Segment} (hsource : source ≠ [])
    (htarget : target ≠ []) (hmore : more ≠ []) :
    (ofSegments (source ++ more)).rebase (ofSegments source) (ofSegments target) =
      ofSegments (target ++ more) := by
  rw [ofSegments_append hsource hmore, ofSegments_append htarget hmore]
  simp [rebase]

/-- Siblings are in the order of their last segments. -/
theorem le_ofSegments_concat (segments : List Segment) (segment other : Segment) :
    (ofSegments (segments ++ [segment])).le (ofSegments (segments ++ [other])) =
      Path.le segment other := by
  have hsplit : ∀ last : Segment, ofSegments (segments ++ [last]) =
      ((segments.flatMap fun segment => '/' :: segment) ++ ['/']) ++ last := by
    intro last
    rw [ofSegments_concat]
    simp
  rw [hsplit, hsplit, le_append_left]

end Path

end FlatTree
