import Mathlib.Data.List.Sort
import FlatTree.Path

/-!
How the texts of paths make a tree. The parent of a path is what stands before
the last run of slashes; the exception are paths with slashes in front of their
last segment only, whose parent is that run of slashes itself. A path under
another keeps its rest when the front is exchanged. Code point order is a total
order, so the sorted form of a list of paths is determined by its members.
-/

namespace FlatTree.Path

/-! ### Parents -/

theorem stem_eq_nil_or_last (path : Path) :
    path.stem = [] ∨ ∃ front, path.stem = front ++ ['/'] := by
  unfold stem
  cases hrest : path.reverse.dropWhile (· != '/') with
  | nil => exact Or.inl rfl
  | cons first rest =>
      have hslash : ¬(first != '/') = true := by
        have hhead := List.head?_dropWhile_not (· != '/') path.reverse
        simpa [hrest] using hhead
      refine Or.inr ⟨rest.reverse, ?_⟩
      simp_all

/-- A path is slashes and a last segment, or its parent, at least one slash and
a last segment. -/
theorem parent_cases (path : Path) :
    (∃ count, path.parent = List.replicate count '/' ∧
        path = List.replicate count '/' ++ path.base) ∨
      (∃ count, path = path.parent ++ List.replicate (count + 1) '/' ++ path.base ∧
        ∃ front last, path.parent = front ++ [last] ∧ last ≠ '/') := by
  let trimmed := (path.stem.reverse.dropWhile (· == '/')).reverse
  let slashes := (path.stem.reverse.takeWhile (· == '/')).reverse
  have hsplit : path.stem = trimmed ++ slashes := by
    simp only [trimmed, slashes, ← List.reverse_append,
      List.takeWhile_append_dropWhile, List.reverse_reverse]
  have hslashes : slashes = List.replicate slashes.length '/' := by
    rw [List.eq_replicate_iff]
    refine ⟨rfl, ?_⟩
    intro c member
    have hall := List.all_eq_true.mp
      (List.all_takeWhile (p := (· == '/')) (l := path.stem.reverse)) c
      (by simpa [slashes] using member)
    simpa using hall
  have hpath := stem_append_base path
  by_cases hempty : trimmed = []
  · left
    refine ⟨slashes.length, ?_, ?_⟩
    · unfold parent
      simp only [trimmed] at hempty
      rw [if_pos hempty, hsplit]
      simp only [trimmed, hempty, List.nil_append]
      exact hslashes
    · rw [hsplit, hempty, List.nil_append] at hpath
      rw [← hslashes, hpath]
  · right
    have hparent : path.parent = trimmed := by
      unfold parent
      simp only [trimmed] at hempty
      rw [if_neg hempty]
    obtain ⟨last, front, hreverse⟩ := List.exists_cons_of_ne_nil
      (List.reverse_ne_nil_iff.mpr hempty)
    have hlast : last ≠ '/' := by
      have hhead := List.head?_dropWhile_not (· == '/') path.stem.reverse
      have hdrop : path.stem.reverse.dropWhile (· == '/') = last :: front := by
        simpa [trimmed] using hreverse
      simpa [hdrop] using hhead
    have hfront : trimmed = front.reverse ++ [last] := by
      have := congrArg List.reverse hreverse
      simpa using this
    have hne : slashes ≠ [] := by
      intro hnil
      rcases stem_eq_nil_or_last path with hstem | ⟨before, hstem⟩
      · rw [hsplit, hnil, List.append_nil] at hstem
        exact hempty hstem
      · rw [hsplit, hnil, List.append_nil, hfront] at hstem
        have := (List.append_inj' hstem rfl).2
        exact hlast (by simpa using this)
    obtain ⟨count, hcount⟩ := Nat.exists_eq_succ_of_ne_zero
      (List.length_pos_iff.mpr hne).ne'
    refine ⟨count, ?_, front.reverse, last, ?_, hlast⟩
    · rw [hparent]
      rw [hcount] at hslashes
      rw [← hslashes, ← hsplit, hpath]
    · rw [hparent, hfront]

/-- The last segment is what follows the last slash. -/
theorem base_append_slash (front base : Path) (h : '/' ∉ base) :
    (front ++ '/' :: base).base = base := by
  have hall : ∀ c ∈ base.reverse, (c != '/') = true := by
    intro c member
    simp only [bne_iff_ne, ne_eq]
    rintro rfl
    exact h (List.mem_reverse.mp member)
  unfold Path.base
  rw [List.reverse_append, List.reverse_cons, List.append_assoc,
    List.takeWhile_append_of_pos hall]
  simp

theorem stem_append_slash (front base : Path) (h : '/' ∉ base) :
    (front ++ '/' :: base).stem = front ++ ['/'] := by
  have hwhole := stem_append_base (front ++ '/' :: base)
  rw [base_append_slash front base h] at hwhole
  have hsplit : front ++ '/' :: base = (front ++ ['/']) ++ base := by simp
  exact List.append_cancel_right (hwhole.trans hsplit)

/-- The parent of an entry right in a directory is the directory's path. -/
theorem parent_append_slash (front base : Path) (last : Char) (hlast : last ≠ '/')
    (h : '/' ∉ base) : (front ++ [last] ++ '/' :: base).parent = front ++ [last] := by
  unfold parent
  rw [stem_append_slash _ _ h]
  simp [hlast]

/-- The parent of an entry right in the root is the root. -/
theorem parent_slash (base : Path) (h : '/' ∉ base) : parent ('/' :: base) = root := by
  unfold parent
  have hstem := stem_append_slash [] base h
  simp only [List.nil_append] at hstem
  rw [hstem]
  simp [root]

/-! ### Paths from the root -/

/-- A path of the form that entries have: a slash, and no slash right after it. -/
def Rooted (path : Path) : Prop :=
  ∃ c rest, c ≠ '/' ∧ path = '/' :: c :: rest

theorem Rooted.ne_root {path : Path} (h : path.Rooted) : path ≠ root := by
  obtain ⟨c, rest, -, rfl⟩ := h
  simp [root]

theorem Rooted.ne_nil {path : Path} (h : path.Rooted) : path ≠ [] := by
  obtain ⟨c, rest, -, rfl⟩ := h
  simp

theorem Rooted.append {path : Path} (h : path.Rooted) (rest : Path) :
    (path ++ rest).Rooted := by
  obtain ⟨c, more, hc, rfl⟩ := h
  exact ⟨c, more ++ rest, hc, by simp⟩

/-- A path right in the root or in a directory of that form is of that form. -/
theorem rooted_of_parent {path : Path} (hne : path ≠ root)
    (h : path.parent = root ∨ path.parent.Rooted) : path.Rooted := by
  rcases parent_cases path with ⟨count, hparent, hpath⟩ | ⟨count, hpath, front, last, hfront, hlast⟩
  · rcases h with hroot | ⟨c, rest, hc, hrooted⟩
    · rw [hparent] at hroot
      have hcount : count = 1 := by
        have := congrArg List.length hroot
        simpa [root] using this
      subst count
      cases hbase : path.base with
      | nil =>
          rw [hbase] at hpath
          exact absurd hpath hne
      | cons c rest =>
          refine ⟨c, rest, ?_, by rw [hpath, hbase]; rfl⟩
          rintro rfl
          exact slash_not_mem_base path (by simp [hbase])
    · rw [hparent] at hrooted
      have member : c ∈ List.replicate count '/' := by simp [hrooted]
      exact absurd (List.eq_of_mem_replicate member) hc
  · rcases h with hroot | hrooted
    · rw [hfront] at hroot
      have : front ++ [last] = [] ++ ['/'] := hroot
      exact absurd (by simpa using (List.append_inj' this rfl).2) hlast
    · rw [hpath, List.append_assoc]
      exact hrooted.append _

/-! ### Paths under a path -/

theorem under_iff {path directory : Path} :
    path.Under directory ↔ ∃ rest, path = directory ++ '/' :: rest := by
  unfold Under
  constructor
  · rintro ⟨rest, rfl⟩
    exact ⟨rest, by simp⟩
  · rintro ⟨rest, rfl⟩
    exact ⟨rest, by simp⟩

theorem Under.ne {path directory : Path} (h : path.Under directory) : path ≠ directory := by
  obtain ⟨rest, rfl⟩ := under_iff.mp h
  intro same
  have := congrArg List.length same
  simp at this

/-- Of two paths that one path is below, one is below the other or they are the same. -/
theorem Under.cases {path first second : Path} (hfirst : path.Under first)
    (hsecond : path.Under second) : first = second ∨ first.Under second ∨ second.Under first := by
  rcases List.prefix_or_prefix_of_prefix hfirst hsecond with hfront | hfront
  · rcases List.prefix_concat_iff.mp hfront with hsame | hunder
    · exact Or.inl (List.append_cancel_right hsame)
    · exact Or.inr (Or.inr hunder)
  · rcases List.prefix_concat_iff.mp hfront with hsame | hunder
    · exact Or.inl (List.append_cancel_right hsame).symm
    · exact Or.inr (Or.inl hunder)

theorem eq_nil_of_root_under {path : Path} (h : root.Under path) : path = [] := by
  have hlength := h.length_le
  simp only [List.length_append, root, List.length_singleton] at hlength
  exact List.eq_nil_of_length_eq_zero (by omega)

theorem rebase_append (source target rest : Path) :
    (source ++ '/' :: rest).rebase source target = target ++ '/' :: rest := by
  simp [rebase]

theorem under_rebase {path source : Path} (h : path.Under source) (target : Path) :
    (path.rebase source target).Under target := by
  obtain ⟨rest, rfl⟩ := under_iff.mp h
  exact under_iff.mpr ⟨rest, rebase_append source target rest⟩

theorem rebase_injective {first second source target : Path} (hfirst : first.Under source)
    (hsecond : second.Under source)
    (h : first.rebase source target = second.rebase source target) : first = second := by
  obtain ⟨rest, rfl⟩ := under_iff.mp hfirst
  obtain ⟨more, rfl⟩ := under_iff.mp hsecond
  rw [rebase_append, rebase_append] at h
  rw [List.append_cancel_left h]

/-- Texts without a slash, each before a slash, are the same if the wholes are. -/
theorem append_slash_inj {first second rest more : Path} (hfirst : '/' ∉ first)
    (hsecond : '/' ∉ second) (h : first ++ '/' :: rest = second ++ '/' :: more) :
    first = second ∧ rest = more := by
  induction first generalizing second with
  | nil =>
      cases second with
      | nil => exact ⟨rfl, by simpa using h⟩
      | cons c second =>
          simp only [List.nil_append, List.cons_append, List.cons.injEq] at h
          exact absurd (List.mem_cons.mpr (Or.inl h.1)) hsecond
  | cons c first ih =>
      cases second with
      | nil =>
          simp only [List.nil_append, List.cons_append, List.cons.injEq] at h
          exact absurd (List.mem_cons.mpr (Or.inl h.1.symm)) hfirst
      | cons d second =>
          simp only [List.cons_append, List.cons.injEq] at h
          obtain ⟨rfl, hrest⟩ := h
          obtain ⟨rfl, hmore⟩ := ih (fun member => hfirst (by simp [member]))
            (fun member => hsecond (by simp [member])) hrest
          exact ⟨rfl, hmore⟩

/-! ### Code point order -/

theorem le_total (path other : Path) : path.le other = true ∨ other.le path = true := by
  induction path generalizing other with
  | nil => exact Or.inl rfl
  | cons c rest ih =>
      cases other with
      | nil => exact Or.inr rfl
      | cons d more =>
          simp only [le, Bool.or_eq_true, decide_eq_true_eq, Bool.and_eq_true, beq_iff_eq]
          rcases Nat.lt_trichotomy c.toNat d.toNat with hlt | heq | hgt
          · exact Or.inl (Or.inl hlt)
          · rcases ih more with h | h
            · exact Or.inl (Or.inr ⟨heq, h⟩)
            · exact Or.inr (Or.inr ⟨heq.symm, h⟩)
          · exact Or.inr (Or.inl hgt)

theorem le_trans {first second third : Path} (h : first.le second = true)
    (h' : second.le third = true) : first.le third = true := by
  induction first generalizing second third with
  | nil => rfl
  | cons c rest ih =>
      cases second with
      | nil => cases h
      | cons d more =>
          cases third with
          | nil => cases h'
          | cons e last =>
              simp only [le, Bool.or_eq_true, decide_eq_true_eq, Bool.and_eq_true,
                beq_iff_eq] at h h' ⊢
              rcases h with hlt | ⟨heq, hrest⟩
              · rcases h' with hlt' | ⟨heq', -⟩
                · exact Or.inl (by omega)
                · exact Or.inl (by omega)
              · rcases h' with hlt' | ⟨heq', hrest'⟩
                · exact Or.inl (by omega)
                · exact Or.inr ⟨by omega, ih hrest hrest'⟩

theorem le_antisymm {first second : Path} (h : first.le second = true)
    (h' : second.le first = true) : first = second := by
  induction first generalizing second with
  | nil =>
      cases second with
      | nil => rfl
      | cons d more => cases h'
  | cons c rest ih =>
      cases second with
      | nil => cases h
      | cons d more =>
          simp only [le, Bool.or_eq_true, decide_eq_true_eq, Bool.and_eq_true,
            beq_iff_eq] at h h'
          rcases h with hlt | ⟨heq, hrest⟩
          · rcases h' with hlt' | ⟨heq', -⟩ <;> omega
          · rcases h' with hlt' | ⟨heq', hrest'⟩
            · omega
            · have hchar : c = d := Char.ext (UInt32.toNat_inj.mp heq)
              rw [hchar, ih hrest hrest']

/-- A common front plays no part in the order. -/
theorem le_append_left (front first second : Path) :
    (front ++ first).le (front ++ second) = first.le second := by
  induction front with
  | nil => rfl
  | cons c rest ih => simp [le, ih]

instance : IsTrans Path fun first second => first.le second = true where
  trans _ _ _ := le_trans

instance : Std.Total fun first second : Path => first.le second = true where
  total := le_total

theorem sort_eq_insertionSort (paths : List Path) :
    sort paths = paths.insertionSort fun first second => first.le second = true := by
  have hinsert : ∀ (path : Path) (paths : List Path),
      insertSorted path paths =
        paths.orderedInsert (fun first second => first.le second = true) path := by
    intro path paths
    induction paths with
    | nil => rfl
    | cons first rest ih => simp only [insertSorted, List.orderedInsert_cons, ih]
  induction paths with
  | nil => rfl
  | cons first rest ih =>
      change insertSorted first (sort rest) = _
      rw [hinsert, ih]
      rfl

theorem sort_perm (paths : List Path) : (sort paths).Perm paths := by
  rw [sort_eq_insertionSort]
  exact List.perm_insertionSort _ paths

theorem sort_pairwise (paths : List Path) :
    (sort paths).Pairwise fun first second => first.le second = true := by
  rw [sort_eq_insertionSort]
  exact List.pairwise_insertionSort _ paths

/-- A list in code point order without repetitions is the sorted form of every
list without repetitions that has the same members. -/
theorem sort_eq_of_mem_iff {paths sorted : List Path} (hpaths : paths.Nodup)
    (hsorted : sorted.Pairwise fun first second => first.le second = true)
    (hnodup : sorted.Nodup) (h : ∀ path, path ∈ sorted ↔ path ∈ paths) :
    sort paths = sorted := by
  have hperm : (sort paths).Perm sorted := by
    refine (sort_perm paths).trans ?_
    exact (List.perm_ext_iff_of_nodup hpaths hnodup).mpr fun path => (h path).symm
  refine List.Perm.eq_of_pairwise ?_ (sort_pairwise paths) hsorted hperm
  intro first second _ _ hle hge
  exact le_antisymm hle hge

end FlatTree.Path
