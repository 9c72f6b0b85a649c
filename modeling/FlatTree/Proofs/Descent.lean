import FlatTree.Proofs.Catalogue
import FlatTree.Proofs.Destination
import FlatTree.Proofs.Rekeying

/-!
What it is to be inside a directory. A removal and a rename go by the texts of keys: inside
is every entry whose key continues the directory with a slash (`Volume.below`). Listings go
by the parents of keys: inside is what one comes to from the directory by taking children
and the children of directories among them (`Volume.Inside`). The parent of a key strips
runs of slashes, so the two differ text by text. In stores without symbolic links they
agree: there the parent of every entry is an entry, down to the directory itself.
-/

namespace FlatTree

namespace Path

variable {path directory : Path}

/-- Going from a path under a directory to its parent one comes to the directory or stays
under it, if the directory does not end in a slash. -/
theorem Under.parent_cases (h : path.Under directory) (hne : directory ≠ [])
    (hlast : directory.getLast? ≠ some '/') :
    path.parent = directory ∨ path.parent.Under directory := by
  obtain ⟨rest, rfl⟩ := under_iff.mp h
  rcases parent_continuation rest with ⟨part, hpart⟩ | hfront
  · exact Or.inr (under_iff.mpr ⟨part, hpart directory⟩)
  · exact Or.inl (hfront directory hne hlast)

/-- A path right in one directory stands right in another when the front is exchanged, if
neither ends in a slash. -/
theorem parent_eq_front_iff {front other : Path} (hfront : front ≠ [])
    (hlast : front.getLast? ≠ some '/') (hother : other ≠ [])
    (hslash : other.getLast? ≠ some '/') (rest : Path) :
    (front ++ '/' :: rest).parent = front ↔ (other ++ '/' :: rest).parent = other := by
  rcases parent_continuation rest with ⟨part, hpart⟩ | hparent
  · rw [hpart front, hpart other]
    simp
  · simp only [hparent front hfront hlast, hparent other hother hslash]

end Path

namespace Volume

/-- What one comes to from a directory by taking children, and again the children of
directories among them. -/
inductive Inside (volume : Volume) (heap : Heap) (directory : Path) : Path → Prop
  | child {key : Path} (member : key ∈ volume.children directory) :
      Inside volume heap directory key
  | deeper {between key : Path} (inside : Inside volume heap directory between)
      (holds : volume.HoldsDirectory heap between) (member : key ∈ volume.children between) :
      Inside volume heap directory key

variable {volume : Volume} {heap : Heap} {directory key : Path} {id : NodeId}

theorem mem_below : (key, id) ∈ volume.below directory ↔
    volume.table.live? key = some id ∧ key.Under directory := by
  unfold below
  rw [List.mem_filter, Table.mem_live, decide_eq_true_eq]

/-- Every child of a directory continues it with a slash. -/
theorem under_of_mem_children (hrooted : directory.Rooted)
    (member : key ∈ volume.children directory) : key.Under directory := by
  obtain ⟨-, hparent⟩ := mem_children.mp member
  subst hparent
  exact hrooted.under_parent

/-- All that is inside a directory has a key that continues the directory. -/
theorem Inside.live_under (hrooted : directory.Rooted)
    (hinside : volume.Inside heap directory key) :
    (∃ id, volume.table.live? key = some id) ∧ key.Under directory := by
  induction hinside with
  | child member =>
      obtain ⟨hlive, -⟩ := mem_children.mp member
      exact ⟨hlive, under_of_mem_children hrooted member⟩
  | deeper _ _ member ih =>
      obtain ⟨hlive, -⟩ := mem_children.mp member
      obtain ⟨rest, hrest⟩ := Path.under_iff.mp ih.2
      have hbetween := hrooted.append ('/' :: rest)
      rw [← hrest] at hbetween
      have hunder := under_of_mem_children hbetween member
      exact ⟨hlive, hunder.trans_within (Or.inr ih.2)⟩

namespace Enclosed

variable (h : volume.Enclosed heap)

include h

/-- By induction on the key: the parent of a key that continues a directory is the
directory or an entry with a shorter key that continues it. -/
theorem inside_of_under (hrooted : directory.Rooted)
    (hlast : directory.getLast? ≠ some '/') (hlive : volume.table.live? key = some id)
    (hunder : key.Under directory) : volume.Inside heap directory key := by
  induction hlength : key.length using Nat.strong_induction_on generalizing key id with
  | _ length ih =>
    have member : key ∈ volume.children key.parent := mem_children.mpr ⟨⟨id, hlive⟩, rfl⟩
    rcases hunder.parent_cases hrooted.ne_nil hlast with hparent | hbetween
    · rw [hparent] at member
      exact .child member
    · obtain ⟨held, hheld, hkind⟩ := h.enclosed key id hlive
      have hparent := h.live?_rooted hheld
      have hshorter := (h.rooted key id hlive).length_parent_lt hparent
      have hroot : key.parent ≠ Path.root := by
        intro hroot
        rw [hroot] at hbetween
        exact hrooted.root_not_under hbetween
      have htable := hheld
      rw [live?_of_ne_root hroot] at htable
      have hinside := ih key.parent.length (hlength ▸ hshorter) htable hbetween rfl
      exact .deeper hinside ⟨held, hheld, hkind⟩ member

theorem below_iff_inside (hrooted : directory.Rooted)
    (hlast : directory.getLast? ≠ some '/') :
    (∃ id, (key, id) ∈ volume.below directory) ↔ volume.Inside heap directory key := by
  simp only [mem_below, exists_and_right]
  constructor
  · rintro ⟨⟨id, hlive⟩, hunder⟩
    exact h.inside_of_under hrooted hlast hlive hunder
  · exact Inside.live_under hrooted

/-- A directory without children has nothing below it. -/
theorem below_eq_nil_iff (hrooted : directory.Rooted)
    (hlast : directory.getLast? ≠ some '/') :
    volume.below directory = [] ↔ volume.children directory = [] := by
  simp only [List.eq_nil_iff_forall_not_mem]
  constructor
  · intro hbelow key member
    obtain ⟨id, hentry⟩ := (h.below_iff_inside hrooted hlast).mpr (.child member)
    exact hbelow _ hentry
  · rintro hchildren ⟨key, id⟩ hentry
    have hinside := (h.below_iff_inside hrooted hlast).mp ⟨id, hentry⟩
    have hempty : ∀ {key}, volume.Inside heap directory key → False := by
      intro key hinside
      induction hinside with
      | child member => exact hchildren _ member
      | deeper _ _ _ ih => exact ih
    exact hempty hinside

end Enclosed

/-- The listing of a directory has a node for each of its children. -/
theorem filterMap_children_eq_nil_iff :
    (volume.children directory).filterMap volume.table.live? = [] ↔
      volume.children directory = [] := by
  have hheld := (volume.catalogue_children directory).held
  rw [← List.map_eq_nil_iff (f := some), ← hheld, List.map_eq_nil_iff]

end Volume

namespace State

variable {state : State} {call : Call} {reply : Reply} {directory key : Path} {id : NodeId}

open Volume

section Rename

variable (h : state.volume.Enclosed state.heap) (hrename : call.Commands .rename)
  (hanswer : call.answer state = .ok reply)
  (hholds : state.volume.HoldsDirectory state.heap call.request.path)
  (hlast : call.request.path.getLast? ≠ some '/')
  (hslash : call.request.target.getLast? ≠ some '/')

include h hrename hanswer

theorem rooted_of_rename : call.request.path.Rooted ∧ call.request.target.Rooted := by
  obtain ⟨held, hheld, hfree, -, hparent⟩ := checked_rename h.toCalm hanswer hrename
  obtain ⟨-, hapart, -⟩ := served_rename h.toSound hanswer hrename
  exact ⟨(h.live?_rooted hheld).resolve_left hapart, h.rooted_of_hasParent hfree hparent⟩

include hholds

/-- A renamed directory stands under its target. -/
theorem holdsDirectory_of_rename : (state.serve call).volume.HoldsDirectory
    (state.serve call).heap call.request.target := by
  obtain ⟨id, hlive, hkind⟩ := hholds
  obtain ⟨hsource, htarget⟩ := rooted_of_rename h hrename hanswer
  have htable := hlive
  rw [live?_of_ne_root hsource.ne_root] at htable
  have hmoved : (state.serve call).volume.table.live? call.request.target = some id :=
    (live?_of_rename hrename hanswer).mpr
      (Or.inl ⟨_, carried_of_live? .self htable, Path.rebase_self _ _, htable⟩)
  refine ⟨id, ?_, ?_⟩
  · rwa [live?_of_ne_root htarget.ne_root]
  · have hkeeps : state.heap.Keeps (state.serve call).heap := (sound_run h.toSound [call]).2.2
    rw [hkeeps.isDirectory id (h.made _ id hlive), hkind]

include hlast hslash

/-- The children of a renamed directory are the children that it had, each with its node
under the key with the front exchanged. -/
theorem mem_children_of_rename :
    (∃ old ∈ state.volume.children call.request.path,
        old.rebase call.request.path call.request.target = key ∧
          state.volume.table.live? old = some id) ↔
      (state.serve call).volume.table.live? key = some id ∧
        key.parent = call.request.target := by
  obtain ⟨held, hheld, hfree, -⟩ := checked_rename h.toCalm hanswer hrename
  obtain ⟨hsource, htarget⟩ := rooted_of_rename h hrename hanswer
  have hright := Path.parent_eq_front_iff hsource.ne_nil hlast htarget.ne_nil hslash
  rw [live?_of_rename hrename hanswer]
  constructor
  · rintro ⟨old, member, rfl, hlive⟩
    obtain ⟨-, hold⟩ := mem_children.mp member
    have hunder := under_of_mem_children hsource member
    have hcarries := carries_iff.mpr (Or.inr ⟨hunder, hholds⟩)
    refine ⟨Or.inl ⟨old, carried_of_live? hcarries hlive, rfl, hlive⟩, ?_⟩
    obtain ⟨rest, rfl⟩ := Path.under_iff.mp hunder
    rw [Path.rebase_append]
    exact (hright rest).mp hold
  · rintro ⟨⟨old, ⟨-, hcarries⟩, rfl, hlive⟩ | ⟨-, hlive⟩, hkey⟩
    · refine ⟨old, ?_, rfl, hlive⟩
      rcases hcarries with rfl | ⟨hunder, -⟩
      · rw [Path.rebase_self] at hkey
        have hshorter := htarget.length_parent_lt (Or.inr (hkey.symm ▸ htarget))
        rw [hkey] at hshorter
        exact absurd hshorter (lt_irrefl _)
      · obtain ⟨rest, rfl⟩ := Path.under_iff.mp hunder
        rw [Path.rebase_append] at hkey
        exact mem_children.mpr ⟨⟨id, hlive⟩, (hright rest).mpr hkey⟩
    · -- The target was free, so that nothing was right in it.
      obtain ⟨directory, hdirectory, -⟩ := h.enclosed key id hlive
      rw [hkey, hfree] at hdirectory
      cases hdirectory

/-- Nor does a rename change the order of the children, for they differ only after the
front that they have in common. -/
theorem children_of_rename : (state.serve call).volume.children call.request.target =
    (state.volume.children call.request.path).map
      (·.rebase call.request.path call.request.target) := by
  obtain ⟨hsource, -⟩ := rooted_of_rename h hrename hanswer
  have hordered : (state.volume.children call.request.path).Pairwise
      fun first second => first.le second = true := Path.sort_pairwise _
  refine Path.sort_eq_of_mem_iff ((Table.nodup_live _).filter _) ?_ ?_ fun key => ?_
  · rw [List.pairwise_map]
    refine hordered.imp_of_mem fun hfirst hsecond hle => ?_
    obtain ⟨rest, rfl⟩ := Path.under_iff.mp (under_of_mem_children hsource hfirst)
    obtain ⟨more, rfl⟩ := Path.under_iff.mp (under_of_mem_children hsource hsecond)
    rw [Path.le_append_left] at hle
    rwa [Path.rebase_append, Path.rebase_append, Path.le_append_left]
  · refine (state.volume.nodup_children _).map_on fun first hfirst second hsecond heq => ?_
    exact Path.rebase_injective (under_of_mem_children hsource hfirst)
      (under_of_mem_children hsource hsecond) heq
  · refine Iff.trans ?_ Path.mem_sort
    refine Iff.trans ?_ mem_children.symm
    simp only [List.mem_map, ← exists_and_right,
      ← mem_children_of_rename h hrename hanswer hholds hlast hslash]
    constructor
    · rintro ⟨old, member, rfl⟩
      obtain ⟨⟨id, hlive⟩, -⟩ := mem_children.mp member
      exact ⟨id, old, member, rfl, hlive⟩
    · rintro ⟨id, old, member, rfl, -⟩
      exact ⟨old, member, rfl⟩

/-- The listing of a renamed directory is the one that it had. -/
theorem listing_of_rename : ((state.serve call).volume.children call.request.target).filterMap
      (state.serve call).volume.table.live? =
    (state.volume.children call.request.path).filterMap state.volume.table.live? := by
  rw [children_of_rename h hrename hanswer hholds hlast hslash, List.filterMap_map]
  refine List.filterMap_congr fun key member => ?_
  obtain ⟨⟨id, hlive⟩, -⟩ := mem_children.mp member
  rw [hlive]
  exact ((mem_children_of_rename h hrename hanswer hholds hlast hslash).mp
    ⟨key, member, rfl, hlive⟩).1

end Rename

/-- A removal that is answered takes out the path that it names and nothing else. -/
theorem live?_of_removes (h : state.volume.Sound state.heap) (hremove : call.Removes)
    (hanswer : call.answer state = .ok reply) (hapart : call.request.path ≠ Path.root)
    (key : Path) : (state.serve call).volume.live? key =
      if key = call.request.path then none else state.volume.live? key := by
  by_cases hroot : key = Path.root
  · subst hroot
    rw [if_neg hapart.symm, live?_root, live?_root]
    exact congrArg some (sound_run h [call]).2.1
  · rw [live?_of_ne_root hroot, live?_of_ne_root hroot, served_removes h hanswer hremove,
      Table.live?_erase]

theorem heap_of_removes (h : state.volume.Calm) (hremove : call.Removes)
    (hanswer : call.answer state = .ok reply) : (state.serve call).heap = state.heap := by
  obtain ⟨change, hmakes, -, -, hheap⟩ := served_of_answer_ok h hanswer
  rw [hheap, hmakes.of_removes hremove, heap_remove]

/-- Two notions of what is inside a directory agree after every run without commands for
symbolic links. For every entry that is a directory, and whose key does not end in a slash,
the entries below it, which a removal looks for and a rename takes along, are those that one
comes to by taking children, which is what a listing gives of any directory. So a removal is
refused just when there is something to list, and takes out the directory alone otherwise.
And a rename of the directory, to a key that does not end in a slash, leaves its listing as
it was. -/
theorem notions_of_inside_agree (settings : Settings) (calls : List Call)
    (hcalls : ∀ call ∈ calls, ¬call.Commands .symlink) :
    let state := (State.start settings).run calls
    let listing := fun path : Path =>
      Listing.mk ((state.volume.children path).filterMap state.volume.table.live?)
    ∀ (directory : Path) (id : NodeId), state.volume.table.live? directory = some id →
      (state.node id).isDirectory = true → directory.getLast? ≠ some '/' →
      (∀ key, (∃ held, (key, held) ∈ state.volume.below directory) ↔
          state.volume.Inside state.heap directory key) ∧
        (∀ (list : Call) (path : Path), list.Lists path →
          state.volume.HoldsDirectory state.heap path →
            list.answer state = .ok (.listing (listing path))) ∧
        (∀ removal : Call, removal.Removes → removal.request.path = directory →
          (removal.answer state = .error (.fault (.notEmpty directory)) ↔
              (listing directory).nodes ≠ []) ∧
            ((listing directory).nodes = [] → removal.answer state = .ok .done ∧
              (∀ key, (state.serve removal).volume.live? key =
                if key = directory then none else state.volume.live? key) ∧
              (state.serve removal).heap = state.heap)) ∧
        ∀ (rename : Call) (reply : Reply), rename.Commands .rename →
          rename.request.path = directory → rename.answer state = .ok reply →
          rename.request.target.getLast? ≠ some '/' →
          ∀ list : Call, list.Lists rename.request.target →
            list.answer (state.serve rename) = .ok (.listing (listing directory)) := by
  intro state listing directory id hlive hkind hlast
  have h : state.volume.Enclosed state.heap := enclosed_run (enclosed_start settings) hcalls
  have hrooted : directory.Rooted := h.rooted directory id hlive
  have hholds : state.volume.HoldsDirectory state.heap directory :=
    ⟨id, by rwa [live?_of_ne_root hrooted.ne_root], hkind⟩
  refine ⟨fun key => h.below_iff_inside hrooted hlast,
    fun list path hlists hpath => (answer_lists h hlists).mpr ⟨hpath, rfl⟩, ?_, ?_⟩
  · rintro removal hremove rfl
    simp only [listing]
    rw [ne_eq, filterMap_children_eq_nil_iff, ← h.below_eq_nil_iff hrooted hlast]
    obtain ⟨above, hparent, habove⟩ := h.enclosed _ id hlive
    have hleads := h.leads_iff.mpr hparent
    unfold Leads at hleads
    have hanswer := answer_removes h.toCalm hremove hrooted.ne_root
    simp only [hleads, habove, true_and, ne_eq] at hanswer
    constructor
    · rw [hanswer]
      split
      · rename_i hfull
        simp [hfull]
      · rename_i hempty
        simp [hempty]
    · intro hempty
      rw [if_neg (not_not.mpr hempty)] at hanswer
      exact ⟨hanswer, live?_of_removes h.toSound hremove hanswer hrooted.ne_root,
        heap_of_removes h.toCalm hremove hanswer⟩
  · rintro rename reply hrename rfl hanswer hslash list hlists
    have hplain : ∀ later ∈ [rename], ¬later.Commands .symlink := by
      rintro later member ⟨-, hmethod⟩
      rw [List.mem_singleton.mp member, hrename.2] at hmethod
      cases hmethod
    have hafter : (state.serve rename).volume.Enclosed (state.serve rename).heap :=
      enclosed_run h hplain
    refine (answer_lists hafter hlists).mpr
      ⟨holdsDirectory_of_rename h hrename hanswer hholds, ?_⟩
    rw [listing_of_rename h hrename hanswer hholds hlast hslash]

/-- A file right in the inner directory of a directory. -/
def innerFile : Call :=
  ⟨.write, { method := .put, path := ['/', 'd', '/', '/', 'e', '/', 'f'] }⟩

/-- The file of the inner directory is inside the outer one in either sense, so that the
outer one is not removed; it is listed under its new key as it was listed before. -/
theorem notions_of_inside_agree_nested :
    let state := (State.start {}).run [directoryMade, innerMade, innerFile]
    let removal : Call := ⟨.command, { method := .rmdir, path := ['/', 'd'] }⟩
    let list : Call := ⟨.list, { method := .list, path := ['/', 'e'] }⟩
    state.volume.Inside state.heap ['/', 'd'] ['/', 'd', '/', '/', 'e', '/', 'f'] ∧
      removal.answer state = .error (.fault (.notEmpty ['/', 'd'])) ∧
      list.answer (state.serve directoryRenamed) = .ok (.listing ⟨[⟨2⟩]⟩) := by
  intro state removal list
  obtain ⟨hinside, -, hremoval, hrename⟩ :=
    notions_of_inside_agree {} [directoryMade, innerMade, innerFile] (by decide)
      ['/', 'd'] ⟨1⟩ (by decide +kernel) (by decide +kernel) (by decide)
  refine ⟨(hinside _).mp ⟨⟨3⟩, by decide +kernel⟩, ?_, ?_⟩
  · exact (hremoval removal (Or.inr ⟨rfl, rfl⟩) rfl).1.mpr (by decide +kernel)
  · exact hrename directoryRenamed .done ⟨rfl, rfl⟩ rfl rfl (by decide) list ⟨rfl, rfl, rfl⟩

end State

end FlatTree
