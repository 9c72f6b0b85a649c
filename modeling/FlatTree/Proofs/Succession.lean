import FlatTree.Proofs.Purpose

/-!
How an entry goes through a run. A rename gives the entries that it takes along
other keys, a removal ends the entry that it names, and no other call touches an
entry. So from the key of an entry and the calls that follow one reads off the
key that it has in the end (`State.keyAfter?`), and under that key stands the
very node that stood under the first. Different entries never come to one key;
therefore the names of a shared node stay names of it, and a node is gone only
when the last of them is removed.
-/

namespace FlatTree

namespace Path

theorem rebase_self (source target : Path) : source.rebase source target = target := by
  simp [rebase]

/-- Exchanging a front that two paths have in common keeps them apart. -/
theorem rebase_inj_of_prefix {first second source target : Path} (hfirst : source <+: first)
    (hsecond : source <+: second)
    (h : first.rebase source target = second.rebase source target) : first = second := by
  obtain ⟨rest, rfl⟩ := hfirst
  obtain ⟨more, rfl⟩ := hsecond
  simp only [rebase, List.drop_left, List.append_cancel_left_eq] at h
  rw [h]

/-- Exchanging the front of a path and then exchanging it back gives the path. -/
theorem rebase_rebase {path source : Path} (hfront : source <+: path) (target : Path) :
    (path.rebase source target).rebase target source = path := by
  obtain ⟨rest, rfl⟩ := hfront
  simp [rebase]

/-- Exchanging the front of a path for another text changes the path. -/
theorem rebase_ne {path source target : Path} (hfront : source <+: path)
    (hne : source ≠ target) : path.rebase source target ≠ path := by
  obtain ⟨rest, rfl⟩ := hfront
  simp only [rebase, List.drop_left, ne_eq, List.append_cancel_right_eq]
  exact hne.symm

theorem Under.front {path directory : Path} (h : path.Under directory) :
    directory <+: path :=
  (List.prefix_append directory ['/']).trans h

end Path

namespace Volume

/-- What a rename takes along: the entry of its source and, if that is a
directory, every entry below it. -/
def Carries (volume : Volume) (heap : Heap) (source key : Path) : Prop :=
  key = source ∨ key.Under source ∧
    (volume.live? source).any (fun id => (heap.get id).isDirectory) = true

instance (volume : Volume) (heap : Heap) (source key : Path) :
    Decidable (volume.Carries heap source key) :=
  inferInstanceAs (Decidable (_ ∨ _ ∧ _))

variable {volume : Volume} {heap : Heap} {source target key : Path} {id held : NodeId}

theorem Carries.self : volume.Carries heap source source := Or.inl rfl

theorem Carries.front (h : volume.Carries heap source key) : source <+: key := by
  rcases h with rfl | ⟨hunder, -⟩
  · exact List.prefix_rfl
  · exact hunder.front

/-- A rename of what is no directory takes along nothing else. -/
theorem carries_iff_eq (hsource : volume.live? source = some held)
    (hkind : (heap.get held).isDirectory = false) :
    volume.Carries heap source key ↔ key = source := by
  unfold Carries
  rw [hsource, Option.any_some, hkind]
  simp

/-- A rename has a move for each live entry that it takes along. -/
theorem Carries.move (h : volume.Carries heap source key) (target : Path)
    (hapart : source ≠ Path.root) (hsource : volume.live? source = some held)
    (hlive : volume.table.live? key = some id) :
    ⟨id, key, key.rebase source target⟩ ∈
      volume.moves held (heap.get held).isDirectory source target := by
  rw [mem_moves]
  rcases h with rfl | ⟨hunder, hdirectory⟩
  · left
    rw [live?_of_ne_root hapart, hlive] at hsource
    rw [Option.some.inj hsource, Path.rebase_self]
  · right
    rw [hsource] at hdirectory
    exact ⟨hdirectory, hunder, hlive, rfl⟩

/-- The moves of a rename are of entries that it takes along. -/
theorem carries_of_mem_moves (hsource : volume.live? source = some held) {move : Move}
    (member : move ∈ volume.moves held (heap.get held).isDirectory source target) :
    volume.Carries heap source move.source := by
  rcases mem_moves.mp member with rfl | ⟨hdirectory, hunder, -, -⟩
  · exact Or.inl rfl
  · refine Or.inr ⟨hunder, ?_⟩
    rw [hsource]
    exact hdirectory

/-- After a rename an entry stands under its key with the front exchanged, if it was
taken along, and under its own key otherwise. -/
theorem live?_relocate_moves (hapart : source ≠ Path.root)
    (hsource : volume.live? source = some held)
    (hclear : volume.table.Clear
      (volume.moves held (heap.get held).isDirectory source target)) :
    (volume.table.relocate
        (volume.moves held (heap.get held).isDirectory source target)).live? key = some id ↔
      (∃ other, volume.Carries heap source other ∧ volume.table.live? other = some id ∧
          other.rebase source target = key) ∨
        (volume.table.live? key = some id ∧ ¬volume.Carries heap source key) := by
  rw [Table.live?_relocate_iff hclear]
  constructor
  · rintro (⟨move, member, rfl, rfl⟩ | ⟨hlive, hstays⟩)
    · refine Or.inl ⟨move.source, carries_of_mem_moves hsource member,
        hclear.held move member, ?_⟩
      rcases mem_moves.mp member with rfl | ⟨-, -, -, htarget⟩
      · exact Path.rebase_self source target
      · exact htarget.symm
    · refine Or.inr ⟨hlive, fun hcarries => ?_⟩
      exact hstays _ (hcarries.move target hapart hsource hlive) rfl
  · rintro (⟨other, hcarries, hlive, rfl⟩ | ⟨hlive, hstays⟩)
    · exact Or.inl ⟨_, hcarries.move target hapart hsource hlive, rfl, rfl⟩
    · refine Or.inr ⟨hlive, ?_⟩
      rintro move member rfl
      exact hstays (carries_of_mem_moves hsource member)

end Volume

/-! ### The key after a call -/

/-- The key under which an entry stands after a call, if it still stands. -/
def Call.newKey? (call : Call) (state : State) (key : Path) : Option Path :=
  match call.answer state with
  | .error _ => some key
  | .ok _ =>
      if call.Commands .rename ∧ state.volume.Carries state.heap call.request.path key then
        some (key.rebase call.request.path call.request.target)
      else if call.Removes ∧ key = call.request.path then none
      else some key

namespace Call

variable {call : Call} {state : State} {key current : Path} {reply : Reply}

theorem Removes.not_commands {method : Method} (h : call.Removes) (hremove : method ≠ .remove)
    (hrmdir : method ≠ .rmdir) : ¬call.Commands method := by
  intro hcommand
  rcases h with hother | hother
  · exact hremove (hcommand.method_eq hother)
  · exact hrmdir (hcommand.method_eq hother)

theorem newKey?_of_error {refusal : Refusal} (h : call.answer state = .error refusal) :
    call.newKey? state key = some key := by
  unfold newKey?
  rw [h]

/-- A call that neither renames nor removes leaves every entry its key. -/
theorem newKey?_of_not (hrename : ¬call.Commands .rename) (hremove : ¬call.Removes) :
    call.newKey? state key = some key := by
  unfold newKey?
  split
  · rfl
  · rw [if_neg fun h => hrename h.1, if_neg fun h => hremove h.1]

theorem newKey?_rename (hanswer : call.answer state = .ok reply)
    (hcommand : call.Commands .rename) : call.newKey? state key =
      if state.volume.Carries state.heap call.request.path key then
        some (key.rebase call.request.path call.request.target)
      else some key := by
  have hremove : ¬call.Removes :=
    fun h => h.not_commands (by decide) (by decide) hcommand
  unfold newKey?
  rw [hanswer]
  simp only [hcommand, hremove, true_and, false_and, if_false]

theorem newKey?_remove (hanswer : call.answer state = .ok reply) (hremove : call.Removes) :
    call.newKey? state key = if key = call.request.path then none else some key := by
  have hrename : ¬call.Commands .rename :=
    hremove.not_commands (by decide) (by decide)
  unfold newKey?
  rw [hanswer]
  simp only [hremove, hrename, true_and, false_and, if_false]

/-- Only a removal that names the key ends an entry. -/
theorem newKey?_eq_none_iff : call.newKey? state key = none ↔
    call.Removes ∧ call.request.path = key ∧ ∃ reply, call.answer state = .ok reply := by
  constructor
  · intro h
    cases hanswer : call.answer state with
    | error refusal =>
        rw [newKey?_of_error hanswer] at h
        cases h
    | ok reply =>
        by_cases hremove : call.Removes
        · rw [newKey?_remove hanswer hremove] at h
          split at h
          · rename_i hkey
            exact ⟨hremove, hkey.symm, reply, rfl⟩
          · cases h
        · by_cases hcommand : call.Commands .rename
          · rw [newKey?_rename hanswer hcommand] at h
            split at h <;> cases h
          · rw [newKey?_of_not hcommand hremove] at h
            cases h
  · rintro ⟨hremove, rfl, reply, hanswer⟩
    rw [newKey?_remove hanswer hremove, if_pos rfl]

end Call

namespace State

variable {state : State} {call : Call} {key current : Path} {id : NodeId} {reply : Reply}
  {change : Change}

/-- A change leaves an entry where it is unless it removes or moves it. -/
theorem live?_commit_of_stays (hfits : change.Fits state.volume.table)
    (hlive : state.volume.table.live? key = some id) (hremove : change ≠ .remove key)
    (hmove : ∀ source target moves, change = .move source target moves →
      ∀ move ∈ moves, move.source ≠ key) :
    (state.commit change).volume.table.live? key = some id := by
  have hoccupied : ∀ {path}, state.volume.table.live? path = none → key ≠ path := by
    rintro path hfree rfl
    rw [hfree] at hlive
    cases hlive
  cases change with
  | keep => exact hlive
  | rewrite id node => exact hlive
  | add node record => rwa [live?_add, if_neg (hoccupied hfits)]
  | share target path id => rwa [live?_share, if_neg (hoccupied hfits)]
  | move source target moves =>
      exact (Table.live?_relocate_iff hfits).mpr (Or.inr ⟨hlive, hmove _ _ _ rfl⟩)
  | remove path =>
      rw [volume_remove, Table.live?_erase, if_neg]
      · exact hlive
      · rintro rfl
        exact hremove rfl

/-- What is known of the moves of a rename that was answered. -/
theorem served_rename (h : state.volume.Sound state.heap)
    (hanswer : call.answer state = .ok reply) (hcommand : call.Commands .rename) :
    ∃ held, call.request.path ≠ Path.root ∧
      state.volume.live? call.request.path = some held ∧
      state.volume.table.live? call.request.target = none ∧
      let moves := state.volume.moves held (state.heap.get held).isDirectory
        call.request.path call.request.target
      state.volume.table.Clear moves ∧
        (state.serve call).volume.table = state.volume.table.relocate moves := by
  obtain ⟨change, hmakes, hpermitted, hvolume, -⟩ := served_of_answer_ok h.toCalm hanswer
  obtain ⟨moves, rfl⟩ := hmakes.of_rename hcommand
  have hclear := hpermitted.fits
  cases hpermitted with
  | move apart held outside parent free =>
      have hfirst := free _ (Volume.mem_moves.mpr (Or.inl rfl))
      exact ⟨_, apart, held, Volume.table_free hfirst, hclear, by rw [hvolume]; rfl⟩

theorem served_removes (h : state.volume.Sound state.heap)
    (hanswer : call.answer state = .ok reply) (hremove : call.Removes) :
    (state.serve call).volume.table = state.volume.table.erase call.request.path := by
  obtain ⟨change, hmakes, -, hvolume, -⟩ := served_of_answer_ok h.toCalm hanswer
  rw [hmakes.of_removes hremove] at hvolume
  rw [hvolume, volume_remove]

/-- What a call does to the entries. A rename that is answered exchanges the keys of
those that it takes along, a removal takes out the one that it names, and any other
call leaves every entry where it is. -/
theorem newKey?_cases (h : state.volume.Sound state.heap) (call : Call) :
    (∃ held, call.request.path ≠ Path.root ∧
        state.volume.live? call.request.path = some held ∧
        (∀ key, call.newKey? state key =
          if state.volume.Carries state.heap call.request.path key then
            some (key.rebase call.request.path call.request.target)
          else some key) ∧
        let moves := state.volume.moves held (state.heap.get held).isDirectory
          call.request.path call.request.target
        state.volume.table.Clear moves ∧
          (state.serve call).volume.table = state.volume.table.relocate moves) ∨
      ((state.serve call).volume.table = state.volume.table.erase call.request.path ∧
        ∀ key, call.newKey? state key = if key = call.request.path then none else some key) ∨
      ((∀ key id, state.volume.table.live? key = some id →
          (state.serve call).volume.table.live? key = some id) ∧
        ∀ key, call.newKey? state key = some key) := by
  cases hanswer : call.answer state with
  | error refusal =>
      refine Or.inr (Or.inr ⟨fun key id hlive => ?_, fun key => Call.newKey?_of_error hanswer⟩)
      rw [(served_of_answer_error h.toCalm hanswer).1]
      exact hlive
  | ok reply =>
      by_cases hrename : call.Commands .rename
      · obtain ⟨held, hapart, hheld, -, hmoves⟩ := served_rename h hanswer hrename
        exact Or.inl ⟨held, hapart, hheld,
          fun key => Call.newKey?_rename hanswer hrename, hmoves⟩
      · by_cases hremove : call.Removes
        · exact Or.inr (Or.inl ⟨served_removes h hanswer hremove,
            fun key => Call.newKey?_remove hanswer hremove⟩)
        · obtain ⟨change, hmakes, hpermitted, hvolume, -⟩ :=
            served_of_answer_ok h.toCalm hanswer
          refine Or.inr (Or.inr ⟨fun key id hlive => ?_,
            fun key => Call.newKey?_of_not hrename hremove⟩)
          rw [hvolume]
          refine live?_commit_of_stays hpermitted.fits hlive ?_ ?_
          · intro hchange
            exact hremove (hmakes.removes hchange)
          · intro source target moves hchange
            exact absurd (hmakes.commands_rename hchange) hrename

/-- The node of an entry stands under the new key of the entry. -/
theorem live?_of_newKey? (h : state.volume.Sound state.heap)
    (hlive : state.volume.table.live? key = some id)
    (hkey : call.newKey? state key = some current) :
    (state.serve call).volume.table.live? current = some id := by
  rcases newKey?_cases h call with
    ⟨held, hapart, hheld, hnew, hclear, htable⟩ | ⟨htable, hnew⟩ | ⟨hstays, hnew⟩
  · rw [hnew] at hkey
    rw [htable, Volume.live?_relocate_moves hapart hheld hclear]
    split at hkey
    · rename_i hcarries
      cases hkey
      exact Or.inl ⟨key, hcarries, hlive, rfl⟩
    · rename_i hleft
      cases hkey
      exact Or.inr ⟨hlive, hleft⟩
  · rw [hnew] at hkey
    rw [htable, Table.live?_erase]
    split at hkey
    · cases hkey
    · rename_i hother
      cases hkey
      rwa [if_neg hother]
  · rw [hnew] at hkey
    cases hkey
    exact hstays key id hlive

/-- An entry that was removed or moved leaves its key free. -/
theorem free_of_newKey?_ne (h : state.volume.Sound state.heap)
    (hlive : state.volume.table.live? key = some id)
    (hkey : call.newKey? state key ≠ some key) :
    (state.serve call).volume.table.live? key = none := by
  rcases newKey?_cases h call with
    ⟨held, hapart, hheld, hnew, hclear, htable⟩ | ⟨htable, hnew⟩ | ⟨-, hnew⟩
  · rw [hnew] at hkey
    split at hkey
    · rename_i hcarries
      have hmove := hcarries.move call.request.target hapart hheld hlive
      rw [htable, Table.live?_relocate_of_notMem, if_pos]
      · exact List.mem_map.mpr ⟨_, hmove, rfl⟩
      · -- The targets of the moves were free, and the key was not.
        intro member
        obtain ⟨move, hother, rfl⟩ := List.mem_map.mp member
        rw [hclear.free move hother] at hlive
        cases hlive
    · exact absurd rfl hkey
  · rw [hnew] at hkey
    rw [htable, Table.live?_erase]
    split at hkey
    · rename_i hsame
      rw [if_pos hsame]
    · exact absurd rfl hkey
  · exact absurd (hnew key) hkey

/-- No call brings two entries to one key. -/
theorem newKey?_injective (h : state.volume.Sound state.heap) {first second : Path}
    {held : NodeId} (hfirst : state.volume.table.live? first = some id)
    (hsecond : state.volume.table.live? second = some held)
    (hkey : call.newKey? state first = some current)
    (hsame : call.newKey? state second = some current) : first = second := by
  rcases newKey?_cases h call with
    ⟨source, hapart, hheld, hnew, hclear, -⟩ | ⟨-, hnew⟩ | ⟨-, hnew⟩
  · -- The targets of the moves were free, so no entry that stays is one of them.
    have hclash : ∀ {path other : Path} {node stay : NodeId},
        state.volume.Carries state.heap call.request.path path →
          state.volume.table.live? path = some node →
            state.volume.table.live? other = some stay →
              path.rebase call.request.path call.request.target ≠ other := by
      rintro path other node stay hcarries hpath hother rfl
      have hfree := hclear.free _ (hcarries.move _ hapart hheld hpath)
      rw [hother] at hfree
      cases hfree
    rw [hnew] at hkey hsame
    split at hkey <;> rename_i hone <;> split at hsame <;> rename_i htwo <;> cases hkey
    · exact Path.rebase_inj_of_prefix hone.front htwo.front (Option.some.inj hsame).symm
    · exact absurd (Option.some.inj hsame).symm (hclash hone hfirst hsecond)
    · exact absurd (Option.some.inj hsame) (hclash htwo hsecond hfirst)
    · exact (Option.some.inj hsame).symm
  · rw [hnew] at hkey hsame
    split at hkey
    · cases hkey
    · split at hsame
      · cases hsame
      · exact Option.some.inj (hkey.trans hsame.symm)
  · rw [hnew] at hkey hsame
    exact Option.some.inj (hkey.trans hsame.symm)

/-! ### The key after a run -/

/-- The key under which an entry stands after a run, if it still stands. -/
def keyAfter? (state : State) : List Call → Path → Option Path
  | [], key => some key
  | call :: rest, key => (call.newKey? state key).bind ((state.serve call).keyAfter? rest)

/-- Calls that neither rename nor remove leave every entry its key. -/
theorem keyAfter?_of_not {calls : List Call}
    (h : ∀ call ∈ calls, ¬call.Commands .rename ∧ ¬call.Removes) :
    state.keyAfter? calls key = some key := by
  induction calls generalizing state with
  | nil => rfl
  | cons call rest ih =>
      obtain ⟨hrename, hremove⟩ := h call List.mem_cons_self
      simp only [keyAfter?, Call.newKey?_of_not hrename hremove, Option.bind_some]
      exact ih fun other member => h other (List.mem_cons_of_mem call member)

theorem sound_serve (h : state.volume.Sound state.heap) (call : Call) :
    (state.serve call).volume.Sound (state.serve call).heap :=
  (sound_run h [call]).1

/-- The node of an entry stands at every later time under the key that the entry
then has. -/
theorem live?_keyAfter? (h : state.volume.Sound state.heap) {calls : List Call}
    (hlive : state.volume.table.live? key = some id)
    (hkey : state.keyAfter? calls key = some current) :
    (state.run calls).volume.table.live? current = some id := by
  induction calls generalizing state key with
  | nil =>
      cases hkey
      exact hlive
  | cons call rest ih =>
      obtain ⟨between, hbetween, hrest⟩ := Option.bind_eq_some_iff.mp hkey
      exact ih (sound_serve h call) (live?_of_newKey? h hlive hbetween) hrest

/-- No run brings two entries to one key. -/
theorem keyAfter?_injective (h : state.volume.Sound state.heap) {calls : List Call}
    {first second : Path} {held : NodeId}
    (hfirst : state.volume.table.live? first = some id)
    (hsecond : state.volume.table.live? second = some held)
    (hkey : state.keyAfter? calls first = some current)
    (hsame : state.keyAfter? calls second = some current) : first = second := by
  induction calls generalizing state first second with
  | nil => exact Option.some.inj (hkey.trans hsame.symm)
  | cons call rest ih =>
      obtain ⟨one, hone, hfirst'⟩ := Option.bind_eq_some_iff.mp hkey
      obtain ⟨two, htwo, hsecond'⟩ := Option.bind_eq_some_iff.mp hsame
      have hmet : one = two := ih (sound_serve h call) (live?_of_newKey? h hfirst hone)
        (live?_of_newKey? h hsecond htwo) hfirst' hsecond'
      subst hmet
      exact newKey?_injective h hfirst hsecond hone htwo

/-- An entry is gone after a run just if one of the calls was an answered removal
that named the key which the entry then had. -/
theorem keyAfter?_eq_none_iff {calls : List Call} :
    state.keyAfter? calls key = none ↔
      ∃ earlier removal later current, calls = earlier ++ removal :: later ∧
        state.keyAfter? earlier key = some current ∧ removal.Removes ∧
        removal.request.path = current ∧
        ∃ reply, removal.answer (state.run earlier) = .ok reply := by
  induction calls generalizing state key with
  | nil =>
      constructor
      · intro h
        cases h
      · rintro ⟨earlier, removal, later, -, hsplit, -⟩
        simp at hsplit
  | cons call rest ih =>
      constructor
      · intro h
        cases hnew : call.newKey? state key with
        | none =>
            obtain ⟨hremove, hpath, hanswer⟩ := Call.newKey?_eq_none_iff.mp hnew
            exact ⟨[], call, rest, key, rfl, rfl, hremove, hpath, hanswer⟩
        | some between =>
            simp only [keyAfter?, hnew, Option.bind_some] at h
            obtain ⟨earlier, removal, later, current, rfl, hkey, hremove, hpath, hanswer⟩ :=
              ih.mp h
            refine ⟨call :: earlier, removal, later, current, rfl, ?_, hremove, hpath, hanswer⟩
            simp only [keyAfter?, hnew, Option.bind_some, hkey]
      · rintro ⟨earlier, removal, later, current, hsplit, hkey, hremove, hpath, hanswer⟩
        cases earlier with
        | nil =>
            cases hsplit
            cases hkey
            have hnone : call.newKey? state key = none :=
              Call.newKey?_eq_none_iff.mpr ⟨hremove, hpath, hanswer⟩
            simp only [keyAfter?, hnone, Option.bind_none]
        | cons first earlier =>
            cases hsplit
            obtain ⟨between, hnew, hrest⟩ := Option.bind_eq_some_iff.mp hkey
            simp only [keyAfter?, hnew, Option.bind_some]
            exact ih.mpr ⟨earlier, removal, later, current, rfl, hrest, hremove, hpath, hanswer⟩

end State

/-! ### Making entries and sharing nodes -/

/-- The key under which a call, if it is answered, puts a node. -/
inductive Call.Puts (call : Call) (state : State) : Path → Prop
  | file (writes : call.Writes) (free : state.volume.live? call.request.path = none) :
      Puts call state call.request.path
  | directory (commands : call.Commands .mkdir) : Puts call state call.request.path
  | share (commands : call.Commands .link) : Puts call state call.request.target
  | link (commands : call.Commands .symlink) : Puts call state call.request.target

/-- Two different keys hold one node. -/
structure State.Aliases (state : State) (id : NodeId) (first second : Path) : Prop where
  apart : first ≠ second
  first : state.volume.table.live? first = some id
  second : state.volume.table.live? second = some id

theorem Call.Writes.not_commands {call : Call} {method : Method} (h : call.Writes) :
    ¬call.Commands method := by
  rintro ⟨hservice, -⟩
  rcases h with hwrite | hopen
  · cases hservice.symm.trans hwrite
  · cases hservice.symm.trans hopen

/-- The path of a new node was free. -/
theorem Change.Permitted.free_of_add {volume : Volume} {heap : Heap} {change : Change}
    (h : change.Permitted volume heap) {node : Node} {record : Record}
    (hchange : change = .add node record) : volume.live? node.path = none := by
  cases h with
  | file free held directory =>
      cases hchange
      exact free
  | directory parent free =>
      cases hchange
      exact free
  | link leads free parent =>
      cases hchange
      exact free
  | _ => cases hchange

namespace State

variable {state : State} {call : Call} {key current first second : Path} {id : NodeId}
  {reply : Reply} {change : Change}

/-- A call that puts a node under a key makes a new node of that path, or as a hard link
shares the node that its path leads to. -/
theorem change_of_puts (hmakes : call.Makes state.volume state.heap reply change)
    (hputs : call.Puts state key) :
    (¬call.Commands .link ∧ (call.Writes → reply = .node ⟨state.heap.size⟩) ∧
        ∃ node record, change = .add node record ∧ node.path = key) ∨
      (call.Commands .link ∧ ∃ id, change = .share key call.request.path id) := by
  cases hputs with
  | file writes free =>
      left
      have hmade : reply = .node ⟨state.heap.size⟩ ∧
          change = .add { path := call.request.path } (.fileCreated call.request.path) := by
        unfold Call.Makes at hmakes
        rcases writes with hservice | hservice <;>
          · rw [hservice] at hmakes
            rcases hmakes with ⟨hheld, -⟩ | hmade
            · exact absurd free hheld
            · exact hmade
      exact ⟨writes.not_commands, fun _ => hmade.1, _, _, hmade.2, rfl⟩
  | directory commands =>
      left
      have hchange := hmakes.enacts commands
      simp only [Request.Enacts, commands.2] at hchange
      refine ⟨fun hlink => ?_, fun hwrites => absurd commands hwrites.not_commands, _, _,
        hchange, rfl⟩
      cases hlink.method_eq commands
  | share commands => exact Or.inr ⟨commands, hmakes.of_link commands⟩
  | link commands =>
      left
      have hchange := hmakes.enacts commands
      simp only [Request.Enacts, commands.2] at hchange
      refine ⟨fun hlink => ?_, fun hwrites => absurd commands hwrites.not_commands, _, _,
        hchange, rfl⟩
      cases hlink.method_eq commands

/-- A call that puts a node under a key has found the key free. The node is new,
but for a hard link, which takes the node that its path leads to. -/
theorem served_puts (h : state.volume.Sound state.heap)
    (hanswer : call.answer state = .ok reply) (hputs : call.Puts state key) :
    state.volume.live? key = none ∧
      ∃ id, (state.serve call).volume.table.live? key = some id ∧
        (call.Commands .link → state.volume.Leads state.heap call.request.path id) ∧
        (¬call.Commands .link → id = ⟨state.heap.size⟩) ∧
        (call.Writes → reply = .node id) := by
  obtain ⟨change, hmakes, hpermitted, hvolume, -⟩ := served_of_answer_ok h.toCalm hanswer
  rcases change_of_puts hmakes hputs with
    ⟨hlink, hreply, node, record, rfl, rfl⟩ | ⟨hlink, id, rfl⟩
  · refine ⟨hpermitted.free_of_add rfl, _, ?_, fun hother => absurd hother hlink, fun _ => rfl,
      hreply⟩
    rw [hvolume, live?_add, if_pos rfl]
  · cases hpermitted with
    | share leads plain free parent =>
        refine ⟨free, id, ?_, fun _ => leads, fun hother => absurd hlink hother,
          fun hwrites => absurd hlink hwrites.not_commands⟩
        rw [hvolume, live?_share, if_pos rfl]

namespace Aliases

variable (h : state.Aliases id first second)

include h

/-- Names of one node stay names of it under the keys that they come to have. -/
theorem keyAfter? (hsound : state.volume.Sound state.heap) {calls : List Call}
    {first' second' : Path} (hfirst : state.keyAfter? calls first = some first')
    (hsecond : state.keyAfter? calls second = some second') :
    (state.run calls).Aliases id first' second' := by
  refine ⟨?_, live?_keyAfter? hsound h.first hfirst, live?_keyAfter? hsound h.second hsecond⟩
  rintro rfl
  exact h.apart (keyAfter?_injective hsound h.first h.second hfirst hsecond)

/-- A node of two names is no directory. -/
theorem isDirectory_eq_false (hsound : state.volume.Sound state.heap) :
    (state.heap.get id).isDirectory = false := by
  by_contra hdirectory
  have hkind : (state.heap.get id).isFile = false := by
    rw [Bool.not_eq_false] at hdirectory
    simp [Node.isFile, hdirectory]
  have hfirst := hsound.ownPath first id h.first hkind
  exact h.apart (hfirst.symm.trans (hsound.ownPath second id h.second hkind))

/-- Removing one name leaves the other. -/
theorem removed (hsound : state.volume.Sound state.heap) (hremove : call.Removes)
    (hpath : call.request.path = first) (hanswer : call.answer state = .ok reply) :
    (state.serve call).volume.table.live? first = none ∧
      (state.serve call).volume.table.live? second = some id := by
  constructor
  · rw [served_removes hsound hanswer hremove, Table.live?_erase, if_pos hpath.symm]
  · rw [served_removes hsound hanswer hremove, Table.live?_erase, hpath, if_neg h.apart.symm]
    exact h.second

/-- Renaming one name leaves the other. -/
theorem renamed (hsound : state.volume.Sound state.heap) (hrename : call.Commands .rename)
    (hpath : call.request.path = first) (hanswer : call.answer state = .ok reply) :
    (state.serve call).volume.table.live? first = none ∧
      (state.serve call).Aliases id call.request.target second := by
  subst hpath
  obtain ⟨held, hapart, hheld, hfree, -⟩ := served_rename hsound hanswer hrename
  have hmoved : call.newKey? state call.request.path = some call.request.target := by
    rw [Call.newKey?_rename hanswer hrename, if_pos Volume.Carries.self, Path.rebase_self]
  have hstays : call.newKey? state second = some second := by
    have hkind := h.isDirectory_eq_false hsound
    rw [Volume.live?_of_ne_root hapart, h.first] at hheld
    cases hheld
    rw [Call.newKey?_rename hanswer hrename, if_neg]
    rw [Volume.carries_iff_eq ((Volume.live?_of_ne_root hapart).trans h.first) hkind]
    exact h.apart.symm
  refine ⟨free_of_newKey?_ne hsound h.first ?_, ?_, live?_of_newKey? hsound h.first hmoved,
    live?_of_newKey? hsound h.second hstays⟩
  · intro hsame
    rw [hmoved, Option.some.injEq] at hsame
    rw [hsame, h.first] at hfree
    cases hfree
  · rintro hmet
    rw [hmet, h.second] at hfree
    cases hfree

end Aliases

/-- What becomes of the entries after every run from an empty store. A call that
puts a node under a key has found the key free, and the node stands at every
later time under the key that the entry then has. The entry ends with the answered
removal that names its key, and with nothing else. A hard link makes its target and
every name of the node it leads to names of one node; they stay so under the keys
that they come to have, and when one is removed or renamed, the other stays. A node
without a name left has lost its only name to a removal. -/
theorem succession_kept (settings : Settings) (earlier later : List Call) (call : Call) :
    let before := (State.start settings).run earlier
    let made := before.serve call
    let after := made.run later
    (∀ reply key, call.answer before = .ok reply → call.Puts before key →
        before.volume.live? key = none ∧
          ∃ id, made.volume.table.live? key = some id ∧
            (call.Commands .link → before.volume.Leads before.heap call.request.path id) ∧
            (¬call.Commands .link → id = ⟨before.heap.size⟩) ∧
            (call.Writes → reply = .node id) ∧
            ∀ current, made.keyAfter? later key = some current →
              after.volume.table.live? current = some id) ∧
      (∀ key, made.keyAfter? later key = none ↔
        ∃ first removal rest current, later = first ++ removal :: rest ∧
          made.keyAfter? first key = some current ∧ removal.Removes ∧
          removal.request.path = current ∧
          ∃ reply, removal.answer (made.run first) = .ok reply) ∧
      (∀ reply, call.answer before = .ok reply → call.Commands .link →
        ∃ id, before.volume.Leads before.heap call.request.path id ∧
          ∀ name, before.volume.table.live? name = some id →
            made.Aliases id name call.request.target) ∧
      (∀ id first second, made.Aliases id first second →
        ((∀ other ∈ later, ¬other.Commands .rename ∧ ¬other.Removes) →
          after.Aliases id first second) ∧
        ∀ first' second', made.keyAfter? later first = some first' →
          made.keyAfter? later second = some second' → after.Aliases id first' second') ∧
      (∀ id second reply, before.Aliases id call.request.path second →
        call.answer before = .ok reply →
        (call.Removes → made.volume.table.live? call.request.path = none ∧
          made.volume.table.live? second = some id) ∧
        (call.Commands .rename → made.volume.table.live? call.request.path = none ∧
          made.Aliases id call.request.target second)) ∧
      (∀ id name, before.volume.table.live? name = some id →
        (∀ other, made.volume.table.live? other ≠ some id) →
          call.Removes ∧ call.request.path = name ∧
            (∃ reply, call.answer before = .ok reply) ∧
            ∀ other, before.volume.table.live? other = some id → other = name) := by
  intro before made after
  have hbefore : before.volume.Sound before.heap := (sound_run (sound_start settings) earlier).1
  have hmade : made.volume.Sound made.heap := sound_serve hbefore call
  refine ⟨?_, fun key => keyAfter?_eq_none_iff, ?_, ?_, ?_, ?_⟩
  · intro reply key hanswer hputs
    obtain ⟨hfree, id, hlive, hlink, hnew, hwrites⟩ := served_puts hbefore hanswer hputs
    exact ⟨hfree, id, hlive, hlink, hnew, hwrites,
      fun current hkey => live?_keyAfter? hmade hlive hkey⟩
  · intro reply hanswer hlink
    obtain ⟨hfree, id, hlive, hleads, -⟩ := served_puts hbefore hanswer (.share hlink)
    refine ⟨id, hleads hlink, fun name hname => ⟨?_, ?_, hlive⟩⟩
    · rintro rfl
      rw [Volume.table_free hfree] at hname
      cases hname
    · apply live?_of_newKey? hbefore hname
      refine Call.newKey?_of_not ?_ ?_
      · intro hrename
        cases hlink.method_eq hrename
      · intro hremove
        exact hremove.not_commands (by decide) (by decide) hlink
  · intro id first second haliases
    refine ⟨fun hcalm => ?_, fun first' second' => haliases.keyAfter? hmade⟩
    exact haliases.keyAfter? hmade (keyAfter?_of_not hcalm) (keyAfter?_of_not hcalm)
  · intro id second reply haliases hanswer
    exact ⟨fun hremove => haliases.removed hbefore hremove rfl hanswer,
      fun hrename => haliases.renamed hbefore hrename rfl hanswer⟩
  · intro id name hname hgone
    have hnone : ∀ other, before.volume.table.live? other = some id →
        call.newKey? before other = none := by
      intro other hother
      cases hkey : call.newKey? before other with
      | none => rfl
      | some current => exact absurd (live?_of_newKey? hbefore hother hkey) (hgone current)
    obtain ⟨hremove, hpath, hanswer⟩ := Call.newKey?_eq_none_iff.mp (hnone name hname)
    refine ⟨hremove, hpath, hanswer, fun other hother => ?_⟩
    exact (Call.newKey?_eq_none_iff.mp (hnone other hother)).2.1.symm.trans hpath

def fileMade : Call := ⟨.write, { method := .put, path := ['/', 'a'] }⟩

/-- A second name for the file, in a directory. -/
def fileLinked : Call :=
  ⟨.command, { method := .link, path := ['/', 'a'], target := ['/', 'd', '/', 'b'] }⟩

def firstNameRemoved : Call := ⟨.command, { method := .remove, path := ['/', 'a'] }⟩

def secondNameRemoved : Call :=
  ⟨.command, { method := .rmdir, path := ['/', 'e', '/', 'b'] }⟩

/-- The second name goes with its directory, stays when the first is removed, and
was then the only name of the file. -/
theorem succession_of_linked_file :
    let linked := (State.start {}).run [fileMade, directoryMade, fileLinked]
    let renamed := linked.run [directoryRenamed]
    let removed := (State.start {}).run
      [fileMade, directoryMade, fileLinked, directoryRenamed, firstNameRemoved]
    linked.Aliases ⟨1⟩ ['/', 'a'] ['/', 'd', '/', 'b'] ∧
      renamed.Aliases ⟨1⟩ ['/', 'a'] ['/', 'e', '/', 'b'] ∧
      removed.volume.table.live? ['/', 'e', '/', 'b'] = some ⟨1⟩ ∧
      ∀ other, removed.volume.table.live? other = some ⟨1⟩ → other = ['/', 'e', '/', 'b'] := by
  intro linked renamed removed
  obtain ⟨-, -, hshares, hstays, -, -⟩ :=
    succession_kept {} [fileMade, directoryMade] [directoryRenamed] fileLinked
  obtain ⟨-, -, -, -, hloses, -⟩ := succession_kept {}
    [fileMade, directoryMade, fileLinked, directoryRenamed] [] firstNameRemoved
  obtain ⟨-, -, -, -, -, hends⟩ := succession_kept {}
    [fileMade, directoryMade, fileLinked, directoryRenamed, firstNameRemoved] []
    secondNameRemoved
  have hnamed : linked.Aliases ⟨1⟩ ['/', 'a'] ['/', 'd', '/', 'b'] := by
    obtain ⟨id, hleads, hnames⟩ := hshares .done rfl ⟨rfl, rfl⟩
    have hid : id = ⟨1⟩ := by
      have hfound : ((State.start {}).run [fileMade, directoryMade]).volume.Leads
          ((State.start {}).run [fileMade, directoryMade]).heap ['/', 'a'] ⟨1⟩ := by
        unfold Volume.Leads
        decide +kernel
      have hsame := hleads.symm.trans hfound
      injection hsame
    subst hid
    exact hnames ['/', 'a'] (by decide +kernel)
  have hmoved : renamed.Aliases ⟨1⟩ ['/', 'a'] ['/', 'e', '/', 'b'] :=
    (hstays _ _ _ hnamed).2 _ _ (by decide +kernel) (by decide +kernel)
  obtain ⟨-, hleft⟩ := (hloses _ _ .done hmoved rfl).1 (Or.inl ⟨rfl, rfl⟩)
  refine ⟨hnamed, hmoved, hleft, fun other hother => ?_⟩
  refine (hends ⟨1⟩ ['/', 'e', '/', 'b'] hleft ?_).2.2.2 other hother
  intro other hother
  have hempty : ∀ entry ∈ (removed.serve secondNameRemoved).volume.table.live,
      entry.2 ≠ ⟨1⟩ := by decide +kernel
  exact hempty _ (Table.mem_live.mpr hother) rfl

end State

end FlatTree
