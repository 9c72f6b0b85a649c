import FlatTree.Proofs.Staleness
import FlatTree.Proofs.Succession

/-!
A rename as an exchange of keys. Whatever the state holds, stale paths, orphans and nodes
under several paths included, a rename is answered just when each of its checks passes
(`State.Renames`). It then takes the keys that it carries
(`Volume.carried`) to those with the front exchanged, each with its node, and leaves all
others. The new keys were free and are different from each other, so no entry is lost and
none is written over. Of the nodes it changes the path and nothing else.
-/

namespace FlatTree

namespace Volume

variable {volume : Volume} {heap : Heap} {source target key : Path} {id held : NodeId}

/-- The live keys that a rename of a source takes along: the source and, if that is a
directory, every key below it. -/
def carried (volume : Volume) (heap : Heap) (source : Path) : Set Path :=
  {key | (volume.table.live? key).isSome = true ∧ volume.Carries heap source key}

theorem carried_of_live? (hcarries : volume.Carries heap source key)
    (hlive : volume.table.live? key = some id) : key ∈ volume.carried heap source :=
  ⟨by rw [hlive]; rfl, hcarries⟩

/-- Exchanging the front keeps the carried keys apart. -/
theorem rebase_injOn_carried (volume : Volume) (heap : Heap) (source target : Path) :
    (volume.carried heap source).InjOn (·.rebase source target) :=
  fun _ hfirst _ hsecond h => Path.rebase_inj_of_prefix hfirst.2.front hsecond.2.front h

/-- A move of a rename takes its source to the key with the front exchanged. -/
theorem target_of_mem_moves {isDirectory : Bool} {move : Move}
    (member : move ∈ volume.moves id isDirectory source target) :
    move.target = move.source.rebase source target := by
  rcases mem_moves.mp member with rfl | ⟨-, -, -, htarget⟩
  · exact (Path.rebase_self source target).symm
  · exact htarget

/-- A move of a rename is that of a carried key with its node. -/
theorem carried_of_mem_moves (hapart : source ≠ Path.root)
    (hsource : volume.live? source = some held) {move : Move}
    (member : move ∈ volume.moves held (heap.get held).isDirectory source target) :
    move.source ∈ volume.carried heap source ∧
      volume.table.live? move.source = some move.id := by
  have hlive : volume.table.live? move.source = some move.id := by
    rcases mem_moves.mp member with rfl | ⟨-, -, hlive, -⟩
    · rwa [live?_of_ne_root hapart] at hsource
    · exact hlive
  exact ⟨carried_of_live? (carries_of_mem_moves hsource member) hlive, hlive⟩

end Volume

/-- A rename is planned when its checks have found what they ask for. -/
theorem Plan.outcome_rename {volume : Volume} {heap : Heap} {source target : Path}
    {moves : List Move} (h : (Change.move source target moves).Permitted volume heap) :
    ((rename source target) volume heap).outcome = .ok (.move source target moves) := by
  cases h with
  | @move _ _ id apart held outside parent free =>
      have hfree : ((requireFree target) volume heap).outcome = .ok () :=
        outcome_requireFree_eq_ok.mpr (free ⟨id, source, target⟩ (Volume.mem_moves.mpr (.inl rfl)))
      have hnone : ((volume.moves id (heap.get id).isDirectory source target).tail.find?
          fun move => volume.occupied move.target) = none := by
        rw [List.find?_eq_none]
        intro move member
        rw [Volume.occupied, free move (List.mem_of_mem_tail member)]
        simp
      unfold rename
      rw [if_neg apart]
      simp only [Query.outcome_bind_eq_ok, outcome_lookUp_eq_ok, outcome_node_eq_ok]
      refine ⟨id, held, (), hfree, _, rfl, ?_⟩
      rw [if_neg outside]
      simp only [Query.outcome_bind_eq_ok, outcome_volume_eq_ok]
      refine ⟨(), outcome_requireParent_eq_ok.mpr parent, _, rfl, _, rfl, ?_⟩
      rw [hnone]
      rfl

namespace State

/-- What a rename from the source to the target asks for. The target is free and is not
below a source that is a directory; so are the other new keys free. -/
structure Renames (state : State) (source target : Path) : Prop where
  injected : state.volume.injected = none
  apart : source ≠ Path.root
  held : (state.volume.live? source).isSome = true
  outside : ¬state.volume.Carries state.heap source target
  parent : state.volume.HasParent state.heap target
  free : ∀ key ∈ state.volume.carried state.heap source,
    state.volume.live? (key.rebase source target) = none

variable {state : State} {call : Call} {reply : Reply} {key : Path} {id : NodeId}

namespace Renames

variable {source target : Path} (h : state.Renames source target)

include h

theorem source_carried : source ∈ state.volume.carried state.heap source := by
  refine ⟨?_, .self⟩
  rw [← Volume.live?_of_ne_root h.apart]
  exact h.held

theorem target_free : state.volume.live? target = none := by
  have hfree := h.free source h.source_carried
  rwa [Path.rebase_self] at hfree

end Renames

/-- From any state, a rename is answered just when it finds what it asks for. -/
theorem answer_rename_iff (hcommand : call.Commands .rename) :
    call.answer state = .ok reply ↔
      reply = .done ∧ state.Renames call.request.path call.request.target := by
  obtain ⟨hservice, hmethod⟩ := hcommand
  constructor
  · intro hanswer
    obtain ⟨change, hinjected, hplan, -⟩ := agrees_of_answer_ok hanswer
    have hdone : reply = .done := by
      simp only [Call.plan, hservice, Query.outcome_bind_eq_ok] at hplan
      obtain ⟨_, -, hpure⟩ := hplan
      cases hpure
      rfl
    obtain ⟨moves, rfl⟩ := (Call.makes_of_plan hplan).of_rename ⟨hservice, hmethod⟩
    cases Call.permitted_of_plan hplan with
    | @move _ _ held apart hheld outside parent free =>
        rw [Volume.live?_tidy] at hheld
        simp only [Volume.moves_tidy, Volume.live?_tidy] at free
        have hfree := free _ (Volume.mem_moves.mpr (.inl rfl))
        refine ⟨hdone, hinjected, apart, by rw [hheld]; rfl, ?_,
          Volume.hasParent_tidy.mp parent, ?_⟩
        · rintro (hsame | ⟨hunder, hkind⟩)
          · rw [hsame, hheld] at hfree
            cases hfree
          · rw [hheld] at hkind
            exact outside ⟨hkind, hunder⟩
        · intro key hcarried
          obtain ⟨id, hkey⟩ := Option.isSome_iff_exists.mp hcarried.1
          exact free _ (hcarried.2.move call.request.target apart hheld hkey)
  · rintro ⟨rfl, hinjected, hapart, hsource, houtside, hparent, hfree⟩
    obtain ⟨held, hheld⟩ := Option.isSome_iff_exists.mp hsource
    have hheld' : state.volume.tidy.live? call.request.path = some held := by
      rwa [Volume.live?_tidy]
    have houtside' : ¬((state.heap.get held).isDirectory = true ∧
        call.request.target.Under call.request.path) := by
      rintro ⟨hkind, hunder⟩
      refine houtside (Or.inr ⟨hunder, ?_⟩)
      rwa [hheld]
    have hmoves : ∀ move ∈ state.volume.tidy.moves held (state.heap.get held).isDirectory
        call.request.path call.request.target, state.volume.tidy.live? move.target = none := by
      simp only [Volume.moves_tidy, Volume.live?_tidy]
      intro move member
      obtain ⟨hcarried, -⟩ := Volume.carried_of_mem_moves hapart hheld member
      rw [Volume.target_of_mem_moves member]
      exact hfree _ hcarried
    have hplan := Plan.outcome_rename
      (.move hapart hheld' houtside' (Volume.hasParent_tidy.mpr hparent) hmoves)
    rw [answer_eq call hinjected]
    simp only [Call.plan, hservice, Plan.perform, hmethod, Query.outcome_bind, hplan]
    rfl

/-- From any state, a rename that is answered relocates the live entries and the nodes by
moves that are clear of the table. -/
theorem relocates_of_rename (hcommand : call.Commands .rename)
    (hanswer : call.answer state = .ok reply) :
    ∃ held, call.request.path ≠ Path.root ∧
      state.volume.live? call.request.path = some held ∧
      let moves := state.volume.moves held (state.heap.get held).isDirectory
        call.request.path call.request.target
      state.volume.table.Clear moves ∧
        (state.serve call).volume.table.live? = (state.volume.table.relocate moves).live? ∧
        (state.serve call).heap = state.heap.relocate moves := by
  obtain ⟨change, -, hplan, hagrees⟩ := agrees_of_answer_ok hanswer
  obtain ⟨moves, rfl⟩ := (Call.makes_of_plan hplan).of_rename hcommand
  cases Call.permitted_of_plan hplan with
  | @move _ _ held apart hheld outside parent free =>
      rw [Volume.live?_tidy] at hheld
      simp only [Volume.moves_tidy, Volume.live?_tidy] at free hagrees
      refine ⟨held, apart, hheld, ?_, hagrees.live, hagrees.heap⟩
      rw [Volume.live?_of_ne_root apart] at hheld
      exact Volume.clear_moves hheld fun move member => Volume.table_free (free move member)

/-- After a rename an entry stands under its new key if its key is carried, and under its
own key otherwise. -/
theorem live?_of_rename (hcommand : call.Commands .rename)
    (hanswer : call.answer state = .ok reply) :
    (state.serve call).volume.table.live? key = some id ↔
      (∃ old ∈ state.volume.carried state.heap call.request.path,
          old.rebase call.request.path call.request.target = key ∧
            state.volume.table.live? old = some id) ∨
        (key ∉ state.volume.carried state.heap call.request.path ∧
          state.volume.table.live? key = some id) := by
  obtain ⟨held, hapart, hheld, hclear, hlive, -⟩ := relocates_of_rename hcommand hanswer
  rw [congrFun hlive key, Volume.live?_relocate_moves hapart hheld hclear]
  refine or_congr ?_ ?_
  · constructor
    · rintro ⟨old, hcarries, hold, rfl⟩
      exact ⟨old, Volume.carried_of_live? hcarries hold, rfl, hold⟩
    · rintro ⟨old, hcarried, rfl, hold⟩
      exact ⟨old, hcarried.2, hold, rfl⟩
  · constructor
    · rintro ⟨hkey, hstays⟩
      exact ⟨fun hcarried => hstays hcarried.2, hkey⟩
    · rintro ⟨hstays, hkey⟩
      exact ⟨hkey, fun hcarries => hstays (Volume.carried_of_live? hcarries hkey)⟩

/-- After a rename the new key of a carried key has its node. -/
theorem live?_newKey_iff (hcommand : call.Commands .rename)
    (hanswer : call.answer state = .ok reply)
    (hcarried : key ∈ state.volume.carried state.heap call.request.path) :
    (state.serve call).volume.table.live?
        (key.rebase call.request.path call.request.target) = some id ↔
      state.volume.table.live? key = some id := by
  obtain ⟨-, hrenames⟩ := (answer_rename_iff hcommand).mp hanswer
  rw [live?_of_rename hcommand hanswer]
  constructor
  · rintro (⟨old, hold, hsame, hlive⟩ | ⟨-, hlive⟩)
    · rwa [← Volume.rebase_injOn_carried _ _ _ _ hold hcarried hsame]
    · cases (Volume.table_free (hrenames.free key hcarried)).symm.trans hlive
  · exact fun hlive => Or.inl ⟨key, hcarried, rfl, hlive⟩

/-- After a rename the carried keys are free. -/
theorem live?_oldKey_of_rename (hcommand : call.Commands .rename)
    (hanswer : call.answer state = .ok reply)
    (hcarried : key ∈ state.volume.carried state.heap call.request.path) :
    (state.serve call).volume.table.live? key = none := by
  obtain ⟨-, hrenames⟩ := (answer_rename_iff hcommand).mp hanswer
  rw [Option.eq_none_iff_forall_ne_some]
  intro id hlive
  rcases (live?_of_rename hcommand hanswer).mp hlive with ⟨old, hold, rfl, -⟩ | ⟨hstays, -⟩
  · -- A carried key that is the new key of one would not have been free.
    have hlive := hcarried.1
    rw [Volume.table_free (hrenames.free old hold)] at hlive
    cases hlive
  · exact hstays hcarried

/-- After a rename the target has the node that the source had. -/
theorem live?_target_of_rename (hcommand : call.Commands .rename)
    (hanswer : call.answer state = .ok reply) :
    (state.serve call).volume.live? call.request.target =
      state.volume.live? call.request.path := by
  obtain ⟨-, hrenames⟩ := (answer_rename_iff hcommand).mp hanswer
  obtain ⟨held, hheld⟩ := Option.isSome_iff_exists.mp hrenames.held
  rw [hheld]
  rw [Volume.live?_of_ne_root hrenames.apart] at hheld
  have hmoved := (live?_newKey_iff hcommand hanswer hrenames.source_carried).mpr hheld
  rwa [Path.rebase_self,
    ← Volume.live?_of_ne_root (Volume.ne_root_of_free hrenames.target_free)] at hmoved

/-- A rename changes of a node its path at most. -/
theorem node_of_rename (hcommand : call.Commands .rename)
    (hanswer : call.answer state = .ok reply) (id : NodeId) :
    (state.serve call).node id =
      { state.node id with path := ((state.serve call).node id).path } := by
  obtain ⟨held, -, -, -, -, hheap⟩ := relocates_of_rename hcommand hanswer
  unfold node
  rw [hheap, Heap.get_relocate]

/-- A node with a carried key ends with the new key of one of its carried keys. -/
theorem path_of_carried (hcommand : call.Commands .rename)
    (hanswer : call.answer state = .ok reply)
    (hcarried : key ∈ state.volume.carried state.heap call.request.path)
    (hlive : state.volume.table.live? key = some id) :
    ∃ last ∈ state.volume.carried state.heap call.request.path,
      state.volume.table.live? last = some id ∧
      ((state.serve call).node id).path =
        last.rebase call.request.path call.request.target := by
  obtain ⟨held, hapart, hheld, hclear, -, hheap⟩ := relocates_of_rename hcommand hanswer
  have hmove := hcarried.2.move call.request.target hapart hheld hlive
  unfold node
  rw [hheap, Heap.get_relocate]
  rcases Heap.pathAfter_cases (state.volume.moves held (state.heap.get held).isDirectory
      call.request.path call.request.target) id (state.heap.get id).path with
    ⟨last, member, rfl, hpath⟩ | ⟨hnone, -⟩
  · have hsource := hclear.held last member
    have hcarries := Volume.carries_of_mem_moves hheld member
    refine ⟨last.source, Volume.carried_of_live? hcarries hsource, hsource, ?_⟩
    rw [← Volume.target_of_mem_moves member]
    exact hpath
  · exact absurd rfl (hnone _ hmove)

/-- A node without a carried key keeps its path. -/
theorem path_of_not_carried (hcommand : call.Commands .rename)
    (hanswer : call.answer state = .ok reply)
    (hnone : ∀ key ∈ state.volume.carried state.heap call.request.path,
      state.volume.table.live? key ≠ some id) :
    ((state.serve call).node id).path = (state.node id).path := by
  obtain ⟨held, -, hheld, hclear, -, hheap⟩ := relocates_of_rename hcommand hanswer
  unfold node
  rw [hheap, Heap.get_relocate]
  rcases Heap.pathAfter_cases (state.volume.moves held (state.heap.get held).isDirectory
      call.request.path call.request.target) id (state.heap.get id).path with
    ⟨last, member, rfl, -⟩ | ⟨-, hpath⟩
  · have hsource := hclear.held last member
    have hcarries := Volume.carries_of_mem_moves hheld member
    exact absurd hsource (hnone _ (Volume.carried_of_live? hcarries hsource))
  · exact hpath

/-- A rename is an exchange of keys, from any state. When it is answered, the live entries
are those before, but with each carried key in the place of which its front exchanged
stands, over the same node. The new keys are different from each other and were free. A
node with a carried key has the new key of one of its carried keys as its path, any other
node keeps its path, and all else of every node is as it was. -/
theorem rename_exchanges_keys (state : State) (call : Call) (reply : Reply)
    (hcommand : call.Commands .rename) (hanswer : call.answer state = .ok reply) :
    let before := state.volume.table
    let after := (state.serve call).volume.table
    let carried := state.volume.carried state.heap call.request.path
    let newKey := fun key : Path => key.rebase call.request.path call.request.target
    call.request.path ∈ carried ∧
      (∀ key id, after.live? key = some id ↔
        (∃ old ∈ carried, newKey old = key ∧ before.live? old = some id) ∨
          (key ∉ carried ∧ before.live? key = some id)) ∧
      carried.InjOn newKey ∧
      (∀ key ∈ carried, before.live? (newKey key) = none) ∧
      (∀ key ∈ carried, ∀ id, before.live? key = some id →
        ∃ last ∈ carried, before.live? last = some id ∧
          ((state.serve call).node id).path = newKey last) ∧
      (∀ id, (∀ key ∈ carried, before.live? key ≠ some id) →
        ((state.serve call).node id).path = (state.node id).path) ∧
      ∀ id, (state.serve call).node id =
        { state.node id with path := ((state.serve call).node id).path } := by
  intro before after carried newKey
  obtain ⟨held, hapart, hheld, hclear, -, -⟩ := relocates_of_rename hcommand hanswer
  have hsource : before.live? call.request.path = some held := by
    rwa [Volume.live?_of_ne_root hapart] at hheld
  refine ⟨Volume.carried_of_live? .self hsource,
    fun key id => live?_of_rename hcommand hanswer,
    state.volume.rebase_injOn_carried state.heap call.request.path call.request.target, ?_,
    fun key hcarried id => path_of_carried hcommand hanswer hcarried,
    fun id => path_of_not_carried hcommand hanswer, node_of_rename hcommand hanswer⟩
  intro key hcarried
  obtain ⟨id, hkey⟩ := Option.isSome_iff_exists.mp hcarried.1
  exact hclear.free _ (hcarried.2.move call.request.target hapart hheld hkey)

/-- A store with a file under two paths, one of them in a directory, and with a stale path
where the directory is going to be. -/
def staleDestination : State :=
  ((State.start {}).run [fileMade, directoryMade, fileLinked]).changeTable
    (·.insert ['/', 'e', '/', 'b'] none)

/-- The file comes to stand under the path that was stale and has it as its own, stays
under its path outside the directory, and the root keeps its path. -/
theorem stale_destination_exchanged :
    let after := staleDestination.serve directoryRenamed
    directoryRenamed.Commands .rename ∧
      directoryRenamed.answer staleDestination = .ok .done ∧
      staleDestination.volume.table.Stale ['/', 'e', '/', 'b'] ∧
      after.volume.table.live? ['/', 'e', '/', 'b'] = some ⟨1⟩ ∧
      after.volume.table.live? ['/', 'd', '/', 'b'] = none ∧
      after.volume.table.live? ['/', 'a'] = some ⟨1⟩ ∧
      (after.node ⟨1⟩).path = ['/', 'e', '/', 'b'] ∧
      (after.node ⟨0⟩).path = Path.root := by
  intro after
  have hcommand : directoryRenamed.Commands .rename := ⟨rfl, rfl⟩
  have hanswer : directoryRenamed.answer staleDestination = .ok .done := rfl
  obtain ⟨-, hentries, -, -, hmoved, hkept, -⟩ :=
    rename_exchanges_keys staleDestination directoryRenamed .done hcommand hanswer
  have hinside : ['/', 'd', '/', 'b'] ∈ staleDestination.volume.carried
      staleDestination.heap directoryRenamed.request.path :=
    ⟨by decide +kernel, by decide +kernel⟩
  have houtside : ['/', 'a'] ∉ staleDestination.volume.carried
      staleDestination.heap directoryRenamed.request.path := by
    rintro ⟨-, hcarries⟩
    revert hcarries
    decide +kernel
  have hstale : staleDestination.volume.table.Stale ['/', 'e', '/', 'b'] := by
    unfold Table.Stale
    decide +kernel
  have hends : (after.node ⟨1⟩).path = ['/', 'e', '/', 'b'] := by
    obtain ⟨last, hlast, hnamed, hpath⟩ := hmoved _ hinside ⟨1⟩ (by decide +kernel)
    rw [hpath]
    have hnames : ∀ entry ∈ staleDestination.volume.table.live, entry.2 = ⟨1⟩ →
        entry.1 = ['/', 'a'] ∨ entry.1 = ['/', 'd', '/', 'b'] := by decide +kernel
    rcases hnames _ (Table.mem_live.mpr hnamed) rfl with rfl | rfl
    · exact absurd hlast houtside
    · rfl
  have hroot : (after.node ⟨0⟩).path = Path.root := by
    refine (hkept ⟨0⟩ fun key _ hkey => ?_).trans (by decide +kernel)
    have hnames : ∀ entry ∈ staleDestination.volume.table.live, entry.2 ≠ ⟨0⟩ := by
      decide +kernel
    exact hnames _ (Table.mem_live.mpr hkey) rfl
  exact ⟨hcommand, hanswer, hstale,
    (hentries _ _).mpr (Or.inl ⟨_, hinside, by decide, by decide +kernel⟩), by decide +kernel,
    (hentries _ _).mpr (Or.inr ⟨houtside, by decide +kernel⟩), hends, hroot⟩

end State

end FlatTree
