import FlatTree.Proofs.Stranding

/-!
The parent of the target of a rename. A rename asks that it leads to a directory, but
it asks before anything moves, while what moves may be what the parent leads through.
That a directory is not moved into itself is checked by the text of the target alone.
So a parent that is a directory itself stays one, and a parent that is a link leads on
just when no path that the search for it looks up is moved.
-/

namespace FlatTree

namespace Volume

variable {volume : Volume} {heap : Heap} {hops : Nat} {path stop : Path} {id held : NodeId}

/-- Every path on the way to a node holds a link, but for the last, which holds the node. -/
theorem isLink_of_mem_trail (hfound : (volume.search heap hops path).resolution = .found id)
    (member : stop ∈ (volume.search heap hops path).trail)
    (hlive : volume.live? stop = some held) : (heap.get held).isLink = true ∨ held = id := by
  revert hfound member
  refine volume.search_induction heap (motive := fun _ _ search =>
    search.resolution = .found id → stop ∈ search.trail →
      (heap.get held).isLink = true ∨ held = id) ?_ ?_ ?_ ?_ hops path
  · intro _ path _ hfound
    cases hfound
  · intro _ path last hlast _ hfound member
    cases hfound
    rw [List.mem_singleton.mp member, hlast] at hlive
    exact Or.inr (Option.some.inj hlive).symm
  · intro path last _ _ hfound
    cases hfound
  · intro hops path link hlink hkind ih hfound member
    rcases List.mem_cons.mp member with rfl | later
    · rw [hlink] at hlive
      cases hlive
      exact Or.inl hkind
    · exact ih hfound later

/-- A path has no parent if its parent leads nowhere. -/
theorem not_hasParent_of_missing
    (h : (volume.resolve heap path.parent).resolution = .missing stop) :
    ¬volume.HasParent heap path := by
  rintro ⟨found, hfound, -⟩
  cases h.symm.trans hfound

end Volume

namespace State

variable {state : State} {call : Call} {key stop : Path} {id directory : NodeId} {reply : Reply}

open Volume

/-- A rename removes nothing, so what it displaces is what it takes along. -/
theorem displaces_rename_iff (hrename : call.Commands .rename) :
    call.Displaces state key ↔ state.volume.Carries state.heap call.request.path key := by
  have hremove : ¬call.Removes :=
    fun hremove => hremove.not_commands (by decide) (by decide) hrename
  unfold Call.Displaces
  simp only [hremove, hrename, false_and, true_and, false_or]

/-- What was found of source and target when a rename was answered. -/
theorem checked_rename (h : state.volume.Calm) (hanswer : call.answer state = .ok reply)
    (hrename : call.Commands .rename) :
    ∃ held, state.volume.live? call.request.path = some held ∧
      state.volume.live? call.request.target = none ∧
      ¬((state.node held).isDirectory = true ∧
        call.request.target.Under call.request.path) ∧
      state.volume.HasParent state.heap call.request.target := by
  obtain ⟨change, hmakes, hpermitted, -⟩ := served_of_answer_ok h hanswer
  obtain ⟨moves, rfl⟩ := hmakes.of_rename hrename
  cases hpermitted with
  | move apart held outside parent free =>
      exact ⟨_, held, free _ (mem_moves.mpr (Or.inl rfl)), outside, parent⟩

/-- A rename takes along no directory that is right above its target: it would have to
take it along with all that is in it, and the text of the target would show that. -/
theorem not_carries_parent (h : state.volume.Sound state.heap)
    (hanswer : call.answer state = .ok reply) (hrename : call.Commands .rename)
    (hholds : state.volume.HoldsDirectory state.heap call.request.target.parent) :
    ¬state.volume.Carries state.heap call.request.path call.request.target.parent := by
  intro hcarries
  obtain ⟨held, hheld, -, houtside, -⟩ := checked_rename h.toCalm hanswer hrename
  have hroot : call.request.target.parent ≠ Path.root := by
    intro hroot
    rw [hroot] at hcarries
    exact not_displaces_root h hanswer ((displaces_rename_iff hrename).mpr hcarries)
  have hrooted : call.request.target.parent.Rooted := by
    obtain ⟨above, habove, -⟩ := hholds
    exact (h.live?_rooted habove).resolve_left hroot
  obtain ⟨hunder, moved, hmoved, hkind⟩ := hcarries.of_parent hholds hrooted
  rw [hheld] at hmoved
  cases hmoved
  exact houtside ⟨hkind, hunder⟩

/-- The move of a regular file takes nothing away from a path that leads to a directory. -/
theorem not_carries_of_isFile (hleads : state.volume.Leads state.heap key directory)
    (hkind : (state.node directory).isDirectory = true)
    (hlive : state.volume.live? call.request.path = some id)
    (hfile : (state.node id).isFile = true)
    (member : stop ∈ (state.volume.resolve state.heap key).trail) :
    ¬state.volume.Carries state.heap call.request.path stop := by
  unfold node at hfile hkind
  simp only [Node.isFile, Bool.and_eq_true, Bool.not_eq_true'] at hfile
  rintro (rfl | ⟨-, hdirectory⟩)
  · rcases isLink_of_mem_trail hleads member hlive with hlink | rfl
    · rw [hfile.2] at hlink
      cases hlink
    · rw [hfile.1] at hkind
      cases hkind
  · rw [hlive, Option.any_some, hfile.1] at hdirectory
    cases hdirectory

/-- What becomes of the parent of the target when a rename is answered. The parent led
to a directory. It leads to that directory still if the rename takes along no path that
the search for it looked up. Otherwise it leads nowhere, and what was moved is not found
when it is to be removed. The first is always so when a regular file is moved or when
the parent is a directory itself, as it is in every run without commands for symbolic
links. -/
theorem destination_kept_unless_carried (settings : Settings) (calls : List Call)
    (call : Call) :
    let before := (State.start settings).run calls
    let after := before.serve call
    let target := call.request.target
    let trail := (before.volume.resolve before.heap target.parent).trail
    let carries := before.volume.Carries before.heap call.request.path
    ∀ reply : Reply, call.Commands .rename → call.answer before = .ok reply →
      ∃ directory, before.volume.Leads before.heap target.parent directory ∧
        (before.node directory).isDirectory = true ∧
        ((∀ stop ∈ trail, ¬carries stop) →
          after.volume.Leads after.heap target.parent directory ∧
            (after.node directory).isDirectory = true) ∧
        ((∃ stop ∈ trail, carries stop) →
          ¬after.volume.HasParent after.heap target ∧
            ∃ stop, ∀ removal : Call, removal.Removes → removal.request.path = target →
              removal.answer after = .error (.fault (.notFound stop))) ∧
        ((∃ id, before.volume.live? call.request.path = some id ∧
            (before.node id).isFile = true) → ∀ stop ∈ trail, ¬carries stop) ∧
        (before.volume.HoldsDirectory before.heap target.parent →
          ∀ stop ∈ trail, ¬carries stop) ∧
        ((∀ earlier ∈ calls, ¬earlier.Commands .symlink) →
          before.volume.HoldsDirectory before.heap target.parent) := by
  intro before after target trail carries reply hrename hanswer
  have h : before.volume.Sound before.heap := (sound_run (sound_start settings) calls).1
  have hafter : after.volume.Sound after.heap := sound_serve h call
  have hkeeps : before.heap.Keeps after.heap := (sound_run h [call]).2.2
  obtain ⟨held, hheld, hfree, -, directory, hleads, hkind⟩ :=
    checked_rename h.toCalm hanswer hrename
  refine ⟨directory, hleads, hkind, ?_, ?_, ?_, ?_, ?_⟩
  · intro hstays
    have hstill := leads_serve h hanswer hleads fun stop member hdisplaces =>
      hstays stop member ((displaces_rename_iff hrename).mp hdisplaces)
    obtain ⟨stop, hstop⟩ := hleads.held
    exact ⟨hstill, (hkeeps.isDirectory directory (h.made stop directory hstop)).trans hkind⟩
  · rintro ⟨stop, member, hcarries⟩
    obtain ⟨missed, hmissing⟩ := missing_serve h hanswer hleads
      ⟨stop, member, (displaces_rename_iff hrename).mpr hcarries⟩
    have htarget : target ≠ Path.root := ne_root_of_free hfree
    refine ⟨not_hasParent_of_missing hmissing, missed, ?_⟩
    rintro removal hremove hpath
    rw [answer_removes hafter.toCalm hremove (hpath ▸ htarget), hpath, hmissing]
  · rintro ⟨id, hlive, hfile⟩ stop member
    exact not_carries_of_isFile hleads hkind hlive hfile member
  · intro hholds stop member
    simp only [trail, trail_of_directory h hholds, List.mem_singleton] at member
    subst member
    exact not_carries_parent h hanswer hrename hholds
  · intro hcalls
    have hclosed : before.volume.Enclosed before.heap :=
      enclosed_run (enclosed_start settings) hcalls
    exact hclosed.hasParent_iff.mp ⟨directory, hleads, hkind⟩

/-- A move of a regular file to where the link leads. -/
def fileEnclosed : Call :=
  ⟨.command, { method := .rename, path := ['/', 'a'], target := ['/', 'l', '/', 'x'] }⟩

/-- A move of the directory through the link that leads to it. -/
def directoryEnclosed : Call :=
  ⟨.command, { method := .rename, path := ['/', 'd'], target := ['/', 'l', '/', 'x'] }⟩

theorem destination_kept_of_file :
    let before := (State.start {}).run [directoryMade, aliasMade, fileMade]
    let after := before.serve fileEnclosed
    fileEnclosed.answer before = .ok .done ∧
      after.volume.Leads after.heap ['/', 'l'] ⟨1⟩ ∧
      (after.node ⟨1⟩).isDirectory = true := by
  intro before after
  have hanswer : fileEnclosed.answer before = .ok .done := rfl
  obtain ⟨directory, hleads, -, hkept, -, hfile, -⟩ := destination_kept_unless_carried {}
    [directoryMade, aliasMade, fileMade] fileEnclosed .done ⟨rfl, rfl⟩ hanswer
  have hdirectory : before.volume.Leads before.heap ['/', 'l'] ⟨1⟩ := by
    unfold Leads
    decide +kernel
  cases hleads.symm.trans hdirectory
  exact ⟨hanswer, hkept (hfile ⟨⟨3⟩, by decide +kernel, by decide +kernel⟩)⟩

/-- The directory is moved into itself: the text of the target does not show that its
parent leads to the directory. The parent of the target leads nowhere afterwards, and
the directory cannot be removed any more. -/
theorem directory_moved_into_itself :
    let before := (State.start {}).run [directoryMade, aliasMade]
    let after := before.serve directoryEnclosed
    directoryEnclosed.answer before = .ok .done ∧
      before.volume.Leads before.heap directoryEnclosed.request.target.parent ⟨1⟩ ∧
      before.volume.live? directoryEnclosed.request.path = some ⟨1⟩ ∧
      (before.node ⟨1⟩).isDirectory = true ∧
      ¬after.volume.HasParent after.heap directoryEnclosed.request.target ∧
      linkedRemoved.answer after = .error (.fault (.notFound ['/', 'd'])) := by
  intro before after
  have hleads : before.volume.Leads before.heap ['/', 'l'] ⟨1⟩ := by
    unfold Leads
    decide +kernel
  have hmissing : (after.volume.resolve after.heap ['/', 'l']).resolution =
      .missing ['/', 'd'] := by decide +kernel
  exact ⟨rfl, hleads, by decide +kernel, by decide +kernel, not_hasParent_of_missing hmissing,
    rfl⟩

end State

end FlatTree
