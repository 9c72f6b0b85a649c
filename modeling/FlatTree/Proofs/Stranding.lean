import FlatTree.Proofs.Chains
import FlatTree.Proofs.Enclosure
import FlatTree.Proofs.Staleness

/-!
Parents of entries in stores with symbolic links. The parent of an entry may be a
link that leads to a directory, and what protects an entry goes by the texts of
paths: a removal looks for entries under the path that it removes, and a rename
takes along what is under the directory that it moves. Neither looks at where links
lead. So a parent that is a directory itself stays, while one that is a link leads
on only as long as no path on the way is removed or moved.
-/

namespace FlatTree

namespace Volume

variable {volume after : Volume} {heap other : Heap} {hops : Nat} {path : Path} {id : NodeId}

/-- A search finds what it found when the paths on its way keep their nodes. -/
theorem search_of_kept (hmade : ∀ path id, volume.live? path = some id → id.index < heap.size)
    (hkeeps : heap.Keeps other)
    (hkept : ∀ stop ∈ (volume.search heap hops path).trail,
      after.live? stop = volume.live? stop) :
    after.search other hops path = volume.search heap hops path := by
  revert hkept
  refine volume.search_induction heap (motive := fun hops path search =>
    (∀ stop ∈ search.trail, after.live? stop = volume.live? stop) →
      after.search other hops path = search) ?_ ?_ ?_ ?_ hops path
  · intro hops path hnone hkept
    exact search_of_absent other hops ((hkept path List.mem_cons_self).trans hnone)
  · intro hops path id hlive hlink hkept
    apply search_of_not_isLink hops ((hkept path List.mem_cons_self).trans hlive)
    rw [hkeeps.isLink (hmade path id hlive), hlink]
  · intro path id hlive hlink hkept
    apply search_zero_of_isLink ((hkept path List.mem_cons_self).trans hlive)
    rw [hkeeps.isLink (hmade path id hlive), hlink]
  · intro hops path id hlive hlink ih hkept
    have hrest := ih fun stop member => hkept stop (List.mem_cons_of_mem path member)
    have htarget := hkeeps.target id (hmade path id hlive)
    rw [search_succ_of_isLink hops ((hkept path List.mem_cons_self).trans hlive), htarget, hrest]
    rw [hkeeps.isLink (hmade path id hlive), hlink]

/-- A search that found a node goes missing when paths on its way have lost their
nodes and the others have kept them. -/
theorem search_of_lost (hmade : ∀ path id, volume.live? path = some id → id.index < heap.size)
    (hkeeps : heap.Keeps other)
    (hfound : (volume.search heap hops path).resolution = .found id)
    (hkept : ∀ stop ∈ (volume.search heap hops path).trail,
      after.live? stop = volume.live? stop ∨ after.live? stop = none)
    (hlost : ∃ stop ∈ (volume.search heap hops path).trail, after.live? stop = none) :
    ∃ stop, (after.search other hops path).resolution = .missing stop := by
  revert hfound hkept hlost
  refine volume.search_induction heap (motive := fun hops path search =>
    search.resolution = .found id →
      (∀ stop ∈ search.trail, after.live? stop = volume.live? stop ∨ after.live? stop = none) →
        (∃ stop ∈ search.trail, after.live? stop = none) →
          ∃ stop, (after.search other hops path).resolution = .missing stop)
    ?_ ?_ ?_ ?_ hops path
  · intro hops path _ hfound
    cases hfound
  · intro hops path id _ _ _ _ hlost
    obtain ⟨stop, member, hnone⟩ := hlost
    rw [List.mem_singleton.mp member] at hnone
    exact ⟨path, by rw [search_of_absent other hops hnone]⟩
  · intro path id _ _ hfound
    cases hfound
  · intro hops path id hlive hlink ih hfound hkept hlost
    rcases hkept path List.mem_cons_self with hsame | hnone
    · obtain ⟨stop, member, hnone⟩ := hlost
      have hlater : stop ∈ (volume.search heap hops (heap.get id).target).trail := by
        rcases List.mem_cons.mp member with rfl | hlater
        · rw [hsame, hlive] at hnone
          cases hnone
        · exact hlater
      have htarget := hkeeps.target id (hmade path id hlive)
      have hlink' : (other.get id).isLink = true := by
        rw [hkeeps.isLink (hmade path id hlive), hlink]
      rw [search_succ_of_isLink hops (hsame.trans hlive) hlink', htarget]
      exact ih hfound (fun stop member => hkept stop (List.mem_cons_of_mem path member))
        ⟨stop, hlater, hnone⟩
    · exact ⟨path, by rw [search_of_absent other _ hnone]⟩

end Volume

/-- The call, if it is answered, removes or moves the entry of the key. -/
def Call.Displaces (call : Call) (state : State) (key : Path) : Prop :=
  (call.Removes ∧ call.request.path = key) ∨
    (call.Commands .rename ∧ state.volume.Carries state.heap call.request.path key)

instance (call : Call) (state : State) (key : Path) : Decidable (call.Displaces state key) :=
  inferInstanceAs (Decidable (_ ∨ _))

namespace State

variable {state : State} {call : Call} {path key : Path} {id directory : NodeId} {reply : Reply}

open Volume

theorem displaces_iff (h : state.volume.Sound state.heap)
    (hanswer : call.answer state = .ok reply) :
    call.Displaces state key ↔ call.newKey? state key ≠ some key := by
  by_cases hrename : call.Commands .rename
  · have hremove : ¬call.Removes :=
      fun hremove => hremove.not_commands (by decide) (by decide) hrename
    obtain ⟨held, hapart, hheld, hfree, -⟩ := served_rename h hanswer hrename
    have hne : call.request.path ≠ call.request.target := by
      intro hsame
      rw [live?_of_ne_root hapart, hsame, hfree] at hheld
      cases hheld
    unfold Call.Displaces
    rw [Call.newKey?_rename hanswer hrename]
    split
    · rename_i hcarries
      simp only [hremove, hrename, hcarries, false_and, true_and, or_true, true_iff, ne_eq,
        Option.some.injEq]
      exact Path.rebase_ne hcarries.front hne
    · rename_i hcarries
      simp [hremove, hcarries]
  · by_cases hremove : call.Removes
    · unfold Call.Displaces
      rw [Call.newKey?_remove hanswer hremove]
      simp only [hremove, hrename, true_and, false_and, or_false]
      split
      · rename_i hkey
        simp [hkey]
      · rename_i hkey
        simp [Ne.symm hkey]
    · unfold Call.Displaces
      rw [Call.newKey?_of_not hrename hremove]
      simp [hremove, hrename]

/-- A call that makes an entry neither renames nor removes one. -/
theorem not_displaces_of_puts (hputs : call.Puts state key) (path : Path) :
    ¬call.Displaces state path := by
  have hstays : ∀ {method : Method}, method ≠ .remove → method ≠ .rmdir → method ≠ .rename →
      call.Commands method → ¬call.Displaces state path := by
    rintro method hremove hrmdir hrename hcommand (⟨hremoves, -⟩ | ⟨hother, -⟩)
    · exact hremoves.not_commands hremove hrmdir hcommand
    · exact hrename (hcommand.method_eq hother)
  cases hputs with
  | file writes =>
      rintro (⟨hremoves | hremoves, -⟩ | ⟨hrename, -⟩)
      · exact writes.not_commands hremoves
      · exact writes.not_commands hremoves
      · exact writes.not_commands hrename
  | directory commands => exact hstays (by decide) (by decide) (by decide) commands
  | share commands => exact hstays (by decide) (by decide) (by decide) commands
  | link commands => exact hstays (by decide) (by decide) (by decide) commands

/-- No answered call removes or moves the root. -/
theorem not_displaces_root (h : state.volume.Sound state.heap)
    (hanswer : call.answer state = .ok reply) : ¬call.Displaces state Path.root := by
  rintro (⟨hremove, hpath⟩ | ⟨hrename, hcarries⟩)
  · obtain ⟨change, hmakes, hpermitted, -⟩ := served_of_answer_ok h.toCalm hanswer
    rw [hmakes.of_removes hremove] at hpermitted
    cases hpermitted with
    | remove apart leads empty => exact apart hpath
  · obtain ⟨held, hapart, hheld, -⟩ := served_rename h hanswer hrename
    rcases hcarries with hsame | ⟨hunder, -⟩
    · exact hapart hsame.symm
    · rw [live?_of_ne_root hapart] at hheld
      exact (h.rooted _ held hheld).root_not_under hunder

/-- The node of a path after an answered call that found one there. -/
theorem live?_serve (h : state.volume.Sound state.heap)
    (hanswer : call.answer state = .ok reply) (hlive : state.volume.live? path = some id) :
    (state.serve call).volume.live? path =
      if call.Displaces state path then none else some id := by
  by_cases hpath : path = Path.root
  · subst hpath
    rw [if_neg (not_displaces_root h hanswer), ← hlive, live?_root, live?_root]
    exact congrArg some (sound_run h [call]).2.1
  · rw [live?_of_ne_root hpath] at hlive ⊢
    split
    · rename_i hdisplaces
      exact free_of_newKey?_ne h hlive ((displaces_iff h hanswer).mp hdisplaces)
    · rename_i hstays
      rw [displaces_iff h hanswer, ne_eq, not_not] at hstays
      exact live?_of_newKey? h hlive hstays

theorem live?_of_mem_trail (hleads : state.volume.Leads state.heap path id) {stop : Path}
    (member : stop ∈ (state.volume.resolve state.heap path).trail) :
    ∃ held, state.volume.live? stop = some held := by
  have htrail := state.volume.resolve_trail state.heap path
  unfold Leads at hleads
  simp only [hleads] at htrail
  exact Option.isSome_iff_exists.mp (htrail stop member)

/-- Without a bound the hops that are enough change with the table. That makes no
difference to a search that ends. -/
theorem resolve_serve {hops : Nat}
    (hhops : hops = state.volume.settings.hopBound.getD state.volume.enoughHops)
    (hend : ((state.serve call).volume.search (state.serve call).heap hops path).resolution ≠
      .stopped) :
    (state.serve call).volume.resolve (state.serve call).heap path =
      (state.serve call).volume.search (state.serve call).heap hops path := by
  apply resolve_eq_search hend
  intro limit hlimit
  rw [settings_serve] at hlimit
  rw [hhops, hlimit, Option.getD_some]

/-- A path leads where it led when no path on the way was removed or moved. -/
theorem leads_serve (h : state.volume.Sound state.heap)
    (hanswer : call.answer state = .ok reply) (hleads : state.volume.Leads state.heap path id)
    (hstays : ∀ stop ∈ (state.volume.resolve state.heap path).trail,
      ¬call.Displaces state stop) :
    (state.serve call).volume.Leads (state.serve call).heap path id := by
  have hkept : ∀ stop ∈ (state.volume.resolve state.heap path).trail,
      (state.serve call).volume.live? stop = state.volume.live? stop := by
    intro stop member
    obtain ⟨held, hheld⟩ := live?_of_mem_trail hleads member
    rw [live?_serve h hanswer hheld, if_neg (hstays stop member), hheld]
  have hsearch := search_of_kept h.made (sound_run h [call]).2.2 hkept
  have hfound := (congrArg Search.resolution hsearch).trans hleads
  unfold Leads
  rw [resolve_serve rfl]
  · exact hfound
  · intro hstopped
    cases hstopped.symm.trans hfound

/-- A path leads nowhere when a path on its way was removed or moved. -/
theorem missing_serve (h : state.volume.Sound state.heap)
    (hanswer : call.answer state = .ok reply) (hleads : state.volume.Leads state.heap path id)
    (hdisplaced : ∃ stop ∈ (state.volume.resolve state.heap path).trail,
      call.Displaces state stop) :
    ∃ stop, ((state.serve call).volume.resolve (state.serve call).heap path).resolution =
      .missing stop := by
  have hkept : ∀ stop ∈ (state.volume.resolve state.heap path).trail,
      (state.serve call).volume.live? stop = state.volume.live? stop ∨
        (state.serve call).volume.live? stop = none := by
    intro stop member
    obtain ⟨held, hheld⟩ := live?_of_mem_trail hleads member
    rw [live?_serve h hanswer hheld]
    split
    · exact Or.inr rfl
    · exact Or.inl hheld.symm
  have hlost : ∃ stop ∈ (state.volume.resolve state.heap path).trail,
      (state.serve call).volume.live? stop = none := by
    obtain ⟨stop, member, hstop⟩ := hdisplaced
    obtain ⟨held, hheld⟩ := live?_of_mem_trail hleads member
    exact ⟨stop, member, by rw [live?_serve h hanswer hheld, if_pos hstop]⟩
  obtain ⟨stop, hmissing⟩ :=
    search_of_lost h.made (sound_run h [call]).2.2 hleads hkept hlost
  refine ⟨stop, ?_⟩
  rw [resolve_serve rfl]
  · exact hmissing
  · intro hstopped
    cases hstopped.symm.trans hmissing

/-- What a removal answers, by where the parent of its path leads. -/
theorem answer_removes (h : state.volume.Calm) (hremove : call.Removes)
    (hpath : call.request.path ≠ Path.root) :
    call.answer state =
      match (state.volume.resolve state.heap call.request.path.parent).resolution with
      | .missing stop => .error (.fault (.notFound stop))
      | .stopped => .error (.fault (state.volume.stopFault call.request.path.parent))
      | .found id =>
          if (state.heap.get id).isDirectory = true ∧
              state.volume.below call.request.path ≠ [] then
            .error (.fault (.notEmpty call.request.path))
          else .ok .done := by
  have hplan : call.plan = do return (.done, ← Plan.remove call.request.path) := by
    rcases hremove with ⟨hservice, hmethod⟩ | ⟨hservice, hmethod⟩ <;>
      simp only [Call.plan, hservice, Plan.perform, hmethod]
  rw [answer_calm h, hplan, Query.outcome_bind, Plan.remove, if_neg hpath, Query.outcome_bind]
  cases hend : (state.volume.resolve state.heap call.request.path.parent).resolution with
  | missing stop => simp only [Query.resolve, hend]
  | stopped => simp only [Query.resolve, hend]
  | found id =>
      simp only [Query.resolve, hend, Query.outcome_bind, Query.node, Query.volume]
      by_cases hfull : (state.heap.get id).isDirectory = true ∧
          state.volume.below call.request.path ≠ []
      · simp only [if_pos hfull, Plan.outcome_refuse]
      · simp only [if_neg hfull, Query.outcome_pure]

theorem mem_below_of_parent (hlive : state.volume.table.live? key = some id)
    (hrooted : key.parent.Rooted) : (key, id) ∈ state.volume.below key.parent :=
  List.mem_filter.mpr ⟨Table.mem_live.mpr hlive, decide_eq_true hrooted.under_parent⟩

/-- The parent of an entry that stays is removed or moved only by a rename that names
the parent, and only if that is no directory: a removal of the parent finds the
entry under it, and a rename of a directory takes along what is under it. -/
theorem displaces_parent (h : state.volume.Sound state.heap)
    (hanswer : call.answer state = .ok reply) (hlive : state.volume.table.live? key = some id)
    (hstays : ¬call.Displaces state key)
    (hheld : state.volume.live? key.parent = some directory)
    (hscan : call.Removes → call.request.path = key.parent →
      state.volume.HasParent state.heap key.parent)
    (hdisplaced : call.Displaces state key.parent) :
    call.Commands .rename ∧ call.request.path = key.parent ∧
      ¬state.volume.HoldsDirectory state.heap key.parent := by
  have hroot : key.parent ≠ Path.root := by
    intro hroot
    rw [hroot] at hdisplaced
    exact not_displaces_root h hanswer hdisplaced
  have hrooted : key.parent.Rooted := by
    rw [live?_of_ne_root hroot] at hheld
    exact h.rooted _ directory hheld
  rcases hdisplaced with ⟨hremove, hpath⟩ | ⟨hrename, hcarries⟩
  · exfalso
    obtain ⟨above, hleads, hkind⟩ := hscan hremove hpath
    have hfull := List.ne_nil_of_mem (mem_below_of_parent hlive hrooted)
    unfold Leads at hleads
    rw [answer_removes h.toCalm hremove (hpath ▸ hroot), hpath, hleads] at hanswer
    simp only [if_pos (And.intro hkind hfull)] at hanswer
    cases hanswer
  · have htaken : ¬(key.Under call.request.path ∧
        state.volume.HoldsDirectory state.heap call.request.path) :=
      fun hboth => hstays (Or.inr ⟨hrename, carries_iff.mpr (Or.inr hboth)⟩)
    rcases carries_iff.mp hcarries with hsame | ⟨hunder, hholds⟩
    · refine ⟨hrename, hsame.symm, fun hholds => htaken ?_⟩
      rw [← hsame]
      exact ⟨hrooted.under_parent, hholds⟩
    · exact absurd ⟨hrooted.under_parent.trans_within (Or.inr hunder), hholds⟩ htaken

/-- A directory is found at once. -/
theorem trail_of_directory (h : state.volume.Sound state.heap)
    (hholds : state.volume.HoldsDirectory state.heap path) :
    (state.volume.resolve state.heap path).trail = [path] := by
  obtain ⟨id, hlive, hkind⟩ := hholds
  unfold resolve
  rw [search_of_not_isLink _ hlive (h.oneKind id hkind)]

/-- What becomes of the parent of an entry that an answered call neither removes nor
moves, when the parent led to a directory. It leads to the same directory as long as
the call removes or moves no path that the search for it looks up, and the entry can
be removed. This is always so for a parent that is a directory itself; and in any case
the parent itself is removed or moved only by a rename that names it. Of a removal
that names the parent this is said only when the parent of the parent leads to a
directory. If a path of the search is removed or moved, the parent leads nowhere, and
a removal of the entry does not find it. -/
theorem parents_kept (settings : Settings) (calls : List Call) (call : Call) :
    let before := (State.start settings).run calls
    let after := before.serve call
    ∀ (reply : Reply) (key : Path) (id directory : NodeId),
      call.answer before = .ok reply → before.volume.table.live? key = some id →
      ¬call.Displaces before key →
      before.volume.Leads before.heap key.parent directory →
      (before.node directory).isDirectory = true →
      (call.Removes → call.request.path = key.parent →
        before.volume.HasParent before.heap key.parent) →
      let trail := (before.volume.resolve before.heap key.parent).trail
      ((∀ path ∈ trail, ¬call.Displaces before path) →
          after.volume.Leads after.heap key.parent directory ∧
            (after.node directory).isDirectory = true ∧
            ∀ (removal : Call) (stop : Path), removal.Removes → removal.request.path = key →
              removal.answer after ≠ .error (.fault (.notFound stop))) ∧
        (before.volume.HoldsDirectory before.heap key.parent →
          ∀ path ∈ trail, ¬call.Displaces before path) ∧
        (call.Displaces before key.parent →
          call.Commands .rename ∧ call.request.path = key.parent) ∧
        ((∃ path ∈ trail, call.Displaces before path) →
          ¬after.volume.HasParent after.heap key ∧
            ∃ stop, ∀ removal : Call, removal.Removes → removal.request.path = key →
              removal.answer after = .error (.fault (.notFound stop))) := by
  intro before after reply key id directory hanswer hlive hstays hleads hkind hscan trail
  have h : before.volume.Sound before.heap := (sound_run (sound_start settings) calls).1
  have hafter : after.volume.Sound after.heap := sound_serve h call
  have hkeeps : before.heap.Keeps after.heap := (sound_run h [call]).2.2
  have hroot : key ≠ Path.root := (h.rooted key id hlive).ne_root
  obtain ⟨held, hheld⟩ := hleads.occupied
  have honly := displaces_parent h hanswer hlive hstays hheld hscan
  refine ⟨?_, ?_, ?_, ?_⟩
  · intro hkept
    have hleads' := leads_serve h hanswer hleads hkept
    refine ⟨hleads', ?_, ?_⟩
    · obtain ⟨stop, hstop⟩ := hleads.held
      exact (hkeeps.isDirectory directory (h.made stop directory hstop)).trans hkind
    · rintro removal stop hremove rfl hmissing
      unfold Leads at hleads'
      rw [answer_removes hafter.toCalm hremove hroot, hleads'] at hmissing
      simp only at hmissing
      split at hmissing <;> cases hmissing
  · intro hholds path member hdisplaced
    simp only [trail, trail_of_directory h hholds, List.mem_singleton] at member
    subst member
    exact (honly hdisplaced).2.2 hholds
  · intro hdisplaced
    exact ⟨(honly hdisplaced).1, (honly hdisplaced).2.1⟩
  · intro hlost
    obtain ⟨stop, hmissing⟩ := missing_serve h hanswer hleads hlost
    constructor
    · rintro ⟨found, hfound, -⟩
      cases hmissing.symm.trans hfound
    · refine ⟨stop, ?_⟩
      rintro removal hremove rfl
      rw [answer_removes hafter.toCalm hremove hroot, hmissing]

/-- A link to the directory, right in the root. -/
def aliasMade : Call :=
  ⟨.command, { method := .symlink, path := ['/', 'd'], target := ['/', 'l'] }⟩

/-- A directory whose parent is the link. -/
def linkedMade : Call := ⟨.command, { method := .mkdir, path := ['/', 'l', '/', 'x'] }⟩

def aliasRenamed : Call :=
  ⟨.command, { method := .rename, path := ['/', 'l'], target := ['/', 'm'] }⟩

def linkedRemoved : Call := ⟨.command, { method := .remove, path := ['/', 'l', '/', 'x'] }⟩

/-- A rename of the link leaves the directory without a parent, and so it cannot be
removed any more. -/
theorem parent_lost_by_renamed_link :
    let before := (State.start {}).run [directoryMade, aliasMade, linkedMade]
    let after := before.serve aliasRenamed
    aliasRenamed.answer before = .ok .done ∧
      before.volume.table.live? ['/', 'l', '/', 'x'] = some ⟨3⟩ ∧
      ¬aliasRenamed.Displaces before ['/', 'l', '/', 'x'] ∧
      before.volume.HasParent before.heap ['/', 'l', '/', 'x'] ∧
      after.volume.table.live? ['/', 'l', '/', 'x'] = some ⟨3⟩ ∧
      ¬after.volume.HasParent after.heap ['/', 'l', '/', 'x'] ∧
      linkedRemoved.answer after = .error (.fault (.notFound ['/', 'l'])) := by
  intro before after
  have hleads : before.volume.Leads before.heap ['/', 'l'] ⟨1⟩ := by
    unfold Leads
    decide +kernel
  have hmissing : (after.volume.resolve after.heap ['/', 'l']).resolution =
      .missing ['/', 'l'] := by decide +kernel
  refine ⟨rfl, by decide +kernel, by decide +kernel, ⟨⟨1⟩, hleads, by decide +kernel⟩,
    by decide +kernel, ?_, rfl⟩
  rintro ⟨found, hfound, -⟩
  cases hmissing.symm.trans hfound

/-- The directory keeps its parent while another entry is removed. -/
theorem parents_kept_beside_removal :
    let before := (State.start {}).run [directoryMade, aliasMade, linkedMade, fileMade]
    let after := before.serve firstNameRemoved
    firstNameRemoved.answer before = .ok .done ∧
      after.volume.Leads after.heap ['/', 'l'] ⟨1⟩ ∧
      ∀ stop, linkedRemoved.answer after ≠ .error (.fault (.notFound stop)) := by
  intro before after
  have hanswer : firstNameRemoved.answer before = .ok .done := rfl
  have hleads : before.volume.Leads before.heap ['/', 'l'] ⟨1⟩ := by
    unfold Leads
    decide +kernel
  obtain ⟨hkept, -⟩ := parents_kept {} [directoryMade, aliasMade, linkedMade, fileMade]
    firstNameRemoved .done ['/', 'l', '/', 'x'] ⟨3⟩ ⟨1⟩ hanswer (by decide +kernel)
    (by decide +kernel) hleads (by decide +kernel) (fun _ hpath => absurd hpath (by decide))
  obtain ⟨hafter, -, hremoval⟩ := hkept (by decide +kernel)
  exact ⟨hanswer, hafter, fun stop => hremoval linkedRemoved stop (Or.inl ⟨rfl, rfl⟩) rfl⟩

/-! ### Removing what has entries under it -/

/-- A removal of a path with an entry under it is refused while the parent of the path
leads to a directory, which without links it always does when the path is an entry.
It is answered just when the parent leads to a node of another kind. -/
theorem populated_removed_iff (settings : Settings) (calls : List Call) (removal : Call) :
    let state := (State.start settings).run calls
    ∀ (key : Path) (id : NodeId), state.volume.table.live? key = some id →
      key.Under removal.request.path → removal.Removes →
      (state.volume.HasParent state.heap removal.request.path →
          removal.answer state = .error (.fault (.notEmpty removal.request.path))) ∧
        ((∀ call ∈ calls, ¬call.Commands .symlink) →
          state.volume.table.live? removal.request.path ≠ none →
            state.volume.HasParent state.heap removal.request.path) ∧
        ((∃ reply, removal.answer state = .ok reply) ↔
          ∃ above, state.volume.Leads state.heap removal.request.path.parent above ∧
            (state.node above).isDirectory = false) := by
  intro state key id hlive hunder hremove
  have h : state.volume.Sound state.heap := (sound_run (sound_start settings) calls).1
  have hfull : state.volume.below removal.request.path ≠ [] :=
    List.ne_nil_of_mem
      (List.mem_filter.mpr ⟨Table.mem_live.mpr hlive, decide_eq_true hunder⟩)
  have hpath : removal.request.path ≠ Path.root := by
    intro hroot
    rw [hroot] at hunder
    exact (h.rooted key id hlive).not_under_root hunder
  have hanswer := answer_removes h.toCalm hremove hpath
  refine ⟨?_, ?_, ?_⟩
  · rintro ⟨above, hleads, hkind⟩
    unfold Leads at hleads
    rw [hanswer, hleads]
    exact if_pos ⟨hkind, hfull⟩
  · intro hcalls hheld
    have hclosed : state.volume.Enclosed state.heap :=
      enclosed_run (enclosed_start settings) hcalls
    obtain ⟨held, hheld⟩ := Option.ne_none_iff_exists'.mp hheld
    exact hclosed.hasParent_iff.mpr (hclosed.enclosed _ held hheld)
  · rw [hanswer]
    unfold Leads
    cases (state.volume.resolve state.heap removal.request.path.parent).resolution with
    | missing stop => simp
    | stopped => simp
    | found above =>
        simp only [Resolution.found.injEq, exists_eq_left']
        by_cases hkind : (state.heap.get above).isDirectory = true
        · simp [hkind, hfull, node]
        · simp [hkind, node]

/-- A directory `/s/d` with a file in it, made through the link `/s` to the directory
`/a`. Then a file takes the place of `/a`. -/
def retargeted : List Call :=
  let directory : Path := ['/', 's', '/', 'd']
  [⟨.command, { method := .mkdir, path := ['/', 'a'] }⟩,
    ⟨.command, { method := .symlink, path := ['/', 'a'], target := ['/', 's'] }⟩,
    ⟨.command, { method := .mkdir, path := directory }⟩,
    ⟨.write, { method := .put, path := directory ++ ['/', 'f'] }⟩,
    firstNameRemoved, fileMade]

def innerRemoved : Call := ⟨.command, { method := .remove, path := ['/', 's', '/', 'd'] }⟩

/-- The directory is removed with the file still in it. -/
theorem populated_removed_of_retargeted :
    let state := (State.start {}).run retargeted
    let after := state.serve innerRemoved
    state.volume.table.live? ['/', 's', '/', 'd'] = some ⟨3⟩ ∧
      (state.node ⟨3⟩).isDirectory = true ∧
      innerRemoved.answer state = .ok .done ∧
      state.volume.table.live? ['/', 's', '/', 'd', '/', 'f'] = some ⟨4⟩ ∧
      Path.Under ['/', 's', '/', 'd', '/', 'f'] ['/', 's', '/', 'd'] ∧
      after.volume.table.live? ['/', 's', '/', 'd'] = none ∧
      after.volume.table.live? ['/', 's', '/', 'd', '/', 'f'] = some ⟨4⟩ := by
  refine ⟨?_, ?_, rfl, ?_, ?_, ?_, ?_⟩ <;> decide +kernel

/-- The removal is answered because the parent leads to a file, and it is refused as
long as the parent leads to a directory. -/
theorem populated_removed_iff_retargeted :
    (∃ reply, innerRemoved.answer ((State.start {}).run retargeted) = .ok reply) ∧
      innerRemoved.answer ((State.start {}).run (retargeted.take 4)) =
        .error (.fault (.notEmpty ['/', 's', '/', 'd'])) := by
  obtain ⟨-, -, hanswered⟩ := populated_removed_iff {} retargeted innerRemoved
    ['/', 's', '/', 'd', '/', 'f'] ⟨4⟩ (by decide +kernel) (by decide) (Or.inl ⟨rfl, rfl⟩)
  obtain ⟨hrefused, -, -⟩ := populated_removed_iff {} (retargeted.take 4) innerRemoved
    ['/', 's', '/', 'd', '/', 'f'] ⟨4⟩ (by decide +kernel) (by decide) (Or.inl ⟨rfl, rfl⟩)
  constructor
  · refine hanswered.mpr ⟨⟨5⟩, ?_, by decide +kernel⟩
    unfold Leads
    decide +kernel
  · refine hrefused ⟨⟨1⟩, ?_, by decide +kernel⟩
    unfold Leads
    decide +kernel

end State

end FlatTree
