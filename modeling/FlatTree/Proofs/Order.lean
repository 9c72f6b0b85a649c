import FlatTree.Proofs.Course
import FlatTree.Proofs.Rearrangement

/-!
What calls can tell of the order in which the entries were put into a store. Peers that
serve the same call answer alike and stay peers (`State.Peers.serve`). A rename that moves
a file under several of its keys makes it loose, and one that moves it under a single key
gives it the same path in both stores again (`Call.strays`). So for a run of calls the
order shows in the paths of files that such renames have moved, and in which of several
occupied keys a refused rename names; in nothing else.
-/

namespace FlatTree

/-- The call is a rename that is answered, and it moves the node from the key. -/
def Call.Moves (call : Call) (state : State) (id : NodeId) (key : Path) : Prop :=
  call.Commands .rename ∧ (∃ reply, call.answer state = .ok reply) ∧
    key ∈ state.volume.carried state.heap call.request.path ∧
    state.volume.table.live? key = some id

/-- The call moves the node from several keys, and to the path from one of them. -/
def Call.Scatters (call : Call) (state : State) (id : NodeId) (path : Path) : Prop :=
  ∃ key other, key ≠ other ∧ call.Moves state id key ∧ call.Moves state id other ∧
    key.rebase call.request.path call.request.target = path

/-- The paths that a node may have after a call, by the order of the entries: new ones if
it is moved from several keys, and those from before if it is not moved. -/
def Call.strays (call : Call) (state : State) (loose : NodeId → Path → Prop) (id : NodeId)
    (path : Path) : Prop :=
  call.Scatters state id path ∨ (loose id path ∧ ∀ key, ¬call.Moves state id key)

/-- The loose paths after a run of calls, from those before. -/
def State.straysFrom (loose : NodeId → Path → Prop) (state : State) :
    List Call → NodeId → Path → Prop
  | [] => loose
  | call :: rest => (state.serve call).straysFrom (call.strays state loose) rest

/-- The paths that a node may have after a run of calls, by the order of the entries: the
new keys of the last rename that moved it, if that moved it from several keys. -/
def State.strays (state : State) (calls : List Call) : NodeId → Path → Prop :=
  state.straysFrom (fun _ _ => False) calls

/-- Refusals of one class with one number and one message, for causes that are akin. -/
structure Refusal.Alike (call : Call) (same : NodeId → NodeId → Prop)
    (loose : NodeId → Path → Prop) (first second : State) (refusal other : Refusal) :
    Prop where
  kind : refusal.failure.kind = other.failure.kind
  code : refusal.failure.code = other.failure.code
  message : refusal.failure.message = other.failure.message
  cause : ∃ fault twin, refusal = .fault fault ∧ other = .fault twin ∧
    Fault.Akin call same loose first second fault twin

section

variable {call : Call} {state : State} {same after : NodeId → NodeId → Prop}
  {loose : NodeId → Path → Prop} {first second : State}

theorem Call.strays_of_not_moves (h : ∀ id key, ¬call.Moves state id key) :
    call.strays state loose = loose := by
  funext id path
  refine propext ⟨?_, fun hloose => Or.inr ⟨hloose, h id⟩⟩
  rintro (⟨key, -, -, hmoves, -⟩ | ⟨hloose, -⟩)
  · exact absurd hmoves (h id key)
  · exact hloose

theorem Fault.Akin.refusal {fault twin : Fault}
    (h : Fault.Akin call same loose first second fault twin) :
    Refusal.Alike call same loose first second (.fault fault) (.fault twin) := by
  refine ⟨?_, ?_, ?_, fault, twin, rfl, rfl, h⟩
  all_goals
    cases h <;> rfl

theorem Fault.Akin.mono {fault twin : Fault} (hmono : ∀ a b, same a b → after a b)
    (h : Fault.Akin call same loose first second fault twin) :
    Fault.Akin call after loose first second fault twin := by
  cases h with
  | refl fault => exact .refl fault
  | notADirectory h hfirst hsecond => exact .notADirectory (hmono _ _ h) hfirst hsecond
  | parentNotADirectory h hfirst hsecond =>
      exact .parentNotADirectory (hmono _ _ h) hfirst hsecond
  | alreadyExists hfirst hsecond => exact .alreadyExists hfirst hsecond

theorem Refusal.Alike.mono {refusal other : Refusal} (hmono : ∀ a b, same a b → after a b)
    (h : Refusal.Alike call same loose first second refusal other) :
    Refusal.Alike call after loose first second refusal other := by
  obtain ⟨hkind, hcode, hmessage, fault, twin, hfirst, hsecond, hakin⟩ := h
  exact ⟨hkind, hcode, hmessage, fault, twin, hfirst, hsecond, hakin.mono hmono⟩

theorem Reply.Alike.mono {reply answer : Reply} (hmono : ∀ a b, same a b → after a b)
    (h : Reply.Alike same reply answer) : Reply.Alike after reply answer := by
  cases h with
  | node hsame => exact .node (hmono _ _ hsame)
  | listing hfound => exact .listing (hfound.imp hmono)
  | done => exact .done

end

/-- The wider correspondence has only nodes more that neither state has made. -/
structure State.Widens (first second : State) (same after : NodeId → NodeId → Prop) :
    Prop where
  known : ∀ a b, same a b → after a b
  fresh : ∀ a b, after a b →
    same a b ∨ (first.heap.size ≤ a.index ∧ second.heap.size ≤ b.index)

theorem State.Widens.refl {first second : State} {same : NodeId → NodeId → Prop} :
    first.Widens second same same :=
  ⟨fun _ _ => id, fun _ _ => Or.inl⟩

theorem State.Widens.trans {first second next last : State}
    {same grown after : NodeId → NodeId → Prop} (h : first.Widens second same grown)
    (hnext : next.Widens last grown after) (hsize : first.heap.size ≤ next.heap.size)
    (hsize' : second.heap.size ≤ last.heap.size) : first.Widens second same after where
  known a b hsame := hnext.known a b (h.known a b hsame)
  fresh := by
    intro a b hafter
    rcases hnext.fresh a b hafter with hgrown | ⟨ha, hb⟩
    · exact h.fresh a b hgrown
    · exact Or.inr ⟨Nat.le_trans hsize ha, Nat.le_trans hsize' hb⟩

theorem Change.widens_grown {change : Change} {same : NodeId → NodeId → Prop}
    {first second : State} : first.Widens second same (change.grown same first second) where
  known _ _ := change.grown_of_same
  fresh := by
    intro a b hgrown
    rcases Change.same_or_fresh hgrown with hsame | ⟨_, _, -, rfl, rfl⟩
    · exact Or.inl hsame
    · exact Or.inr ⟨Nat.le_refl _, Nat.le_refl _⟩

theorem Heap.Keeps.isFile {heap after : Heap} (h : heap.Keeps after) {id : NodeId}
    (hmade : id.index < heap.size) : (after.get id).isFile = (heap.get id).isFile := by
  unfold Node.isFile Node.isLink
  rw [h.isDirectory id hmade, h.target id hmade]

theorem Volume.Sound.root_target {volume : Volume} {heap : Heap} (h : volume.Sound heap) :
    (heap.get volume.root).target = [] := by
  simpa [Node.isLink] using h.oneKind _ h.root_isDirectory

namespace State

variable {same grown after : NodeId → NodeId → Prop} {loose : NodeId → Path → Prop}
  {first second : State} {change other : Change} {call : Call} {a b : NodeId}

/-- What holds of the keys of two states makes their entries correspond. -/
theorem rel_of_held {held twin : Option NodeId}
    (hfirst : ∀ a, held = some a → ∃ b, twin = some b ∧ same a b)
    (hsecond : ∀ b, twin = some b → ∃ a, held = some a) : Option.Rel same held twin := by
  cases held with
  | some a =>
      obtain ⟨b, rfl, hsame⟩ := hfirst a rfl
      exact .some hsame
  | none =>
      cases twin with
      | none => exact .none
      | some b =>
          obtain ⟨a, ha⟩ := hsecond b rfl
          cases ha

namespace Peers

variable (h : Peers same loose first second)

include h

/-- Only volumes and heaps matter. -/
theorem congr {next last : State} (hvolume : next.volume = first.volume)
    (hheap : next.heap = first.heap) (hvolume' : last.volume = second.volume)
    (hheap' : last.heap = second.heap) : Peers same loose next last := by
  obtain ⟨⟨hlive, hunique, hnodes, hpaths⟩, hsound, hsound', hsettings, hroot, hmade,
    hfiles⟩ := h
  unfold node at hnodes hpaths hfiles
  rw [← hvolume] at hlive hsound hsettings hroot
  rw [← hvolume'] at hlive hsound' hsettings hroot
  rw [← hheap] at hnodes hpaths hsound hmade hfiles
  rw [← hheap'] at hnodes hpaths hsound' hmade
  exact ⟨⟨hlive, hunique, hnodes, hpaths⟩, hsound, hsound', hsettings, hroot, hmade, hfiles⟩

/-- A wider correspondence of the nodes holds of the states as well. -/
theorem corresponds_of_widens (hwidens : first.Widens second same after)
    (hunique : Relator.BiUnique after) : first.Corresponds after loose second where
  live := by
    intro path
    rcases h.table_cases path with ⟨hfirst, hsecond⟩ | ⟨a, b, hfirst, hsecond, hsame⟩
    · rw [hfirst, hsecond]
      exact .none
    · rw [hfirst, hsecond]
      exact .some (hwidens.known a b hsame)
  biunique := hunique
  nodes := by
    intro a b hafter
    rcases hwidens.fresh a b hafter with hsame | ⟨ha, hb⟩
    · exact h.nodes a b hsame
    · rw [node_unmade ha, node_unmade hb]
      exact ⟨rfl, rfl, rfl⟩
  paths := by
    intro a b hafter
    rcases hwidens.fresh a b hafter with hsame | ⟨ha, hb⟩
    · exact h.paths a b hsame
    · rw [node_unmade ha, node_unmade hb]
      exact Or.inl rfl

/-! ### Changes -/

theorem commit_rewrite (known : same a b) (content : Bytes) :
    (first.commit (.rewrite a { first.node a with content })).Corresponds same loose
      (second.commit (.rewrite b { second.node b with content })) where
  live := h.live
  biunique := h.biunique
  nodes := by
    intro held twin hsame
    have hother := h.nodes held twin hsame
    rw [node_commit, node_commit]
    simp only [Relator.rel_eq h.biunique hsame known]
    split
    · exact ⟨(h.nodes a b known).isDirectory, (h.nodes a b known).target, rfl⟩
    · exact hother
  paths := by
    intro held twin hsame
    rw [node_commit, node_commit]
    simp only [Relator.rel_eq h.biunique hsame known]
    split
    · rename_i heq
      obtain rfl : held = a := (Relator.rel_eq h.biunique hsame known).mpr heq
      exact h.paths held b known
    · exact h.paths held twin hsame

theorem commit_add {node : Node} {record : Record} :
    (first.commit (.add node record)).Corresponds
      ((Change.add node record).grown same first second) loose
        (second.commit (.add node record)) where
  live := by
    intro path
    rw [live?_add, live?_add]
    split
    · exact .some (Or.inr ⟨rfl, rfl⟩)
    · refine rel_of_held ?_ fun b hsecond => ?_
      · intro a hfirst
        obtain ⟨b, hsecond, hsame⟩ := h.twin hfirst
        exact ⟨b, hsecond, Or.inl hsame⟩
      · exact (h.live?_iff path).mpr ⟨b, hsecond⟩
  biunique := Change.biunique_grown h.biunique h.made _
  nodes := by
    rintro a b (hsame | ⟨rfl, rfl⟩)
    · obtain ⟨ha, hb⟩ := h.made a b hsame
      unfold State.node
      rw [get_add_of_made ha, get_add_of_made hb]
      exact h.nodes a b hsame
    · unfold State.node
      rw [get_add, if_pos rfl, get_add, if_pos rfl]
      exact ⟨rfl, rfl, rfl⟩
  paths := by
    rintro a b (hsame | ⟨rfl, rfl⟩)
    · obtain ⟨ha, hb⟩ := h.made a b hsame
      unfold State.node
      rw [get_add_of_made ha, get_add_of_made hb]
      exact h.paths a b hsame
    · unfold State.node
      rw [get_add, if_pos rfl, get_add, if_pos rfl]
      exact Or.inl rfl

theorem commit_share {target path : Path} (known : same a b) :
    (first.commit (.share target path a)).Corresponds same loose
      (second.commit (.share target path b)) where
  live := by
    intro other
    rw [live?_share, live?_share]
    split
    · exact .some known
    · exact h.live other
  biunique := h.biunique
  nodes := h.nodes
  paths := h.paths

theorem commit_remove {path : Path} :
    (first.commit (.remove path)).Corresponds same loose (second.commit (.remove path)) where
  live := by
    intro other
    rw [volume_remove, volume_remove, Table.live?_erase, Table.live?_erase]
    split
    · exact .none
    · exact h.live other
  biunique := h.biunique
  nodes := by
    unfold node
    rw [heap_remove, heap_remove]
    exact h.nodes
  paths := by
    unfold node
    rw [heap_remove, heap_remove]
    exact h.paths

/-- Kindred changes that move nothing keep the states corresponding. -/
theorem commit_kindred (hkindred : Change.Kindred same first second change other)
    (hmove : ∀ source target moves, change ≠ .move source target moves) :
    (first.commit change).Corresponds (change.grown same first second) loose
      (second.commit other) := by
  cases hkindred with
  | keep => exact h.toCorresponds
  | rewrite known content => exact h.commit_rewrite known content
  | add node record => exact h.commit_add
  | share known => exact h.commit_share known
  | move => exact absurd rfl (hmove _ _ _)
  | remove => exact h.commit_remove

theorem commit (hkindred : Change.Kindred same first second change other)
    (hmove : ∀ source target moves, change ≠ .move source target moves)
    (hfirst : change.Permitted first.volume first.heap)
    (hsecond : other.Permitted second.volume second.heap) :
    Peers (change.grown same first second) loose (first.commit change)
      (second.commit other) := by
  obtain ⟨hsound, hkeeps⟩ := sound_commit h.sound hfirst
  obtain ⟨hsound', hkeeps'⟩ := sound_commit h.sound' hsecond
  refine
    { h.commit_kindred hkindred hmove with
      sound := hsound
      sound' := hsound'
      settings := by rw [settings_commit, settings_commit, h.settings]
      root := ?_
      made := ?_
      files := ?_ }
  · rw [root_commit, root_commit]
    exact change.grown_of_same h.root
  · intro a b hgrown
    rcases Change.same_or_fresh hgrown with hsame | ⟨node, record, rfl, rfl, rfl⟩
    · obtain ⟨ha, hb⟩ := h.made a b hsame
      have hsize := hkeeps.size
      have hsize' := hkeeps'.size
      omega
    · cases hkindred
      rw [size_add, size_add]
      exact ⟨Nat.lt_succ_self _, Nat.lt_succ_self _⟩
  · intro a path hloose
    obtain ⟨hmade, hfile⟩ := h.files a path hloose
    exact ⟨Nat.lt_of_lt_of_le hmade hkeeps.size, (hkeeps.isFile hmade).trans hfile⟩

/-! ### Renames -/

section

variable {reply answer : Reply} (hcommand : call.Commands .rename)
  (hfirst : call.answer first = .ok reply) (hsecond : call.answer second = .ok answer)

include hcommand hfirst hsecond

theorem live_rename (key : Path) :
    Option.Rel same ((first.serve call).volume.table.live? key)
      ((second.serve call).volume.table.live? key) := by
  have hcarried := h.carried_eq call.request.path
  refine rel_of_held ?_ ?_
  · intro a ha
    rcases (live?_of_rename hcommand hfirst).mp ha with
      ⟨old, hold, hkey, hlive⟩ | ⟨hstays, hlive⟩
    · obtain ⟨b, hb, hsame⟩ := h.twin hlive
      rw [hcarried] at hold
      exact ⟨b, (live?_of_rename hcommand hsecond).mpr (Or.inl ⟨old, hold, hkey, hb⟩), hsame⟩
    · obtain ⟨b, hb, hsame⟩ := h.twin hlive
      rw [hcarried] at hstays
      exact ⟨b, (live?_of_rename hcommand hsecond).mpr (Or.inr ⟨hstays, hb⟩), hsame⟩
  · intro b hb
    rcases (live?_of_rename hcommand hsecond).mp hb with
      ⟨old, hold, hkey, hlive⟩ | ⟨hstays, hlive⟩
    · obtain ⟨a, ha⟩ := (h.live?_iff old).mpr ⟨b, hlive⟩
      rw [← hcarried] at hold
      exact ⟨a, (live?_of_rename hcommand hfirst).mpr (Or.inl ⟨old, hold, hkey, ha⟩)⟩
    · obtain ⟨a, ha⟩ := (h.live?_iff key).mpr ⟨b, hlive⟩
      rw [← hcarried] at hstays
      exact ⟨a, (live?_of_rename hcommand hfirst).mpr (Or.inr ⟨hstays, ha⟩)⟩

/-- A node moved from one key has the same path afterwards, one moved from several keys
strays, and one that is not moved stays as it was. -/
theorem paths_rename (hsame : same a b) :
    ((first.serve call).node a).path = ((second.serve call).node b).path ∨
      call.strays first loose a ((first.serve call).node a).path ∧
        call.strays first loose a ((second.serve call).node b).path := by
  have hcarried := h.carried_eq call.request.path
  have hheld : ∀ {key : Path}, first.volume.table.live? key = some a ↔
      second.volume.table.live? key = some b := h.held_iff hsame
  by_cases hmoved : ∃ key ∈ first.volume.carried first.heap call.request.path,
      first.volume.table.live? key = some a
  · obtain ⟨key, hkey, hlive⟩ := hmoved
    obtain ⟨last, hlast, hnamed, hpath⟩ := path_of_carried hcommand hfirst hkey hlive
    obtain ⟨last', hlast', hnamed', hpath'⟩ :=
      path_of_carried hcommand hsecond (hcarried ▸ hkey) (hheld.mp hlive)
    rw [hpath, hpath']
    by_cases hone : last = last'
    · exact Or.inl (by rw [hone])
    · have hmoves : call.Moves first a last := ⟨hcommand, ⟨reply, hfirst⟩, hlast, hnamed⟩
      have hmoves' : call.Moves first a last' :=
        ⟨hcommand, ⟨reply, hfirst⟩, hcarried ▸ hlast', hheld.mpr hnamed'⟩
      exact Or.inr ⟨Or.inl ⟨last, last', hone, hmoves, hmoves', rfl⟩,
        Or.inl ⟨last', last, Ne.symm hone, hmoves', hmoves, rfl⟩⟩
  · have hstays : ∀ key ∈ first.volume.carried first.heap call.request.path,
        first.volume.table.live? key ≠ some a :=
      fun key hkey hlive => hmoved ⟨key, hkey, hlive⟩
    have hstays' : ∀ key ∈ second.volume.carried second.heap call.request.path,
        second.volume.table.live? key ≠ some b :=
      fun key hkey hlive => hmoved ⟨key, hcarried ▸ hkey, hheld.mpr hlive⟩
    have hnot : ∀ key, ¬call.Moves first a key :=
      fun key hmoves => hstays key hmoves.2.2.1 hmoves.2.2.2
    rw [path_of_not_carried hcommand hfirst hstays,
      path_of_not_carried hcommand hsecond hstays']
    rcases h.paths a b hsame with hpath | ⟨hloose, hloose'⟩
    · exact Or.inl hpath
    · exact Or.inr ⟨Or.inr ⟨hloose, hnot⟩, Or.inr ⟨hloose', hnot⟩⟩

/-- A rename keeps peers, with the nodes that stray for loose ones. -/
theorem rename_served : Peers same (call.strays first loose) (first.serve call)
    (second.serve call) where
  live := h.live_rename hcommand hfirst hsecond
  biunique := h.biunique
  nodes := by
    intro a b hsame
    rw [node_of_rename hcommand hfirst a, node_of_rename hcommand hsecond b]
    exact ⟨(h.nodes a b hsame).isDirectory, (h.nodes a b hsame).target,
      (h.nodes a b hsame).content⟩
  paths := fun a b hsame => h.paths_rename hcommand hfirst hsecond hsame
  sound := sound_serve h.sound call
  sound' := sound_serve h.sound' call
  settings := by
    rw [settings_serve, settings_serve, h.settings]
  root := by
    rw [root_serve, root_serve]
    exact h.root
  made := by
    intro a b hsame
    obtain ⟨ha, hb⟩ := h.made a b hsame
    exact ⟨Nat.lt_of_lt_of_le ha (sound_run h.sound [call]).2.2.size,
      Nat.lt_of_lt_of_le hb (sound_run h.sound' [call]).2.2.size⟩
  files := by
    intro a path hstrays
    have hkeeps : first.heap.Keeps (first.serve call).heap := (sound_run h.sound [call]).2.2
    have hbefore : a.index < first.heap.size ∧ (first.node a).isFile = true := by
      rcases hstrays with ⟨key, other, hne, hkey, hother, -⟩ | ⟨hloose, -⟩
      · refine ⟨h.sound.made_of_live? hkey.2.2.2, ?_⟩
        -- Whatever is no regular file stands under its own path only.
        by_contra hfile
        have hkind : (first.heap.get a).isFile = false := Bool.eq_false_iff.mpr hfile
        have hpath := h.sound.ownPath key a hkey.2.2.2 hkind
        exact hne (hpath.symm.trans (h.sound.ownPath other a hother.2.2.2 hkind))
      · exact h.files a path hloose
    exact ⟨Nat.lt_of_lt_of_le hbefore.1 hkeeps.size,
      (hkeeps.isFile hbefore.1).trans hbefore.2⟩

end

/-! ### Runs -/

/-- Refused calls keep peers. -/
theorem serve_refused {refusal other : Refusal}
    (hfirst : call.answer first = .error refusal)
    (hsecond : call.answer second = .error other) :
    Peers same (call.strays first loose) (first.serve call) (second.serve call) := by
  have hnot : ∀ id key, ¬call.Moves first id key := by
    rintro id key ⟨-, ⟨reply, hreply⟩, -⟩
    rw [hfirst] at hreply
    cases hreply
  obtain ⟨hvolume, hheap⟩ := served_of_answer_error h.sound.toCalm hfirst
  obtain ⟨hvolume', hheap'⟩ := served_of_answer_error h.sound'.toCalm hsecond
  rw [Call.strays_of_not_moves hnot]
  exact h.congr hvolume hheap hvolume' hheap'

/-- Answered calls keep peers, with the node that they make, if any. -/
theorem serve_answered {reply answer : Reply}
    (hfirst : (call.plan first.volume first.heap).outcome = .ok (reply, change))
    (hsecond : (call.plan second.volume second.heap).outcome = .ok (answer, other))
    (hkindred : Change.Kindred same first second change other) :
    Peers (change.grown same first second) (call.strays first loose) (first.serve call)
      (second.serve call) := by
  have hmakes := Call.makes_of_plan hfirst
  by_cases hcommand : call.Commands .rename
  · obtain ⟨moves, rfl⟩ := hmakes.of_rename hcommand
    have hanswer := answer_calm h.sound.toCalm call
    have hanswer' := answer_calm h.sound'.toCalm call
    simp only [hfirst] at hanswer
    simp only [hsecond] at hanswer'
    exact h.rename_served hcommand hanswer hanswer'
  · have hmove : ∀ source target moves, change ≠ .move source target moves :=
      fun source target moves hchange => hcommand (hmakes.commands_rename hchange)
    have hnot : ∀ id key, ¬call.Moves first id key := fun _ _ hmoves => hcommand hmoves.1
    have hserve := serve_calm h.sound.toCalm call
    have hserve' := serve_calm h.sound'.toCalm call
    simp only [hfirst] at hserve
    simp only [hsecond] at hserve'
    have hcommitted := h.commit hkindred hmove (Call.permitted_of_plan hfirst)
      (Call.permitted_of_plan hsecond)
    rw [Call.strays_of_not_moves hnot]
    exact hcommitted.congr hserve.1 hserve.2 hserve'.1 hserve'.2

/-- Peers answer a call alike and stay peers. -/
theorem serve (call : Call) :
    ∃ grown : NodeId → NodeId → Prop, first.Widens second same grown ∧
      Peers grown (call.strays first loose) (first.serve call) (second.serve call) ∧
      Matches (Refusal.Alike call same loose first second) (Reply.Alike grown)
        (call.answer first) (call.answer second) := by
  have hanswer := answer_calm h.sound.toCalm call
  have hanswer' := answer_calm h.sound'.toCalm call
  rcases Matches.cases (h.plan call) with
    ⟨fault, twin, hplan, hplan', hakin⟩ | ⟨⟨reply, change⟩, ⟨answer, other⟩, hplan, hplan', hlike⟩
  · simp only [hplan] at hanswer
    simp only [hplan'] at hanswer'
    refine ⟨same, .refl, h.serve_refused hanswer hanswer', ?_⟩
    rw [hanswer, hanswer']
    exact hakin.refusal
  · simp only [hplan] at hanswer
    simp only [hplan'] at hanswer'
    refine ⟨change.grown same first second, Change.widens_grown,
      h.serve_answered hplan hplan' hlike.change, ?_⟩
    rw [hanswer, hanswer']
    exact hlike.reply

omit h in
/-- Peers stay so through a run, and one correspondence of the nodes holds of all its
states and answers. -/
theorem run (h : Peers same loose first second) (calls : List Call) :
    ∃ after : NodeId → NodeId → Prop, first.Widens second same after ∧
      Relator.BiUnique after ∧
      (∀ earlier rest, calls = earlier ++ rest →
        (first.run earlier).Corresponds after (first.straysFrom loose earlier)
          (second.run earlier)) ∧
      ∀ earlier call rest, calls = earlier ++ call :: rest →
        Matches (Refusal.Alike call after (first.straysFrom loose earlier)
            (first.run earlier) (second.run earlier)) (Reply.Alike after)
          (call.answer (first.run earlier)) (call.answer (second.run earlier)) := by
  -- The correspondence that the whole run ends with is wider than those in between, and
  -- so it holds of every state on the way.
  induction calls generalizing same loose first second with
  | nil =>
      refine ⟨same, .refl, h.biunique, ?_, ?_⟩
      · intro earlier rest hsplit
        obtain ⟨rfl, rfl⟩ := List.nil_eq_append_iff.mp hsplit
        exact h.toCorresponds
      · intro earlier call rest hsplit
        cases earlier <;> cases hsplit
  | cons head tail ih =>
      obtain ⟨grown, hgrown, hpeers, hmatches⟩ := h.serve head
      obtain ⟨after, hafter, hunique, hstates, hanswers⟩ := ih hpeers
      have hwidens : first.Widens second same after :=
        hgrown.trans hafter (sound_run h.sound [head]).2.2.size
          (sound_run h.sound' [head]).2.2.size
      refine ⟨after, hwidens, hunique, ?_, ?_⟩
      · intro earlier rest hsplit
        cases earlier with
        | nil => exact h.corresponds_of_widens hwidens hunique
        | cons call earlier =>
            obtain ⟨rfl, hrest⟩ := List.cons.inj hsplit
            exact hstates earlier rest hrest
      · intro earlier call rest hsplit
        cases earlier with
        | nil =>
            obtain ⟨rfl, -⟩ := List.cons.inj hsplit
            exact hmatches.imp (fun _ _ halike => halike.mono hwidens.known)
              fun _ _ halike => halike.mono hafter.known
        | cons first earlier =>
            obtain ⟨rfl, hrest⟩ := List.cons.inj hsplit
            exact hanswers earlier call rest hrest

end Peers

/-- Nodes that stand under one path in two states. -/
def Together (first second : State) (a b : NodeId) : Prop :=
  ∃ path, first.volume.live? path = some a ∧ second.volume.live? path = some b

/-- No call gives the root a content: what is cut is a regular file. -/
theorem content_root (settings : Settings) (calls : List Call) :
    let state := (start settings).run calls
    (state.heap.get state.volume.root).content = [] := by
  have hall := run_calm_induction
    (motive := fun volume heap => volume.Sound heap ∧ (heap.get volume.root).content = [])
    (fun _ _ hall => hall.1.toCalm) ?_ ⟨sound_start settings, rfl⟩ calls
  · exact hall.2
  · rintro state change ⟨hsound, hempty⟩ hchange
    refine ⟨(sound_commit hsound hchange).1, ?_⟩
    have hnode := node_commit_of_made change hsound.root_made
    unfold node at hnode
    rw [root_commit, hnode]
    cases hchange with
    | @rewrite _ id _ _ leads cut =>
        have hother : state.volume.root ≠ id := by
          rintro rfl
          have hfile := (Node.truncate_eq_ok cut).1
          simp [Node.isFile, hsound.root_isDirectory] at hfile
        simp only [if_neg hother]
        exact hempty
    | keep | file | directory | link | share | move | remove => exact hempty

section

variable (h : first.Corresponds same (fun _ _ => False) second)

include h

/-- Nodes that stand together are the two roots, or stand under one key and correspond. -/
theorem Corresponds.together_cases (htogether : first.Together second a b) :
    (a = first.volume.root ∧ b = second.volume.root) ∨
      ∃ path, first.volume.table.live? path = some a ∧
        second.volume.table.live? path = some b ∧ same a b := by
  obtain ⟨path, hfirst, hsecond⟩ := htogether
  by_cases hroot : path = Path.root
  · rw [hroot, Volume.live?_root] at hfirst hsecond
    cases hfirst
    cases hsecond
    exact Or.inl ⟨rfl, rfl⟩
  · rw [Volume.live?_of_ne_root hroot] at hfirst hsecond
    obtain ⟨twin, htwin, hsame⟩ := h.twin hfirst
    rw [hsecond] at htwin
    cases htwin
    exact Or.inr ⟨path, hfirst, hsecond, hsame⟩

/-- No key has the root, so the roots correspond to each other only. -/
theorem Corresponds.biunique_together (hsound : first.volume.Sound first.heap)
    (hsound' : second.volume.Sound second.heap) :
    Relator.BiUnique (first.Together second) := by
  constructor
  · intro a b c ha hb
    rcases h.together_cases ha with ⟨rfl, rfl⟩ | ⟨_, -, hheld, hsame⟩
    · rcases h.together_cases hb with ⟨rfl, -⟩ | ⟨_, -, hheld, -⟩
      · rfl
      · exact absurd rfl (hsound'.ne_root hheld)
    · rcases h.together_cases hb with ⟨rfl, rfl⟩ | ⟨_, -, -, hother⟩
      · exact absurd rfl (hsound'.ne_root hheld)
      · exact h.biunique.1 hsame hother
  · intro a b c hb hc
    rcases h.together_cases hb with ⟨rfl, rfl⟩ | ⟨_, hheld, -, hsame⟩
    · rcases h.together_cases hc with ⟨-, rfl⟩ | ⟨_, hheld, -, -⟩
      · rfl
      · exact absurd rfl (hsound.ne_root hheld)
    · rcases h.together_cases hc with ⟨rfl, rfl⟩ | ⟨_, -, -, hother⟩
      · exact absurd rfl (hsound.ne_root hheld)
      · exact h.biunique.2 hsame hother

end

/-- Reachable states whose entries correspond, with the same paths, are peers. -/
theorem Corresponds.peers {settings : Settings} {calls others : List Call}
    (h : ((start settings).run calls).Corresponds same (fun _ _ => False)
      ((start settings).run others)) :
    Peers (Together ((start settings).run calls) ((start settings).run others))
      (fun _ _ => False) ((start settings).run calls) ((start settings).run others) := by
  obtain ⟨hsound, -, -⟩ := sound_run (sound_start settings) calls
  obtain ⟨hsound', -, -⟩ := sound_run (sound_start settings) others
  have hcontent := content_root settings calls
  have hcontent' := content_root settings others
  have hsettings : ((start settings).run calls).volume.settings =
      ((start settings).run others).volume.settings := by
    rw [settings_run, settings_run]
  generalize (start settings).run calls = first, (start settings).run others = second
    at h hsound hsound' hcontent hcontent' hsettings
  refine
    { live := ?_
      biunique := h.biunique_together hsound hsound'
      nodes := ?_
      paths := ?_
      sound := hsound
      sound' := hsound'
      settings := hsettings
      root := ⟨Path.root, Volume.live?_root, Volume.live?_root⟩
      made := ?_
      files := fun _ _ hloose => hloose.elim }
  · intro path
    rcases h.table_cases path with ⟨hnone, hnone'⟩ | ⟨a, b, hfirst, hsecond, -⟩
    · rw [hnone, hnone']
      exact .none
    · have hroot : path ≠ Path.root := (hsound.rooted path a hfirst).ne_root
      rw [hfirst, hsecond]
      refine .some ⟨path, ?_, ?_⟩
      · rwa [Volume.live?_of_ne_root hroot]
      · rwa [Volume.live?_of_ne_root hroot]
  · intro a b htogether
    rcases h.together_cases htogether with ⟨rfl, rfl⟩ | ⟨_, -, -, hsame⟩
    · exact ⟨hsound.root_isDirectory.trans hsound'.root_isDirectory.symm,
        hsound.root_target.trans hsound'.root_target.symm, hcontent.trans hcontent'.symm⟩
    · exact h.nodes a b hsame
  · intro a b htogether
    rcases h.together_cases htogether with ⟨rfl, rfl⟩ | ⟨_, -, -, hsame⟩
    · exact Or.inl (hsound.root_path.trans hsound'.root_path.symm)
    · exact h.paths a b hsame
  · rintro a b ⟨path, hfirst, hsecond⟩
    exact ⟨hsound.made path a hfirst, hsound'.made path b hsecond⟩

/-- Of the order of the entries little can be told. If two reachable states of stores with
the same settings have corresponding entries in any order, over nodes of the same paths,
then through every run of calls one correspondence of nodes holds: after each call the
entries of the two states correspond, over nodes of the same kinds, contents and paths; and
each call gives corresponding nodes in the same order, or is refused with the same class,
number, message and path. Only a file that the last rename to move it has moved from
several of its keys may have one of its new keys as its path in the one state and another
in the other, and shows it in a refusal where it is in the way of a directory; and a rename
that finds several new keys occupied may name another one of them. -/
theorem order_shows_in_strays (settings : Settings) (calls others later : List Call)
    (same : NodeId → NodeId → Prop)
    (h : ((start settings).run calls).Corresponds same (fun _ _ => False)
      ((start settings).run others)) :
    let first := (start settings).run calls
    let second := (start settings).run others
    ∃ after : NodeId → NodeId → Prop,
      (∀ path a b, first.volume.live? path = some a → second.volume.live? path = some b →
        after a b) ∧
      (∀ earlier rest, later = earlier ++ rest →
        (first.run earlier).Corresponds after (first.strays earlier) (second.run earlier)) ∧
      ∀ earlier call rest, later = earlier ++ call :: rest →
        Matches (Refusal.Alike call after (first.strays earlier) (first.run earlier)
            (second.run earlier)) (Reply.Alike after)
          (call.answer (first.run earlier)) (call.answer (second.run earlier)) := by
  intro first second
  obtain ⟨after, hwidens, -, hstates, hanswers⟩ := h.peers.run later
  exact ⟨after, fun path a b ha hb => hwidens.known a b ⟨path, ha, hb⟩, hstates, hanswers⟩

/-- One more name for the file. -/
def linkedAt (target : Path) : Call :=
  ⟨.command, { method := .link, path := ['/', 'a'], target }⟩

/-- Two more names for the file in a directory where they stand under two slashes in a
row. -/
def doubledNames : List Call :=
  [⟨.command, { method := .mkdir, path := ['/', 'f'] }⟩,
    linkedAt ['/', 'f', '/', '/', 'b'], linkedAt ['/', 'f', '/', '/', 'c']]

/-- A file with names in two directories. -/
def manyNames : State :=
  (start {}).run ([fileMade, directoryMade, fileLinked, linkedAt ['/', 'd', '/', 'c']] ++
    doubledNames)

/-- The same file with the same names, two of them given in the other order. -/
def reorderedNames : State :=
  (start {}).run ([fileMade, directoryMade, linkedAt ['/', 'd', '/', 'c'], fileLinked] ++
    doubledNames)

theorem manyNames_corresponds : manyNames.Corresponds Eq (fun _ _ => False) reorderedNames := by
  have hheap : manyNames.heap = reorderedNames.heap := by decide +kernel
  have hlive : manyNames.volume.table.live.Perm reorderedNames.volume.table.live := by
    decide +kernel
  refine ⟨fun path => ?_, ⟨?_, ?_⟩, ?_, ?_⟩
  · have heq : manyNames.volume.table.live? path = reorderedNames.volume.table.live? path := by
      ext id
      exact Table.mem_live.symm.trans (hlive.mem_iff.trans Table.mem_live)
    rw [heq]
    cases reorderedNames.volume.table.live? path with
    | none => exact .none
    | some id => exact .some rfl
  · rintro _ _ _ rfl rfl
    rfl
  · rintro _ _ _ rfl rfl
    rfl
  · rintro id _ rfl
    unfold node
    rw [hheap]
    exact ⟨rfl, rfl, rfl⟩
  · rintro id _ rfl
    unfold node
    rw [hheap]
    exact Or.inl rfl

/-- A rename gives the file the last of its new names for its path, which another call
tells; and of two names in its way a rename tells the first. -/
theorem order_told_by_renames :
    let below : Call := ⟨.command, { method := .mkdir, path := ['/', 'e', '/', 'b', '/', 'x'] }⟩
    let clashing : Call :=
      ⟨.command, { method := .rename, path := ['/', 'd'], target := ['/', 'f', '/'] }⟩
    let first := manyNames.serve directoryRenamed
    let second := reorderedNames.serve directoryRenamed
    manyNames.Corresponds Eq (fun _ _ => False) reorderedNames ∧
      manyNames.volume.table.live ≠ reorderedNames.volume.table.live ∧
      directoryRenamed.answer manyNames = .ok .done ∧
      directoryRenamed.answer reorderedNames = .ok .done ∧
      (∀ after, ¬first.Corresponds after (fun _ _ => False) second) ∧
      below.answer first = .error (.fault (.notADirectory ['/', 'e', '/', 'c'])) ∧
      below.answer second = .error (.fault (.notADirectory ['/', 'e', '/', 'b'])) ∧
      clashing.answer manyNames = .error (.fault (.alreadyExists ['/', 'f', '/', '/', 'b'])) ∧
      clashing.answer reorderedNames =
        .error (.fault (.alreadyExists ['/', 'f', '/', '/', 'c'])) := by
  intro below clashing first second
  refine ⟨manyNames_corresponds, by decide +kernel, by decide +kernel, by decide +kernel, ?_,
    by decide +kernel, by decide +kernel, by decide +kernel, by decide +kernel⟩
  intro after hcontra
  have hfirst : first.volume.table.live? ['/', 'e', '/', 'b'] = some ⟨1⟩ := by decide +kernel
  obtain ⟨twin, hsecond, hsame⟩ := hcontra.twin hfirst
  obtain rfl : twin = ⟨1⟩ := by
    have hheld : second.volume.table.live? ['/', 'e', '/', 'b'] = some ⟨1⟩ := by
      decide +kernel
    exact Option.some.inj (hsecond.symm.trans hheld)
  rcases hcontra.paths _ _ hsame with hpath | ⟨hloose, -⟩
  · revert hpath
    decide +kernel
  · exact hloose

/-- The new keys of the file are the paths that it may have after the rename, and over
these paths the two states correspond. -/
theorem file_strays_when_renamed :
    let strays := manyNames.strays [directoryRenamed]
    strays ⟨1⟩ ['/', 'e', '/', 'c'] ∧ strays ⟨1⟩ ['/', 'e', '/', 'b'] ∧
      ∃ after : NodeId → NodeId → Prop, after ⟨1⟩ ⟨1⟩ ∧
        (manyNames.run [directoryRenamed]).Corresponds after strays
          (reorderedNames.run [directoryRenamed]) := by
  intro strays
  obtain ⟨after, hafter, hstates, -⟩ :=
    order_shows_in_strays {} _ _ [directoryRenamed] Eq manyNames_corresponds
  have hsame : after ⟨1⟩ ⟨1⟩ :=
    hafter ['/', 'a'] ⟨1⟩ ⟨1⟩ (by decide +kernel) (by decide +kernel)
  have hrun := hstates [directoryRenamed] [] rfl
  have hfirst : ((manyNames.run [directoryRenamed]).node ⟨1⟩).path = ['/', 'e', '/', 'c'] := by
    decide +kernel
  have hsecond : ((reorderedNames.run [directoryRenamed]).node ⟨1⟩).path =
      ['/', 'e', '/', 'b'] := by decide +kernel
  rcases hrun.paths _ _ hsame with hpath | ⟨hloose, hloose'⟩
  · cases hfirst.symm.trans (hpath.trans hsecond)
  · exact ⟨hfirst ▸ hloose, hsecond ▸ hloose', after, hsame, hrun⟩

end State

end FlatTree
