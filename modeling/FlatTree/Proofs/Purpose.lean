import FlatTree.Proofs.Representation

/-!
What a call is for. Which change a call makes hangs on its service and method
alone (`Call.Makes`): a command makes the change that its method names, and
writing makes a file when its path is free. Together with the checks that were
passed on the way (`Change.Permitted`) this says all that a call can do, so what
follows goes by cases over it and opens no plan again.
-/

namespace FlatTree

/-- The call is a command with the method. -/
def Call.Commands (call : Call) (method : Method) : Prop :=
  call.service = .command ∧ call.request.method = method

/-- The call is a command that removes the entry of its path. -/
def Call.Removes (call : Call) : Prop := call.Commands .remove ∨ call.Commands .rmdir

/-- The call opens its path for writing. -/
def Call.Writes (call : Call) : Prop := call.service = .write ∨ call.service = .openFile

instance (call : Call) (method : Method) : Decidable (call.Commands method) :=
  inferInstanceAs (Decidable (_ ∧ _))

instance (call : Call) : Decidable call.Removes := inferInstanceAs (Decidable (_ ∨ _))

instance (call : Call) : Decidable call.Writes := inferInstanceAs (Decidable (_ ∨ _))

/-- No call is a command with two methods. -/
theorem Call.Commands.method_eq {call : Call} {method other : Method}
    (h : call.Commands method) (h' : call.Commands other) : method = other :=
  h.2.symm.trans h'.2

/-- The change that a command is for, by its method. -/
def Request.Enacts (request : Request) (change : Change) : Prop :=
  match request.method with
  | .setstat => change = .keep ∨ ∃ id node, change = .rewrite id node
  | .rename => ∃ moves, change = .move request.path request.target moves
  | .rmdir | .remove => change = .remove request.path
  | .mkdir =>
      change = .add { path := request.path, isDirectory := true }
        (.directoryCreated request.path)
  | .link => ∃ id, change = .share request.target request.path id
  | .symlink =>
      change = .add { path := request.target, target := request.path }
        (.symlinked request.target request.path)
  | _ => False

/-- The reply and the change of an answered call, by what the call is for. -/
def Call.Makes (call : Call) (volume : Volume) (heap : Heap) (reply : Reply)
    (change : Change) : Prop :=
  match call.service with
  | .read | .list | .lstat => change = .keep
  | .write | .openFile =>
      (volume.live? call.request.path ≠ none ∧ change = .keep) ∨
        (reply = .node ⟨heap.size⟩ ∧
          change = .add { path := call.request.path } (.fileCreated call.request.path))
  | .command => call.request.Enacts change

namespace Plan

open Query

variable {volume : Volume} {heap : Heap} {path target : Path} {change : Change}
  {reply : Reply}

theorem change_setstat {request : Request}
    (h : ((setstat request) volume heap).outcome = .ok change) :
    change = .keep ∨ ∃ id node, change = .rewrite id node := by
  simp only [setstat, outcome_bind_eq_ok] at h
  obtain ⟨id, -, hrest⟩ := h
  split at hrest
  · rcases hsize : request.attributes.size with _ | (size | _)
    · simp only [hsize] at hrest
      cases hrest
    · simp only [hsize, outcome_bind_eq_ok] at hrest
      obtain ⟨_, -, cut, -, hpure⟩ := hrest
      cases hpure
      exact Or.inr ⟨id, cut, rfl⟩
    · simp only [hsize] at hrest
      cases hrest
  · cases hrest
    exact Or.inl rfl

/-- Setting a size cuts the node that the path leads to. -/
theorem outcome_setstat {request : Request} {id : NodeId} {size : Int}
    (hleads : volume.Leads heap request.path id)
    (hflag : request.attributes.hasSize = true)
    (hsize : request.attributes.size = some (.whole size)) :
    ((setstat request) volume heap).outcome =
      match (heap.get id).truncate size with
      | .error fault => .error fault
      | .ok cut => .ok (.rewrite id cut) := by
  unfold setstat
  rw [outcome_bind, outcome_resolve_eq_ok.mpr hleads]
  simp only [hflag, hsize, if_true, outcome_bind, Query.node, orRefuse]
  cases (heap.get id).truncate size with
  | error fault => rfl
  | ok cut => rfl

theorem change_rename {source : Path}
    (h : ((rename source target) volume heap).outcome = .ok change) :
    ∃ moves, change = .move source target moves := by
  unfold rename at h
  split at h
  · cases h
  · simp only [outcome_bind_eq_ok] at h
    obtain ⟨id, -, _, -, node, -, hrest⟩ := h
    split at hrest
    · cases hrest
    · simp only [outcome_bind_eq_ok, outcome_volume_eq_ok] at hrest
      obtain ⟨_, -, _, rfl, _, rfl, hmoves⟩ := hrest
      cases hfound : (volume.moves id node.isDirectory source target).tail.find?
          fun move => volume.occupied move.target with
      | some move =>
        simp only [hfound] at hmoves
        cases hmoves
      | none =>
        simp only [hfound] at hmoves
        cases hmoves
        exact ⟨_, rfl⟩

theorem change_remove (h : ((remove path) volume heap).outcome = .ok change) :
    change = .remove path := by
  unfold remove at h
  split at h
  · cases h
  · simp only [outcome_bind_eq_ok] at h
    obtain ⟨_, -, _, -, _, -, hrest⟩ := h
    split at hrest
    · cases hrest
    · cases hrest
      rfl

theorem change_mkdir (h : ((mkdir path) volume heap).outcome = .ok change) :
    change = .add { path, isDirectory := true } (.directoryCreated path) := by
  simp only [mkdir, outcome_bind_eq_ok] at h
  obtain ⟨_, -, _, -, hpure⟩ := h
  cases hpure
  rfl

theorem change_link (h : ((link path target) volume heap).outcome = .ok change) :
    ∃ id, change = .share target path id := by
  simp only [link, outcome_bind_eq_ok] at h
  obtain ⟨id, -, _, -, hrest⟩ := h
  split at hrest
  · cases hrest
  · simp only [outcome_bind_eq_ok] at hrest
    obtain ⟨_, -, _, -, hpure⟩ := hrest
    cases hpure
    exact ⟨id, rfl⟩

theorem change_symlink (h : ((symlink path target) volume heap).outcome = .ok change) :
    change = .add { path := target, target := path } (.symlinked target path) := by
  simp only [symlink, outcome_bind_eq_ok] at h
  obtain ⟨_, -, _, -, _, -, hpure⟩ := h
  cases hpure
  rfl

/-- Writing makes a file under a free path, and changes nothing if the path has
a node. -/
theorem change_openToWrite
    (h : ((openToWrite path) volume heap).outcome = .ok (reply, change)) :
    (volume.live? path ≠ none ∧ change = .keep) ∨
      (reply = .node ⟨heap.size⟩ ∧ change = .add { path } (.fileCreated path)) := by
  simp only [openToWrite, outcome_bind_eq_ok, outcome_seek_eq_ok] at h
  obtain ⟨found, hfound, hrest⟩ := h
  cases found with
  | none =>
      simp only [createFile, outcome_bind_eq_ok] at hrest
      obtain ⟨_, -, _, -, hrest⟩ := hrest
      split at hrest
      · simp only [outcome_bind_eq_ok] at hrest
        obtain ⟨made, hmade, hpure⟩ := hrest
        cases hmade
        cases hpure
        exact Or.inr ⟨rfl, rfl⟩
      · cases hrest
  | some id =>
      left
      refine ⟨by rw [hfound]; exact Option.some_ne_none id, ?_⟩
      simp only [outcome_bind_eq_ok] at hrest
      obtain ⟨_, -, hrest⟩ := hrest
      split at hrest <;>
        · simp only [outcome_bind_eq_ok] at hrest
          obtain ⟨_, -, _, -, hpure⟩ := hrest
          cases hpure
          rfl

theorem change_list {method : Method}
    (h : ((list method path) volume heap).outcome = .ok (reply, change)) :
    change = .keep := by
  simp only [list, outcome_bind_eq_ok] at h
  obtain ⟨id, -, hrest⟩ := h
  cases method <;> simp only at hrest
  case list =>
    simp only [outcome_bind_eq_ok] at hrest
    obtain ⟨_, -, hrest⟩ := hrest
    split at hrest
    · simp only [outcome_bind_eq_ok] at hrest
      obtain ⟨_, -, hpure⟩ := hrest
      cases hpure
      rfl
    · cases hrest
  case stat | readlink =>
    cases hrest
    rfl
  all_goals cases hrest

end Plan

/-- An answered command makes the change that its method names. -/
theorem Plan.enacts_of_perform {request : Request} {volume : Volume} {heap : Heap}
    {change : Change} (h : ((Plan.perform request) volume heap).outcome = .ok change) :
    request.Enacts change := by
  unfold Plan.perform at h
  unfold Request.Enacts
  cases hmethod : request.method <;> simp only [hmethod] at h ⊢
  case setstat => exact Plan.change_setstat h
  case rename => exact Plan.change_rename h
  case rmdir | remove => exact Plan.change_remove h
  case mkdir => exact Plan.change_mkdir h
  case link => exact Plan.change_link h
  case symlink => exact Plan.change_symlink h
  all_goals cases h

section

variable {call : Call} {volume : Volume} {heap : Heap} {reply : Reply} {change : Change}

/-- An answered call makes a change that it is for. -/
theorem Call.makes_of_plan (h : (call.plan volume heap).outcome = .ok (reply, change)) :
    call.Makes volume heap reply change := by
  unfold Call.plan at h
  unfold Call.Makes
  cases hservice : call.service <;> simp only [hservice] at h ⊢
  case read =>
    simp only [Plan.openToRead, Query.outcome_bind_eq_ok] at h
    obtain ⟨_, -, _, -, hpure⟩ := h
    cases hpure
    rfl
  case write | openFile => exact Plan.change_openToWrite h
  case list => exact Plan.change_list h
  case lstat =>
    simp only [Plan.lstat, Query.outcome_bind_eq_ok] at h
    obtain ⟨_, -, hpure⟩ := h
    cases hpure
    rfl
  case command =>
    simp only [Query.outcome_bind_eq_ok] at h
    obtain ⟨planned, hplanned, hpure⟩ := h
    cases hpure
    exact Plan.enacts_of_perform hplanned

namespace Call.Makes

variable (h : call.Makes volume heap reply change)

include h

/-- A command with a method has made the change of the method. -/
theorem enacts {method : Method} (hcommand : call.Commands method) :
    call.request.Enacts change := by
  unfold Makes at h
  rw [hcommand.1] at h
  exact h

theorem of_rename (hcommand : call.Commands .rename) :
    ∃ moves, change = .move call.request.path call.request.target moves := by
  have henacts := h.enacts hcommand
  unfold Request.Enacts at henacts
  rw [hcommand.2] at henacts
  exact henacts

theorem of_link (hcommand : call.Commands .link) :
    ∃ id, change = .share call.request.target call.request.path id := by
  have henacts := h.enacts hcommand
  unfold Request.Enacts at henacts
  rw [hcommand.2] at henacts
  exact henacts

theorem of_removes (hremove : call.Removes) : change = .remove call.request.path := by
  rcases hremove with hcommand | hcommand <;>
    · have henacts := h.enacts hcommand
      unfold Request.Enacts at henacts
      rw [hcommand.2] at henacts
      exact henacts

/-- Only a rename moves entries. -/
theorem commands_rename {source target : Path} {moves : List Move}
    (hchange : change = .move source target moves) : call.Commands .rename := by
  subst hchange
  unfold Makes at h
  cases hservice : call.service <;> simp only [hservice, reduceCtorEq, and_false, or_self] at h
  unfold Request.Enacts at h
  cases hmethod : call.request.method <;> simp [hmethod] at h
  exact ⟨hservice, hmethod⟩

/-- Only a hard link puts a node that exists under another key. -/
theorem commands_link {target path : Path} {id : NodeId}
    (hchange : change = .share target path id) : call.Commands .link := by
  subst hchange
  unfold Makes at h
  cases hservice : call.service <;> simp only [hservice, reduceCtorEq, and_false, or_self] at h
  unfold Request.Enacts at h
  cases hmethod : call.request.method <;> simp [hmethod] at h
  exact ⟨hservice, hmethod⟩

/-- Only setting attributes gives a node another value. -/
theorem commands_setstat {id : NodeId} {node : Node} (hchange : change = .rewrite id node) :
    call.Commands .setstat := by
  subst hchange
  unfold Makes at h
  cases hservice : call.service <;> simp only [hservice, reduceCtorEq, and_false, or_self] at h
  unfold Request.Enacts at h
  cases hmethod : call.request.method <;> simp [hmethod] at h
  exact ⟨hservice, hmethod⟩

/-- Only a removal removes an entry. -/
theorem removes {path : Path} (hchange : change = .remove path) : call.Removes := by
  subst hchange
  unfold Makes at h
  cases hservice : call.service <;> simp only [hservice, reduceCtorEq, and_false, or_self] at h
  unfold Request.Enacts at h
  cases hmethod : call.request.method <;> simp [hmethod] at h
  case rmdir => exact Or.inr ⟨hservice, hmethod⟩
  case remove => exact Or.inl ⟨hservice, hmethod⟩

/-- Only a command for a symbolic link makes a link. -/
theorem isLink_of_add (hsymlink : ¬call.Commands .symlink) {node : Node} {record : Record}
    (hchange : change = .add node record) : node.isLink = false := by
  subst hchange
  unfold Makes at h
  cases hservice : call.service <;>
    simp only [hservice, reduceCtorEq, and_false, false_or] at h
  case write | openFile =>
    cases h.2
    rfl
  case command =>
    unfold Request.Enacts at h
    cases hmethod : call.request.method <;> simp [hmethod] at h
    case mkdir =>
      rw [h.1]
      rfl
    case symlink => exact absurd ⟨hservice, hmethod⟩ hsymlink

end Call.Makes

end

/-- What the checks of a plan have made sure of in the table. -/
def Change.Fits (table : Table) : Change → Prop
  | .add node _ => table.live? node.path = none
  | .share target _ _ => table.live? target = none
  | .move _ _ moves => table.Clear moves
  | .keep | .rewrite _ _ | .remove _ => True

theorem Change.Permitted.fits {volume : Volume} {heap : Heap} {change : Change}
    (h : change.Permitted volume heap) : change.Fits volume.table := by
  cases h with
  | keep => trivial
  | rewrite leads cut => trivial
  | file free held directory => exact Volume.table_free free
  | directory parent free => exact Volume.table_free free
  | link leads free parent => exact Volume.table_free free
  | share leads plain free parent => exact Volume.table_free free
  | move apart held outside parent free =>
      rw [Volume.live?_of_ne_root apart] at held
      exact Volume.clear_moves held fun move member => Volume.table_free (free move member)
  | remove apart leads empty => trivial

namespace State

/-- An answered call has made a permitted change that it is for, from a calm
volume. -/
theorem served_of_answer_ok {state : State} (h : state.volume.Calm) {call : Call}
    {reply : Reply} (hanswer : call.answer state = .ok reply) :
    ∃ change, call.Makes state.volume state.heap reply change ∧
      change.Permitted state.volume state.heap ∧
      (state.serve call).volume = (state.commit change).volume ∧
      (state.serve call).heap = (state.commit change).heap := by
  obtain ⟨change, hplan, hvolume, hheap⟩ := serve_of_answer_ok h hanswer
  exact ⟨change, Call.makes_of_plan hplan, Call.permitted_of_plan hplan, hvolume, hheap⟩

/-- A refused call has changed neither the volume, if it is calm, nor the heap. -/
theorem served_of_answer_error {state : State} (h : state.volume.Calm) {call : Call}
    {refusal : Refusal} (hanswer : call.answer state = .error refusal) :
    (state.serve call).volume = state.volume ∧ (state.serve call).heap = state.heap := by
  rw [answer_calm h] at hanswer
  have hserve := serve_calm h call
  cases houtcome : (call.plan state.volume state.heap).outcome with
  | error fault =>
      rw [houtcome] at hserve
      exact hserve
  | ok planned =>
      rw [houtcome] at hanswer
      cases hanswer

/-- What holds of a calm volume and its heap and is kept by every permitted change
of certain calls holds after every run of such calls. -/
theorem run_makes_induction {motive : Volume → Heap → Prop} {allowed : Call → Prop}
    (calm : ∀ volume heap, motive volume heap → volume.Calm)
    (step : ∀ (state : State) (call : Call) (reply : Reply) (change : Change),
      motive state.volume state.heap → allowed call →
        call.Makes state.volume state.heap reply change →
          change.Permitted state.volume state.heap →
            motive (state.commit change).volume (state.commit change).heap)
    {state : State} (start : motive state.volume state.heap) {calls : List Call}
    (hcalls : ∀ call ∈ calls, allowed call) :
    motive (state.run calls).volume (state.run calls).heap := by
  induction calls generalizing state with
  | nil => exact start
  | cons call rest ih =>
      refine ih ?_ fun other member => hcalls other (List.mem_cons_of_mem call member)
      cases hanswer : call.answer state with
      | error refusal =>
          obtain ⟨hvolume, hheap⟩ := served_of_answer_error (calm _ _ start) hanswer
          rw [hvolume, hheap]
          exact start
      | ok reply =>
          obtain ⟨change, hmakes, hpermitted, hvolume, hheap⟩ :=
            served_of_answer_ok (calm _ _ start) hanswer
          rw [hvolume, hheap]
          exact step state call reply change start (hcalls call List.mem_cons_self) hmakes
            hpermitted

end State

end FlatTree
