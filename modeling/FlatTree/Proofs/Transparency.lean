import FlatTree.Proofs.Catalogue
import FlatTree.Proofs.Descent
import FlatTree.Proofs.Hops
import FlatTree.Proofs.Naming
import FlatTree.Proofs.Opening
import FlatTree.Proofs.Rekeying
import FlatTree.Proofs.Stranding
import FlatTree.Proofs.Visibility

/-!
New symbolic links. A link stands under a key that was free, so no search that found a node
before looks it up, and what its path led to then it leads to afterwards. A search from the
link is the search from that path with one hop more. So every call that follows links does
with the link what it does with the path, as long as the bound leaves a hop; when the chain
of the path is as long as the bound, the link is one too many and every such call is refused.
Calls that do not follow links look up, move or remove the link alone.
-/

namespace FlatTree

/-- The call addressed to another path. -/
def Call.addressedTo (call : Call) (path : Path) : Call :=
  { call with request := { call.request with path } }

/-- The call goes over links from its path to a node and is about that node. -/
def Call.Resolves (call : Call) : Prop :=
  call.service = .read ∨ call.Writes ∨ call.service = .list ∨ call.Commands .setstat

/-- Refusals by errors of one class with one number. -/
def Refusal.SameError (refusal other : Refusal) : Prop :=
  refusal.failure.kind = other.failure.kind ∧ refusal.failure.code = other.failure.code

theorem Refusal.SameError.refl (refusal : Refusal) : refusal.SameError refusal := ⟨rfl, rfl⟩

namespace Volume

variable {volume : Volume} {heap : Heap} {hops : Nat} {path stop : Path} {id : NodeId}

/-- A path that leads to a node does so over a chain that is no longer than the bound. -/
theorem Leads.exists_chain (h : volume.Leads heap path id) :
    ∃ hops stop, (∀ limit, volume.settings.hopBound = some limit → hops ≤ limit) ∧
      volume.chain heap path hops = some stop ∧ volume.ending? heap stop = some (.found id) := by
  obtain ⟨hops, hle, stop, hchain, hend⟩ := (resolution_eq_iff (by simp)).mp h
  refine ⟨hops, stop, ?_, hchain, hend⟩
  intro limit hlimit
  rwa [hlimit] at hle

theorem leads_of_search (h : (volume.search heap hops path).resolution = .found id)
    (hbound : ∀ limit, volume.settings.hopBound = some limit → hops ≤ limit) :
    volume.Leads heap path id := by
  unfold Leads
  rw [resolve_eq_search (by simp [h]) hbound, h]

/-- Every path that a search looks up has a node, unless one went missing. -/
theorem live?_of_mem_search (hfound : ∀ stop, (volume.search heap hops path).resolution ≠ .missing stop)
    (member : stop ∈ (volume.search heap hops path).trail) :
    ∃ held, volume.live? stop = some held := by
  have htrail := volume.search_trail heap hops path
  cases hend : (volume.search heap hops path).resolution with
  | missing other => exact absurd hend (hfound other)
  | found | stopped =>
      rw [hend] at htrail
      exact Option.isSome_iff_exists.mp (htrail stop member)

/-- A search that finds a node or is stopped stays as it is when every path keeps its node. -/
theorem search_of_stays {after : Volume} {other : Heap}
    (hmade : ∀ path id, volume.live? path = some id → id.index < heap.size)
    (hkeeps : heap.Keeps other)
    (hfound : ∀ stop, (volume.search heap hops path).resolution ≠ .missing stop)
    (hstays : ∀ key id, volume.live? key = some id → after.live? key = some id) :
    after.search other hops path = volume.search heap hops path := by
  apply search_of_kept hmade hkeeps
  intro stop member
  obtain ⟨held, hheld⟩ := live?_of_mem_search hfound member
  rw [hheld]
  exact hstays stop held hheld

/-- A search that is stopped was at a link already when it began. -/
theorem isLink_of_stopped (h : (volume.search heap hops path).resolution = .stopped) :
    ∃ held, volume.live? path = some held ∧ (heap.get held).isLink = true := by
  rcases volume.search_cases heap path with
    ⟨-, hend⟩ | ⟨held, -, -, hend⟩ | ⟨held, hlive, hlink, -⟩
  · rw [hend] at h
    cases h
  · rw [hend] at h
    cases h
  · exact ⟨held, hlive, hlink⟩

end Volume

namespace Plan

open Query

variable {volume : Volume} {heap : Heap} {path first second : Path} {id : NodeId}

theorem outcome_resolve_bind {α : Type} (hleads : volume.Leads heap path id)
    (next : NodeId → Query α) :
    ((resolve path >>= next) volume heap).outcome = ((next id) volume heap).outcome := by
  rw [outcome_bind, outcome_resolve_eq_ok.mpr hleads]

theorem outcome_resolve_bind_of_stopped {α : Type}
    (hstopped : (volume.resolve heap path).resolution = .stopped) (next : NodeId → Query α) :
    ((resolve path >>= next) volume heap).outcome = .error (volume.stopFault path) := by
  rw [outcome_bind, resolve]
  simp only [hstopped]

/-- A path that leads to a node is opened for writing as it is opened for reading. -/
theorem outcome_openToWrite_of_leads (hleads : volume.Leads heap path id) :
    ((openToWrite path) volume heap).outcome = ((openToRead path) volume heap).outcome := by
  obtain ⟨held, hheld⟩ := hleads.occupied
  rw [openToWrite, openToRead, outcome_bind, outcome_seek_eq_ok.mpr hheld]
  simp only [outcome_node_bind, outcome_resolve_bind hleads]
  split
  · rw [outcome_resolve_bind hleads]
  · rename_i hlink
    cases hleads.unique (Volume.leads_of_live? hheld (by simpa using hlink))
    rfl

/-- A call that follows links does the same with two paths that lead to one node. Only what
is said of a path that is no directory to list names the path. -/
theorem outcome_addressedTo {call : Call} (hresolves : call.Resolves)
    (hfirst : volume.Leads heap first id) (hsecond : volume.Leads heap second id) :
    Matches (fun fault other => Refusal.SameError (.fault fault) (.fault other)) Eq
      ((call.addressedTo first).plan volume heap).outcome
      ((call.addressedTo second).plan volume heap).outcome := by
  have hrefl : ∀ fault, Refusal.SameError (.fault fault) (.fault fault) :=
    fun fault => .refl (.fault fault)
  have hread : ((openToRead first) volume heap).outcome =
      ((openToRead second) volume heap).outcome := by
    rw [openToRead, openToRead, outcome_resolve_bind hfirst, outcome_resolve_bind hsecond]
  rcases hresolves with hservice | hwrites | hservice | ⟨hservice, hmethod⟩
  · simp only [Call.plan, Call.addressedTo, hservice]
    exact .of_eq hrefl hread
  · have hplan : ∀ path, (call.addressedTo path).Writes := fun _ => hwrites
    rw [Call.plan_of_writes (hplan first), Call.plan_of_writes (hplan second)]
    refine .of_eq hrefl ?_
    simp only [Call.addressedTo]
    rw [outcome_openToWrite_of_leads hfirst, outcome_openToWrite_of_leads hsecond, hread]
  · simp only [Call.plan, Call.addressedTo, hservice, Plan.list]
    rw [outcome_resolve_bind hfirst, outcome_resolve_bind hsecond]
    cases call.request.method with
    | list =>
        simp only [outcome_node_bind]
        split
        · exact .of_eq hrefl rfl
        · exact ⟨rfl, rfl⟩
    | _ => exact .of_eq hrefl rfl
  · simp only [Call.plan, Call.addressedTo, hservice, Plan.perform, hmethod]
    refine .of_eq hrefl ?_
    rw [outcome_bind, outcome_bind, setstat, setstat, outcome_resolve_bind hfirst,
      outcome_resolve_bind hsecond]

/-- A call that follows links is refused when the search from its path is stopped. -/
theorem outcome_of_stopped {call : Call}
    (hresolves : call.Resolves ∨ call.Commands .link ∨ call.Commands .symlink)
    (hstopped : (volume.resolve heap call.request.path).resolution = .stopped) :
    (call.plan volume heap).outcome = .error (volume.stopFault call.request.path) := by
  rcases hresolves with (hservice | hwrites | hservice | ⟨hservice, hmethod⟩) |
    ⟨hservice, hmethod⟩ | ⟨hservice, hmethod⟩
  · simp only [Call.plan, hservice, openToRead]
    exact outcome_resolve_bind_of_stopped hstopped _
  · obtain ⟨held, hheld, hlink⟩ := Volume.isLink_of_stopped hstopped
    rw [Call.plan_of_writes hwrites, openToWrite, outcome_bind, outcome_seek_eq_ok.mpr hheld]
    simp only [outcome_node_bind, if_pos hlink]
    exact outcome_resolve_bind_of_stopped hstopped _
  · simp only [Call.plan, hservice, Plan.list]
    exact outcome_resolve_bind_of_stopped hstopped _
  · simp only [Call.plan, hservice, Plan.perform, hmethod, setstat]
    rw [outcome_bind, outcome_resolve_bind_of_stopped hstopped]
  · simp only [Call.plan, hservice, Plan.perform, hmethod, link]
    rw [outcome_bind, outcome_resolve_bind_of_stopped hstopped]
  · simp only [Call.plan, hservice, Plan.perform, hmethod, symlink]
    rw [outcome_bind, outcome_resolve_bind_of_stopped hstopped]

end Plan

namespace State

variable {state : State} {call other : Call} {path key : Path} {hops : Nat} {id : NodeId}
  {reply : Reply}

open Volume

/-- A call that follows links tells and does the same with two paths that lead to one
node. -/
theorem serve_addressedTo (h : state.volume.Calm) (hresolves : call.Resolves)
    {first second : Path} (hfirst : state.volume.Leads state.heap first id)
    (hsecond : state.volume.Leads state.heap second id) :
    Matches Refusal.SameError Eq ((call.addressedTo first).answer state)
        ((call.addressedTo second).answer state) ∧
      (state.serve (call.addressedTo first)).volume =
        (state.serve (call.addressedTo second)).volume ∧
      (state.serve (call.addressedTo first)).heap =
        (state.serve (call.addressedTo second)).heap := by
  have hserve := serve_calm h (call.addressedTo first)
  have hserve' := serve_calm h (call.addressedTo second)
  rw [answer_calm h, answer_calm h]
  rcases (Plan.outcome_addressedTo hresolves hfirst hsecond).cases with
    ⟨fault, twin, hfault, htwin, hsame⟩ | ⟨found, expected, hfound, hexpected, rfl⟩
  · simp only [hfault] at hserve
    simp only [htwin] at hserve'
    rw [hfault, htwin, hserve.1, hserve.2, hserve'.1, hserve'.2]
    exact ⟨hsame, rfl, rfl⟩
  · simp only [hfound] at hserve
    simp only [hexpected] at hserve'
    rw [hfound, hexpected, hserve.1, hserve.2, hserve'.1, hserve'.2]
    exact ⟨rfl, rfl, rfl⟩

section Displacing

variable {target : Path} {link : NodeId} (h : state.volume.Sound state.heap)
  (htarget : call.request.path = target) (hheld : state.volume.live? target = some link)
  (hkind : (state.node link).isDirectory = false)

include h htarget hheld hkind

/-- What is moved or removed under the path of an entry that is no directory is that entry
alone. -/
theorem live?_of_apart (hne : key ≠ target) (hlive : state.volume.live? key = some id) :
    (state.serve call).volume.live? key = some id := by
  subst htarget
  cases hanswer : call.answer state with
  | error refusal =>
      rw [(served_of_answer_error h.toCalm hanswer).1]
      exact hlive
  | ok reply =>
      rw [live?_serve h hanswer hlive, if_neg]
      rintro (⟨-, hpath⟩ | ⟨-, hcarries⟩)
      · exact hne hpath.symm
      · exact hne ((carries_iff_eq hheld hkind).mp hcarries)

theorem node_of_apart (hdisplacing : call.Removes ∨ call.Commands .rename) (hne : id ≠ link) :
    (state.serve call).node id = state.node id := by
  subst htarget
  cases hanswer : call.answer state with
  | error refusal =>
      unfold node
      rw [(served_of_answer_error h.toCalm hanswer).2]
  | ok reply =>
      rcases hdisplacing with hremove | hrename
      · unfold node
        rw [heap_of_removes h.toCalm hremove hanswer]
      · obtain ⟨held, hapart, -⟩ := served_rename h hanswer hrename
        rw [node_of_rename hrename hanswer, path_of_not_carried hrename hanswer]
        rintro key ⟨-, hcarries⟩ hlive
        rw [(carries_iff_eq hheld hkind).mp hcarries, ← live?_of_ne_root hapart, hheld] at hlive
        exact hne (Option.some.inj hlive).symm

end Displacing

section Symlink

variable (h : state.volume.Sound state.heap) (hsymlink : call.Commands .symlink)
  (hanswer : call.answer state = .ok reply)

include h hsymlink hanswer

/-- What was found when a link was made, and the node that was made. -/
theorem served_symlink :
    state.volume.live? call.request.target = none ∧
      (∃ id, state.volume.Leads state.heap call.request.path id) ∧
      (state.serve call).volume.live? call.request.target = some ⟨state.heap.size⟩ ∧
      (state.serve call).node ⟨state.heap.size⟩ =
        { path := call.request.target, target := call.request.path
          delay := state.volume.settings.writeDelay, createdAt := state.heap.size } ∧
      ((state.serve call).node ⟨state.heap.size⟩).isLink = true := by
  obtain ⟨change, hplan, -, hheap⟩ := serve_of_answer_ok h.toCalm hanswer
  have hfree := (served_puts h hanswer (.link hsymlink)).1
  obtain ⟨hlive, -, htarget⟩ := serve_symlink h hsymlink.1 hsymlink.2 hanswer
  obtain ⟨hleads, rfl⟩ := Call.plan_symlink hsymlink.1 hsymlink.2 hplan
  refine ⟨hfree, hleads, ?_, ?_, ?_⟩
  · rwa [live?_of_ne_root (ne_root_of_free hfree)]
  · unfold node
    rw [hheap, get_add, if_pos rfl]
  · simpa [Node.isLink, node] using htarget

theorem live?_of_symlink (hlive : state.volume.live? key = some id) :
    (state.serve call).volume.live? key = some id := by
  rw [live?_serve h hanswer hlive, if_neg (not_displaces_of_puts (.link hsymlink) key)]

/-- Making a link changes no search that finds a node or is stopped. -/
theorem search_of_symlink
    (hfound : ∀ stop, (state.volume.search state.heap hops path).resolution ≠ .missing stop) :
    (state.serve call).volume.search (state.serve call).heap hops path =
      state.volume.search state.heap hops path :=
  search_of_stays h.made (sound_run h [call]).2.2 hfound fun _ _ hlive =>
    live?_of_symlink h hsymlink hanswer hlive

theorem node_of_symlink (hmade : id.index < state.heap.size) :
    (state.serve call).node id = state.node id := by
  obtain ⟨change, hplan, -, hheap⟩ := serve_of_answer_ok h.toCalm hanswer
  obtain ⟨-, rfl⟩ := Call.plan_symlink hsymlink.1 hsymlink.2 hplan
  unfold node
  rw [hheap, get_add_of_made hmade]

/-- From the link the search goes on as from the path it points to, with one hop less. -/
theorem search_target_of_symlink (hops : Nat) :
    ((state.serve call).volume.search (state.serve call).heap (hops + 1)
        call.request.target).resolution =
      ((state.serve call).volume.search (state.serve call).heap hops
        call.request.path).resolution := by
  obtain ⟨-, -, hlive, hnode, hlink⟩ := served_symlink h hsymlink hanswer
  unfold node at hnode hlink
  rw [search_succ_of_isLink hops hlive hlink, hnode]

/-- The link is one hop too many when the chain behind it is as long as the bound. -/
theorem stopped_target_of_symlink {stop : Path}
    (hchain : state.volume.chain state.heap call.request.path hops = some stop) :
    ((state.serve call).volume.search (state.serve call).heap hops
      call.request.target).resolution = .stopped := by
  obtain ⟨-, -, hlive, -, hlink⟩ := served_symlink h hsymlink hanswer
  cases hops with
  | zero => rw [search_zero_of_isLink hlive hlink]
  | succ hops =>
      have hstopped : (state.volume.search state.heap hops call.request.path).resolution =
          .stopped := by
        rw [stopped_iff, hchain]
        rfl
      rw [search_target_of_symlink h hsymlink hanswer,
        search_of_symlink h hsymlink hanswer (by simp [hstopped]), hstopped]

/-- A call that moves or removes the new link leaves all that was there before. -/
theorem kept_beside_symlink {other : Call} (hpath : other.request.path = call.request.target)
    (hdisplacing : other.Removes ∨ other.Commands .rename)
    (hlive : state.volume.live? key = some id) :
    ((state.serve call).serve other).volume.live? key = some id ∧
      ((state.serve call).serve other).node id = state.node id := by
  obtain ⟨hfree, -, hheld, hnode, -⟩ := served_symlink h hsymlink hanswer
  have hafter := sound_serve h call
  have hkind : ((state.serve call).node ⟨state.heap.size⟩).isDirectory = false := by rw [hnode]
  have hkey : key ≠ call.request.target := by
    rintro rfl
    cases hfree.symm.trans hlive
  have hmade := h.made key id hlive
  have hid : id ≠ ⟨state.heap.size⟩ := by
    rintro rfl
    exact Nat.lt_irrefl _ hmade
  constructor
  · exact live?_of_apart hafter hpath hheld hkind hkey
      (live?_of_symlink h hsymlink hanswer hlive)
  · rw [node_of_apart hafter hpath hheld hkind hdisplacing hid,
      node_of_symlink h hsymlink hanswer hmade]

/-- And so the path that the link was made for is found as before, over the same links. -/
theorem resolve_beside_symlink {other : Call} (hpath : other.request.path = call.request.target)
    (hdisplacing : other.Removes ∨ other.Commands .rename)
    (hfound : (state.volume.search state.heap hops call.request.path).resolution = .found id)
    (hbound : ∀ limit, state.volume.settings.hopBound = some limit → hops ≤ limit) :
    let final := (state.serve call).serve other
    let search := state.volume.resolve state.heap call.request.path
    final.volume.resolve final.heap call.request.path = search ∧
      ∀ key ∈ search.trail, ∃ held, state.volume.live? key = some held ∧
        final.volume.live? key = some held ∧ final.node held = state.node held := by
  intro final search
  have hstays : ∀ key held, state.volume.live? key = some held →
      final.volume.live? key = some held ∧ final.node held = state.node held :=
    fun key held => kept_beside_symlink h hsymlink hanswer hpath hdisplacing
  have hwithin : search = state.volume.search state.heap hops call.request.path :=
    resolve_eq_search (by simp [hfound]) hbound
  have hagain : final.volume.search final.heap hops call.request.path =
      state.volume.search state.heap hops call.request.path :=
    search_of_stays h.made (sound_run h [call, other]).2.2 (by simp [hfound])
      fun key held hlive => (hstays key held hlive).1
  have hended : (final.volume.search final.heap hops call.request.path).resolution ≠ .stopped := by
    rw [hagain, hfound]
    simp
  have hsettings : final.volume.settings = state.volume.settings :=
    settings_run state [call, other]
  constructor
  · rw [resolve_eq_search hended (hsettings ▸ hbound), hagain, hwithin]
  · intro key member
    rw [hwithin] at member
    obtain ⟨held, hlive⟩ := live?_of_mem_search (by simp [hfound]) member
    exact ⟨held, hlive, hstays key held hlive⟩

end Symlink

/-- A new symbolic link is transparent. Let the search from the path that it was made for
go over some number of links; that is no more than the bound. From then on the path leads to
the node that it led to. If the bound is higher, or if there is none, every call that follows
links tells the same of the link as of the path, but for the path in an error, and leaves the
same store. If the bound is that number, every such call is refused for the link. In either
case looking the link up finds it, with a node that was made for it, and a removal or a
rename that names it leaves the search from the path as it was, with every node on the
way. -/
theorem symlink_transparent (settings : Settings) (calls : List Call) (call : Call)
    (reply : Reply) :
    let before := (State.start settings).run calls
    let after := before.serve call
    let path := call.request.path
    let target := call.request.target
    call.Commands .symlink → call.answer before = .ok reply →
      ∃ hops stop id,
        before.volume.chain before.heap path hops = some stop ∧
        before.volume.live? stop = some id ∧ (before.node id).isLink = false ∧
        (∀ limit, settings.hopBound = some limit → hops ≤ limit) ∧
        after.volume.Leads after.heap path id ∧
        ((∀ limit, settings.hopBound = some limit → hops < limit) →
          ∀ other : Call, other.Resolves →
            let direct := other.addressedTo path
            let through := other.addressedTo target
            Matches Refusal.SameError Eq (through.answer after) (direct.answer after) ∧
              (after.serve through).volume = (after.serve direct).volume ∧
              (after.serve through).heap = (after.serve direct).heap) ∧
        (settings.hopBound = some hops →
          ∀ other : Call, other.Resolves ∨ other.Commands .link ∨ other.Commands .symlink →
            other.request.path = target →
              other.answer after = .error (.fault (.tooManyHops target hops))) ∧
        (∀ look : Call, look.LooksUp target →
          look.answer after = .ok (.listing ⟨[⟨before.heap.size⟩]⟩)) ∧
        after.node ⟨before.heap.size⟩ =
          { path := target, target := path, delay := settings.writeDelay
            createdAt := before.heap.size } ∧
        (∀ other : Call, other.Removes ∨ other.Commands .rename → other.request.path = target →
          let final := after.serve other
          let search := before.volume.resolve before.heap path
          final.volume.resolve final.heap path = search ∧
            ∀ key ∈ search.trail, ∃ held, before.volume.live? key = some held ∧
              final.volume.live? key = some held ∧ final.node held = before.node held) := by
  intro before after path target hsymlink hanswer
  have h : before.volume.Sound before.heap := (sound_run (sound_start settings) calls).1
  have hafter : after.volume.Sound after.heap := sound_serve h call
  have hsettings : before.volume.settings = settings := settings_run (State.start settings) calls
  have hkept : after.volume.settings = settings := (settings_serve before call).trans hsettings
  obtain ⟨hfree, ⟨id, hleads⟩, hheld, hnode, hlink⟩ := served_symlink h hsymlink hanswer
  obtain ⟨hops, stop, hbound, hchain, hend⟩ := hleads.exists_chain
  obtain ⟨hstop, hplain⟩ := ending?_found.mp hend
  rw [hsettings] at hbound hnode
  have hfound : (before.volume.search before.heap hops path).resolution = .found id :=
    (resolution_eq_iff (by simp)).mpr ⟨hops, Nat.le_refl _, stop, hchain, hend⟩
  have hsearch : after.volume.search after.heap hops path =
      before.volume.search before.heap hops path :=
    search_of_symlink h hsymlink hanswer (by simp [hfound])
  have hfound' : (after.volume.search after.heap hops path).resolution = .found id := by
    rw [hsearch, hfound]
  have hleads' : after.volume.Leads after.heap path id :=
    leads_of_search hfound' (hkept ▸ hbound)
  refine ⟨hops, stop, id, hchain, hstop, hplain, hbound, hleads', ?_, ?_, ?_, hnode, ?_⟩
  · intro hless other hresolves
    have hthrough := (search_target_of_symlink h hsymlink hanswer hops).trans hfound'
    exact serve_addressedTo hafter.toCalm hresolves (leads_of_search hthrough (hkept ▸ hless))
      hleads'
  · intro hlimit other hresolves hpath
    have hstopped : (after.volume.resolve after.heap other.request.path).resolution =
        .stopped := by
      rw [hpath, resolve, hkept, hlimit]
      exact stopped_target_of_symlink h hsymlink hanswer hchain
    rw [answer_calm hafter.toCalm, Plan.outcome_of_stopped hresolves hstopped, stopFault, hkept,
      hlimit, hpath]
  · intro look hlooks
    exact (answer_looksUp_iff hafter.toCalm hlooks).mpr ⟨_, hheld, rfl⟩
  · intro other hdisplacing hpath
    exact resolve_beside_symlink h hsymlink hanswer hpath hdisplacing hfound
      (hsettings ▸ hbound)

/-- A store in which a path may go over one link. -/
def oneHop : Settings := { hopLimit := some (.whole 1) }

/-- A link to the link to the directory. -/
def aliasLinked : Call :=
  ⟨.command, { method := .symlink, path := ['/', 'l'], target := ['/', 'm'] }⟩

/-- The link to the directory is listed as the directory is; the link to the link is one hop
too many. -/
theorem second_link_refused :
    let before := (State.start oneHop).run [directoryMade, innerFileMade]
    let linked := before.serve aliasMade
    aliasMade.answer before = .ok .done ∧
      aliasListed.answer linked = .ok (.listing ⟨[⟨2⟩]⟩) ∧
      aliasLinked.answer linked = .ok .done ∧
      Call.answer ⟨.list, { method := .list, path := ['/', 'm'] }⟩ (linked.serve aliasLinked) =
        .error (.fault (.tooManyHops ['/', 'm'] 1)) := by
  intro before linked
  have hmade : aliasMade.answer before = .ok .done := rfl
  have hlinked : aliasLinked.answer linked = .ok .done := rfl
  have hlisted : directoryListed.answer linked = .ok (.listing ⟨[⟨2⟩]⟩) := rfl
  have hlimit : oneHop.hopBound = some 1 := by decide +kernel
  obtain ⟨hops, _, _, hchain, -, -, -, -, hthrough, -⟩ := symlink_transparent oneHop
    [directoryMade, innerFileMade] aliasMade .done ⟨rfl, rfl⟩ hmade
  obtain ⟨more, stop, held, hlonger, hstop, hplain, hbound, -, -, hrefused, -⟩ :=
    symlink_transparent oneHop [directoryMade, innerFileMade, aliasMade] aliasLinked .done
      ⟨rfl, rfl⟩ hlinked
  refine ⟨hmade, ?_, hlinked, ?_⟩
  · have hless : ∀ limit, oneHop.hopBound = some limit → hops < limit := by
      intro limit heq
      cases heq.symm.trans hlimit
      exact lt_of_chain_eq_none hchain (by decide +kernel)
    obtain ⟨hsame, -⟩ := hthrough hless directoryListed (Or.inr (Or.inr (Or.inl rfl)))
    rcases hsame.cases with ⟨_, other, -, hother, -⟩ | ⟨reply, _, hreply, hdirect, rfl⟩
    · cases hlisted.symm.trans hother
    · exact hreply.trans (hdirect.symm.trans hlisted)
  · have hone : more = 1 := by
      have hless : more < 2 := lt_of_chain_eq_none hlonger (by decide +kernel)
      -- The path that was linked to is a link itself, so the chain does not end with it.
      have hne : more ≠ 0 := by
        rintro rfl
        cases hlonger
        have halias : linked.volume.live? ['/', 'l'] = some ⟨3⟩ := by decide +kernel
        cases halias.symm.trans hstop
        revert hplain
        decide +kernel
      omega
    subst hone
    exact hrefused hlimit ⟨.list, { method := .list, path := ['/', 'm'] }⟩
      (Or.inl (Or.inr (Or.inr (Or.inl rfl)))) rfl

end State

end FlatTree
