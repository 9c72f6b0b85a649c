import Mathlib.Data.Finset.Card
import FlatTree.Proofs.Chains
import FlatTree.Proofs.Succession

/-!
How far symbolic links are followed. The paths that links lead to one after another make a
chain (`Volume.chain`), which ends at the first path whose node is no link or that has no
node. A look-up with a limit finds the end of the chain just when it is no more hops away
than the limit, and more hops change nothing for it. A chain that does not end visits a link
twice and goes round (`Volume.Cyclic`). So a limit as high as the number of links tells chains
that end from those that do not, and a look-up without a limit, which goes on as long as
there is a link (`Volume.Follows`), comes to an end just when the chain does.
-/

namespace FlatTree

namespace Volume

/-- Where the node of a path points to, if it is a symbolic link. -/
def linkTarget? (volume : Volume) (heap : Heap) (path : Path) : Option Path :=
  match volume.live? path with
  | none => none
  | some id => if (heap.get id).isLink then some (heap.get id).target else none

/-- How a look-up ends at a path, if it goes no further. -/
def ending? (volume : Volume) (heap : Heap) (path : Path) : Option Resolution :=
  match volume.live? path with
  | none => some (.missing path)
  | some id => if (heap.get id).isLink then none else some (.found id)

/-- The path that so many links lead to. -/
def chain (volume : Volume) (heap : Heap) (path : Path) : Nat → Option Path
  | 0 => some path
  | hops + 1 => (volume.chain heap path hops).bind (volume.linkTarget? heap)

/-- The links lead to one path twice. -/
def Cyclic (volume : Volume) (heap : Heap) (path : Path) : Prop :=
  ∃ first second stop, first < second ∧ volume.chain heap path first = some stop ∧
    volume.chain heap path second = some stop

/-- The keys that hold symbolic links. -/
def links (volume : Volume) (heap : Heap) : List Path :=
  (volume.table.live.filter fun entry => (heap.get entry.2).isLink).map Prod.fst

/-- A look-up without a limit goes on while there is a link, and so comes to an end. -/
inductive Follows (volume : Volume) (heap : Heap) : Path → Resolution → Prop
  | stay {path : Path} {resolution : Resolution}
      (ends : volume.ending? heap path = some resolution) : Follows volume heap path resolution
  | hop {path target : Path} {resolution : Resolution}
      (link : volume.linkTarget? heap path = some target)
      (rest : Follows volume heap target resolution) : Follows volume heap path resolution

variable {volume : Volume} {heap : Heap} {hops more : Nat} {path stop : Path} {id : NodeId}
  {resolution : Resolution}

theorem linkTarget?_isSome_iff : (volume.linkTarget? heap path).isSome = true ↔
    ∃ id, volume.live? path = some id ∧ (heap.get id).isLink = true := by
  unfold linkTarget?
  cases volume.live? path with
  | none => simp
  | some id => cases hlink : (heap.get id).isLink <;> simp [hlink]

theorem ending?_found : volume.ending? heap path = some (.found id) ↔
    volume.live? path = some id ∧ (heap.get id).isLink = false := by
  unfold ending?
  cases volume.live? path with
  | none => simp
  | some held =>
      by_cases hsame : held = id
      · subst hsame
        cases hlink : (heap.get held).isLink <;> simp [hlink]
      · cases hlink : (heap.get held).isLink <;> simp [hlink, hsame]

theorem ending?_missing : volume.ending? heap path = some (.missing stop) ↔
    path = stop ∧ volume.live? path = none := by
  unfold ending?
  cases volume.live? path with
  | none => simp
  | some held => cases hlink : (heap.get held).isLink <;> simp [hlink]

theorem ending?_ne_stopped : volume.ending? heap path ≠ some .stopped := by
  unfold ending?
  cases volume.live? path with
  | none => simp
  | some held => cases hlink : (heap.get held).isLink <;> simp [hlink]

/-- At each path the look-up ends, or there is a link to follow. -/
theorem hop_cases (volume : Volume) (heap : Heap) (path : Path) :
    (∃ resolution, volume.ending? heap path = some resolution ∧ resolution ≠ .stopped ∧
        volume.linkTarget? heap path = none ∧
        ∀ hops, (volume.search heap hops path).resolution = resolution) ∨
      (∃ target, volume.linkTarget? heap path = some target ∧
        volume.ending? heap path = none ∧
        (volume.search heap 0 path).resolution = .stopped ∧
        ∀ hops, (volume.search heap (hops + 1) path).resolution =
          (volume.search heap hops target).resolution) := by
  unfold ending? linkTarget?
  rcases volume.search_cases heap path with
    ⟨hnone, hend⟩ | ⟨id, hlive, hlink, hend⟩ | ⟨id, hlive, hlink, hzero, hsucc⟩
  · exact Or.inl ⟨.missing path, by simp [hnone, hend]⟩
  · exact Or.inl ⟨.found id, by simp [hlive, hlink, hend]⟩
  · exact Or.inr ⟨(heap.get id).target, by simp [hlive, hlink, hzero, hsucc]⟩

/-! ### Chains -/

theorem chain_succ_left (volume : Volume) (heap : Heap) (path : Path) (hops : Nat) :
    volume.chain heap path (hops + 1) =
      (volume.linkTarget? heap path).bind (volume.chain heap · hops) := by
  induction hops with
  | zero =>
      rw [chain, chain, Option.bind_some]
      cases volume.linkTarget? heap path <;> rfl
  | succ hops ih =>
      rw [chain, ih, Option.bind_assoc]
      rfl

/-- A chain has every path before one that it has. -/
theorem chain_isSome_of_le (h : (volume.chain heap path more).isSome = true)
    (hle : hops ≤ more) : (volume.chain heap path hops).isSome = true := by
  induction hle with
  | refl => exact h
  | step _ ih =>
      apply ih
      rw [chain] at h
      exact Option.isSome_of_isSome_bind h

theorem lt_of_chain_eq_none (h : volume.chain heap path hops = some stop)
    (hnone : volume.chain heap path more = none) : hops < more := by
  by_contra hle
  have hsome := chain_isSome_of_le (Option.isSome_iff_exists.mpr ⟨stop, h⟩) (Nat.not_lt.mp hle)
  rw [hnone] at hsome
  cases hsome

/-- A look-up ends as the chain does if that is not too far. -/
theorem resolution_eq_iff (hended : resolution ≠ .stopped) :
    (volume.search heap hops path).resolution = resolution ↔
      ∃ count ≤ hops, ∃ stop, volume.chain heap path count = some stop ∧
        volume.ending? heap stop = some resolution := by
  induction hops generalizing path with
  | zero =>
      simp only [Nat.le_zero_eq, exists_eq_left, chain, Option.some.injEq, exists_eq_left']
      rcases volume.hop_cases heap path with
        ⟨other, hend, -, -, hsearch⟩ | ⟨target, -, hend, hzero, -⟩
      · simp [hend, hsearch]
      · simp [hend, hzero, hended.symm]
  | succ hops ih =>
      rcases volume.hop_cases heap path with
        ⟨other, hend, -, hlast, hsearch⟩ | ⟨target, hlink, hend, -, hsucc⟩
      · rw [hsearch]
        constructor
        · rintro rfl
          exact ⟨0, Nat.zero_le _, path, rfl, hend⟩
        · rintro ⟨count, -, stop, hcount, hstop⟩
          cases count with
          | zero =>
              cases hcount
              exact Option.some.inj (hend.symm.trans hstop)
          | succ count =>
              rw [chain_succ_left, hlast] at hcount
              cases hcount
      · rw [hsucc, ih]
        constructor
        · rintro ⟨count, hle, stop, hcount, hstop⟩
          exact ⟨count + 1, by omega, stop, by rw [chain_succ_left, hlink]; exact hcount, hstop⟩
        · rintro ⟨count, hle, stop, hcount, hstop⟩
          cases count with
          | zero =>
              cases hcount
              rw [hend] at hstop
              cases hstop
          | succ count =>
              rw [chain_succ_left, hlink] at hcount
              exact ⟨count, by omega, stop, hcount, hstop⟩

/-- A look-up is stopped when there is one link more than it may follow. -/
theorem stopped_iff : (volume.search heap hops path).resolution = .stopped ↔
    (volume.chain heap path (hops + 1)).isSome = true := by
  induction hops generalizing path with
  | zero =>
      rw [chain_succ_left]
      rcases volume.hop_cases heap path with
        ⟨resolution, -, hended, hlast, hsearch⟩ | ⟨target, hlink, -, hzero, -⟩
      · simp [hsearch, hended, hlast]
      · simp [hzero, hlink, chain]
  | succ hops ih =>
      rw [chain_succ_left]
      rcases volume.hop_cases heap path with
        ⟨resolution, -, hended, hlast, hsearch⟩ | ⟨target, hlink, -, -, hsucc⟩
      · simp [hsearch, hended, hlast]
      · simp [hsucc, hlink, ih]

/-- All paths of a chain but the last hold links. -/
theorem chain_isSome_iff : (volume.chain heap path (hops + 1)).isSome = true ↔
    ∀ count ≤ hops, ∃ stop, volume.chain heap path count = some stop ∧
      (volume.linkTarget? heap stop).isSome = true := by
  constructor
  · intro h count hle
    have hnext := chain_isSome_of_le h (Nat.succ_le_succ hle)
    rw [chain] at hnext
    obtain ⟨target, htarget⟩ := Option.isSome_iff_exists.mp hnext
    obtain ⟨stop, hstop, hlink⟩ := Option.bind_eq_some_iff.mp htarget
    exact ⟨stop, hstop, by rw [hlink]; rfl⟩
  · intro h
    obtain ⟨stop, hstop, hlink⟩ := h hops (Nat.le_refl _)
    rw [chain, hstop]
    exact hlink

/-- A look-up without a limit ends as the chain does. -/
theorem follows_iff : volume.Follows heap path resolution ↔
    ∃ count stop, volume.chain heap path count = some stop ∧
      volume.ending? heap stop = some resolution := by
  constructor
  · intro h
    induction h with
    | @stay path resolution ends => exact ⟨0, path, rfl, ends⟩
    | hop link rest ih =>
        obtain ⟨count, stop, hcount, hstop⟩ := ih
        exact ⟨count + 1, stop, by rw [chain_succ_left, link]; exact hcount, hstop⟩
  · rintro ⟨count, stop, hcount, hstop⟩
    induction count generalizing path with
    | zero =>
        cases hcount
        exact .stay hstop
    | succ count ih =>
        rw [chain_succ_left] at hcount
        obtain ⟨target, hlink, hcount⟩ := Option.bind_eq_some_iff.mp hcount
        exact .hop hlink (ih hcount)

/-! ### Cycles -/

/-- A chain that visits a path twice goes round for ever. -/
theorem Cyclic.chain_isSome (h : volume.Cyclic heap path) (hops : Nat) :
    (volume.chain heap path hops).isSome = true := by
  obtain ⟨first, second, stop, hlt, hfirst, hsecond⟩ := h
  have hround : ∀ count,
      volume.chain heap path (first + count) = volume.chain heap path (second + count) := by
    intro count
    induction count with
    | zero => exact hfirst.trans hsecond.symm
    | succ count ih => rw [← Nat.add_assoc, ← Nat.add_assoc, chain, chain, ih]
  induction hops using Nat.strong_induction_on with
  | _ hops ih =>
    rcases Nat.le_total hops second with hle | hge
    · exact chain_isSome_of_le (by rw [hsecond]; rfl) hle
    · obtain ⟨count, rfl⟩ := Nat.exists_eq_add_of_le hge
      rw [← hround]
      exact ih (first + count) (by omega)

/-- A chain of more links than there are goes round: two of its paths are the same. -/
theorem cyclic_of_chain (paths : List Path) (hlength : paths.length ≤ hops)
    (hlinks : ∀ count ≤ hops, ∃ stop ∈ paths, volume.chain heap path count = some stop) :
    volume.Cyclic heap path := by
  classical
  have hmaps : ∀ count ∈ Finset.range (hops + 1),
      volume.chain heap path count ∈ (paths.map some).toFinset := by
    intro count member
    obtain ⟨stop, hstop, hcount⟩ :=
      hlinks count (Nat.lt_succ_iff.mp (Finset.mem_range.mp member))
    rw [List.mem_toFinset, hcount]
    exact List.mem_map_of_mem hstop
  have hcard : (paths.map some).toFinset.card < (Finset.range (hops + 1)).card := by
    have hle := List.toFinset_card_le (paths.map some)
    rw [List.length_map] at hle
    rw [Finset.card_range]
    omega
  obtain ⟨first, hfirst, second, -, hne, heq⟩ :=
    Finset.exists_ne_map_eq_of_card_lt_of_maps_to hcard hmaps
  obtain ⟨stop, -, hstop⟩ := hlinks first (Nat.lt_succ_iff.mp (Finset.mem_range.mp hfirst))
  rcases Nat.lt_or_gt_of_ne hne with hlt | hgt
  · exact ⟨first, second, stop, hlt, hstop, heq.symm.trans hstop⟩
  · exact ⟨second, first, stop, hgt, heq.symm.trans hstop, hstop⟩

theorem stopped_iff_cyclic (paths : List Path) (hlength : paths.length ≤ hops)
    (hlinks : ∀ stop, (volume.linkTarget? heap stop).isSome = true → stop ∈ paths) :
    (volume.search heap hops path).resolution = .stopped ↔ volume.Cyclic heap path := by
  rw [stopped_iff]
  constructor
  · intro h
    refine cyclic_of_chain paths hlength fun count hle => ?_
    obtain ⟨stop, hstop, hlink⟩ := chain_isSome_iff.mp h count hle
    exact ⟨stop, hlinks stop hlink, hstop⟩
  · intro h
    exact h.chain_isSome (hops + 1)

/-- Every path that holds a link is a key, or the root if that is one. -/
theorem mem_links (h : (volume.linkTarget? heap path).isSome = true)
    (hroot : path ≠ Path.root) : path ∈ volume.links heap := by
  obtain ⟨id, hlive, hlink⟩ := linkTarget?_isSome_iff.mp h
  rw [live?_of_ne_root hroot] at hlive
  exact List.mem_map.mpr ⟨(path, id), List.mem_filter.mpr ⟨Table.mem_live.mpr hlive, hlink⟩, rfl⟩

theorem stopped_links_iff (hroot : (heap.get volume.root).isLink = false)
    (hlength : (volume.links heap).length ≤ hops) :
    (volume.search heap hops path).resolution = .stopped ↔ volume.Cyclic heap path := by
  refine stopped_iff_cyclic _ hlength fun stop hlink => mem_links hlink ?_
  rintro rfl
  obtain ⟨id, hlive, hlink⟩ := linkTarget?_isSome_iff.mp hlink
  rw [live?_root] at hlive
  cases hlive
  rw [hroot] at hlink
  cases hlink

/-- The hops that are taken as enough without a limit are enough to find every cycle. -/
theorem stopped_enoughHops_iff :
    (volume.search heap volume.enoughHops path).resolution = .stopped ↔
      volume.Cyclic heap path := by
  refine stopped_iff_cyclic (Path.root :: volume.links heap) ?_ fun stop hlink => ?_
  · have hle := List.length_filter_le (fun entry : Path × NodeId => (heap.get entry.2).isLink)
      volume.table.live
    simp only [links, List.length_cons, List.length_map, enoughHops]
    omega
  · by_cases hroot : stop = Path.root
    · exact List.mem_cons.mpr (Or.inl hroot)
    · exact List.mem_cons_of_mem _ (mem_links hlink hroot)

/-- Without a limit a look-up comes to an end just when the links do not go round. -/
theorem follows_iff_enoughHops (hended : resolution ≠ .stopped) :
    volume.Follows heap path resolution ↔
      (volume.search heap volume.enoughHops path).resolution = resolution := by
  rw [follows_iff]
  constructor
  · rintro ⟨count, stop, hcount, hstop⟩
    have hsearch := (resolution_eq_iff hended).mpr ⟨count, Nat.le_refl _, stop, hcount, hstop⟩
    rw [search_enoughHops (hsearch.symm ▸ hended), hsearch]
  · intro h
    obtain ⟨count, -, stop, hcount, hstop⟩ := (resolution_eq_iff hended).mp h
    exact ⟨count, stop, hcount, hstop⟩

theorem follows_iff_not_cyclic :
    (∃ resolution, volume.Follows heap path resolution) ↔ ¬volume.Cyclic heap path := by
  rw [← stopped_enoughHops_iff]
  constructor
  · rintro ⟨resolution, hfollows⟩
    have hended : resolution ≠ .stopped := by
      obtain ⟨-, stop, -, hstop⟩ := follows_iff.mp hfollows
      rintro rfl
      exact ending?_ne_stopped hstop
    rw [(follows_iff_enoughHops hended).mp hfollows]
    exact hended
  · intro hended
    exact ⟨_, (follows_iff_enoughHops hended).mpr rfl⟩

end Volume

/-- The state with another limit on the links that one look-up follows. -/
def State.limited (state : State) (limit : Option Nat) : State :=
  { state with volume.settings.hopLimit := limit.map fun hops => .whole hops }

namespace Act

/-- A result with another limit in the state that it leaves. -/
def relimit (limit : Option Nat) :
    EStateM.Result Refusal State NodeId → EStateM.Result Refusal State NodeId
  | .ok id after => .ok id (after.limited limit)
  | .error refusal after => .error refusal (after.limited limit)

/-- What a search makes of a look-up under a limit. -/
def concluded (state : State) (limit : Option Nat) (path : Path) (search : Search) :
    EStateM.Result Refusal State NodeId :=
  let seen := (state.limited limit).observe (search.trail.map .lookedUp)
  match search.resolution with
  | .found id => .ok id seen
  | .missing stop => .error (.fault (.notFound stop)) (seen.purge stop)
  | .stopped => .error (.fault (limit.elim (.endlessChain path) (.tooManyHops path))) seen

variable {state : State} {limit more : Option Nat} {path stop : Path} {search : Search}
  {id : NodeId}

open Volume

theorem hopBound_limited (state : State) (limit : Option Nat) :
    (state.limited limit).volume.settings.hopBound = limit := by
  cases limit with
  | none => rfl
  | some hops =>
      have hsign : decide ((hops : Int) < 0) = false := by simp
      change (Floating.finite (decide ((hops : Int) < 0)) (hops : Int).natAbs 0).ceilNat? = _
      rw [hsign]
      simp [Floating.ceilNat?, Floating.ceil, Floating.unscale, power]

theorem resolve_limited (state : State) (limit : Option Nat) (path : Path) :
    resolve path (state.limited limit) = concluded state limit path
      (state.volume.search state.heap (limit.getD state.volume.enoughHops) path) := by
  have hsearch : (state.limited limit).volume.resolve (state.limited limit).heap path =
      state.volume.search state.heap (limit.getD state.volume.enoughHops) path := by
    unfold Volume.resolve
    rw [hopBound_limited]
    have hlive : (state.limited limit).volume.live? = state.volume.live? := rfl
    exact search_congr state.heap hlive _ path
  have hfault : (state.limited limit).volume.stopFault path =
      limit.elim (.endlessChain path) (.tooManyHops path) := by
    unfold stopFault
    rw [hopBound_limited]
    cases limit <;> rfl
  rw [resolve_run, hsearch, hfault]
  rfl

theorem concluded_ok_iff :
    (∃ after, concluded state limit path search = .ok id after) ↔
      search.resolution = .found id := by
  unfold concluded
  cases search.resolution <;> simp

theorem concluded_missing_iff :
    (∃ after, concluded state limit path search = .error (.fault (.notFound stop)) after) ↔
      search.resolution = .missing stop := by
  unfold concluded
  cases search.resolution <;> cases limit <;> simp

theorem concluded_stopped_iff :
    (∃ after, concluded state limit path search =
        .error (.fault (limit.elim (.endlessChain path) (.tooManyHops path))) after) ↔
      search.resolution = .stopped := by
  unfold concluded
  cases search.resolution <;> cases limit <;> simp

/-- Where a search ends does not depend on the limit. -/
theorem relimit_concluded (hended : search.resolution ≠ .stopped) :
    relimit more (concluded state limit path search) = concluded state more path search := by
  unfold concluded
  cases hend : search.resolution with
  | stopped => exact absurd hend hended
  | found id => rfl
  | missing stop => rfl

/-- The look-up has changed nothing of the heap and the volume, but for taking a path that it
reports missing out of the table. Nothing stands under that path then, what stands under any
other is kept, and so is the order. -/
def OnlyDrops (before : State) : EStateM.Result Refusal State NodeId → Prop
  | .error (.fault (.notFound stop)) after =>
      after.heap = before.heap ∧
        after.volume = { before.volume with table := after.volume.table } ∧
        after.volume.table.find? stop = none ∧
        (∀ path, path ≠ stop →
          after.volume.table.find? path = before.volume.table.find? path) ∧
        after.volume.table.entries.Sublist before.volume.table.entries
  | .ok _ after | .error _ after => after.heap = before.heap ∧ after.volume = before.volume

theorem onlyDrops_resolve (state : State) (path : Path) :
    OnlyDrops state (resolve path state) := by
  have hrun := resolve_run path state
  cases hend : (state.volume.resolve state.heap path).resolution with
  | found id =>
      simp only [hend] at hrun
      rw [hrun]
      exact ⟨rfl, rfl⟩
  | missing stop =>
      simp only [hend] at hrun
      rw [hrun]
      refine ⟨rfl, rfl, ?_, fun other hne => ?_, List.filter_sublist⟩
      · exact (Table.find?_erase _ stop stop).trans (if_pos rfl)
      · exact (Table.find?_erase _ stop other).trans (if_neg hne)
  | stopped =>
      simp only [hend, stopFault] at hrun
      rw [hrun]
      cases state.volume.settings.hopBound with
      | none => exact ⟨rfl, rfl⟩
      | some hops => exact ⟨rfl, rfl⟩

/-- What following links amounts to, from any state and path. With a limit, a node is found
just when it is the end of the chain and no more links away than the limit, a path is
reported missing just when the chain ends there, and the look-up gives up just when the path
and as many more as the limit says all hold links; no higher limit changes what is found or
missing. A path that is missing is left out of the table, and nothing else changes. If the
limit is no lower than the number of keys with links, where the root is none as in every
store, the look-up gives up just when the links go round. Without a limit it comes to an end
just when they do not go round, and ends as under such a limit. -/
theorem resolve_exact (state : State) (path : Path) :
    let volume := state.volume
    let chain := volume.chain state.heap path
    let Cyclic := volume.Cyclic state.heap path
    let bounded := fun limit : Nat => resolve path (state.limited (some limit))
    let unbounded := resolve path (state.limited none)
    (∀ limit,
        (∀ id, (∃ after, bounded limit = .ok id after) ↔
          ∃ hops ≤ limit, ∃ stop, chain hops = some stop ∧ volume.live? stop = some id ∧
            (state.node id).isLink = false) ∧
        (∀ stop, (∃ after, bounded limit = .error (.fault (.notFound stop)) after) ↔
          ∃ hops ≤ limit, chain hops = some stop ∧ volume.live? stop = none) ∧
        ((∃ after, bounded limit = .error (.fault (.tooManyHops path limit)) after) ↔
          ∀ hops ≤ limit, ∃ stop id, chain hops = some stop ∧ volume.live? stop = some id ∧
            (state.node id).isLink = true)) ∧
      (∀ limit : Option Nat,
        OnlyDrops (state.limited limit) (resolve path (state.limited limit))) ∧
      (∀ limit more, limit ≤ more →
        (∀ after, bounded limit ≠ .error (.fault (.tooManyHops path limit)) after) →
          bounded more = relimit (some more) (bounded limit)) ∧
      ((state.node volume.root).isLink = false →
        ∀ limit, (volume.links state.heap).length ≤ limit →
          ((∃ after, bounded limit = .error (.fault (.tooManyHops path limit)) after) ↔
              Cyclic) ∧
            (¬Cyclic → unbounded = relimit none (bounded limit))) ∧
      ((∃ resolution, volume.Follows state.heap path resolution) ↔ ¬Cyclic) ∧
      (∀ id, volume.Follows state.heap path (.found id) ↔
        ∃ after, unbounded = .ok id after) ∧
      (∀ stop, volume.Follows state.heap path (.missing stop) ↔
        ∃ after, unbounded = .error (.fault (.notFound stop)) after) ∧
      ((∃ after, unbounded = .error (.fault (.endlessChain path)) after) ↔ Cyclic) := by
  intro volume chain Cyclic bounded unbounded
  have hstopped : ∀ limit,
      (∃ after, bounded limit = .error (.fault (.tooManyHops path limit)) after) ↔
        (volume.search state.heap limit path).resolution = .stopped := by
    intro limit
    simp only [bounded, resolve_limited]
    exact concluded_stopped_iff
  refine ⟨fun limit => ⟨?_, ?_, ?_⟩, fun limit => onlyDrops_resolve (state.limited limit) path,
    ?_, ?_, follows_iff_not_cyclic, ?_, ?_, ?_⟩
  · intro id
    simp only [bounded, resolve_limited, concluded_ok_iff, Option.getD_some]
    rw [resolution_eq_iff (by simp)]
    simp only [ending?_found]
    rfl
  · intro stop
    simp only [bounded, resolve_limited, concluded_missing_iff, Option.getD_some]
    rw [resolution_eq_iff (by simp)]
    simp only [ending?_missing]
    refine exists_congr fun hops => and_congr_right fun _ => ⟨?_, ?_⟩
    · rintro ⟨last, hlast, rfl, hnone⟩
      exact ⟨hlast, hnone⟩
    · rintro ⟨hlast, hnone⟩
      exact ⟨stop, hlast, rfl, hnone⟩
  · rw [hstopped, stopped_iff, chain_isSome_iff]
    simp only [linkTarget?_isSome_iff, exists_and_left]
    rfl
  · intro limit more hle hended
    have hsearch : (volume.search state.heap limit path).resolution ≠ .stopped := by
      rw [ne_eq, ← hstopped, not_exists]
      exact hended
    simp only [bounded, resolve_limited, Option.getD_some]
    rw [relimit_concluded hsearch, search_of_le hsearch hle]
  · intro hroot limit hlength
    have hcyclic : (volume.search state.heap limit path).resolution = .stopped ↔ Cyclic :=
      stopped_links_iff hroot hlength
    refine ⟨(hstopped limit).trans hcyclic, fun hends => ?_⟩
    have hsearch := (not_congr hcyclic).mpr hends
    simp only [bounded, unbounded, resolve_limited, Option.getD_some, Option.getD_none]
    rw [relimit_concluded hsearch, search_enoughHops hsearch]
  · intro id
    simp only [unbounded, resolve_limited, concluded_ok_iff, Option.getD_none]
    exact follows_iff_enoughHops (by simp)
  · intro stop
    simp only [unbounded, resolve_limited, concluded_missing_iff, Option.getD_none]
    exact follows_iff_enoughHops (by simp)
  · simp only [unbounded, resolve_limited]
    exact concluded_stopped_iff.trans stopped_enoughHops_iff

/-- A file with a link to it and a link to that link. -/
def linkedTwice : State :=
  (State.start {}).run [State.fileMade,
    ⟨.command, { method := .symlink, path := ['/', 'a'], target := ['/', 'l'] }⟩,
    ⟨.command, { method := .symlink, path := ['/', 'l'], target := ['/', 'm'] }⟩]

/-- The link to the file in the place of the file, so that it points to itself. -/
def linkedRound : State :=
  linkedTwice.run [State.firstNameRemoved,
    ⟨.command, { method := .rename, path := ['/', 'l'], target := ['/', 'a'] }⟩]

/-- The links with a stale key in the place of the file. -/
def linkedStale : State :=
  linkedTwice.changeTable (·.insert ['/', 'a'] none)

/-- Two hops lead to the file and one does not. Where the key of the file is stale, it is
reported missing and is gone afterwards, and the key of the link to it stays. The link to
itself is given up under any limit of at least two, for as many links there are, and without
a limit it has no end. -/
theorem resolve_exact_of_links :
    (∃ after, resolve ['/', 'm'] (linkedTwice.limited (some 2)) = .ok ⟨1⟩ after) ∧
      (∃ after, resolve ['/', 'm'] (linkedTwice.limited (some 1)) =
        .error (.fault (.tooManyHops ['/', 'm'] 1)) after) ∧
      linkedStale.volume.table.find? ['/', 'a'] = some none ∧
      (∃ after, resolve ['/', 'm'] (linkedStale.limited (some 2)) =
          .error (.fault (.notFound ['/', 'a'])) after ∧
        after.volume.table.find? ['/', 'a'] = none ∧
        after.volume.table.find? ['/', 'l'] = some (some ⟨2⟩)) ∧
      (∀ limit, 2 ≤ limit → ∃ after, resolve ['/', 'a'] (linkedRound.limited (some limit)) =
        .error (.fault (.tooManyHops ['/', 'a'] limit)) after) ∧
      ¬∃ resolution, linkedRound.volume.Follows linkedRound.heap ['/', 'a'] resolution := by
  have hcyclic : linkedRound.volume.Cyclic linkedRound.heap ['/', 'a'] :=
    ⟨0, 1, ['/', 'a'], Nat.zero_lt_one, by decide +kernel, by decide +kernel⟩
  have hlinks : (linkedRound.volume.links linkedRound.heap).length = 2 := by decide +kernel
  obtain ⟨hbounded, -⟩ := resolve_exact linkedTwice ['/', 'm']
  obtain ⟨hstale, hdrops, -⟩ := resolve_exact linkedStale ['/', 'm']
  obtain ⟨-, -, -, hround, hends, -⟩ := resolve_exact linkedRound ['/', 'a']
  refine ⟨?_, ?_, by decide +kernel, ?_, fun limit hle => ?_,
    fun hfollows => hends.mp hfollows hcyclic⟩
  · exact ((hbounded 2).1 ⟨1⟩).mpr ⟨2, Nat.le_refl _, ['/', 'a'], by decide +kernel,
      by decide +kernel, by decide +kernel⟩
  · refine (hbounded 1).2.2.mpr fun hops hle => ?_
    rcases Nat.le_one_iff_eq_zero_or_eq_one.mp hle with rfl | rfl
    · exact ⟨['/', 'm'], ⟨3⟩, by decide +kernel, by decide +kernel, by decide +kernel⟩
    · exact ⟨['/', 'l'], ⟨2⟩, by decide +kernel, by decide +kernel, by decide +kernel⟩
  · obtain ⟨after, hafter⟩ : ∃ after, resolve ['/', 'm'] (linkedStale.limited (some 2)) =
        .error (.fault (.notFound ['/', 'a'])) after :=
      ((hstale 2).2.1 ['/', 'a']).mpr
        ⟨2, Nat.le_refl _, by decide +kernel, by decide +kernel⟩
    have hdrop := hdrops (some 2)
    rw [hafter] at hdrop
    obtain ⟨-, -, hgone, hkept, -⟩ := hdrop
    refine ⟨after, hafter, hgone, ?_⟩
    rw [hkept ['/', 'l'] (by decide)]
    decide +kernel
  · exact ((hround (by decide +kernel) limit (hlinks ▸ hle)).1).mpr hcyclic

end Act

end FlatTree
