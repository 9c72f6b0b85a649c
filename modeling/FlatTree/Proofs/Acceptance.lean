import FlatTree.Proofs.Hops
import FlatTree.Proofs.Opening
import FlatTree.Proofs.Ownership

/-!
Settings that were accepted, and what can be done under them. The checks refuse numbers below
a bound, and not-a-number is below nothing, so it passes them, as infinity does. A delay that
is not a number makes every write fail, and an infinite one the writes of no bytes. A look-up
compares the links it has followed with the limit (`Volume.Fetches`): it gives up at a limit
that some number of links reaches, and goes on for ever round a circle of links under one that
none does.
-/

namespace FlatTree

namespace Floating

theorem nearest_ne_nan (negative : Bool) (num den : Nat) : nearest negative num den ≠ .nan := by
  unfold nearest
  by_cases hnum : num = 0
  · simp [hnum]
  · simp only [if_neg hnum]
    -- The significand may round up to the next power of two, and the exponent be too great.
    split
    · split <;> simp
    · split <;> simp

/-- Only not-a-number, and infinity taken no times, give no number. -/
theorem times_eq_nan_iff (count : Nat) (x : Floating) :
    x.times count = .nan ↔ x = .nan ∨ (∃ negative, x = .infinite negative) ∧ count = 0 := by
  cases x with
  | nan => simp [times]
  | infinite negative => by_cases hcount : count = 0 <;> simp [times, hcount]
  | finite negative significand exponent => simp [times, nearest_ne_nan]

theorem le_finite_iff (negative other : Bool) (s t : Nat) (e f : Int) :
    (finite negative s e).le (finite other t f) = true ↔
      aligned (min e f) negative s e ≤ aligned (min e f) other t f := by
  simp only [le, lt, eq, Bool.or_eq_true, decide_eq_true_eq, beq_iff_eq]
  omega

theorem ceil_le_iff (significand : Nat) (exponent : Int) (n : Nat) :
    ceil significand exponent ≤ n ↔ significand * power 2 exponent ≤ n * power 2 (-exponent) := by
  have hpositive : 0 < power 2 (-exponent) := Nat.two_pow_pos _
  simp only [ceil, unscale, Int.neg_neg, Nat.one_mul]
  rw [Nat.div_le_iff_le_mul_add_pred hpositive, Nat.mul_comm (power 2 (-exponent))]
  omega

/-- The natural numbers that are not below a number are those from the least one on. -/
theorem le_ofInt_iff (x : Floating) (n : Nat) :
    x.le (.ofInt n) = true ↔ ∃ bound, x.ceilNat? = some bound ∧ bound ≤ n := by
  have hsign : decide ((n : Int) < 0) = false := by simp
  have hof : ofInt n = .finite false n 0 := by rw [ofInt, hsign, Int.natAbs_natCast]
  rw [hof]
  cases x with
  | nan => simp [le, lt, eq, ceilNat?]
  | infinite negative => cases negative <;> simp [le, lt, eq, ceilNat?]
  | finite negative significand exponent =>
      -- The two are compared at the lower exponent, which is that of the number or zero.
      have hover : power 2 (exponent - min exponent 0) = power 2 exponent := by
        unfold power
        congr 1
        omega
      have hunder : power 2 (0 - min exponent 0) = power 2 (-exponent) := by
        unfold power
        congr 1
        omega
      rw [le_finite_iff]
      simp only [aligned, hover, hunder]
      cases negative with
      | true =>
          have hnegative : -((significand : Int) * power 2 exponent) ≤
              n * power 2 (-exponent) := by
            have hleft := Int.natCast_nonneg (significand * power 2 exponent)
            have hright := Int.natCast_nonneg (n * power 2 (-exponent))
            rw [Int.natCast_mul] at hleft hright
            omega
          simp [ceilNat?, hnegative]
      | false =>
          simp only [ceilNat?, Option.some.injEq, exists_eq_left', ceil_le_iff,
            Bool.false_eq_true, if_false]
          norm_cast

theorem ceilNat?_eq_none_iff (x : Floating) :
    x.ceilNat? = none ↔ x = .nan ∨ x = .infinite false := by
  cases x with
  | nan => simp [ceilNat?]
  | infinite negative => cases negative <;> simp [ceilNat?]
  | finite negative significand exponent => cases negative <;> simp [ceilNat?]

end Floating

/-- A product is no number when the factor is none, or for no bytes when it is infinite. -/
theorem Scalar.times_eq_nan_iff (count : Nat) (seconds : Scalar) :
    (seconds.times count).value = .nan ↔ seconds.value = .nan ∨
      (∃ negative, seconds.value = .infinite negative) ∧ count = 0 := by
  cases seconds with
  | whole n => simp [times, value, Floating.ofInt]
  | real x => exact Floating.times_eq_nan_iff count x

theorem Clock.ticks_notANumber_iff (seconds : Scalar) :
    ticks seconds = .error .spanNotANumber ↔ seconds.value = .nan := by
  cases seconds with
  | whole n =>
      simp only [ticks, Scalar.value, Floating.ofInt]
      split <;> simp
  | real x =>
      have hnan : x.times ticksPerSecond = .nan ↔ x = .nan := by
        simp [Floating.times_eq_nan_iff, ticksPerSecond]
      simp only [ticks, Scalar.value, ← hnan]
      cases x.times ticksPerSecond with
      | nan => simp
      | infinite negative => simp
      | finite negative significand exponent =>
          simp only [reduceCtorEq, iff_false]
          split
          · simp
          · split <;> simp

/-- A delay of zero is not slept for, and its products are zero. -/
theorem Delay.notANumber_iff (seconds : Scalar) (count : Nat) :
    fault? (some seconds) count = some .spanNotANumber ↔
      (seconds.times count).value = .nan := by
  unfold fault?
  by_cases hzero : seconds.value.isZero = true
  · have hnumber : (seconds.times count).value ≠ .nan := by
      rw [ne_eq, Scalar.times_eq_nan_iff]
      rintro (hnan | ⟨⟨negative, hinfinite⟩, -⟩)
      · rw [hnan] at hzero
        cases hzero
      · rw [hinfinite] at hzero
        cases hzero
    simp [hzero, hnumber]
  · rw [← Clock.ticks_notANumber_iff]
    simp only [if_neg hzero]
    cases hticks : Clock.ticks (seconds.times count) with
    | error fault => simp
    | ok ticks =>
        dsimp only
        split <;> simp

namespace Node

/-- Growth is refused for its size alone. -/
theorem growthFault?_ne_notANumber (count : Nat) : growthFault? count ≠ some .spanNotANumber := by
  unfold growthFault?
  split
  · simp
  · split <;> simp

theorem writeAt_notANumber_iff (node : Node) (data : Bytes) (offset : Int) :
    node.writeAt data offset = .error .spanNotANumber ↔
      0 ≤ offset ∧ node.delay.fault? data.length = some .spanNotANumber := by
  unfold writeAt
  by_cases hoffset : offset < 0
  · simp [hoffset]
  · rw [if_neg hoffset]
    cases node.delay.fault? data.length with
    | some fault => simp [not_lt.mp hoffset]
    | none =>
        have hgrowth := growthFault?_ne_notANumber (offset.toNat + data.length - node.size)
        cases hlarge : growthFault? (offset.toNat + data.length - node.size) with
        | some fault =>
            rw [hlarge, ne_eq, Option.some.injEq] at hgrowth
            simp [hgrowth]
        | none => simp

end Node

namespace Settings

variable {settings : Settings} {named : List (String × Quantity)} {seconds limit : Scalar}
  {hops : Nat}

/-- What the checks leave: numbers that are not below the bounds. -/
theorem accepted (h : ofNamed named = .ok settings) :
    ∃ seconds, settings.writeDelay = some seconds ∧ seconds.lt (.whole 0) = false ∧
      ∀ limit, settings.hopLimit = some limit → limit.lt (.whole 1) = false := by
  unfold ofNamed at h
  dsimp only at h
  split at h
  · cases h
  · cases hdelay : valueOf "write_delay" ({} : Settings).writeDelay named with
    | none =>
        rw [hdelay] at h
        cases h
    | some seconds =>
        rw [hdelay] at h
        dsimp only at h
        split at h
        · cases h
        · rename_i hseconds
          rw [Bool.not_eq_true] at hseconds
          cases hlimit : valueOf "max_symlink_hops" ({} : Settings).hopLimit named with
          | none =>
              rw [hlimit] at h
              cases h
              exact ⟨seconds, rfl, hseconds, fun limit hnone => nomatch hnone⟩
          | some limit =>
              rw [hlimit] at h
              dsimp only at h
              split at h
              · cases h
              · rename_i hbound
                rw [Bool.not_eq_true] at hbound
                cases h
                refine ⟨seconds, rfl, hseconds, fun other hother => ?_⟩
                cases hother
                exact hbound

/-- Whether a look-up gives up at one more link, when it has followed so many: it compares their
number with the limit, and with not-a-number the comparison fails. -/
def givesUp (settings : Settings) (hops : Nat) : Bool :=
  settings.hopLimit.any fun limit => limit.value.le (.ofInt hops)

theorem givesUp_iff : settings.givesUp hops = true ↔
    ∃ bound, settings.hopBound = some bound ∧ bound ≤ hops := by
  unfold givesUp hopBound
  cases settings.hopLimit with
  | none => simp
  | some limit => exact Floating.le_ofInt_iff limit.value hops

theorem hopBound_eq_none_iff (h : settings.hopLimit = some limit) :
    settings.hopBound = none ↔ limit.value = .nan ∨ limit.value = .infinite false := by
  unfold hopBound
  rw [h]
  exact Floating.ceilNat?_eq_none_iff limit.value

end Settings

namespace Volume

/-- A look-up as it goes on from a path, when it has followed so many links already. -/
inductive Fetches (volume : Volume) (heap : Heap) : Nat → Path → Resolution → Prop
  | stay {hops : Nat} {path : Path} {resolution : Resolution}
      (ends : volume.ending? heap path = some resolution) :
      Fetches volume heap hops path resolution
  | giveUp {hops : Nat} {path target : Path} (link : volume.linkTarget? heap path = some target)
      (limit : volume.settings.givesUp hops = true) : Fetches volume heap hops path .stopped
  | hop {hops : Nat} {path target : Path} {resolution : Resolution}
      (link : volume.linkTarget? heap path = some target)
      (limit : volume.settings.givesUp hops = false)
      (rest : Fetches volume heap (hops + 1) target resolution) :
      Fetches volume heap hops path resolution

variable {volume : Volume} {heap : Heap} {hops bound : Nat} {path : Path}
  {resolution other : Resolution}

theorem ending?_of_link {target : Path} (h : volume.linkTarget? heap path = some target) :
    volume.ending? heap path = none := by
  rcases volume.hop_cases heap path with ⟨resolution, -, -, hlast, -⟩ | ⟨target, -, hend, -⟩
  · rw [h] at hlast
    cases hlast
  · exact hend

/-- At each path a look-up can go on in one way only. -/
theorem Fetches.unique (h : volume.Fetches heap hops path resolution)
    (h' : volume.Fetches heap hops path other) : resolution = other := by
  induction h with
  | stay ends =>
      cases h' with
      | stay ends' => exact Option.some.inj (ends.symm.trans ends')
      | giveUp link | hop link =>
          rw [ending?_of_link link] at ends
          cases ends
  | giveUp link limit =>
      cases h' with
      | stay ends =>
          rw [ending?_of_link link] at ends
          cases ends
      | giveUp => rfl
      | hop _ limit' =>
          rw [limit] at limit'
          cases limit'
  | hop link limit rest ih =>
      cases h' with
      | stay ends =>
          rw [ending?_of_link link] at ends
          cases ends
      | giveUp _ limit' =>
          rw [limit] at limit'
          cases limit'
      | hop link' _ rest' =>
          cases link.symm.trans link'
          exact ih rest'

/-- Under a limit that some number reaches a look-up ends, as a search with the hops that are
left does. -/
theorem fetches_search (hbound : volume.settings.hopBound = some bound) (hops : Nat)
    (path : Path) :
    volume.Fetches heap hops path (volume.search heap (bound - hops) path).resolution := by
  have hgivesUp : ∀ hops, volume.settings.givesUp hops = decide (bound ≤ hops) := by
    intro hops
    rw [Bool.eq_iff_iff, Settings.givesUp_iff, hbound]
    simp
  -- Each hop leaves one hop less.
  generalize hleft : bound - hops = left
  induction left generalizing hops path with
  | zero =>
      rcases volume.hop_cases heap path with
        ⟨resolution, hend, -, -, hsearch⟩ | ⟨target, hlink, -, hzero, -⟩
      · rw [hsearch]
        exact .stay hend
      · rw [hzero]
        exact .giveUp hlink (by rw [hgivesUp, decide_eq_true_iff]; omega)
  | succ left ih =>
      rcases volume.hop_cases heap path with
        ⟨resolution, hend, -, -, hsearch⟩ | ⟨target, hlink, -, -, hsucc⟩
      · rw [hsearch]
        exact .stay hend
      · rw [hsucc]
        exact .hop hlink (by rw [hgivesUp, decide_eq_false_iff_not]; omega)
          (ih (hops + 1) target (by omega))

/-- Under a limit that no number reaches a look-up goes on as long as there is a link. -/
theorem fetches_iff_follows (hbound : volume.settings.hopBound = none) :
    volume.Fetches heap hops path resolution ↔ volume.Follows heap path resolution := by
  have hgivesUp : ∀ hops, volume.settings.givesUp hops = false := by
    intro hops
    rw [Bool.eq_false_iff, ne_eq, Settings.givesUp_iff, hbound]
    simp
  constructor
  · intro h
    induction h with
    | stay ends => exact .stay ends
    | @giveUp hops path target link limit =>
        rw [hgivesUp] at limit
        cases limit
    | hop link limit rest ih => exact .hop link ih
  · intro h
    induction h generalizing hops with
    | stay ends => exact .stay ends
    | hop link rest ih => exact .hop link (hgivesUp hops) ih

theorem Follows.ne_stopped (h : volume.Follows heap path resolution) : resolution ≠ .stopped := by
  obtain ⟨-, stop, -, hstop⟩ := follows_iff.mp h
  rintro rfl
  exact ending?_ne_stopped hstop

/-- A look-up ends as the search that stands for it, unless it goes round for ever. -/
theorem fetches_iff : volume.Fetches heap 0 path resolution ↔
    (volume.resolve heap path).resolution = resolution ∧
      (volume.settings.hopBound = none → ¬volume.Cyclic heap path) := by
  unfold resolve
  cases hbound : volume.settings.hopBound with
  | some bound =>
      have hends : volume.Fetches heap 0 path (volume.search heap bound path).resolution :=
        fetches_search hbound 0 path
      simp only [Option.getD_some, reduceCtorEq, false_implies, and_true]
      constructor
      · exact fun h => hends.unique h
      · rintro rfl
        exact hends
  | none =>
      simp only [Option.getD_none, true_implies]
      rw [fetches_iff_follows hbound]
      constructor
      · intro h
        exact ⟨(follows_iff_enoughHops h.ne_stopped).mp h, follows_iff_not_cyclic.mp ⟨_, h⟩⟩
      · rintro ⟨rfl, hcyclic⟩
        exact (follows_iff_enoughHops (mt stopped_enoughHops_iff.mp hcyclic)).mpr rfl

end Volume

namespace State

variable {state : State} {call : Call} {id : NodeId}

/-- A file that is made has the delay of the settings, and keeps it. -/
theorem delay_of_made (hwrites : call.Writes)
    (hfree : state.volume.live? call.request.path = none)
    (hanswer : call.answer state = .ok (.node id)) (later : List Step) :
    (((state.serve call).follow later).node id).delay = state.volume.settings.writeDelay := by
  obtain ⟨change, -, hplan, hagrees⟩ := agrees_of_answer_ok hanswer
  rw [Call.plan_of_writes hwrites, Plan.outcome_openToWrite_eq_ok] at hplan
  rcases hplan with ⟨found, hleads, -⟩ | ⟨-, -, hreply, rfl⟩
  · obtain ⟨held, hheld⟩ := hleads.occupied
    rw [Volume.live?_tidy, hfree] at hheld
    cases hheld
  · cases hreply
    have hmade : (⟨state.heap.size⟩ : NodeId).index < (state.serve call).heap.size := by
      rw [hagrees.heap, size_add]
      exact Nat.lt_succ_self _
    have hnode : (state.serve call).node ⟨state.heap.size⟩ =
        (state.commit (.add { path := call.request.path } (.fileCreated call.request.path))).node
          ⟨state.heap.size⟩ := by
      unfold node
      rw [hagrees.heap]
    have hfixed := (fixed_follow later hmade).2
    simp only [Node.fixed, Prod.mk.injEq] at hfixed
    rw [hfixed.2.2.1, hnode, node_commit]
    simp

theorem writeAt_notANumber_iff {data : Bytes} {offset : Int} {after : State} :
    Transfer.writeAt id data offset state = .error (.fault .spanNotANumber) after ↔
      after = state ∧ 0 ≤ offset ∧
        (state.node id).delay.fault? data.length = some .spanNotANumber := by
  rw [Transfer.writeAt_run, ← Node.writeAt_notANumber_iff]
  unfold node
  cases (state.heap.get id).writeAt data offset with
  | error fault =>
      simp only [EStateM.Result.error.injEq, Refusal.fault.injEq, Except.error.injEq]
      exact ⟨fun ⟨hfault, hafter⟩ => ⟨hafter.symm, hfault⟩,
        fun ⟨hafter, hfault⟩ => ⟨hfault, hafter.symm⟩⟩
  | ok written => simp

end State

namespace Settings

/-- What accepted settings are good for. All products of the delay with numbers of bytes are
numbers, just when the delay is one itself; and a file made under the settings refuses a write
for what is no number only with such a delay, or with an infinite one and no bytes to write.
Where a look-up comes to an end it is that of the search. It goes on for ever just when the
links go round and the limit is no number or infinite, and so with every other limit it ends
whatever the links are. -/
theorem accepted_usable_iff {named : List (String × Quantity)} {settings : Settings}
    (h : ofNamed named = .ok settings) :
    ∃ seconds, settings.writeDelay = some seconds ∧
      ((∀ count, 0 < count → (seconds.times count).value ≠ .nan) ↔ seconds.value ≠ .nan) ∧
      (∀ (state : State) (call : Call) (id : NodeId) (later : List Step) (data : Bytes)
          (offset : Int), state.volume.settings = settings → call.Writes →
        state.volume.live? call.request.path = none → call.answer state = .ok (.node id) →
          let after := (state.serve call).follow later
          (Transfer.writeAt id data offset after = .error (.fault .spanNotANumber) after ↔
            0 ≤ offset ∧
              (seconds.value = .nan ∨ seconds.value = .infinite false ∧ data = []))) ∧
      ∀ limit, settings.hopLimit = some limit →
        (∀ (volume : Volume) (heap : Heap) (path : Path), volume.settings = settings →
          (∀ resolution, volume.Fetches heap 0 path resolution →
            (volume.resolve heap path).resolution = resolution) ∧
          ((∃ resolution, volume.Fetches heap 0 path resolution) ↔
            (limit.value = .nan ∨ limit.value = .infinite false → ¬volume.Cyclic heap path))) ∧
        ((∀ (volume : Volume) (heap : Heap) (path : Path), volume.settings = settings →
            ∃ resolution, volume.Fetches heap 0 path resolution) ↔
          limit.value ≠ .nan ∧ limit.value ≠ .infinite false) := by
  obtain ⟨seconds, hdelay, hseconds, -⟩ := accepted h
  refine ⟨seconds, hdelay, ⟨fun hall hnan => ?_, fun hnumber count hcount hnan => ?_⟩, ?_, ?_⟩
  · exact hall 1 Nat.one_pos ((seconds.times_eq_nan_iff 1).mpr (Or.inl hnan))
  · rcases (seconds.times_eq_nan_iff count).mp hnan with hnan | ⟨-, hzero⟩
    · exact hnumber hnan
    · omega
  · intro state call id later data offset hsettings hwrites hfree hanswer after
    have hbounded : seconds.value ≠ .infinite true := by
      intro hnegative
      rw [Scalar.lt, hnegative] at hseconds
      cases hseconds
    rw [State.writeAt_notANumber_iff, State.delay_of_made hwrites hfree hanswer, hsettings,
      hdelay, Delay.notANumber_iff, Scalar.times_eq_nan_iff, Bool.exists_bool,
      List.length_eq_zero_iff]
    simp [hbounded]
  · intro limit hlimit
    have hlookups : ∀ (volume : Volume) (heap : Heap) (path : Path),
        volume.settings = settings → ((∃ resolution, volume.Fetches heap 0 path resolution) ↔
          (limit.value = .nan ∨ limit.value = .infinite false → ¬volume.Cyclic heap path)) := by
      intro volume heap path hsettings
      simp only [Volume.fetches_iff, hsettings, hopBound_eq_none_iff hlimit, exists_and_right,
        exists_eq', true_and]
    refine ⟨fun volume heap path hsettings => ⟨?_, hlookups volume heap path hsettings⟩, ?_, ?_⟩
    · intro resolution hfetches
      exact (Volume.fetches_iff.mp hfetches).1
    · intro hall
      rw [← not_or]
      intro hendless
      have hround := (hlookups { Act.linkedRound.volume with settings } Act.linkedRound.heap
        ['/', 'a'] rfl).mp (hall _ _ _ rfl) hendless
      exact hround ⟨0, 1, ['/', 'a'], Nat.one_pos, rfl, rfl⟩
    · rintro ⟨hnumber, hfinite⟩ volume heap path hsettings
      apply (hlookups volume heap path hsettings).mpr
      rintro (hnan | hinfinite)
      · exact absurd hnan hnumber
      · exact absurd hinfinite hfinite

/-- A store with a link to a file in the place of the file, so that it points to itself. -/
def linkedToItself (settings : Settings) : State :=
  (State.start settings).run [State.fileMade,
    ⟨.command, { method := .symlink, path := ['/', 'a'], target := ['/', 'l'] }⟩,
    State.firstNameRemoved,
    ⟨.command, { method := .rename, path := ['/', 'l'], target := ['/', 'a'] }⟩]

theorem settings_linkedToItself (settings : Settings) :
    (linkedToItself settings).volume.settings = settings := by
  unfold linkedToItself
  rw [State.settings_run]
  rfl

/-- Without a delay a new file is written to, and with a limit of two a look-up of a link that
points to itself comes to an end. -/
theorem whole_settings_usable :
    let settings : Settings := ⟨some (.whole 0), some (.whole 2)⟩
    let file := (State.start settings).serve State.fileMade
    ofNamed [("write_delay", some (.whole 0)), ("max_symlink_hops", some (.whole 2))] =
        .ok settings ∧
      (∀ count, 0 < count → ((Scalar.whole 0).times count).value ≠ .nan) ∧
      Transfer.writeAt ⟨1⟩ [120] 0 file ≠ .error (.fault .spanNotANumber) file ∧
      ∃ resolution, (linkedToItself settings).volume.Fetches (linkedToItself settings).heap 0
        ['/', 'a'] resolution := by
  intro settings file
  have hnamed : ofNamed [("write_delay", some (.whole 0)), ("max_symlink_hops", some (.whole 2))] =
      .ok settings := rfl
  obtain ⟨seconds, hdelay, hproducts, hwrites, hlookups⟩ := accepted_usable_iff hnamed
  cases hdelay
  have hfile := hwrites (State.start settings) State.fileMade ⟨1⟩ [] [120] 0 rfl (Or.inl rfl)
    (by decide +kernel) rfl
  refine ⟨hnamed, hproducts.mpr (by decide), mt hfile.mp (by decide), ?_⟩
  exact (hlookups (.whole 2) rfl).2.mpr (by decide) _ _ _ (settings_linkedToItself settings)

/-- Not-a-number passes both checks. As a delay it makes the first write to a new file fail, and
as a limit it makes a look-up of a link that points to itself go on for ever. -/
theorem nan_accepted :
    let delayed : Settings := { writeDelay := some (.real .nan) }
    let unlimited : Settings := { hopLimit := some (.real .nan) }
    let file := (State.start delayed).serve State.fileMade
    ofNamed [("write_delay", some (.real .nan))] = .ok delayed ∧
      ((Scalar.real .nan).times 1).value = .nan ∧
      Transfer.writeAt ⟨1⟩ [120] 0 file = .error (.fault .spanNotANumber) file ∧
      ofNamed [("max_symlink_hops", some (.real .nan))] = .ok unlimited ∧
      ¬∃ resolution, (linkedToItself unlimited).volume.Fetches (linkedToItself unlimited).heap 0
        ['/', 'a'] resolution := by
  intro delayed unlimited file
  have hdelayed : (file.heap.get ⟨1⟩).writeAt [120] 0 = .error .spanNotANumber := by
    decide +kernel
  have hround : (linkedToItself unlimited).volume.Cyclic (linkedToItself unlimited).heap
      ['/', 'a'] :=
    ⟨0, 1, ['/', 'a'], Nat.one_pos, by decide +kernel, by decide +kernel⟩
  have hbound : (linkedToItself unlimited).volume.settings.hopBound = none := by
    rw [settings_linkedToItself]
    rfl
  refine ⟨rfl, rfl, ?_, rfl, ?_⟩
  · rw [Transfer.writeAt_run, hdelayed]
  · rintro ⟨resolution, hfetches⟩
    exact (Volume.fetches_iff.mp hfetches).2 hbound hround

end Settings

end FlatTree
