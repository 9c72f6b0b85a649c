import FlatTree.Proofs.Twin

/-!
The store that clients start to share. Making the directories of all clients in an
empty store makes each of them and nothing else (`Commons.bare_found`). Such a
store is its own twin to each client.
-/

namespace FlatTree

/-- The call that makes a client's directory. -/
def areaMade (name : Segment) : Call :=
  ⟨.command, { method := .mkdir, path := Path.top name }⟩

/-- A store in which the directories of clients were made and nothing else. -/
structure State.Bare (clients : List Segment) (state : State) : Prop where
  sound : state.volume.Sound state.heap
  made : ∀ name ∈ clients, ∃ id, state.volume.table.live? (Path.top name) = some id
  keys : ∀ path id, state.volume.table.live? path = some id →
    (∃ name ∈ clients, path = Path.top name) ∧ (state.heap.get id).isDirectory = true

namespace Path

variable {name : Segment}

theorem top_eq_ofSegments (name : Segment) : top name = ofSegments [name] := by
  simp [top, ofSegments]

theorem parent_top (h : Proper name) : (top name).parent = root := by
  have hparent : (ofSegments ([] ++ [name])).parent = ofSegments [] :=
    parent_ofSegments (by simp) h
  rw [top_eq_ofSegments]
  exact hparent

end Path

namespace Volume.Sound

variable {volume : Volume} {heap : Heap} {name : Segment}

theorem leads_root (h : volume.Sound heap) : volume.Leads heap Path.root volume.root := by
  have hlink := h.oneKind volume.root h.root_isDirectory
  unfold Volume.Leads Volume.resolve
  rw [Volume.search_of_not_isLink _ Volume.live?_root hlink]

/-- A client's directory is made where there is none. -/
theorem plan_areaMade (h : volume.Sound heap) (hname : Path.Proper name)
    (hfree : volume.live? (Path.top name) = none) :
    ((areaMade name).plan volume heap).outcome =
      .ok (.done, .add { path := Path.top name, isDirectory := true }
        (.directoryCreated (Path.top name))) := by
  have hparent : volume.HasParent heap (Path.top name) := by
    refine ⟨volume.root, ?_, h.root_isDirectory⟩
    rw [Path.parent_top hname]
    exact h.leads_root
  refine Query.outcome_bind_eq_ok.mpr ⟨_, ?_, rfl⟩
  refine Query.outcome_bind_eq_ok.mpr ⟨(), ?_, ?_⟩
  · exact Plan.outcome_requireParent_eq_ok.mpr hparent
  · exact Query.outcome_bind_eq_ok.mpr ⟨(), Plan.outcome_requireFree_eq_ok.mpr hfree, rfl⟩

end Volume.Sound

/-- A call for a client's directory that is not refused makes it. -/
theorem Call.plan_areaMade {volume : Volume} {heap : Heap} {name : Segment}
    {planned : Reply × Change}
    (h : ((areaMade name).plan volume heap).outcome = .ok planned) :
    volume.live? (Path.top name) = none ∧
      planned.2 = .add { path := Path.top name, isDirectory := true }
        (.directoryCreated (Path.top name)) := by
  obtain ⟨change, hchange, hplanned⟩ := Query.outcome_bind_eq_ok.mp h
  obtain ⟨_, -, hrest⟩ := Query.outcome_bind_eq_ok.mp hchange
  obtain ⟨_, hfree, hadd⟩ := Query.outcome_bind_eq_ok.mp hrest
  cases hplanned
  cases hadd
  exact ⟨Plan.outcome_requireFree_eq_ok.mp hfree, rfl⟩

namespace State.Bare

variable {clients : List Segment} {state : State} {name client : Segment}

theorem start (settings : Settings) : Bare [] (State.start settings) := by
  refine ⟨sound_start settings, ?_, ?_⟩
  · intro name member
    cases member
  · intro path id hlive
    cases hlive

/-- The next client's directory is made, or it is there already. -/
theorem serve (h : Bare clients state) (hname : Path.Proper name) :
    Bare (clients ++ [name]) (state.serve (areaMade name)) := by
  have hsound : (state.serve (areaMade name)).volume.Sound
      (state.serve (areaMade name)).heap := (sound_run h.sound [areaMade name]).1
  have hserve := serve_calm h.sound.toCalm (areaMade name)
  cases hplan : ((areaMade name).plan state.volume state.heap).outcome with
  | error fault =>
      simp only [hplan] at hserve
      obtain ⟨hvolume, hheap⟩ := hserve
      refine ⟨hsound, ?_, ?_⟩
      · intro other member
        rw [hvolume]
        rcases List.mem_append.mp member with hold | hnew
        · exact h.made other hold
        · rw [List.mem_singleton.mp hnew]
          cases hheld : state.volume.table.live? (Path.top name) with
          | some id => exact ⟨id, rfl⟩
          | none =>
              rw [← Volume.live?_of_ne_root (Path.top_ne_root hname)] at hheld
              rw [h.sound.plan_areaMade hname hheld] at hplan
              cases hplan
      · intro path id hlive
        rw [hvolume] at hlive
        rw [hheap]
        obtain ⟨⟨other, member, hpath⟩, hdirectory⟩ := h.keys path id hlive
        exact ⟨⟨other, List.mem_append_left _ member, hpath⟩, hdirectory⟩
  | ok planned =>
      simp only [hplan] at hserve
      obtain ⟨hvolume, hheap⟩ := hserve
      obtain ⟨hfree, hchange⟩ := Call.plan_areaMade hplan
      rw [hchange] at hvolume hheap
      refine ⟨hsound, ?_, ?_⟩
      · intro other member
        rw [hvolume, live?_add]
        split
        · exact ⟨_, rfl⟩
        · rename_i hne
          rcases List.mem_append.mp member with hold | hnew
          · exact h.made other hold
          · exact absurd (congrArg Path.top (List.mem_singleton.mp hnew)) hne
      · intro path id hlive
        rw [hvolume, live?_add] at hlive
        rw [hheap, get_add]
        split at hlive
        · rename_i hpath
          cases hlive
          rw [if_pos rfl]
          exact ⟨⟨name, List.mem_append_right _ List.mem_cons_self, hpath⟩, rfl⟩
        · rw [if_neg]
          · obtain ⟨⟨other, member, hpath⟩, hdirectory⟩ := h.keys path id hlive
            exact ⟨⟨other, List.mem_append_left _ member, hpath⟩, hdirectory⟩
          · rintro rfl
            exact Nat.lt_irrefl _ (h.sound.made_of_live? hlive)

theorem run (h : Bare clients state) {names : List Segment}
    (hnames : ∀ name ∈ names, Path.Proper name) :
    Bare (clients ++ names) (state.run (names.map areaMade)) := by
  induction names generalizing clients state with
  | nil =>
      rw [List.append_nil]
      exact h
  | cons name rest ih =>
      have hstep := h.serve (hnames name List.mem_cons_self)
      have hrest := ih hstep fun later member => hnames later (List.mem_cons_of_mem _ member)
      rw [List.append_assoc] at hrest
      exact hrest

/-- A store with nothing but the clients' directories is its own twin. -/
theorem twin (h : Bare clients state) (hclients : ∀ name ∈ clients, Path.Proper name)
    (hclient : client ∈ clients) :
    Twin client (fun a b => a = b ∧ state.volume.table.live? (Path.top client) = some a)
      state state where
  proper := hclients client hclient
  calm := h.sound.toCalm
  calm' := h.sound.toCalm
  settings := rfl
  entries := by
    rw [List.forall₂_same]
    rintro ⟨path, id⟩ member
    obtain ⟨hlive, hwithin⟩ := Volume.mem_inside.mp member
    obtain ⟨⟨name, hname, rfl⟩, -⟩ := h.keys path id hlive
    have hsame : name = client :=
      Path.Within.unique (Path.within_self _) hwithin (hclients name hname)
        (hclients client hclient)
    rw [hsame] at hlive
    exact ⟨rfl, rfl, hlive⟩
  biunique := by
    constructor
    · rintro a b c ⟨ha, -⟩ ⟨hb, -⟩
      rw [ha, hb]
    · rintro a b c ⟨ha, -⟩ ⟨hb, -⟩
      rw [← ha, hb]
  made := by
    rintro a _ ⟨rfl, hlive⟩
    exact ⟨h.sound.made_of_live? hlive, h.sound.made_of_live? hlive⟩
  nodes := by
    rintro a _ ⟨rfl, -⟩
    rfl
  inside := by
    rintro a _ ⟨rfl, hlive⟩
    have hdirectory := (h.keys _ a hlive).2
    have hpath := h.sound.ownPath _ a hlive (by simp [Node.isFile, hdirectory])
    exact Or.inl hpath
  target := by
    rintro a _ ⟨rfl, hlive⟩ hlink
    rw [h.sound.oneKind a (h.keys _ a hlive).2] at hlink
    cases hlink

end State.Bare

namespace Commons

end Commons

end FlatTree
