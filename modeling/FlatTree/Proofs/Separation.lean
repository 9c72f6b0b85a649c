import FlatTree.Proofs.Likeness
import FlatTree.Proofs.Purpose

/-!
Changes under areas. Twins that make the same change under their area stay twins
(`State.Twin.commit`), and a change under one area leaves every other untouched:
entries, nodes and settings are for its client as they were
(`State.Twin.untouched_commit`). Both go by what a change makes of the entries of
an area, which hangs on whether the paths that it names are in the area.
-/

namespace FlatTree

theorem Volume.inside_of_append {volume after : Volume} {added : List (Path × NodeId)}
    (h : after.table.live = volume.table.live ++ added) (area : Path) :
    after.inside area = volume.inside area ++ added.filter (·.1.Within area) := by
  unfold inside
  rw [h, List.filter_append]

namespace State

/-- A state that is to the client of an area as one before was. -/
structure Untouched (area : Path) (before after : State) : Prop where
  calm : after.volume.Calm
  settings : after.volume.settings = before.volume.settings
  inside : after.volume.inside area = before.volume.inside area
  size : before.heap.size ≤ after.heap.size
  nodes : ∀ id, id.index < before.heap.size → (before.heap.get id).path.Within area →
    after.heap.get id = before.heap.get id

theorem Untouched.refl {state : State} (h : state.volume.Calm) (area : Path) :
    state.Untouched area state :=
  ⟨h, rfl, rfl, Nat.le_refl _, fun _ _ _ => rfl⟩

/-- Only the volume and the heap of the later state matter. -/
theorem Untouched.congr {area : Path} {before after later : State}
    (h : before.Untouched area after) (hvolume : later.volume = after.volume)
    (hheap : later.heap = after.heap) : before.Untouched area later := by
  obtain ⟨hcalm, hsettings, hinside, hsize, hnodes⟩ := h
  rw [← hvolume] at hcalm hsettings hinside
  rw [← hheap] at hsize hnodes
  exact ⟨hcalm, hsettings, hinside, hsize, hnodes⟩

section

variable {state : State} {node : Node} {record : Record} {source target path : Path}
  {id : NodeId} {moves : List Move} (area : Path)

theorem inside_add (h : state.volume.Calm)
    (hfree : state.volume.table.live? node.path = none) :
    (state.commit (.add node record)).volume.inside area =
      state.volume.inside area ++
        [(node.path, ⟨state.heap.size⟩)].filter (·.1.Within area) :=
  Volume.inside_of_append (h.tidy.live_insert hfree _) area

theorem inside_share (h : state.volume.Calm)
    (hfree : state.volume.table.live? target = none) :
    (state.commit (.share target path id)).volume.inside area =
      state.volume.inside area ++ [(target, id)].filter (·.1.Within area) :=
  Volume.inside_of_append (h.tidy.live_insert hfree _) area

theorem inside_move (h : state.volume.Calm) (hclear : state.volume.table.Clear moves) :
    (state.commit (.move source target moves)).volume.inside area =
      ((state.volume.inside area).filter fun entry =>
          !(moves.map Move.source).contains entry.1) ++
        (moves.map fun move => (move.target, move.id)).filter (·.1.Within area) := by
  have hlive : (state.commit (.move source target moves)).volume.table.live = _ :=
    h.tidy.live_relocate hclear
  unfold Volume.inside
  rw [hlive, List.filter_append, List.filter_filter, List.filter_filter]
  congr 1
  apply List.filter_congr
  intro entry _
  exact Bool.and_comm _ _

theorem inside_remove : (state.commit (.remove path)).volume.inside area =
    (state.volume.inside area).filter (·.1 != path) := by
  unfold Volume.inside
  rw [volume_remove, Table.live_erase, List.filter_filter, List.filter_filter]
  apply List.filter_congr
  intro entry _
  exact Bool.and_comm _ _

end

section

variable {state : State} {node : Node} {record : Record} {source target path area : Path}
  {id : NodeId} {moves : List Move} (h : state.volume.Calm)

include h

theorem untouched_rewrite
    (hid : ∀ other, (state.heap.get other).path.Within area → other ≠ id) :
    state.Untouched area (state.commit (.rewrite id node)) := by
  refine ⟨h, rfl, rfl, ?_, ?_⟩
  · rw [size_rewrite]
    omega
  · intro other _ hother
    rw [get_rewrite, if_neg (hid other hother)]

theorem untouched_add (hfree : state.volume.table.live? node.path = none)
    (hpath : ¬node.path.Within area) :
    state.Untouched area (state.commit (.add node record)) := by
  refine ⟨calm_commit h _, rfl, ?_, ?_, ?_⟩
  · rw [inside_add area h hfree]
    simp [hpath]
  · rw [size_add]
    omega
  · intro id hmade _
    exact get_add_of_made hmade

theorem untouched_share (hfree : state.volume.table.live? target = none)
    (htarget : ¬target.Within area) :
    state.Untouched area (state.commit (.share target path id)) := by
  refine ⟨calm_commit h _, rfl, ?_, Nat.le_refl _, fun _ _ _ => rfl⟩
  rw [inside_share area h hfree]
  simp [htarget]

theorem untouched_move (hclear : state.volume.table.Clear moves)
    (hpaths : ∀ move ∈ moves, ¬move.source.Within area ∧ ¬move.target.Within area)
    (hids : ∀ move ∈ moves, ∀ id, (state.heap.get id).path.Within area → id ≠ move.id) :
    state.Untouched area (state.commit (.move source target moves)) := by
  refine ⟨calm_commit h _, rfl, ?_, Heap.size_le_relocate state.heap moves, ?_⟩
  · have hsources : (state.volume.inside area).filter (fun entry =>
        !(moves.map Move.source).contains entry.1) = state.volume.inside area := by
      rw [List.filter_eq_self]
      rintro ⟨path, id⟩ member
      have hpath := (Volume.mem_inside.mp member).2
      simp only [Bool.not_eq_true', List.contains_eq_mem, decide_eq_false_iff_not]
      intro hsource
      obtain ⟨move, hmove, rfl⟩ := List.mem_map.mp hsource
      exact (hpaths move hmove).1 hpath
    have htargets : (moves.map fun move => (move.target, move.id)).filter
        (·.1.Within area) = [] := by
      rw [List.filter_eq_nil_iff]
      intro entry member
      obtain ⟨move, hmove, rfl⟩ := List.mem_map.mp member
      rw [decide_eq_true_eq]
      exact (hpaths move hmove).2
    rw [inside_move area h hclear, hsources, htargets, List.append_nil]
  · intro id _ hid
    rw [get_move]
    rcases Heap.pathAfter_cases moves id (state.heap.get id).path with
      ⟨last, member, hlast, -⟩ | ⟨-, hpath⟩
    · exact absurd hlast.symm (hids last member id hid)
    · rw [hpath]

theorem untouched_remove (hpath : ¬path.Within area) :
    state.Untouched area (state.commit (.remove path)) := by
  refine ⟨calm_commit h _, settings_commit state _, ?_, ?_, ?_⟩
  · rw [inside_remove, List.filter_eq_self]
    rintro ⟨other, id⟩ member
    have hother := (Volume.mem_inside.mp member).2
    rw [bne_iff_ne]
    rintro rfl
    exact hpath hother
  · rw [heap_remove]
  · intro id _ _
    rw [heap_remove]

end

namespace Twin

variable {name another : Segment} {same : NodeId → NodeId → Prop}
  {first second : State} {a b : NodeId} (h : Twin name same first second)

include h

theorem eq_iff (hsame : same a b) {held other : NodeId} (hheld : same held other) :
    held = a ↔ other = b :=
  Relator.rel_eq h.biunique hheld hsame

/-- States with the same volumes and heaps are twins as well. -/
theorem congr {after later : State} (hvolume : after.volume = first.volume)
    (hheap : after.heap = first.heap) (hvolume' : later.volume = second.volume)
    (hheap' : later.heap = second.heap) : Twin name same after later := by
  obtain ⟨hproper, hcalm, hcalm', hsettings, hentries, hunique, hmade, hnodes, hinside,
    htarget⟩ := h
  rw [← hvolume] at hcalm hsettings hentries
  rw [← hvolume'] at hcalm' hsettings hentries
  rw [← hheap] at hmade hnodes hinside htarget
  rw [← hheap'] at hmade hnodes
  exact ⟨hproper, hcalm, hcalm', hsettings, hentries, hunique, hmade, hnodes, hinside,
    htarget⟩

theorem commit_rewrite {node other : Node} (known : same a b)
    (nodes : node.timeless = other.timeless)
    (reworks : (first.heap.get a).Reworks node) :
    Twin name same (first.commit (.rewrite a node)) (second.commit (.rewrite b other)) where
  proper := h.proper
  calm := h.calm
  calm' := h.calm'
  settings := h.settings
  entries := h.entries
  biunique := h.biunique
  made := by
    intro held twin hsame
    obtain ⟨hheld, htwin⟩ := h.made held twin hsame
    rw [size_rewrite, size_rewrite]
    omega
  nodes := by
    intro held twin hsame
    rw [get_rewrite, get_rewrite]
    simp only [h.eq_iff known hsame]
    split
    · exact nodes
    · exact h.nodes held twin hsame
  inside := by
    intro held twin hsame
    rw [get_rewrite]
    split
    · rw [reworks.path]
      exact h.inside a b known
    · exact h.inside held twin hsame
  target := by
    intro held twin hsame hlink
    rw [get_rewrite] at hlink ⊢
    split
    · rename_i heq
      rw [if_pos heq] at hlink
      unfold Node.isLink at hlink
      rw [reworks.target] at hlink ⊢
      exact h.target a b known hlink
    · rename_i hne
      rw [if_neg hne] at hlink
      exact h.target held twin hsame hlink

theorem commit_add {node : Node} {record : Record} (path : node.path.Under (Path.top name))
    (target : node.isLink = true → node.target.Under (Path.top name))
    (free : first.volume.table.live? node.path = none)
    (free' : second.volume.table.live? node.path = none) :
    Twin name ((Change.add node record).grown same first second)
      (first.commit (.add node record)) (second.commit (.add node record)) where
  proper := h.proper
  calm := calm_commit h.calm _
  calm' := calm_commit h.calm' _
  settings := h.settings
  entries := by
    rw [inside_add _ h.calm free, inside_add _ h.calm' free']
    refine List.rel_append ?_ ?_
    · exact h.entries.imp fun _ _ halike => ⟨halike.1, Or.inl halike.2⟩
    · simp only [path.within, decide_true, List.filter_cons_of_pos, List.filter_nil]
      exact .cons ⟨rfl, Or.inr ⟨rfl, rfl⟩⟩ .nil
  biunique := Change.biunique_grown h.biunique h.made _
  made := by
    rintro a b (hsame | ⟨rfl, rfl⟩)
    · obtain ⟨ha, hb⟩ := h.made a b hsame
      rw [size_add, size_add]
      omega
    · rw [size_add, size_add]
      exact ⟨Nat.lt_succ_self _, Nat.lt_succ_self _⟩
  nodes := by
    rintro a b (hsame | ⟨rfl, rfl⟩)
    · obtain ⟨ha, hb⟩ := h.made a b hsame
      rw [get_add_of_made ha, get_add_of_made hb]
      exact h.nodes a b hsame
    · rw [get_add, if_pos rfl, get_add, if_pos rfl, h.settings]
      rfl
  inside := by
    rintro a b (hsame | ⟨rfl, rfl⟩)
    · rw [get_add_of_made (h.made a b hsame).1]
      exact h.inside a b hsame
    · rw [get_add, if_pos rfl]
      exact path.within
  target := by
    rintro a b (hsame | ⟨rfl, rfl⟩) hlink
    · rw [get_add_of_made (h.made a b hsame).1] at hlink ⊢
      exact h.target a b hsame hlink
    · rw [get_add, if_pos rfl] at hlink ⊢
      exact target hlink

theorem commit_share {target path : Path} (known : same a b) (under : target.Under (Path.top name))
    (free : first.volume.table.live? target = none)
    (free' : second.volume.table.live? target = none) :
    Twin name same (first.commit (.share target path a))
      (second.commit (.share target path b)) where
  proper := h.proper
  calm := calm_commit h.calm _
  calm' := calm_commit h.calm' _
  settings := h.settings
  entries := by
    rw [inside_share _ h.calm free, inside_share _ h.calm' free']
    refine List.rel_append h.entries ?_
    simp only [under.within, decide_true, List.filter_cons_of_pos, List.filter_nil]
    exact .cons ⟨rfl, known⟩ .nil
  biunique := h.biunique
  made := h.made
  nodes := h.nodes
  inside := h.inside
  target := h.target

omit h in
theorem pathAfter_eq {moves others : List Move} (hunique : Relator.BiUnique same)
    (likewise : List.Forall₂ (Move.Alike (Path.top name) same) moves others)
    (hsame : same a b) (path : Path) :
    Heap.pathAfter moves a path = Heap.pathAfter others b path := by
  unfold Heap.pathAfter
  refine List.rel_foldl (P := Eq) ?_ rfl likewise
  rintro path _ rfl move other halike
  simp only [Relator.rel_eq hunique halike.id hsame, halike.target_eq]

theorem commit_move {source target : Path} {moves others : List Move}
    (likewise : List.Forall₂ (Move.Alike (Path.top name) same) moves others)
    (clear : first.volume.table.Clear moves) (clear' : second.volume.table.Clear others) :
    Twin name same (first.commit (.move source target moves))
      (second.commit (.move source target others)) where
  proper := h.proper
  calm := calm_commit h.calm _
  calm' := calm_commit h.calm' _
  settings := h.settings
  entries := by
    have hsources : moves.map Move.source = others.map Move.source := by
      have hmap := List.rel_map (P := Eq) (fun _ _ halike => halike.source_eq) likewise
      rwa [List.forall₂_eq_eq_eq] at hmap
    rw [inside_move _ h.calm clear, inside_move _ h.calm' clear']
    refine List.rel_append ?_ ?_
    · refine List.rel_filter ?_ h.entries
      intro entry other halike
      simp only [halike.1, hsources]
    · refine List.rel_filter ?_ (List.rel_map (R := Move.Alike _ same) ?_ likewise)
      · intro entry other (halike : Alike same entry other)
        simp only [halike.1]
      · intro move other halike
        exact ⟨halike.target_eq, halike.id⟩
  biunique := h.biunique
  made := by
    intro a b hsame
    obtain ⟨ha, hb⟩ := h.made a b hsame
    exact ⟨Nat.lt_of_lt_of_le ha (Heap.size_le_relocate first.heap moves),
      Nat.lt_of_lt_of_le hb (Heap.size_le_relocate second.heap others)⟩
  nodes := by
    intro a b hsame
    have hnodes := h.nodes a b hsame
    rw [get_move, get_move, Node.eq_of_timeless hnodes,
      pathAfter_eq h.biunique likewise hsame]
    rfl
  inside := by
    intro a b hsame
    rw [get_move]
    rcases Heap.pathAfter_cases moves a (first.heap.get a).path with
      ⟨last, member, -, hpath⟩ | ⟨-, hpath⟩
    · obtain ⟨other, -, halike⟩ := exists_of_forall₂ likewise member
      simp only [hpath]
      exact halike.target.within
    · simp only [hpath]
      exact h.inside a b hsame
  target := by
    intro a b hsame hlink
    rw [get_move] at hlink ⊢
    exact h.target a b hsame hlink

theorem commit_remove (path : Path) :
    Twin name same (first.commit (.remove path)) (second.commit (.remove path)) := by
  have hentries : List.Forall₂ (Alike same)
      ((first.commit (.remove path)).volume.inside (Path.top name))
      ((second.commit (.remove path)).volume.inside (Path.top name)) := by
    rw [inside_remove, inside_remove]
    refine List.rel_filter ?_ h.entries
    intro entry other halike
    simp only [halike.1]
  have hsettings := h.settings
  rw [← settings_commit first (.remove path), ← settings_commit second (.remove path)]
    at hsettings
  obtain ⟨hproper, hcalm, hcalm', -, -, hunique, hmade, hnodes, hinside, htarget⟩ := h
  refine ⟨hproper, calm_commit hcalm _, calm_commit hcalm' _, hsettings, hentries, hunique,
    ?_, ?_, ?_, ?_⟩
  · rw [heap_remove, heap_remove]
    exact hmade
  · rw [heap_remove, heap_remove]
    exact hnodes
  · rw [heap_remove]
    exact hinside
  · rw [heap_remove]
    exact htarget

/-- Twins that make the same change stay twins. -/
theorem commit {change other : Change}
    (halike : Change.Alike (Path.top name) same first change other)
    (hfits : change.Fits first.volume.table) (hfits' : other.Fits second.volume.table) :
    Twin name (change.grown same first second) (first.commit change)
      (second.commit other) := by
  cases halike with
  | keep => exact h
  | rewrite known nodes reworks => exact h.commit_rewrite known nodes reworks
  | add path target => exact h.commit_add path target hfits hfits'
  | share known under => exact h.commit_share known under hfits hfits'
  | move likewise => exact h.commit_move likewise hfits hfits'
  | remove under => exact h.commit_remove _

/-- A state with the area untouched is a twin as well. -/
theorem of_untouched {after : State} (huntouched : first.Untouched (Path.top name) after) :
    Twin name same after second where
  proper := h.proper
  calm := huntouched.calm
  calm' := h.calm'
  settings := huntouched.settings.trans h.settings
  entries := by
    rw [huntouched.inside]
    exact h.entries
  biunique := h.biunique
  made := by
    intro a b hsame
    obtain ⟨ha, hb⟩ := h.made a b hsame
    exact ⟨Nat.lt_of_lt_of_le ha huntouched.size, hb⟩
  nodes := by
    intro a b hsame
    rw [huntouched.nodes a (h.made a b hsame).1 (h.inside a b hsame)]
    exact h.nodes a b hsame
  inside := by
    intro a b hsame
    rw [huntouched.nodes a (h.made a b hsame).1 (h.inside a b hsame)]
    exact h.inside a b hsame
  target := by
    intro a b hsame hlink
    rw [huntouched.nodes a (h.made a b hsame).1 (h.inside a b hsame)] at hlink ⊢
    exact h.target a b hsame hlink

/-- A change under its area leaves the areas of other clients untouched. -/
theorem untouched_commit {change other : Change} (hanother : Path.Proper another)
    (hne : name ≠ another)
    (halike : Change.Alike (Path.top name) same first change other)
    (hfits : change.Fits first.volume.table) :
    first.Untouched (Path.top another) (first.commit change) := by
  have happart : ∀ path : Path, path.Within (Path.top name) →
      ¬path.Within (Path.top another) := by
    intro path hpath hother
    exact hne (hpath.unique hother h.proper hanother)
  have hunknown : ∀ {a b : NodeId}, same a b → ∀ id,
      (first.heap.get id).path.Within (Path.top another) → id ≠ a := by
    rintro a b hsame _ hid rfl
    exact happart _ (h.inside _ b hsame) hid
  cases halike with
  | keep => exact .refl h.calm _
  | rewrite known _ _ => exact untouched_rewrite h.calm (hunknown known)
  | add path _ => exact untouched_add h.calm hfits (happart _ path.within)
  | share known under => exact untouched_share h.calm hfits (happart _ under.within)
  | move likewise =>
      refine untouched_move h.calm hfits ?_ ?_
      · intro move member
        obtain ⟨_, -, halike⟩ := exists_of_forall₂ likewise member
        exact ⟨happart _ halike.source.within, happart _ halike.target.within⟩
      · intro move member
        obtain ⟨_, -, halike⟩ := exists_of_forall₂ likewise member
        exact hunknown halike.id
  | remove under => exact untouched_remove h.calm (happart _ under.within)

end Twin

end State

end FlatTree
