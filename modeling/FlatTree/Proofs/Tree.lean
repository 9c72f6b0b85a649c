import FlatTree.Heap
import FlatTree.Proofs.Segments

/-!
Trees of files and directories. A directory has its entries under different
segments and in their order; a file has none, and files at several places may be
the same node. A tree is read by walking it segment by segment, and it is changed
in one place at a time: a subtree is attached as an entry of a directory or
detached from one. What a walk finds after such a change is said by `look_attach`
and `look_detach`.
-/

namespace FlatTree

/-- A file, or a directory with its entries. -/
inductive Tree where
  | file (id : NodeId)
  | directory (id : NodeId) (entries : List (Segment × Tree))

namespace Tree

def nodeId : Tree → NodeId
  | .file id => id
  | .directory id _ => id

def isDirectory : Tree → Bool
  | .file _ => false
  | .directory _ _ => true

/-- The entries of a directory. -/
def entries : Tree → List (Segment × Tree)
  | .file _ => []
  | .directory _ entries => entries

/-- The subtree at the end of a walk over some segments. -/
def walk : Tree → List Segment → Option Tree
  | tree, [] => some tree
  | tree, segment :: rest =>
      match tree.entries.lookup segment with
      | none => none
      | some child => child.walk rest

/-- What can be seen of a tree from outside: its node, and whether it is a
directory. -/
def label (tree : Tree) : NodeId × Bool := (tree.nodeId, tree.isDirectory)

/-- What can be seen at the end of a walk. -/
def look (tree : Tree) (path : List Segment) : Option (NodeId × Bool) :=
  (tree.walk path).map label

/-- Changes the subtree at the end of a walk. -/
def alter (change : Tree → Tree) : List Segment → Tree → Tree
  | [], tree => change tree
  | _ :: _, .file id => .file id
  | segment :: rest, .directory id entries =>
      .directory id (entries.map fun (name, child) =>
        (name, if name = segment then alter change rest child else child))

/-- Entries with one more, or with another in the place of one. -/
def insertEntry (name : Segment) (child : Tree) :
    List (Segment × Tree) → List (Segment × Tree)
  | [] => [(name, child)]
  | (other, tree) :: rest =>
      if other = name then (name, child) :: rest
      else if Path.le name other then (name, child) :: (other, tree) :: rest
      else (other, tree) :: insertEntry name child rest

/-- Puts an entry into a directory. -/
def put (name : Segment) (child : Tree) : Tree → Tree
  | .file id => .file id
  | .directory id entries => .directory id (insertEntry name child entries)

/-- Takes an entry out of a directory. -/
def drop (name : Segment) : Tree → Tree
  | .file id => .file id
  | .directory id entries => .directory id (entries.filter (·.1 != name))

/-- Puts a subtree at the end of a path, into the directory that the path ends in. -/
def attach (tree : Tree) (path : List Segment) (child : Tree) : Tree :=
  match path.getLast? with
  | none => tree
  | some name => tree.alter (put name child) path.dropLast

/-- Takes the subtree at the end of a path away. -/
def detach (tree : Tree) (path : List Segment) : Tree :=
  match path.getLast? with
  | none => tree
  | some name => tree.alter (drop name) path.dropLast

/-- Every directory has its entries under different proper segments, in order. -/
inductive Ordered : Tree → Prop
  | file (id : NodeId) : Ordered (.file id)
  | directory (id : NodeId) (entries : List (Segment × Tree))
      (sorted : entries.Pairwise fun first second =>
        first.1 ≠ second.1 ∧ Path.le first.1 second.1 = true)
      (proper : ∀ entry ∈ entries, Path.Proper entry.1)
      (children : ∀ entry ∈ entries, Ordered entry.2) :
      Ordered (.directory id entries)

variable {tree sub child : Tree} {id : NodeId} {entries : List (Segment × Tree)}
  {path : List Segment} {name segment : Segment} {change : Tree → Tree}

@[simp] theorem walk_nil (tree : Tree) : tree.walk [] = some tree := by
  unfold walk
  rfl

theorem ne_nil_of_walk (h : tree.walk path = none) : path ≠ [] := by
  rintro rfl
  rw [walk_nil] at h
  cases h

theorem walk_cons (tree : Tree) (segment : Segment) (rest : List Segment) :
    tree.walk (segment :: rest) =
      (tree.entries.lookup segment).bind fun child => child.walk rest := by
  rw [walk]
  cases tree.entries.lookup segment <;> rfl

theorem walk_append (tree : Tree) (path rest : List Segment) :
    tree.walk (path ++ rest) = (tree.walk path).bind fun sub => sub.walk rest := by
  induction path generalizing tree with
  | nil => simp
  | cons segment path ih =>
      rw [List.cons_append, walk_cons, walk_cons]
      cases tree.entries.lookup segment with
      | none => rfl
      | some child => exact ih child

theorem walk_concat (tree : Tree) (path : List Segment) (name : Segment) :
    tree.walk (path ++ [name]) =
      (tree.walk path).bind fun sub => sub.entries.lookup name := by
  rw [walk_append]
  congr 1
  funext sub
  rw [walk_cons]
  cases sub.entries.lookup name <;> simp

theorem look_nil (tree : Tree) : tree.look [] = some tree.label := by
  simp [look]

theorem look_cons (tree : Tree) (segment : Segment) (rest : List Segment) :
    tree.look (segment :: rest) =
      (tree.entries.lookup segment).bind fun child => child.look rest := by
  unfold look
  rw [walk_cons]
  cases tree.entries.lookup segment <;> rfl

theorem look_append (tree : Tree) (path rest : List Segment) :
    tree.look (path ++ rest) = (tree.walk path).bind fun sub => sub.look rest := by
  unfold look
  rw [walk_append]
  cases tree.walk path <;> rfl

theorem look_append_of_walk (h : tree.walk path = some sub) (rest : List Segment) :
    tree.look (path ++ rest) = sub.look rest := by
  rw [look_append, h]
  rfl

/-- Nothing is found past a path where nothing is found. -/
theorem look_append_of_none (h : tree.look path = none) (rest : List Segment) :
    tree.look (path ++ rest) = none := by
  rw [look_append, Option.map_eq_none_iff.mp h]
  rfl

/-- A file has no entries. -/
theorem look_file (id : NodeId) (path : List Segment) :
    (Tree.file id).look path = if path = [] then some (id, false) else none := by
  cases path with
  | nil => exact look_nil _
  | cons segment rest =>
      rw [look_cons]
      rfl

/-! ### Changes in one place -/

theorem lookup_cons_eq (other segment : Segment) (tree : Tree)
    (rest : List (Segment × Tree)) :
    ((other, tree) :: rest).lookup segment =
      if segment = other then some tree else rest.lookup segment := by
  rw [List.lookup_cons]
  by_cases hsame : segment = other
  · simp [hsame]
  · rw [beq_false_of_ne hsame, if_neg hsame]

theorem mem_of_lookup {name : Segment} (h : entries.lookup name = some child) :
    (name, child) ∈ entries := by
  obtain ⟨before, after, rfl, -⟩ := List.lookup_eq_some_iff.mp h
  exact List.mem_append_right before List.mem_cons_self

theorem lookup_insertEntry (name segment : Segment) (child : Tree)
    (entries : List (Segment × Tree)) :
    (insertEntry name child entries).lookup segment =
      if segment = name then some child else entries.lookup segment := by
  induction entries with
  | nil =>
      unfold insertEntry
      rw [lookup_cons_eq]
  | cons entry rest ih =>
      obtain ⟨other, tree⟩ := entry
      unfold insertEntry
      rw [lookup_cons_eq]
      split
      · rename_i hother
        subst other
        rw [lookup_cons_eq]
        split
        · rfl
        · rfl
      · rename_i hother
        split
        · rw [lookup_cons_eq, lookup_cons_eq]
        · rw [lookup_cons_eq, ih]
          by_cases hfirst : segment = other
          · rw [if_pos hfirst, if_pos hfirst, if_neg]
            rintro rfl
            exact hother hfirst.symm
          · rw [if_neg hfirst, if_neg hfirst]

theorem lookup_filter (name segment : Segment) (entries : List (Segment × Tree)) :
    (entries.filter (·.1 != name)).lookup segment =
      if segment = name then none else entries.lookup segment := by
  induction entries with
  | nil => simp
  | cons entry rest ih =>
      obtain ⟨other, tree⟩ := entry
      rw [lookup_cons_eq]
      by_cases hother : other = name
      · rw [List.filter_cons_of_neg (by simp [hother]), ih, hother]
        split
        · rfl
        · rfl
      · rw [List.filter_cons_of_pos (by simpa using hother), lookup_cons_eq, ih]
        by_cases hfirst : segment = other
        · rw [if_pos hfirst, if_pos hfirst, if_neg]
          rintro rfl
          exact hother hfirst.symm
        · rw [if_neg hfirst, if_neg hfirst]

theorem lookup_map (name segment : Segment) (change : Tree → Tree)
    (entries : List (Segment × Tree)) :
    (entries.map fun (other, child) =>
        (other, if other = name then change child else child)).lookup segment =
      (entries.lookup segment).map fun child =>
        if segment = name then change child else child := by
  induction entries with
  | nil => rfl
  | cons entry rest ih =>
      obtain ⟨other, child⟩ := entry
      rw [List.map_cons, lookup_cons_eq, lookup_cons_eq, ih]
      by_cases hfirst : segment = other
      · rw [if_pos hfirst, if_pos hfirst, hfirst]
        rfl
      · rw [if_neg hfirst, if_neg hfirst]

theorem entries_alter_cons (change : Tree → Tree) (segment : Segment)
    (rest : List Segment) (tree : Tree) :
    (tree.alter change (segment :: rest)).entries =
      tree.entries.map fun (name, child) =>
        (name, if name = segment then child.alter change rest else child) := by
  cases tree with
  | file id => rfl
  | directory id entries =>
      rw [alter]
      rfl

theorem label_alter_cons (change : Tree → Tree) (segment : Segment)
    (rest : List Segment) (tree : Tree) :
    (tree.alter change (segment :: rest)).label = tree.label := by
  cases tree with
  | file id => rfl
  | directory id entries =>
      rw [alter]
      rfl

@[simp] theorem alter_nil (change : Tree → Tree) (tree : Tree) :
    tree.alter change [] = change tree := by
  unfold alter
  rfl

/-- From the changed place on, a walk goes through the changed subtree. -/
theorem walk_alter_append (change : Tree → Tree) (path rest : List Segment)
    (tree : Tree) :
    (tree.alter change path).walk (path ++ rest) =
      (tree.walk path).bind fun sub => (change sub).walk rest := by
  induction path generalizing tree with
  | nil => simp
  | cons segment path ih =>
      rw [List.cons_append, walk_cons, walk_cons, entries_alter_cons, lookup_map]
      cases tree.entries.lookup segment with
      | none => rfl
      | some child => simpa using ih child

/-- Everywhere else the same can be seen as before. -/
theorem look_alter_beside (change : Tree → Tree) {path other : List Segment}
    (tree : Tree) (h : ¬path <+: other) :
    (tree.alter change path).look other = tree.look other := by
  induction path generalizing tree other with
  | nil => exact absurd (List.nil_prefix) h
  | cons segment path ih =>
      cases other with
      | nil => rw [look_nil, look_nil, label_alter_cons]
      | cons next other =>
          rw [look_cons, look_cons, entries_alter_cons, lookup_map]
          cases tree.entries.lookup next with
          | none => rfl
          | some child =>
              by_cases hsame : next = segment
              · subst next
                have hrest : ¬path <+: other := fun hpath =>
                  h (List.cons_prefix_cons.mpr ⟨rfl, hpath⟩)
                simpa using ih child hrest
              · simp [hsame]

theorem attach_concat (tree : Tree) (path : List Segment) (name : Segment) (child : Tree) :
    tree.attach (path ++ [name]) child = tree.alter (put name child) path := by
  simp [attach]

theorem detach_concat (tree : Tree) (path : List Segment) (name : Segment) :
    tree.detach (path ++ [name]) = tree.alter (drop name) path := by
  simp [detach]

theorem look_attach_concat (h : tree.walk path = some (.directory id entries))
    (name : Segment) (child : Tree) (other : List Segment) :
    (tree.attach (path ++ [name]) child).look other =
      if path ++ [name] <+: other then child.look (other.drop (path.length + 1))
      else tree.look other := by
  rw [attach_concat]
  by_cases hpath : path <+: other
  · obtain ⟨rest, rfl⟩ := hpath
    have hwalk := walk_alter_append (put name child) path rest tree
    rw [h] at hwalk
    rw [look, hwalk, look_append, h]
    cases rest with
    | nil =>
        rw [if_neg]
        · rfl
        · intro hlonger
          have hlength := hlonger.length_le
          simp only [List.length_append, List.length_singleton, List.append_nil] at hlength
          omega
    | cons next rest =>
        have hiff : path ++ [name] <+: path ++ next :: rest ↔ next = name := by
          rw [List.prefix_append_right_inj, List.cons_prefix_cons]
          simp [eq_comm]
        have hdrop : (path ++ next :: rest).drop (path.length + 1) = rest := by
          rw [← List.drop_drop, List.drop_left]
          rfl
        rw [Option.bind_some, Option.bind_some, walk_cons, look_cons, hdrop]
        simp only [put, Tree.entries, lookup_insertEntry, hiff]
        by_cases hsame : next = name
        · rw [if_pos hsame, if_pos hsame]
          rfl
        · rw [if_neg hsame, if_neg hsame]
          cases entries.lookup next <;> rfl
  · rw [look_alter_beside _ tree hpath, if_neg]
    exact fun hlonger => hpath ((List.prefix_append path [name]).trans hlonger)

theorem look_detach_concat (tree : Tree) (path : List Segment) (name : Segment)
    (other : List Segment) :
    (tree.detach (path ++ [name])).look other =
      if path ++ [name] <+: other then none else tree.look other := by
  rw [detach_concat]
  by_cases hpath : path <+: other
  · obtain ⟨rest, rfl⟩ := hpath
    have hwalk := walk_alter_append (drop name) path rest tree
    rw [look, hwalk, look_append]
    cases tree.walk path with
    | none =>
        split
        · rfl
        · rfl
    | some sub =>
        rw [Option.bind_some, Option.bind_some]
        cases rest with
        | nil =>
            rw [if_neg]
            · cases sub <;> rfl
            · intro hlonger
              have hlength := hlonger.length_le
              simp only [List.length_append, List.length_singleton, List.append_nil]
                at hlength
              omega
        | cons next rest =>
            have hiff : path ++ [name] <+: path ++ next :: rest ↔ next = name := by
              rw [List.prefix_append_right_inj, List.cons_prefix_cons]
              simp [eq_comm]
            have hentries : (drop name sub).entries =
                sub.entries.filter (·.1 != name) := by
              cases sub <;> rfl
            rw [walk_cons, look_cons, hentries, lookup_filter]
            simp only [hiff]
            by_cases hsame : next = name
            · rw [if_pos hsame, if_pos hsame]
              rfl
            · rw [if_neg hsame, if_neg hsame]
              cases sub.entries.lookup next <;> rfl
  · rw [look_alter_beside _ tree hpath, if_neg]
    exact fun hlonger => hpath ((List.prefix_append path [name]).trans hlonger)

/-- After a subtree was attached it is found at its place, and everything else
is where it was. -/
theorem look_attach (hne : path ≠ [])
    (h : tree.walk path.dropLast = some (.directory id entries)) (child : Tree)
    (other : List Segment) :
    (tree.attach path child).look other =
      if path <+: other then child.look (other.drop path.length)
      else tree.look other := by
  obtain ⟨front, name, rfl⟩ := (List.eq_nil_or_concat path).resolve_left hne
  rw [List.concat_eq_append] at h ⊢
  rw [List.dropLast_concat] at h
  rw [look_attach_concat h, List.length_append, List.length_singleton]

/-- After a subtree was detached nothing is found at its place or past it. -/
theorem look_detach (tree : Tree) (hne : path ≠ []) (other : List Segment) :
    (tree.detach path).look other = if path <+: other then none else tree.look other := by
  obtain ⟨front, name, rfl⟩ := (List.eq_nil_or_concat path).resolve_left hne
  rw [List.concat_eq_append]
  exact look_detach_concat tree front name other

/-- Attaching a tree without entries where nothing was adds one place. -/
theorem look_attach_leaf (hne : path ≠ [])
    (h : tree.walk path.dropLast = some (.directory id entries))
    (hfree : tree.walk path = none) (hleaf : child.entries = []) (other : List Segment) :
    (tree.attach path child).look other =
      if other = path then some child.label else tree.look other := by
  rw [look_attach hne h]
  by_cases hpath : path <+: other
  · obtain ⟨rest, rfl⟩ := hpath
    have hnone : tree.look path = none := by
      rw [look, hfree]
      rfl
    rw [if_pos (List.prefix_append _ _), List.drop_left, look_append_of_none hnone]
    cases rest with
    | nil => rw [List.append_nil, if_pos rfl, look_nil]
    | cons next rest =>
        rw [if_neg (by simp), look_cons, hleaf]
        rfl
  · rw [if_neg hpath, if_neg]
    rintro rfl
    exact hpath (List.prefix_refl _)

/-- Detaching a tree without entries takes one place away. -/
theorem look_detach_leaf (hne : path ≠ [])
    (hleaf : ∀ sub, tree.walk path = some sub → sub.entries = []) (other : List Segment) :
    (tree.detach path).look other = if other = path then none else tree.look other := by
  rw [look_detach tree hne]
  by_cases hpath : path <+: other
  · obtain ⟨rest, rfl⟩ := hpath
    rw [if_pos (List.prefix_append _ _)]
    cases rest with
    | nil => rw [List.append_nil, if_pos rfl]
    | cons next rest =>
        rw [if_neg (by simp), look_append]
        cases hwalk : tree.walk path with
        | none => rfl
        | some sub =>
            rw [Option.bind_some, look_cons, hleaf sub hwalk]
            rfl
  · rw [if_neg hpath, if_neg]
    rintro rfl
    exact hpath (List.prefix_refl _)

/-- A place where a directory is seen is the end of a walk to it. -/
theorem isDirectory_of_look (h : tree.look path = some (id, true)) :
    ∃ entries, tree.walk path = some (.directory id entries) := by
  obtain ⟨sub, hsub, hlabel⟩ := Option.map_eq_some_iff.mp h
  cases sub with
  | file other => cases hlabel
  | directory other entries =>
      cases hlabel
      exact ⟨entries, hsub⟩

/-- A subtree that is detached and attached again is found at its new place and no
longer at its old one. -/
theorem look_transplant {source target : List Segment} (hsource : source ≠ [])
    (htarget : target ≠ []) (h : tree.walk target.dropLast = some (.directory id entries))
    (hapart : ¬source <+: target) (sub : Tree) (other : List Segment) :
    ((tree.detach source).attach target sub).look other =
      if target <+: other then sub.look (other.drop target.length)
      else if source <+: other then none else tree.look other := by
  have hkept : (tree.detach source).look target.dropLast = some (id, true) := by
    rw [look_detach tree hsource, if_neg, look, h]
    · rfl
    · intro hinside
      exact hapart (hinside.trans (List.dropLast_prefix target))
  obtain ⟨kept, hkept⟩ := isDirectory_of_look hkept
  rw [look_attach htarget hkept, look_detach tree hsource]

/-! ### Order -/

theorem mem_insertEntry {entry : Segment × Tree} (name : Segment) (child : Tree)
    (h : entry ∈ insertEntry name child entries) :
    entry = (name, child) ∨ entry ∈ entries := by
  induction entries with
  | nil => exact Or.inl (List.mem_singleton.mp h)
  | cons first rest ih =>
      obtain ⟨other, tree⟩ := first
      unfold insertEntry at h
      split at h
      · rcases List.mem_cons.mp h with rfl | later
        · exact Or.inl rfl
        · exact Or.inr (List.mem_cons_of_mem _ later)
      · split at h
        · rcases List.mem_cons.mp h with rfl | later
          · exact Or.inl rfl
          · exact Or.inr later
        · rcases List.mem_cons.mp h with rfl | later
          · exact Or.inr List.mem_cons_self
          · rcases ih later with rfl | inner
            · exact Or.inl rfl
            · exact Or.inr (List.mem_cons_of_mem _ inner)

theorem sorted_insertEntry (name : Segment) (child : Tree)
    (h : entries.Pairwise fun first second =>
      first.1 ≠ second.1 ∧ Path.le first.1 second.1 = true) :
    (insertEntry name child entries).Pairwise fun first second =>
      first.1 ≠ second.1 ∧ Path.le first.1 second.1 = true := by
  induction entries with
  | nil => exact List.pairwise_singleton _ _
  | cons first rest ih =>
      obtain ⟨other, tree⟩ := first
      obtain ⟨hfirst, hrest⟩ := List.pairwise_cons.mp h
      unfold insertEntry
      split
      · rename_i hother
        rw [← hother]
        exact List.pairwise_cons.mpr ⟨hfirst, hrest⟩
      · rename_i hother
        split
        · rename_i hle
          refine List.pairwise_cons.mpr ⟨?_, h⟩
          intro entry member
          rcases List.mem_cons.mp member with rfl | later
          · exact ⟨fun hsame => hother hsame.symm, hle⟩
          · obtain ⟨hne, hlater⟩ := hfirst entry later
            refine ⟨?_, Path.le_trans hle hlater⟩
            rintro rfl
            exact hother (Path.le_antisymm hlater hle)
        · rename_i hle
          refine List.pairwise_cons.mpr ⟨?_, ih hrest⟩
          intro entry member
          rcases mem_insertEntry name child member with rfl | later
          · exact ⟨hother, (Path.le_total name other).resolve_left hle⟩
          · exact hfirst entry later

theorem Ordered.put (h : tree.Ordered) (hname : Path.Proper name) (hchild : child.Ordered) :
    (Tree.put name child tree).Ordered := by
  cases h with
  | file id => exact .file id
  | directory id entries sorted proper children =>
      refine .directory id _ (sorted_insertEntry name child sorted) ?_ ?_
      · intro entry member
        rcases mem_insertEntry name child member with rfl | old
        · exact hname
        · exact proper entry old
      · intro entry member
        rcases mem_insertEntry name child member with rfl | old
        · exact hchild
        · exact children entry old

theorem Ordered.drop (h : tree.Ordered) (name : Segment) : (tree.drop name).Ordered := by
  cases h with
  | file id => exact .file id
  | directory id entries sorted proper children =>
      refine .directory id _ (sorted.sublist List.filter_sublist) ?_ ?_
      · intro entry member
        exact proper entry (List.mem_filter.mp member).1
      · intro entry member
        exact children entry (List.mem_filter.mp member).1

theorem Ordered.alter (h : tree.Ordered)
    (hchange : ∀ sub : Tree, sub.Ordered → (change sub).Ordered) (path : List Segment) :
    (tree.alter change path).Ordered := by
  induction path generalizing tree with
  | nil =>
      rw [alter_nil]
      exact hchange tree h
  | cons segment path ih =>
      cases h with
      | file id => exact .file id
      | directory id entries sorted proper children =>
          rw [Tree.alter]
          refine .directory id _ ?_ ?_ ?_
          · rw [List.pairwise_map]
            exact sorted
          · intro entry member
            obtain ⟨old, hold, rfl⟩ := List.mem_map.mp member
            exact proper old hold
          · intro entry member
            obtain ⟨⟨name, child⟩, hold, rfl⟩ := List.mem_map.mp member
            have hchild := children _ hold
            change (if name = segment then child.alter change path else child).Ordered
            split
            · exact ih hchild
            · exact hchild

theorem Ordered.attach (h : tree.Ordered) (hpath : ∀ segment ∈ path, Path.Proper segment)
    (hchild : child.Ordered) : (tree.attach path child).Ordered := by
  rcases List.eq_nil_or_concat path with rfl | ⟨front, name, rfl⟩
  · exact h
  · rw [List.concat_eq_append] at hpath ⊢
    rw [attach_concat]
    exact h.alter (fun _ hsub => hsub.put (hpath name (by simp)) hchild) front

theorem Ordered.detach (h : tree.Ordered) (path : List Segment) :
    (tree.detach path).Ordered := by
  rcases List.eq_nil_or_concat path with rfl | ⟨front, name, rfl⟩
  · exact h
  · rw [List.concat_eq_append, detach_concat]
    exact h.alter (fun _ hsub => hsub.drop name) front

/-- A walk goes over proper segments and ends at an ordered subtree. -/
theorem Ordered.walk (h : tree.Ordered) (hwalk : tree.walk path = some sub) :
    sub.Ordered ∧ ∀ segment ∈ path, Path.Proper segment := by
  induction path generalizing tree with
  | nil =>
      rw [walk_nil] at hwalk
      cases hwalk
      exact ⟨h, by simp⟩
  | cons segment path ih =>
      rw [walk_cons] at hwalk
      obtain ⟨child, hlookup, hrest⟩ := Option.bind_eq_some_iff.mp hwalk
      cases h with
      | file id => cases hlookup
      | directory id entries sorted proper children =>
          have hmember : (segment, child) ∈ entries := mem_of_lookup hlookup
          obtain ⟨hsub, hproper⟩ := ih (children _ hmember) hrest
          refine ⟨hsub, ?_⟩
          intro other member
          rcases List.mem_cons.mp member with rfl | later
          · exact proper _ hmember
          · exact hproper other later

/-- In a directory with its entries in order, each entry is found under its segment. -/
theorem lookup_of_mem (h : entries.Pairwise fun first second =>
    first.1 ≠ second.1 ∧ Path.le first.1 second.1 = true)
    (member : (name, child) ∈ entries) : entries.lookup name = some child := by
  induction entries with
  | nil => cases member
  | cons first rest ih =>
      obtain ⟨other, tree⟩ := first
      obtain ⟨hfirst, hrest⟩ := List.pairwise_cons.mp h
      rw [lookup_cons_eq]
      rcases List.mem_cons.mp member with hsame | later
      · cases hsame
        rw [if_pos rfl]
      · rw [if_neg]
        · exact ih hrest later
        · exact (hfirst _ later).1.symm

end Tree

end FlatTree
