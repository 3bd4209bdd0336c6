import CheckpointStore.Foundation.UnorderedMap

/-!
# File trees

Files and directories under paths, which are lists of names. The empty path is the root, a directory
that is always there, and whatever has a path lies in a directory (`FileTree.closed`). An operation
that is refused gives `none`; the others are known by the files they leave (`file_at_write`,
`file_at_remove`, `file_at_rename`, `file_at_create_directories`).
-/

namespace Foundation

/-- A file with its content, or a directory. -/
inductive Node (β : Type) where
  | file (content : List β)
  | directory

instance {β : Type} (found : Option (Node β)) : Decidable (found = some .directory) :=
  match found with
  | none => isFalse (by simp)
  | some (.file _) => isFalse (by simp)
  | some .directory => isTrue rfl

theorem ne_append_singleton {α : Type} {xs : List α} {x : α} : xs ≠ xs ++ [x] := fun h => by
  have hlength := congrArg List.length h
  simp at hlength

variable {N β : Type} [DecidableEq N]

/-- What is under a path. -/
def lookupNode (nodes : UnorderedMap (List N) (Node β)) (path : List N) : Option (Node β) :=
  if path = [] then some .directory else nodes.find path

/-- Nodes by path, each of them in a directory. -/
structure FileTree (N β : Type) [DecidableEq N] where
  nodes : UnorderedMap (List N) (Node β)
  closed : ∀ path name, lookupNode nodes (path ++ [name]) ≠ none →
    lookupNode nodes path = some .directory

/-- An entry that is written changes its own path only. -/
theorem lookup_assign {nodes : UnorderedMap (List N) (Node β)} {path : List N} (hpath : path ≠ [])
    (node : Node β) (p : List N) :
    lookupNode (nodes.assign path node) p =
      if p = path then some node else lookupNode nodes p := by
  unfold lookupNode
  rw [UnorderedMap.find_assign]
  split
  · next hp => rw [if_neg (hp ▸ hpath.symm)]
  · rfl

/-- An entry that is erased changes its own path only. -/
theorem lookup_erase {nodes : UnorderedMap (List N) (Node β)} {path : List N} (hpath : path ≠ [])
    (p : List N) :
    lookupNode (nodes.erase path) p = if p = path then none else lookupNode nodes p := by
  unfold lookupNode
  rw [UnorderedMap.find_erase]
  split
  · next hp => rw [if_neg (hp ▸ hpath.symm)]
  · rfl

namespace FileTree

/-- The tree of an empty file system. -/
def empty : FileTree N β where
  nodes := ∅
  closed path name h := by simp [lookupNode] at h

/-- The node at a path. -/
def find (t : FileTree N β) (path : List N) : Option (Node β) := lookupNode t.nodes path

/-- A new node may be put here: in a directory, and not in place of one. -/
def Free (t : FileTree N β) (path : List N) : Prop :=
  path ≠ [] ∧ t.find path.dropLast = some .directory ∧ t.find path ≠ some .directory

instance (t : FileTree N β) (path : List N) : Decidable (t.Free path) :=
  inferInstanceAs (Decidable (_ ∧ _))

/-- Put a node where there is no directory. -/
def put (t : FileTree N β) (path : List N) (node : Node β) (h : t.Free path) : FileTree N β where
  nodes := t.nodes.assign path node
  closed p name hp := by
    obtain ⟨hpath, hparent, hfree⟩ := h
    rw [lookup_assign hpath] at hp ⊢
    by_cases hnew : p ++ [name] = path
    · rw [← hnew, List.dropLast_concat] at hparent
      rw [if_neg (hnew ▸ ne_append_singleton)]
      exact hparent
    · rw [if_neg hnew] at hp
      have hdir := t.closed p name hp
      have hother : p ≠ path := fun heq => hfree (heq ▸ hdir)
      rw [if_neg hother]
      exact hdir

/-- A node that is put changes its own path only. -/
theorem find_put (t : FileTree N β) {path : List N} (node : Node β) (h : t.Free path)
    (p : List N) : (t.put path node h).find p = if p = path then some node else t.find p :=
  lookup_assign h.1 node p

/-- Write a file, over an earlier one if there is one. -/
def write (t : FileTree N β) (path : List N) (data : List β) : Option (FileTree N β) :=
  if h : t.Free path then some (t.put path (.file data) h) else none

/-- A node in which nothing lies. -/
def Removable (t : FileTree N β) (path : List N) : Prop :=
  path ≠ [] ∧ t.find path ≠ none ∧ ∀ e ∈ t.nodes.entries, e.1 ≠ [] → e.1.dropLast ≠ path

instance (t : FileTree N β) (path : List N) : Decidable (t.Removable path) :=
  inferInstanceAs (Decidable (_ ∧ _))

/-- Remove a file or an empty directory. -/
def remove (t : FileTree N β) (path : List N) : Option (FileTree N β) :=
  if h : t.Removable path then
    some {
      nodes := t.nodes.erase path
      closed := fun p name hp => by
        obtain ⟨hpath, _, hempty⟩ := h
        rw [lookup_erase hpath] at hp ⊢
        split at hp
        · exact absurd rfl hp
        · have hchild : t.nodes.find (p ++ [name]) ≠ none := by
            unfold lookupNode at hp
            rwa [if_neg (List.append_ne_nil_of_right_ne_nil p (by simp))] at hp
          obtain ⟨node, hnode⟩ := Option.ne_none_iff_exists'.mp hchild
          have hother := hempty _ (UnorderedMap.find_eq_some_iff.mp hnode) (by simp)
          rw [List.dropLast_concat] at hother
          rw [if_neg hother]
          exact t.closed p name hp }
  else none

/-- Have a directory here. -/
def makeDirectory (t : FileTree N β) (path : List N) : Option (FileTree N β) :=
  if t.find path = some .directory then some t
  else if t.find path ≠ none then none
  else if h : t.Free path then some (t.put path .directory h)
  else none

/-- Have directories here from the given one on. -/
def createFrom (t : FileTree N β) (done : List N) : List N → Option (FileTree N β)
  | [] => some t
  | name :: rest => do
      let t ← t.makeDirectory (done ++ [name])
      t.createFrom (done ++ [name]) rest

/-- Have a directory here, and all the directories on the way. What refuses it is a file on the way,
and then all the directories before it are there already. -/
def createDirectories (t : FileTree N β) (path : List N) : Option (FileTree N β) :=
  t.createFrom [] path

/-- Move a file, over an earlier one if there is one. -/
def rename (t : FileTree N β) (source target : List N) : Option (FileTree N β) :=
  match t.find source with
  | some (.file content) =>
      if source = target then some t
      else do
        let t ← t.remove source
        t.write target content
  | _ => none

variable {t t' : FileTree N β} {path p : List N}

/-- Writing a file changes its own path only. -/
theorem find_write {data : List β} (h : t.write path data = some t') (p : List N) :
    t'.find p = if p = path then some (.file data) else t.find p := by
  unfold write at h
  split at h
  · next hfree =>
      cases h
      exact t.find_put _ hfree p
  · cases h

/-- Removing changes its own path only. -/
theorem find_remove (h : t.remove path = some t') (p : List N) :
    t'.find p = if p = path then none else t.find p := by
  unfold remove at h
  split at h
  · next hremovable =>
      cases h
      exact lookup_erase hremovable.1 p
  · cases h

/-- A move takes the content of a file from one path to another. -/
theorem find_rename {source target : List N} (hne : source ≠ target)
    (h : t.rename source target = some t') :
    ∃ content, t.find source = some (.file content) ∧ ∀ p, t'.find p =
      if p = target then some (.file content) else if p = source then none else t.find p := by
  unfold rename at h
  split at h
  · next content hsource =>
      rw [if_neg hne] at h
      obtain ⟨t₁, hremove, hwrite⟩ := Option.bind_eq_some_iff.mp h
      refine ⟨content, hsource, fun p => ?_⟩
      rw [find_write hwrite, find_remove hremove]
  · cases h

/-- A new directory changes its own path only. -/
theorem find_make_directory (h : t.makeDirectory path = some t') (p : List N) :
    t'.find p = if p = path then some .directory else t.find p := by
  unfold makeDirectory at h
  split at h
  · next hdir =>
      cases h
      split
      · next hp => rw [hp, hdir]
      · rfl
  · split at h
    · cases h
    · split at h
      · next hfree =>
          cases h
          exact t.find_put _ hfree p
      · cases h

/-- A directory that is made was not a file. -/
theorem not_file_of_make_directory (h : t.makeDirectory path = some t') (content : List β) :
    t.find path ≠ some (.file content) := by
  intro hfile
  unfold makeDirectory at h
  rw [if_neg (by rw [hfile]; simp), if_pos (by rw [hfile]; simp)] at h
  cases h

/-! ## The files -/

/-- The content of the file under a path. -/
def fileAt (t : FileTree N β) (path : List N) : Option (List β) :=
  match t.find path with
  | some (.file content) => some content
  | _ => none

/-- The content at a path is that of the file there. -/
theorem file_at_eq_some {content : List β} :
    t.fileAt path = some content ↔ t.find path = some (.file content) := by
  unfold fileAt
  split
  · next found hfound => rw [hfound, Option.some.injEq, Option.some.injEq, Node.file.injEq]
  · next hfile => exact ⟨fun h => (by cases h), fun h => absurd h (hfile _)⟩

theorem file_at_of_find (h : t'.find p = t.find p) : t'.fileAt p = t.fileAt p := by
  unfold fileAt
  rw [h]

/-- After a write the file has the data, and the other files are as they were. -/
theorem file_at_write {data : List β} (h : t.write path data = some t') (p : List N) :
    t'.fileAt p = if p = path then some data else t.fileAt p := by
  have hfind := find_write h p
  split at hfind
  · next hp => rw [if_pos hp, file_at_eq_some.mpr hfind]
  · next hp => rw [if_neg hp, file_at_of_find hfind]

/-- After a removal the file is gone, and the other files are as they were. -/
theorem file_at_remove (h : t.remove path = some t') (p : List N) :
    t'.fileAt p = if p = path then none else t.fileAt p := by
  have hfind := find_remove h p
  split at hfind
  · next hp =>
      rw [if_pos hp]
      unfold fileAt
      rw [hfind]
  · next hp => rw [if_neg hp, file_at_of_find hfind]

/-- Renaming moves the content of a file. -/
theorem file_at_rename {source target : List N} (hne : source ≠ target)
    (h : t.rename source target = some t') :
    ∃ content, t.fileAt source = some content ∧ ∀ p, t'.fileAt p =
      if p = target then some content else if p = source then none else t.fileAt p := by
  obtain ⟨content, hsource, hfind⟩ := find_rename hne h
  refine ⟨content, file_at_eq_some.mpr hsource, fun p => ?_⟩
  unfold fileAt
  rw [hfind]
  by_cases htarget : p = target
  · rw [if_pos htarget, if_pos htarget]
  · rw [if_neg htarget, if_neg htarget]
    by_cases hp : p = source
    · rw [if_pos hp, if_pos hp]
    · rw [if_neg hp, if_neg hp]

/-- Making directories changes no file. -/
theorem file_at_create_from {done rest : List N} (h : t.createFrom done rest = some t')
    (p : List N) : t'.fileAt p = t.fileAt p := by
  induction rest generalizing t done with
  | nil =>
      cases h
      rfl
  | cons name rest ih =>
      obtain ⟨t₁, hmake, hrest⟩ := Option.bind_eq_some_iff.mp h
      refine (ih hrest).trans (Option.ext fun content => ?_)
      rw [file_at_eq_some, file_at_eq_some, find_make_directory hmake]
      split
      · next hp =>
          subst hp
          exact ⟨fun hfile => (by simp at hfile),
            fun hfile => absurd hfile (not_file_of_make_directory hmake _)⟩
      · exact Iff.rfl

/-- Creating directories changes no file. -/
theorem file_at_create_directories (h : t.createDirectories path = some t') (p : List N) :
    t'.fileAt p = t.fileAt p :=
  file_at_create_from h p

end FileTree

end Foundation
