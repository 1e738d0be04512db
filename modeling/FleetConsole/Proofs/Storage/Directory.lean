import FleetConsole.Proofs.Except
import FleetConsole.Proofs.Storage.Tree

/-!
# Walking to directories and making them

Where a walk ends depends on its names and its beginning only: the tree decides whether it may go
on, and more directories never stand in its way (`walk_eq_ok`, `walk_mono`). To make directories is
to add one after the other, so what adding one leaves alone is left alone by making any number of
them (`makeDirectories_induction`). Once a directory has been made, a walk leads to it.
-/

namespace FleetConsole.Storage.Tree

variable {t later : Tree} {start place : Place}

/-! ### Walking -/

/-- The place where a walk ends if nothing stops it. -/
def follow (place : Place) : List String → Place
  | [] => place
  | name :: names =>
    if name = "." then follow place names
    else if name = ".." then follow place.dropLast names
    else follow (place ++ [name]) names

theorem walk_eq_ok {names : List String} (hwalk : t.walk start names = .ok place) :
    place = follow start names := by
  induction names generalizing start with
  | nil => exact (Except.ok.inj hwalk).symm
  | cons name names ih =>
    rw [walk] at hwalk
    rw [follow]
    split_ifs at hwalk ⊢
    all_goals exact ih hwalk

theorem walk_append (t : Tree) (start : Place) (names others : List String) :
    t.walk start (names ++ others) = t.walk start names >>= (t.walk · others) := by
  induction names generalizing start with
  | nil => rfl
  | cons name names ih =>
    rw [List.cons_append, walk, walk]
    split_ifs
    · exact ih _
    · exact ih _
    · rfl
    · exact ih _
    · rfl
    · rfl

/-- A walk that nothing stops goes on as before when there are more directories. -/
theorem walk_mono (hmore : ∀ other, t.isDirectory other = true → later.isDirectory other = true)
    {names : List String} (hwalk : t.walk start names = .ok place) :
    later.walk start names = .ok place := by
  induction names generalizing start with
  | nil => exact hwalk
  | cons name names ih =>
    rw [walk] at hwalk ⊢
    split_ifs at hwalk with hhere habove hlong hdirectory
    · rw [if_pos hhere]
      exact ih hwalk
    · rw [if_neg hhere, if_pos habove]
      exact ih hwalk
    · rw [if_neg hhere, if_neg habove, if_neg hlong, if_pos (hmore _ hdirectory)]
      exact ih hwalk

theorem directory_mono (hhere : later.here = t.here)
    (hmore : ∀ other, t.isDirectory other = true → later.isDirectory other = true) {path : Path}
    (hplace : t.directory path = .ok place) : later.directory path = .ok place := by
  rw [directory, start, hhere]
  exact walk_mono hmore hplace

/-! ### Making one directory -/

@[simp] theorem files_addDirectory (t : Tree) (place : Place) :
    (t.addDirectory place).files = t.files := by
  rw [addDirectory]
  split <;> rfl

@[simp] theorem here_addDirectory (t : Tree) (place : Place) :
    (t.addDirectory place).here = t.here := by
  rw [addDirectory]
  split <;> rfl

theorem isDirectory_addDirectory (t : Tree) (place other : Place) :
    (t.addDirectory place).isDirectory other = (t.isDirectory other || decide (other = place)) := by
  by_cases hplace : t.isDirectory place = true
  · rw [addDirectory, if_pos hplace]
    by_cases hother : other = place
    · simp [hother, hplace]
    · simp [hother]
  · rw [addDirectory, if_neg hplace, isDirectory, isDirectory]
    by_cases hother : other = place
    · simp [hother]
    · simp [hother]

theorem makeDirectory_eq_ok {path : Path} (hmade : t.makeDirectory path = .ok later) :
    ∃ names name parent, path.names = names ++ [name] ∧ (name ≠ "." ∧ name ≠ "..") ∧
      name.utf8ByteSize ≤ longestName ∧ t.directory { path with names } = .ok parent ∧
      later = t.addDirectory (parent ++ [name]) := by
  rw [makeDirectory] at hmade
  split at hmade
  · cases hmade
  · rename_i name hname
    obtain ⟨names, hnames⟩ := List.getLast?_eq_some_iff.1 hname
    obtain ⟨parent, hparent, hmade⟩ := bind_eq_ok.1 hmade
    split_ifs at hmade with hdots hlong
    rw [hnames, List.dropLast_concat] at hparent
    exact ⟨names, name, parent, hnames, not_or.1 hdots, Nat.not_lt.1 hlong, hparent,
      (Except.ok.inj hmade).symm⟩

theorem hasDirectory_makeDirectory {path : Path} (hmade : t.makeDirectory path = .ok later) :
    later.hasDirectory path = true := by
  obtain ⟨names, name, parent, hnames, hdots, hlong, hparent, rfl⟩ := makeDirectory_eq_ok hmade
  have hmore : ∀ other, t.isDirectory other = true →
      (t.addDirectory (parent ++ [name])).isDirectory other = true := by
    intro other hother
    rw [isDirectory_addDirectory, hother, Bool.true_or]
  have hwalk := directory_mono (t.here_addDirectory _) hmore hparent
  rw [directory] at hwalk
  have hlast : (t.addDirectory (parent ++ [name])).directory path = .ok (parent ++ [name]) := by
    have hself : (t.addDirectory (parent ++ [name])).isDirectory (parent ++ [name]) = true := by
      simp [isDirectory_addDirectory]
    rw [directory, hnames, walk_append]
    refine bind_eq_ok.2 ⟨parent, hwalk, ?_⟩
    rw [walk, if_neg hdots.1, if_neg hdots.2, if_neg (Nat.not_lt.2 hlong), if_pos hself]
    rfl
  rw [hasDirectory, hlast]

/-! ### Making all that are missing -/

/-- What holds of a tree, and goes on to hold when a directory is added, holds when directories have
been made. -/
theorem makeDirectories_induction {P : Tree → Prop}
    (hadd : ∀ (t : Tree) (place : Place), P t → P (t.addDirectory place)) (ht : P t) (fuel : Nat)
    (path : Path) : P (t.makeDirectories fuel path).2 := by
  have hone : ∀ {t later : Tree} {path : Path}, t.makeDirectory path = .ok later → P t →
      P later := by
    intro t later path hmade ht
    obtain ⟨_, _, _, -, -, -, -, rfl⟩ := makeDirectory_eq_ok hmade
    exact hadd _ _ ht
  fun_induction makeDirectories t fuel path with
  | case1 | case6 | case7 => exact ht
  | case2 path fuel _ later hmade => exact hone hmade ht
  | case3 path _ _ fuel parent _ _ between hparent later hmade ih =>
    rw [hparent] at ih
    exact hone hmade ih
  | case4 path _ _ fuel parent _ _ between hparent fault _ ih =>
    rw [hparent] at ih
    exact ih
  | case5 path _ _ fuel parent _ fault between hparent ih =>
    rw [hparent] at ih
    exact ih

theorem ensureDirectory_induction {P : Tree → Prop}
    (hadd : ∀ (t : Tree) (place : Place), P t → P (t.addDirectory place)) (ht : P t) (s : String) :
    P (t.ensureDirectory s).2 := by
  rw [ensureDirectory]
  split_ifs
  · exact ht
  · exact ht
  · exact makeDirectories_induction hadd ht _ _

theorem files_ensureDirectory (t : Tree) (s : String) :
    (t.ensureDirectory s).2.files = t.files :=
  ensureDirectory_induction (P := fun later => later.files = t.files)
    (fun later place hfiles => (later.files_addDirectory place).trans hfiles) rfl s

theorem here_ensureDirectory (t : Tree) (s : String) : (t.ensureDirectory s).2.here = t.here :=
  ensureDirectory_induction (P := fun later => later.here = t.here)
    (fun later place hhere => (later.here_addDirectory place).trans hhere) rfl s

theorem hasDirectory_makeDirectories {fuel : Nat} {path : Path}
    (hmade : (t.makeDirectories fuel path).1 = .ok ()) :
    (t.makeDirectories fuel path).2.hasDirectory path = true := by
  fun_induction makeDirectories t fuel path with
  | case1 _ path hnone =>
    rw [Bool.and_eq_true, List.isEmpty_iff] at hnone
    rw [hasDirectory, directory, hnone.1]
    rfl
  | case2 _ _ _ later hone => exact hasDirectory_makeDirectory hone
  | case3 _ _ _ _ _ _ _ _ _ later hone => exact hasDirectory_makeDirectory hone
  | case4 | case7 =>
    split_ifs at hmade with hthere
    exact hthere
  | case5 | case6 => cases hmade

theorem hasDirectory_ensureDirectory {s : String} (hmade : (t.ensureDirectory s).1 = .ok ()) :
    (t.ensureDirectory s).2.hasDirectory (Path.ofText s) = true := by
  rw [ensureDirectory] at hmade ⊢
  split_ifs at hmade ⊢
  exact hasDirectory_makeDirectories hmade

end FleetConsole.Storage.Tree
