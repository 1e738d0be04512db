import FleetConsole.Proofs.Text.Chars
import FleetConsole.Storage.Tree
import Mathlib.Data.List.Nodup
import Mathlib.Data.List.Perm.Subperm

/-!
# What the operations on a tree do to its files

Putting a file changes what is read at its place only, and removing one that is not there changes
nothing. A new name is free because there are more candidates than files and directories together,
and the candidates are different from each other.
-/

namespace FleetConsole.Storage.Tree

open Text

variable {t : Tree} {place other : Place} {bytes : Bytes}

/-! ### Reading -/

theorem read?_put_self (t : Tree) (place : Place) (bytes : Bytes) :
    (t.put place bytes).read? place = some bytes := by
  have hnone : (t.remove place).files.find? (fun file => file.1 = place) = none := by
    rw [List.find?_eq_none]
    intro file hfile
    simpa [remove] using (List.mem_filter.1 hfile).2
  rw [read?, put, List.find?_append, hnone, Option.none_or]
  simp

theorem read?_remove_of_ne (hother : other ≠ place) :
    (t.remove place).read? other = t.read? other := by
  rw [read?, read?, remove, List.find?_filter]
  congr 2
  funext file
  by_cases hsame : file.1 = other
  · simp [hsame, hother]
  · simp [hsame]

theorem read?_put_of_ne (hother : other ≠ place) :
    (t.put place bytes).read? other = t.read? other := by
  have hlast : [(place, bytes)].find? (fun file => file.1 = other) = none := by
    simpa using hother.symm
  rw [read?, put, List.find?_append, hlast, Option.or_none]
  exact read?_remove_of_ne hother

theorem files_of_read?_eq_none (hnone : t.read? place = none) :
    ∀ file ∈ t.files, file.1 ≠ place := by
  rw [read?, Option.map_eq_none_iff, List.find?_eq_none] at hnone
  intro file hfile hplace
  exact hnone file hfile (decide_eq_true hplace)

/-- Nothing is removed where there is no file. -/
theorem remove_of_read?_eq_none (hnone : t.read? place = none) : t.remove place = t := by
  have hfiles : t.files.filter (fun file => file.1 ≠ place) = t.files := by
    rw [List.filter_eq_self]
    intro file hfile
    exact decide_eq_true (files_of_read?_eq_none hnone file hfile)
  rw [remove, hfiles]

/-- A file is put over an earlier one as if that one had not been there. -/
theorem remove_put (t : Tree) (place : Place) (bytes : Bytes) :
    (t.put place bytes).remove place = t.remove place := by
  simp only [remove, put, List.filter_append, List.filter_filter, Bool.and_self]
  simp

theorem put_put (t : Tree) (place : Place) (bytes later : Bytes) :
    (t.put place bytes).put place later = t.put place later := by
  rw [put, remove_put]
  rfl

@[simp] theorem isDirectory_put (t : Tree) (place other : Place) (bytes : Bytes) :
    (t.put place bytes).isDirectory other = t.isDirectory other := rfl

/-! ### Names that are free -/

theorem numberedName_injective (start : String) {i j : Nat}
    (hsame : numberedName start i = numberedName start j) : i = j := by
  have hchars := congrArg String.toList hsame
  simp only [numberedName, String.toList_append] at hchars
  exact natText_injective (String.toList_injective (List.append_cancel_left hchars))

theorem isTaken_child {dir : Place} {name : String} (htaken : t.isTaken (dir ++ [name]) = true) :
    dir ++ [name] ∈ t.directories ++ t.files.map Prod.fst := by
  rw [List.mem_append]
  rw [isTaken, isDirectory, Bool.or_eq_true, Bool.or_eq_true] at htaken
  rcases htaken with (hempty | hdirectory) | hfile
  · simp at hempty
  · exact .inl (by simpa using hdirectory)
  · obtain ⟨bytes, hbytes⟩ := Option.isSome_iff_exists.1 hfile
    obtain ⟨file, hfound, -⟩ := Option.map_eq_some_iff.1 hbytes
    have hplace : file.1 = dir ++ [name] := by simpa using List.find?_some hfound
    exact .inr (List.mem_map.2 ⟨file, List.mem_of_find?_eq_some hfound, hplace⟩)

/-- Not all candidates can be taken: they are different, and one more than what there is. -/
theorem exists_free (t : Tree) (dir : Place) (start : String) :
    ∃ n ∈ List.range (t.files.length + t.directories.length + 1),
      t.isTaken (dir ++ [numberedName start n]) = false := by
  -- Otherwise all of them are among the directories and the files, of which there is one less.
  by_contra hall
  have htaken : ∀ n ∈ List.range (t.files.length + t.directories.length + 1),
      t.isTaken (dir ++ [numberedName start n]) = true := by
    intro n hn
    by_contra hfree
    exact hall ⟨n, hn, by simpa using hfree⟩
  have hnodup : ((List.range (t.files.length + t.directories.length + 1)).map fun n =>
      dir ++ [numberedName start n]).Nodup := by
    apply List.Nodup.map ?_ List.nodup_range
    intro i j hsame
    have hlast := List.append_cancel_left hsame
    exact numberedName_injective start (List.cons.inj hlast).1
  have hsubset : ((List.range (t.files.length + t.directories.length + 1)).map fun n =>
      dir ++ [numberedName start n]) ⊆ t.directories ++ t.files.map Prod.fst := by
    intro place hplace
    obtain ⟨n, hn, rfl⟩ := List.mem_map.1 hplace
    exact isTaken_child (htaken n hn)
  have hlength := (List.subperm_of_subset hnodup hsubset).length_le
  simp only [List.length_map, List.length_range, List.length_append] at hlength
  omega

theorem isTaken_freeName (t : Tree) (dir : Place) (start : String) :
    t.isTaken (dir ++ [t.freeName dir start]) = false := by
  obtain ⟨n, hn, hfree⟩ := t.exists_free dir start
  rw [freeName]
  cases hfound : (List.range (t.files.length + t.directories.length + 1)).find? fun n =>
      !t.isTaken (dir ++ [numberedName start n]) with
  | some m => simpa [hfound] using List.find?_some hfound
  | none =>
    have htaken := List.find?_eq_none.1 hfound n hn
    simp [hfree] at htaken

end FleetConsole.Storage.Tree
