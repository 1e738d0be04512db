import FleetConsole.Dump.Delivery
import FleetConsole.Proofs.Storage.Directory
import FleetConsole.Proofs.Text.Chars

/-!
# Delivering a dump is all or nothing

Whatever strikes from outside, and whatever the server proposes as a name, a dump is either stored
as one file in its directory or not stored at all (`delivered_deliver`). Between the two there is
only the temporary file, whose name was free: taking it away again gives back the tree as it was,
and renaming it is the same as putting the dump at its place at once.
-/

namespace FleetConsole.Dump

open Storage Text

/-! ### Names of dumps -/

/-- A name that names one file in a directory. -/
structure IsFileName (name : String) : Prop where
  nonempty : name ≠ ""
  not_separator : ∀ c ∈ name.toList, isSeparator c = false
  not_here : name ≠ "."
  not_above : name ≠ ".."

theorem mem_of_mem_trimChars {cs : List Char} {c : Char} (hc : c ∈ trimChars cs) : c ∈ cs := by
  have hfront : c ∈ dropBlank cs := (isPrefix_dropEndWhile isBlank (dropBlank cs)).subset hc
  exact (List.dropWhile_suffix isBlank).subset hfront

theorem not_separator_of_mem_baseChars {name : List Char} {c : Char} (hc : c ∈ baseChars name) :
    isSeparator c = false := by
  have hpart := mem_of_mem_trimChars hc
  cases hlast : (splitChars isSeparator name).getLast? with
  | none => simp [hlast] at hpart
  | some part =>
    rw [hlast, Option.getD_some] at hpart
    exact not_separator_of_mem_splitChars (List.mem_of_getLast? hlast) c hpart

theorem isSeparator_of_isDigit {c : Char} (hc : c.isDigit = true) : isSeparator c = false := by
  rw [← Bool.not_eq_true]
  intro hseparator
  rw [isSeparator, Bool.or_eq_true, decide_eq_true_iff, decide_eq_true_iff] at hseparator
  rcases hseparator with rfl | rfl <;> cases hc

theorem isFileName_defaultName (machine : Int) : IsFileName (defaultName machine) := by
  have hchars : (defaultName machine).toList =
      "machine-".toList ++ (intText machine).toList ++ "-dump.tar.gz".toList := by
    rw [defaultName, String.toList_append, String.toList_append]
  have hlong : 20 ≤ (defaultName machine).toList.length := by
    rw [hchars, List.length_append, List.length_append]
    have hstart : "machine-".toList.length = 8 := rfl
    have hend : "-dump.tar.gz".toList.length = 12 := rfl
    omega
  refine ⟨?_, ?_, ?_, ?_⟩
  · rintro hname
    simp [hname] at hlong
  · intro c hc
    rw [hchars, List.mem_append, List.mem_append] at hc
    have hstart : "machine-".toList.all (fun c => !isSeparator c) = true := by decide
    have hend : "-dump.tar.gz".toList.all (fun c => !isSeparator c) = true := by decide
    rcases hc with (hc | hc) | hc
    · simpa using List.all_eq_true.1 hstart c hc
    · rcases mem_intText hc with rfl | hdigit
      · rfl
      · exact isSeparator_of_isDigit hdigit
    · simpa using List.all_eq_true.1 hend c hc
  · rintro hname
    simp [hname] at hlong
  · rintro hname
    simp [hname] at hlong

theorem isFileName_safeName (name : String) (machine : Int) :
    IsFileName (safeName name machine) := by
  simp only [safeName]
  split_ifs with hunusable
  · exact isFileName_defaultName machine
  · rw [not_or, not_or] at hunusable
    refine ⟨hunusable.1, fun c hc => ?_, hunusable.2.1, hunusable.2.2⟩
    rw [String.toList_ofList] at hc
    exact not_separator_of_mem_baseChars hc

/-! ### Paths of dumps -/

theorem names_append (front back : String) : (Path.ofText (front ++ "/" ++ back)).names =
    (Path.ofText front).names ++ (Path.ofText back).names := by
  have hslash : (front ++ "/" ++ back).toList = front.toList ++ '/' :: back.toList := by
    rw [String.toList_append, String.toList_append, List.append_assoc]
    rfl
  simp only [Path.ofText]
  rw [hslash, splitChars_append (by decide), List.map_append, List.filter_append]

/-- A directory without a slash at its end, one with a slash, and no directory at all. -/
theorem join_cases (dir name : String) :
    (dir = "" ∧ Path.join dir name = name) ∨
      (∃ front, dir = front ++ "/" ∧ Path.join dir name = front ++ "/" ++ name) ∨
      (dir ≠ "" ∧ Path.join dir name = dir ++ "/" ++ name) := by
  rw [Path.join]
  by_cases hempty : dir = ""
  · simp [hempty]
  · by_cases hlast : dir.toList.getLast? = some '/'
    · obtain ⟨front, hfront⟩ := List.getLast?_eq_some_iff.1 hlast
      have hdir : dir = String.ofList front ++ "/" := by
        rw [← String.toList_inj, hfront, String.toList_append, String.toList_ofList]
        rfl
      exact .inr (.inl ⟨String.ofList front, hdir, by simp [hlast, ← hdir]⟩)
    · exact .inr (.inr ⟨hempty, by simp [hempty, hlast]⟩)

section Join

variable {name : String} (hname : IsFileName name)

include hname

theorem not_slash (c : Char) (hc : c ∈ name.toList) : decide (c = '/') = false := by
  have hseparator := hname.not_separator c hc
  rw [isSeparator, Bool.or_eq_false_iff] at hseparator
  exact hseparator.1

theorem names_fileName : (Path.ofText name).names = [name] := by
  simp only [Path.ofText]
  rw [splitChars_of_not_separator (not_slash hname)]
  simp [hname.nonempty]

theorem relative_fileName : (Path.ofText name).absolute = false := by
  simp only [Path.ofText, decide_eq_false_iff_not]
  intro hhead
  have hslash := not_slash hname '/' (List.mem_of_head? hhead)
  simp at hslash

theorem ofText_join (dir : String) :
    Path.ofText (Path.join dir name) =
      { Path.ofText dir with names := (Path.ofText dir).names ++ [name] } := by
  have hstart : ∀ back, dir ≠ "" →
      (Path.ofText (dir ++ back)).absolute = (Path.ofText dir).absolute := by
    intro back hdir
    have hsome : dir.toList ≠ [] := fun hnil => hdir (String.toList_eq_nil_iff.1 hnil)
    simp only [Path.ofText, String.toList_append, List.head?_append]
    rw [List.head?_eq_some_head hsome, Option.some_or]
  have hparts : (Path.ofText (Path.join dir name)).absolute = (Path.ofText dir).absolute ∧
      (Path.ofText (Path.join dir name)).names = (Path.ofText dir).names ++ [name] := by
    rcases join_cases dir name with ⟨hdir, hjoin⟩ | ⟨front, hdir, hjoin⟩ | ⟨hdir, hjoin⟩
    · rw [hjoin, hdir, relative_fileName hname, names_fileName hname]
      exact ⟨rfl, rfl⟩
    · have hsome : dir ≠ "" := by
        rw [hdir, Ne, String.append_eq_empty_iff]
        simp
      have hfront : (Path.ofText dir).names = (Path.ofText front).names := by
        have hnone := names_append front ""
        rwa [String.append_empty, ← hdir, show (Path.ofText "").names = [] from rfl,
          List.append_nil] at hnone
      rw [hfront, ← hstart name hsome, hjoin, hdir, names_append, names_fileName hname]
      exact ⟨rfl, rfl⟩
    · rw [hjoin, names_append, names_fileName hname, String.append_assoc, hstart _ hdir]
      exact ⟨rfl, rfl⟩
  show _ = Storage.Path.mk (Path.ofText dir).absolute _
  rw [← hparts.1, ← hparts.2]

theorem getLast?_join (dir : String) : (Path.join dir name).toList.getLast? ≠ some '/' := by
  have hback : ∀ front, (front ++ name).toList.getLast? ≠ some '/' := by
    intro front hlast
    have hsome : name.toList ≠ [] := fun hnil => hname.nonempty (String.toList_eq_nil_iff.1 hnil)
    rw [String.toList_append, List.getLast?_append, List.getLast?_eq_some_getLast hsome,
      Option.some_or, Option.some.injEq] at hlast
    have hslash := not_slash hname _ (List.getLast_mem hsome)
    simp [hlast] at hslash
  rcases join_cases dir name with ⟨-, hjoin⟩ | ⟨front, -, hjoin⟩ | ⟨-, hjoin⟩
  · rw [hjoin, ← String.empty_append (s := name)]
    exact hback ""
  · rw [hjoin]
    exact hback _
  · rw [hjoin]
    exact hback _

/-- The file in a directory is the one at the joined path. -/
theorem readPath?_join {t : Tree} {dir : String} {place : Place}
    (hplace : t.directory (Path.ofText dir) = .ok place) :
    t.readPath? (Path.join dir name) = t.read? (place ++ [name]) := by
  have hlast := getLast?_join hname dir
  have hshort : ({ Path.ofText dir with names := (Path.ofText dir).names } : Path) =
      Path.ofText dir := rfl
  simp only [Tree.readPath?, ofText_join hname, List.getLast?_concat, List.dropLast_concat, hshort,
    hplace]
  simp [hlast, hname.not_here, hname.not_above]

end Join

/-! ### Filling the temporary file -/

section Deliver

variable {t : Tree} {place : Place} {name : String}

/-- A directory that can be walked to is there as well when a file is put somewhere. -/
theorem walk_put {names : List String} {start : Place} (file : Place) (bytes : Bytes)
    (hwalk : t.walk start names = .ok place) : (t.put file bytes).walk start names = .ok place :=
  Tree.walk_mono (fun other hother => (t.isDirectory_put file other bytes).trans hother) hwalk

theorem guarded_eq_ok_iff {interference : Interference} {step : Step} {act : Except Fault α}
    {x : α} : guarded interference step act = .ok x ↔ interference step = none ∧ act = .ok x := by
  rw [guarded]
  cases interference step <;> simp

theorem rename_put (t : Tree) (place : Place) (temporary name : String) (bytes : Bytes) :
    (∃ fault, (t.put (place ++ [temporary]) bytes).rename place temporary name = .error fault) ∨
      (t.put (place ++ [temporary]) bytes).rename place temporary name =
        .ok ((t.remove (place ++ [temporary])).put (place ++ [name]) bytes) := by
  rw [Tree.rename]
  split_ifs
  · exact .inl ⟨_, rfl⟩
  · exact .inl ⟨_, rfl⟩
  · exact .inl ⟨_, rfl⟩
  · rw [Tree.read?_put_self, Tree.remove_put]
    exact .inr rfl

theorem fill_cases (interference : Interference) (place : Place) (name : String) (bytes : Bytes)
    (t : Tree) : fill interference place name bytes t = (.ok (), t.put (place ++ [name]) bytes) ∨
      ∃ fault, fill interference place name bytes t = (.error fault, t) := by
  -- Nothing is at the temporary place, so removing what was put there gives back the tree.
  have htaken := t.isTaken_freeName place temporaryStart
  rw [Tree.isTaken, Bool.or_eq_false_iff, Option.isSome_eq_false_iff, Option.isNone_iff_eq_none]
    at htaken
  have hremove := Tree.remove_of_read?_eq_none htaken.2
  simp only [fill, guarded, Tree.put_put, Tree.remove_put, hremove]
  cases interference .write with
  | some fault => exact .inr ⟨fault, rfl⟩
  | none =>
    cases interference .sync with
    | some fault => exact .inr ⟨fault, rfl⟩
    | none =>
      cases interference .rename with
      | some fault => exact .inr ⟨fault, rfl⟩
      | none =>
        rcases rename_put t place (t.freeName place temporaryStart) name bytes with
          ⟨fault, hfault⟩ | hrenamed
        · simp only [bind, Except.bind, hfault]
          exact .inr ⟨fault, rfl⟩
        · simp only [bind, Except.bind, hrenamed, hremove]
          exact .inl trivial

/-! ### Delivering -/

/-- What a delivery does to files: one file at the path it returns, or nothing. -/
inductive Delivered (dir : String) (artifact : Artifact) (t : Tree) :
    Except Failure String → Tree → Prop
  | stored {place : Place} {between : Tree} (hfiles : between.files = t.files)
      (hplace : between.directory (Path.ofText dir) = .ok place) :
      Delivered dir artifact t (.ok (target dir artifact))
        (between.put (place ++ [safeName artifact.fileName artifact.machine]) artifact.bytes)
  | failed {between : Tree} (fault : Fault) (hfiles : between.files = t.files) :
      Delivered dir artifact t (.error (.storage (target dir artifact) fault.text)) between

theorem delivered_deliver (interference : Interference) (dir : String) (artifact : Artifact)
    (t : Tree) : Delivered dir artifact t (deliver interference dir artifact t).1
      (deliver interference dir artifact t).2 := by
  have hfiles := t.files_ensureDirectory dir
  rw [deliver]
  cases interference .createDirectory with
  | some fault => exact .failed fault rfl
  | none =>
    generalize t.ensureDirectory dir = ensured at hfiles
    obtain ⟨made, between⟩ := ensured
    cases made with
    | error fault => exact .failed fault hfiles
    | ok =>
      simp only
      cases hplace : guarded interference .createTemporary
          (between.directory (Path.ofText dir)) with
      | error fault => exact .failed fault hfiles
      | ok place =>
        have hdirectory := (guarded_eq_ok_iff.1 hplace).2
        rcases fill_cases interference place (safeName artifact.fileName artifact.machine)
          artifact.bytes between with hfilled | ⟨fault, hfilled⟩
        · simp only [hfilled]
          exact .stored hfiles hdirectory
        · simp only [hfilled]
          exact .failed fault hfiles

/-- Whether a tree differs from the one before by one file, which is at a path. -/
def Adds (path : String) (bytes : Bytes) (before later : Tree) : Prop :=
  later.readPath? path = some bytes ∧ ∃ file, later.read? file = some bytes ∧
    ∀ other, other ≠ file → later.read? other = before.read? other

theorem Delivered.adds {dir path : String} {artifact : Artifact} {later : Tree}
    (hdelivered : Delivered dir artifact t (.ok path) later) :
    Adds path artifact.bytes t later := by
  cases hdelivered with
  | @stored place between hfiles hplace =>
    have hread := between.read?_put_self
      (place ++ [safeName artifact.fileName artifact.machine]) artifact.bytes
    refine ⟨?_, _, hread, fun other hother => ?_⟩
    · rw [target, readPath?_join (isFileName_safeName _ _) (walk_put _ _ hplace)]
      exact hread
    · rw [Tree.read?_put_of_ne hother, Tree.read?, hfiles]
      rfl

theorem Delivered.files {dir : String} {artifact : Artifact} {failure : Failure} {later : Tree}
    (hdelivered : Delivered dir artifact t (.error failure) later) : later.files = t.files := by
  cases hdelivered with
  | failed fault hfiles => exact hfiles

end Deliver

end FleetConsole.Dump
