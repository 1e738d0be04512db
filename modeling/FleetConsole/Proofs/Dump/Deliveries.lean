import FleetConsole.Proofs.Dump.Delivery

/-!
# Deliveries one after the other

Each delivery of a sequence either stores its dump whole or leaves every file as it was, and which
of the two happens is decided by what strikes it, by its directory and by its name
(`deliver_eq_ok_iff`).
-/

namespace FleetConsole.Dump

open Storage

/-- A dump to deliver, and what strikes its delivery from outside. -/
structure Delivery where
  artifact : Artifact
  interference : Interference := .none

/-- The results of deliveries into a directory, and the tree after all of them. -/
def deliverAll (dir : String) : List Delivery → Tree → List (Except Failure String) × Tree
  | [], t => ([], t)
  | delivery :: deliveries, t =>
    let first := deliver delivery.interference dir delivery.artifact t
    let rest := deliverAll dir deliveries first.2
    (first.1 :: rest.1, rest.2)

/-- The place of a dump in a tree: where the path of the directory leads, and the name. -/
def place (dir : String) (artifact : Artifact) (t : Tree) : Place :=
  Tree.follow (t.start (Path.ofText dir)) (Path.ofText dir).names ++
    [safeName artifact.fileName artifact.machine]

/-- What a delivery leaves behind. Every other file is as before, so nothing is left of the
temporary one either. -/
inductive Atomic (dir : String) (artifact : Artifact) (before : Tree) :
    Except Failure String → Tree → Prop
  | stored {later : Tree} (hpath : later.readPath? (target dir artifact) = some artifact.bytes)
      (hfile : later.read? (place dir artifact before) = some artifact.bytes)
      (hothers : ∀ other, other ≠ place dir artifact before →
        later.read? other = before.read? other) :
      Atomic dir artifact before (.ok (target dir artifact)) later
  | failed {later : Tree} (fault : Fault) (hfiles : later.files = before.files) :
      Atomic dir artifact before (.error (.storage (target dir artifact) fault.text)) later

/-- What it takes to store a dump. -/
structure Storable (dir : String) (delivery : Delivery) (t : Tree) : Prop where
  unstruck : ∀ step, delivery.interference step = none
  /-- The directory is there or can be made. -/
  made : (t.ensureDirectory dir).1 = .ok ()
  /-- No directory has the place of the dump. -/
  room : (t.ensureDirectory dir).2.isDirectory (place dir delivery.artifact t) = false
  short : (safeName delivery.artifact.fileName delivery.artifact.machine).utf8ByteSize ≤ longestName
  clean : '\x00' ∉ (safeName delivery.artifact.fileName delivery.artifact.machine).toList

/-! ### One delivery -/

section Deliver

variable {dir : String} {artifact : Artifact} {t : Tree}

theorem here_fill (interference : Interference) (place : Place) (name : String) (bytes : Bytes)
    (t : Tree) : (fill interference place name bytes t).2.here = t.here := by
  rcases fill_cases interference place name bytes t with hfilled | ⟨fault, hfilled⟩
  · rw [hfilled]
    rfl
  · rw [hfilled]

theorem here_deliver (interference : Interference) (dir : String) (artifact : Artifact)
    (t : Tree) : (deliver interference dir artifact t).2.here = t.here := by
  have hhere := t.here_ensureDirectory dir
  rw [deliver]
  cases interference .createDirectory with
  | some fault => rfl
  | none =>
    generalize t.ensureDirectory dir = ensured at hhere
    obtain ⟨made, between⟩ := ensured
    cases made with
    | error fault => exact hhere
    | ok =>
      simp only
      cases guarded interference .createTemporary (between.directory (Path.ofText dir)) with
      | error fault => exact hhere
      | ok place =>
        have hfill := here_fill interference place (safeName artifact.fileName artifact.machine)
          artifact.bytes between
        simp only
        generalize fill interference place _ _ between = filled at hfill
        obtain ⟨written, later⟩ := filled
        cases written
        all_goals exact hfill.trans hhere

/-- Places are found from the working directory, whatever else there is in a tree. -/
theorem place_of_here {between : Tree} (hhere : between.here = t.here) :
    place dir artifact between = place dir artifact t := by
  rw [place, place, Tree.start, Tree.start, hhere]

theorem place_eq {parent : Place} (hparent : t.directory (Path.ofText dir) = .ok parent) :
    place dir artifact t = parent ++ [safeName artifact.fileName artifact.machine] :=
  congrArg (· ++ _) (Tree.walk_eq_ok hparent).symm

theorem Delivered.atomic {given : Except Failure String} {later : Tree}
    (hdelivered : Delivered dir artifact t given later) (hhere : later.here = t.here) :
    Atomic dir artifact t given later := by
  cases hdelivered with
  | failed fault hfiles => exact .failed fault hfiles
  | @stored parent between hfiles hparent =>
    have hplace : place dir artifact t =
        parent ++ [safeName artifact.fileName artifact.machine] :=
      (place_of_here hhere).symm.trans (place_eq (walk_put _ _ hparent))
    refine .stored ?_ ?_ fun other hother => ?_
    · rw [target, readPath?_join (isFileName_safeName _ _) (walk_put _ _ hparent)]
      exact between.read?_put_self _ _
    · rw [hplace]
      exact between.read?_put_self _ _
    · rw [hplace] at hother
      rw [Tree.read?_put_of_ne hother, Tree.read?, hfiles]
      rfl

theorem rename_put_eq_ok_iff {parent : Place} {temporary name : String} {bytes : Bytes} :
    (∃ later, (t.put (parent ++ [temporary]) bytes).rename parent temporary name = .ok later) ↔
      '\x00' ∉ name.toList ∧ name.utf8ByteSize ≤ longestName ∧
        t.isDirectory (parent ++ [name]) = false := by
  rw [Tree.rename, Tree.read?_put_self, Tree.isDirectory_put]
  simp only [ite_error_eq_ok, List.contains_iff_mem, Bool.not_eq_true, Nat.not_lt, exists_and_left]
  simp

theorem fill_eq_ok_iff {interference : Interference} {parent : Place} {name : String}
    {bytes : Bytes} : (fill interference parent name bytes t).1 = .ok () ↔
      (interference .write = none ∧ interference .sync = none ∧ interference .rename = none) ∧
        '\x00' ∉ name.toList ∧ name.utf8ByteSize ≤ longestName ∧
          t.isDirectory (parent ++ [name]) = false := by
  rw [← rename_put_eq_ok_iff, fill]
  split
  · rename_i later hattempt
    simp only [bind_eq_ok, guarded_eq_ok_iff, Tree.put_put] at hattempt
    obtain ⟨written, ⟨hwrite, ⟨⟩⟩, _, ⟨hsync, -⟩, hrename, hlater⟩ := hattempt
    exact iff_of_true rfl ⟨⟨hwrite, hsync, hrename⟩, later, hlater⟩
  · rename_i fault hattempt
    refine iff_of_false (fun hdone => by cases hdone) ?_
    rintro ⟨⟨hwrite, hsync, hrename⟩, later, hlater⟩
    simp [guarded, bind, Except.bind, hwrite, hsync, hrename, hlater, Tree.put_put] at hattempt

/-- A dump is stored when the directory is made, the temporary file is created in it, and this one
is filled. -/
theorem stored_iff (interference : Interference) :
    (∃ path, (deliver interference dir artifact t).1 = .ok path) ↔
      interference .createDirectory = none ∧ (t.ensureDirectory dir).1 = .ok () ∧
        ∃ parent, guarded interference .createTemporary
            ((t.ensureDirectory dir).2.directory (Path.ofText dir)) = .ok parent ∧
          (fill interference parent (safeName artifact.fileName artifact.machine) artifact.bytes
            (t.ensureDirectory dir).2).1 = .ok () := by
  rw [deliver]
  cases interference .createDirectory with
  | some fault => simp
  | none =>
    generalize t.ensureDirectory dir = ensured
    obtain ⟨made, between⟩ := ensured
    cases made with
    | error fault => simp
    | ok =>
      simp only
      cases guarded interference .createTemporary (between.directory (Path.ofText dir)) with
      | error fault => simp
      | ok parent =>
        simp only [Except.ok.injEq, true_and, exists_eq_left']
        generalize fill interference parent _ _ between = filled
        obtain ⟨written, later⟩ := filled
        cases written <;> simp

theorem deliver_eq_ok_iff {delivery : Delivery} :
    (∃ path, (deliver delivery.interference dir delivery.artifact t).1 = .ok path) ↔
      Storable dir delivery t := by
  have hhere := t.here_ensureDirectory dir
  simp only [stored_iff, guarded_eq_ok_iff, fill_eq_ok_iff]
  constructor
  · rintro ⟨hdirectory, hmade, parent, ⟨htemporary, hparent⟩, ⟨hwrite, hsync, hrename⟩, hclean,
      hshort, hroom⟩
    refine ⟨fun step => ?_, hmade, ?_, hshort, hclean⟩
    · cases step <;> assumption
    · rw [← place_of_here hhere, place_eq hparent]
      exact hroom
  · rintro ⟨hunstruck, hmade, hroom, hshort, hclean⟩
    have hthere := Tree.hasDirectory_ensureDirectory hmade
    rw [Tree.hasDirectory] at hthere
    split at hthere
    · rename_i parent hparent
      rw [← place_of_here hhere, place_eq hparent] at hroom
      exact ⟨hunstruck _, hmade, parent, ⟨hunstruck _, hparent⟩,
        ⟨hunstruck _, hunstruck _, hunstruck _⟩, hclean, hshort, hroom⟩
    · cases hthere

end Deliver

/-! ### Sequences -/

/-- Deliveries each of which is all or nothing, from a tree to the one after the last. -/
inductive Atomically (dir : String) :
    Tree → List Delivery → List (Except Failure String) → Tree → Prop
  | done (t : Tree) : Atomically dir t [] [] t
  | next {before between later : Tree} {delivery : Delivery} {deliveries : List Delivery}
      {given : Except Failure String} {results : List (Except Failure String)}
      (hatomic : Atomic dir delivery.artifact before given between)
      (hstored : (∃ path, given = .ok path) ↔ Storable dir delivery before)
      (hrest : Atomically dir between deliveries results later) :
      Atomically dir before (delivery :: deliveries) (given :: results) later

/-- Whatever is delivered, in whatever state of the files and whatever strikes, every single
delivery is all or nothing. -/
theorem deliveries_atomic (dir : String) (deliveries : List Delivery) (t : Tree) :
    Atomically dir t deliveries (deliverAll dir deliveries t).1
      (deliverAll dir deliveries t).2 := by
  induction deliveries generalizing t with
  | nil => exact .done t
  | cons delivery deliveries ih =>
    have hdelivered := delivered_deliver delivery.interference dir delivery.artifact t
    exact .next (hdelivered.atomic (here_deliver ..)) deliver_eq_ok_iff (ih _)

end FleetConsole.Dump
