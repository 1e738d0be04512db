import FleetConsole.Dump.Delivery
import FleetConsole.Proofs.Controller.Coherent

/-!
# Answers that are superseded

An answer to a list request that is not the one sent last for its part, or to a fetch after which
another one was begun, is superseded: it does not matter what it says, or whether it is a failure.
Two runs that differ in such answers only are the same run, with the same requests, displays,
publications, notifications and stored files after every event.
-/

namespace FleetConsole.Controller

/-! ### Storing dumps

What becomes of a dump is said by a store, which changes with every dump.
-/

section Storing

variable {Files : Type} (store : Files → Dump.Artifact → Except Failure String × Files)

/-- An event in which, if it ends the storing of a dump, the store says what became of that. -/
def Event.storing (c : Controller) (files : Files) : Event → Event
  | .dumpStored serial result =>
    .dumpStored serial <|
      ((c.arrival? serial).map fun arrival => (store files arrival.artifact).1).getD result
  | event => event

/-- The store after an event. Only a dump that came is stored. -/
def stored (c : Controller) (files : Files) : Event → Files
  | .dumpStored serial _ =>
    ((c.arrival? serial).map fun arrival => (store files arrival.artifact).2).getD files
  | _ => files

/-- The state and the store after events, and what each event brought about. -/
def runStoring (c : Controller) (files : Files) :
    List Event → (Controller × Files) × List Effects
  | [] => ((c, files), [])
  | event :: events =>
    let now := c.step (event.storing store c files)
    let later := runStoring now.1 (c.stored store files event) events
    (later.1, now.2 :: later.2)

/-- What the store says is not kept. -/
theorem step_event_storing (c : Controller) (files : Files) (event : Event) :
    (c.step (event.storing store c files)).1 = (c.step event).1 := by
  cases event with
  | dumpStored serial result =>
    simp only [Event.storing, step]
    cases c.arrival? serial <;> rfl
  | _ => rfl

theorem runStoring_controller (c : Controller) (files : Files) (events : List Event) :
    (c.runStoring store files events).1.1 = (c.run events).1 := by
  induction events generalizing c files with
  | nil => rfl
  | cons event events ih =>
    simp only [runStoring, ih, step_event_storing]
    rfl

theorem runStoring_concat (c : Controller) (files : Files) (events : List Event) (event : Event) :
    c.runStoring store files (events ++ [event]) =
      let before := c.runStoring store files events
      let now := before.1.1.step (event.storing store before.1.1 before.1.2)
      ((now.1, before.1.1.stored store before.1.2 event), before.2 ++ [now.2]) := by
  induction events generalizing c files with
  | nil => rfl
  | cons first events ih =>
    simp only [List.cons_append, runStoring, ih]

end Storing

/-! ### Two runs -/

/-- Two answers to the same request, which is superseded when they come. -/
inductive Superseded (start : Controller) (before : List Event) : Event → Event → Prop
  | list {tag : Nat} {request : Listing.Request} (given other : Except Failure Page)
      (hopen : (start.run before).1.listing.open? tag = some request)
      (hlate : Listing.latest? request.part (start.listed before) ≠ some request) :
      Superseded start before (.listAnswered tag given) (.listAnswered tag other)
  | fetch {serial attempt : Nat} {request : Token.Request} (given other : Except Failure String)
      (hopen : (start.run before).1.token.open? serial = some request)
      (hfetch : request.purpose = .fetch attempt)
      (hlate : Token.lastFetch? (start.instructed before) ≠ some request) :
      Superseded start before (.tokenAnswered serial given) (.tokenAnswered serial other)

/-- Two courses of events that differ in superseded answers only. -/
inductive Alike (start : Controller) : List Event → List Event → Prop
  | nil : Alike start [] []
  | next {events others : List Event} {event other : Event} (halike : Alike start events others)
      (hnow : event = other ∨ Superseded start events event other) :
      Alike start (events ++ [event]) (others ++ [other])

section Alike

variable {start : Controller} {before events others : List Event} {event other : Event}

theorem Superseded.step_eq (hcoherent : Coherent (start.run before).1 (start.listed before)
      (start.instructed before)) (hsuperseded : Superseded start before event other) :
    (start.run before).1.step event = (start.run before).1.step other := by
  cases hsuperseded with
  | list given other hopen hlate =>
    rw [Ne, ← hcoherent.latest_iff hopen] at hlate
    simp only [step, hopen]
    rw [Listing.Desk.answer_of_late hlate given other]
  | @fetch serial attempt request given other hopen hfetch hlate =>
    rw [Ne, ← hcoherent.lastFetch_iff hopen] at hlate
    have hpurpose : request.purpose ≠ .regenerate := by simp [hfetch]
    simp only [step, hopen]
    rw [Token.Desk.answer_superseded hpurpose hlate given,
      Token.Desk.answer_superseded hpurpose hlate other]

/-- Answers that are superseded end the storing of no dump. -/
theorem Superseded.not_stored {Files : Type}
    (store : Files → Dump.Artifact → Except Failure String × Files)
    (hsuperseded : Superseded start before event other) (c : Controller) (files : Files) :
    event.storing store c files = event ∧ other.storing store c files = other ∧
      c.stored store files event = files ∧ c.stored store files other = files := by
  cases hsuperseded <;> exact ⟨rfl, rfl, rfl, rfl⟩

theorem Alike.length_eq (halike : Alike start events others) : events.length = others.length := by
  induction halike with
  | nil => rfl
  | next _ _ ih => simp [ih]

/-- What is alike has been alike at every moment. -/
theorem Alike.take (halike : Alike start events others) (n : Nat) :
    Alike start (events.take n) (others.take n) := by
  induction halike with
  | nil => simpa using Alike.nil
  | @next events others event other halike hnow ih =>
    have hlength := halike.length_eq
    by_cases hle : n ≤ events.length
    · rwa [List.take_append_of_le_length hle, List.take_append_of_le_length (hlength ▸ hle)]
    · rw [List.take_of_length_le (by simp; omega), List.take_of_length_le (by simp; omega)]
      exact .next halike hnow

theorem Alike.append (halike : Alike start events others) (later : List Event) :
    Alike start (events ++ later) (others ++ later) := by
  induction later generalizing events others with
  | nil => simpa using halike
  | cons event later ih => simpa using ih (halike.next (.inl rfl))

theorem Alike.runStoring_eq {setup : Setup} (hstart : initial setup = .ok start)
    (halike : Alike start events others) {Files : Type}
    (store : Files → Dump.Artifact → Except Failure String × Files) (files : Files) :
    start.runStoring store files events = start.runStoring store files others := by
  induction halike with
  | nil => rfl
  | @next events others event other _ hnow ih =>
    rw [runStoring_concat, runStoring_concat, ← ih]
    rcases hnow with rfl | hsuperseded
    · rfl
    · obtain ⟨hevent, hother, hfiles, hfiles'⟩ := hsuperseded.not_stored store
        (start.run events).1 (start.runStoring store files events).1.2
      simp only [hevent, hother, hfiles, hfiles', runStoring_controller]
      rw [hsuperseded.step_eq (coherent_run hstart events)]

end Alike

/-- Runs that differ in superseded answers only cannot be told apart at any moment. -/
theorem superseded_answers_invisible {setup : Setup} {start : Controller}
    (hstart : initial setup = .ok start) {events others : List Event}
    (halike : Alike start events others) {Files : Type}
    (store : Files → Dump.Artifact → Except Failure String × Files) (files : Files) (n : Nat) :
    start.runStoring store files (events.take n) = start.runStoring store files (others.take n) :=
  (halike.take n).runStoring_eq hstart store files

/-- The first page is overtaken by the next one. -/
def overtaking : List Event := [.setView .authorized, .setPage 10 10]

/-- A machine on the next page, whose dump is stored. -/
def storedDump : List Event :=
  [.listAnswered 3 (.ok ⟨[{ id := 1 }], 11⟩), .downloadDump 1,
    .dumpAnswered 1 (.ok ⟨1, "a.txt", [0]⟩), .dumpStored 1 (.ok "")]

/-- The first page comes late, or it fails. -/
def overtakenPage (answer : Except Failure Page) : List Event :=
  overtaking ++ [.listAnswered 2 answer] ++ storedDump

theorem overtaken_page_invisible :
    initial {} = .ok fresh ∧
      Alike fresh (overtakenPage (.ok {})) (overtakenPage (.error (.transport "slow"))) ∧
      ∀ n, fresh.runStoring (fun tree artifact => Dump.deliver .none "dumps" artifact tree) {}
          ((overtakenPage (.ok {})).take n) =
        fresh.runStoring (fun tree artifact => Dump.deliver .none "dumps" artifact tree) {}
          ((overtakenPage (.error (.transport "slow"))).take n) := by
  have hlate : Listing.latest? .page (fresh.listed overtaking) ≠
      some ⟨.page, 2, ⟨0, 10, none, some true⟩, 2⟩ := by decide
  have hopen : (fresh.run overtaking).1.listing.open? 2 =
      some ⟨.page, 2, ⟨0, 10, none, some true⟩, 2⟩ := rfl
  have hpages : Alike fresh (overtaking ++ [.listAnswered 2 (.ok {})])
      (overtaking ++ [.listAnswered 2 (.error (.transport "slow"))]) :=
    (Alike.nil.append overtaking).next (.inr (.list _ _ hopen hlate))
  have halike := hpages.append storedDump
  exact ⟨initial_fresh, halike,
    superseded_answers_invisible initial_fresh halike _ ({} : Storage.Tree)⟩

end FleetConsole.Controller
