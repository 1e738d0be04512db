import FleetConsole.Session.Audience
import Mathlib.Data.List.Basic

/-!
# The events of a session

To its audience a session is a sequence of changes, and each reader looks at it now and then.
`heard` says which of the two an event was, and `Step` lists everything that an event can do to the
session and its audience; `step_after` says that nothing else happens. What is proved of runs goes
by cases on `Step`.
-/

namespace FleetConsole.Audience

/-- Whoever looks at a session. -/
inductive Reader where
  | subscription (n : Nat)
  | menu (n : Nat)
  deriving DecidableEq, Repr

/-- What an event was: somebody signed in or out, or a reader saw the session as it was. -/
inductive Happening where
  | changed
  | looked (reader : Reader)
  deriving DecidableEq, Repr

/-- What happens in an event. A user who signs in is a change also if the user was signed in before;
signing out is one only if there was a user. A menu does not look at a session that is over. -/
def heard (a : Audience) : Event → List Happening
  | .login _ => if a.session.live then [.changed] else []
  | .logout => if a.session.live && a.session.user.isSome then [.changed] else []
  | .subscribe => if a.session.live then [.looked (.subscription a.subscriptions.length)] else []
  | .current n | .changed n =>
    if (a.subscription? n).isSome then [.looked (.subscription n)] else []
  | .mount => if a.session.live then [.looked (.menu a.menus.length)] else []
  | .mountOn n => if (a.subscription? n).isSome then [.looked (.menu a.menus.length)] else []
  | .refresh n => if a.session.live && (a.menu? n).isSome then [.looked (.menu n)] else []
  | .finish | .unsubscribe _ | .hasChanged _ | .routes _ | .unmount _ => []

/-! ### Steps -/

/-- A menu that is mounted now. -/
def mounted (a : Audience) : Menu.Mounted :=
  ⟨a.session.subscribe, Menu.Mounted.build a.session.user⟩

def withMenu (a : Audience) : Audience := { a with menus := a.menus ++ [some a.mounted] }

/-- Everything that can happen in an event, and the audience after it. -/
inductive Step (a : Audience) : List Happening → Audience → Prop
  | nothing : Step a [] a
  | change (user : Option User) : Step a [.changed]
      { a with session := { a.session with user, changes := a.session.changes + 1 } }
  | finish : Step a [] { a with session := a.session.finish }
  | subscribe : Step a [.looked (.subscription a.subscriptions.length)]
      { a with subscriptions := a.subscriptions ++ [some a.session.subscribe]
               count := a.count + 1 }
  | look {n : Nat} (hthere : (a.subscription? n).isSome) :
      Step a [.looked (.subscription n)] (a.setSubscription n a.session.subscribe)
  | unsubscribe {n : Nat} (hthere : (a.subscription? n).isSome) :
      Step a [] { a with subscriptions := a.subscriptions.set n none, count := a.count - 1 }
  | mount : Step a [.looked (.menu a.menus.length)] { a.withMenu with count := a.count + 1 }
  | mountOn {n : Nat} (hthere : (a.subscription? n).isSome) :
      Step a [.looked (.menu a.menus.length)]
        { a.withMenu with subscriptions := a.subscriptions.set n none }
  | kept {n : Nat} {menu : Menu.Mounted} (hmenu : a.menu? n = some menu)
      (hseen : menu.subscription.seen = a.session.changes) : Step a [.looked (.menu n)] a
  | rebuilt {n : Nat} (hthere : (a.menu? n).isSome) :
      Step a [.looked (.menu n)] { a with menus := a.menus.set n (some a.mounted) }
  | unmount {n : Nat} (hthere : (a.menu? n).isSome) :
      Step a [] { a with menus := a.menus.set n none, count := a.count - 1 }

theorem step_after (a : Audience) (event : Event) : Step a (a.heard event) (a.step event).1 := by
  cases event with
  | login user =>
    rw [heard, step]
    split_ifs
    · exact .change (some user)
    · exact .nothing
  | logout =>
    rw [heard, step, Session.logout]
    by_cases hlive : a.session.live = true
    · by_cases huser : a.session.user.isSome = true
      · rw [if_pos (Bool.and_eq_true_iff.2 ⟨hlive, huser⟩), if_pos hlive, if_pos huser]
        exact .change none
      · simp only [hlive, huser, Bool.and_false, Bool.false_eq_true, if_true, if_false]
        exact .nothing
    · simp only [hlive, Bool.false_and, Bool.false_eq_true, if_false]
      exact .nothing
  | finish =>
    rw [heard, step]
    exact .finish
  | subscribe =>
    rw [heard, step]
    split_ifs
    · exact .subscribe
    · exact .nothing
  | unsubscribe n =>
    rw [heard, step]
    cases hsub : a.subscription? n with
    | none => exact .nothing
    | some sub => exact .unsubscribe (by rw [hsub]; rfl)
  | current n =>
    rw [heard, step]
    cases hsub : a.subscription? n with
    | none => exact .nothing
    | some sub => exact .look (by rw [hsub]; rfl)
  | hasChanged n =>
    rw [heard, step]
    cases a.subscription? n <;> exact .nothing
  | changed n =>
    rw [heard, step]
    cases hsub : a.subscription? n with
    | none => exact .nothing
    | some sub =>
      have hseen : (sub.changed a.session).2 = a.session.subscribe := by
        rw [Subscription.changed]
        split_ifs with hnew
        · rfl
        · exact congrArg Subscription.mk (not_not.1 hnew)
        · exact congrArg Subscription.mk (not_not.1 hnew)
      simp only [hseen]
      exact .look (by rw [hsub]; rfl)
  | mount =>
    rw [heard, step]
    split_ifs
    · exact .mount
    · exact .nothing
  | mountOn n =>
    rw [heard, step]
    cases hsub : a.subscription? n with
    | none => exact .nothing
    | some sub => exact .mountOn (by rw [hsub]; rfl)
  | refresh n =>
    rw [heard, step]
    cases hmenu : a.menu? n with
    | none => simpa using Step.nothing
    | some menu =>
      simp only [Menu.Mounted.refresh?, Subscription.hasChanged]
      -- A menu that has missed nothing is kept, but it has looked all the same.
      by_cases hlive : a.session.live = true
      · by_cases hseen : menu.subscription.seen = a.session.changes
        · simpa [hlive, hseen] using Step.kept hmenu hseen
        · simp only [hlive, hseen, bne_iff_ne, ne_eq, not_false_eq_true, Bool.true_and, if_true,
            Option.isSome_some]
          exact .rebuilt (by rw [hmenu]; rfl)
      · simpa [hlive] using Step.nothing
  | routes n =>
    rw [heard, step]
    cases a.menu? n <;> exact .nothing
  | unmount n =>
    rw [heard, step]
    cases hmenu : a.menu? n with
    | none => exact .nothing
    | some menu => exact .unmount (by rw [hmenu]; rfl)

/-! ### Runs -/

def run (a : Audience) (events : List Event) : Audience :=
  events.foldl (fun a event => (a.step event).1) a

/-- What happened in events, the latest first. -/
def history (a : Audience) : List Event → List Happening
  | [] => []
  | event :: events => history (a.step event).1 events ++ a.heard event

/-- What every step keeps, every run keeps. -/
theorem run_induction {P : Audience → List Happening → Prop} {a : Audience} {h : List Happening}
    (hstart : P a h)
    (hstep : ∀ {a next h heard}, P a h → Step a heard next → P next (heard ++ h))
    (events : List Event) : P (a.run events) (a.history events ++ h) := by
  induction events generalizing a h with
  | nil => exact hstart
  | cons event events ih =>
    rw [history, List.append_assoc]
    exact ih (hstep hstart (step_after a event))

/-! ### The end of the session -/

theorem live_step (a : Audience) (event : Event) :
    (a.step event).1.session.live = true ↔ a.session.live = true ∧ .finish ≠ event := by
  cases event with
  | finish => simp [step, Session.finish]
  | logout =>
    rw [step, Session.logout]
    split_ifs <;> simp
  | login user =>
    rw [step]
    split_ifs <;> simp [Session.login]
  | _ =>
    simp only [step, ne_eq, reduceCtorEq, not_false_eq_true, and_true]
    repeat' split
    all_goals rfl

theorem live_run (a : Audience) (events : List Event) :
    (a.run events).session.live = true ↔ a.session.live = true ∧ .finish ∉ events := by
  induction events generalizing a with
  | nil => simp [run]
  | cons event events ih =>
    rw [run, List.foldl_cons, ← run, ih, live_step, List.mem_cons, not_or, and_assoc]

end FleetConsole.Audience
