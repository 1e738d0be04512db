import FleetConsole.Menu.Mounted

/-!
# A session and its audience

A session together with everyone who follows it: subscriptions and mounted menus, each numbered in
its own order of arrival. Whoever leaves keeps the number, so a number always means the same one.
The session keeps count of its audience as it comes and goes.
-/

namespace FleetConsole

/-- A session with its subscriptions and mounted menus; those that left are `none`. -/
structure Audience where
  session : Session := {}
  subscriptions : List (Option Subscription) := []
  menus : List (Option Menu.Mounted) := []
  /-- How many subscriptions and menus are there. -/
  count : Nat := 0
  deriving DecidableEq, Repr, Inhabited

namespace Audience

inductive Event where
  | login (user : User)
  | logout
  | finish
  | subscribe
  | unsubscribe (n : Nat)
  | current (n : Nat)
  | hasChanged (n : Nat)
  | changed (n : Nat)
  | mount
  /-- A subscription is given to a menu. -/
  | mountOn (n : Nat)
  | refresh (n : Nat)
  | routes (n : Nat)
  | unmount (n : Nat)
  deriving DecidableEq, Repr, Inhabited

inductive Answer where
  | nothing
  | number (n : Nat)
  | truth (b : Bool)
  | user (user : Option User)
  | notice (notice : Notice)
  | routes (routes : List String)
  | refreshed (refreshed : Bool) (routes : List String)
  deriving DecidableEq, Repr, Inhabited

def subscription? (a : Audience) (n : Nat) : Option Subscription :=
  (a.subscriptions[n]?).join

def menu? (a : Audience) (n : Nat) : Option Menu.Mounted :=
  (a.menus[n]?).join

def setSubscription (a : Audience) (n : Nat) (subscription : Subscription) : Audience :=
  { a with subscriptions := a.subscriptions.set n (some subscription) }

/-- One event. Whoever is not there does nothing, and a session that is over takes no more changes
and no newcomers. -/
def step (a : Audience) : Event → Audience × Answer
  | .login user =>
    (if a.session.live then { a with session := a.session.login user } else a, .nothing)
  | .logout => (if a.session.live then { a with session := a.session.logout } else a, .nothing)
  | .finish => ({ a with session := a.session.finish }, .nothing)
  | .subscribe =>
    if a.session.live then
      ({ a with subscriptions := a.subscriptions ++ [some a.session.subscribe]
                count := a.count + 1 },
        .number a.subscriptions.length)
    else (a, .nothing)
  | .unsubscribe n =>
    match a.subscription? n with
    | none => (a, .nothing)
    | some _ =>
      ({ a with subscriptions := a.subscriptions.set n none, count := a.count - 1 }, .nothing)
  | .current n =>
    match a.subscription? n with
    | none => (a, .nothing)
    | some subscription =>
      let (user, subscription) := subscription.current a.session
      (a.setSubscription n subscription, .user user)
  | .hasChanged n =>
    match a.subscription? n with
    | none => (a, .nothing)
    | some subscription => (a, .truth (subscription.hasChanged a.session))
  | .changed n =>
    match a.subscription? n with
    | none => (a, .nothing)
    | some subscription =>
      let (notice, subscription) := subscription.changed a.session
      (a.setSubscription n subscription, .notice notice)
  | .mount =>
    if a.session.live then
      let mounted := Menu.Mounted.mount a.session.subscribe a.session
      ({ a with menus := a.menus ++ [some mounted], count := a.count + 1 },
        .routes mounted.menu.routes)
    else (a, .nothing)
  | .mountOn n =>
    match a.subscription? n with
    | none => (a, .nothing)
    | some subscription =>
      let mounted := Menu.Mounted.mount subscription a.session
      ({ a with subscriptions := a.subscriptions.set n none
                menus := a.menus ++ [some mounted] },
        .routes mounted.menu.routes)
  | .refresh n =>
    match a.menu? n with
    | none => (a, .nothing)
    | some mounted =>
      match mounted.refresh? a.session with
      | none => (a, .refreshed false mounted.menu.routes)
      | some mounted =>
        ({ a with menus := a.menus.set n (some mounted) }, .refreshed true mounted.menu.routes)
  | .routes n =>
    match a.menu? n with
    | none => (a, .nothing)
    | some mounted => (a, .routes mounted.menu.routes)
  | .unmount n =>
    match a.menu? n with
    | none => (a, .nothing)
    | some _ => ({ a with menus := a.menus.set n none, count := a.count - 1 }, .nothing)

end Audience

end FleetConsole
