import FleetConsole.Account

/-!
# The session and its subscriptions

A session knows who is signed in. Whoever displays something that depends on the user takes a
subscription, which remembers what it has seen: the session counts its changes, and a subscription
keeps the count at which it looked last. A session can end while subscriptions are left; it can then
not change any more, but a change that nobody has looked at yet can still be delivered.
-/

namespace FleetConsole

/-- Who is signed in, and how often that has changed. -/
structure Session where
  user : Option User := none
  /-- How many changes there have been. -/
  changes : Nat := 0
  /-- Whether the session still goes on. -/
  live : Bool := true
  deriving DecidableEq, Repr, Inhabited

/-- A look at a session: the number of changes that it has seen. -/
structure Subscription where
  seen : Nat
  deriving DecidableEq, Repr, Inhabited

namespace Session

/-- A user signs in, which is a change also if the user was signed in before. -/
def login (s : Session) (user : User) : Session :=
  { s with user := some user, changes := s.changes + 1 }

/-- The user signs out, which is a change only if there was one. -/
def logout (s : Session) : Session :=
  if s.user.isSome then { s with user := none, changes := s.changes + 1 } else s

def finish (s : Session) : Session := { s with live := false }

/-- A new subscription has seen everything so far. -/
def subscribe (s : Session) : Subscription := ⟨s.changes⟩

end Session

/-- What a subscription is told when it asks for the next change. -/
inductive Notice where
  /-- There is none yet. -/
  | waiting
  /-- There will be none any more. -/
  | ended
  | user (user : Option User)
  deriving DecidableEq, Repr, Inhabited

namespace Subscription

/-- The user now, which is then seen. -/
def current (_ : Subscription) (s : Session) : Option User × Subscription :=
  (s.user, ⟨s.changes⟩)

/-- Whether there is a change to be seen in a session that goes on. -/
def hasChanged (sub : Subscription) (s : Session) : Bool :=
  s.live && sub.seen != s.changes

/-- The next change, if it is there already, which is then seen. -/
def changed (sub : Subscription) (s : Session) : Notice × Subscription :=
  if sub.seen ≠ s.changes then (.user s.user, ⟨s.changes⟩)
  else if s.live then (.waiting, sub)
  else (.ended, sub)

end Subscription

end FleetConsole
