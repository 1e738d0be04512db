import FleetConsole.Proofs.Session.Step

/-!
# What a reader has not seen

The session counts its changes, and a reader keeps the count at which it looked last. So the two
counts differ exactly if the reader has missed a change (`Follows`), whatever the other readers do.
Whether a reader waits for the next change or asks for it makes no difference while the session goes
on. When it is over, only one that waits is still told of a change that it has missed
(`polling_agrees_iff`).
-/

namespace FleetConsole.Audience

/-- The session has changed since a reader looked last. -/
def Missed (reader : Reader) (h : List Happening) : Prop :=
  .changed ∈ h.takeWhile (· ≠ .looked reader)

instance (reader : Reader) (h : List Happening) : Decidable (Missed reader h) :=
  inferInstanceAs (Decidable (_ ∈ _))

variable {a next : Audience} {h heard : List Happening} {reader other : Reader}

theorem missed_changed (reader : Reader) (h : List Happening) : Missed reader (.changed :: h) := by
  simp [Missed]

theorem not_missed_looked (reader : Reader) (h : List Happening) :
    ¬ Missed reader (.looked reader :: h) := by
  simp [Missed]

theorem missed_looked_of_ne (hne : other ≠ reader) :
    Missed reader (.looked other :: h) ↔ Missed reader h := by
  simp [Missed, hne]

/-! ### Counts -/

/-- A reader has seen as many changes as there were when it looked last. -/
structure Follows (changes : Nat) (h : List Happening) (reader : Reader) (seen : Nat) : Prop where
  le : seen ≤ changes
  missed : seen ≠ changes ↔ Missed reader h

namespace Follows

variable {changes seen : Nat}

theorem looked (changes : Nat) (h : List Happening) (reader : Reader) :
    Follows changes (.looked reader :: h) reader changes where
  le := Nat.le_refl _
  missed := by simp [not_missed_looked]

theorem changed (hfollows : Follows changes h reader seen) :
    Follows (changes + 1) (.changed :: h) reader seen where
  le := Nat.le_succ_of_le hfollows.le
  missed := iff_of_true (Nat.ne_of_lt (Nat.lt_succ_of_le hfollows.le)) (missed_changed reader h)

theorem otherLooked (hfollows : Follows changes h reader seen) (hne : other ≠ reader) :
    Follows changes (.looked other :: h) reader seen where
  le := hfollows.le
  missed := hfollows.missed.trans (missed_looked_of_ne hne).symm

end Follows

/-! ### Numbers

Whoever leaves keeps the number, so an entry is only added at the end or replaced.
-/

section Numbers

variable {α : Type} {xs : List (Option α)} {n : Nat} {x : α} {P : Nat → α → Prop}

/-- Whoever is there has a property. -/
def Everyone (xs : List (Option α)) (P : Nat → α → Prop) : Prop :=
  ∀ n x, xs[n]? = some (some x) → P n x

theorem Everyone.append (hall : Everyone xs fun m y => m ≠ xs.length → P m y)
    (hnew : P xs.length x) : Everyone (xs ++ [some x]) P := by
  intro m y hy
  by_cases hm : m = xs.length
  · subst hm
    rw [List.getElem?_concat_length, Option.some.injEq, Option.some.injEq] at hy
    exact hy ▸ hnew
  · obtain ⟨hlt, -⟩ := List.getElem?_eq_some_iff.1 hy
    rw [List.length_append, List.length_singleton] at hlt
    rw [List.getElem?_append_left (by omega)] at hy
    exact hall m y hy hm

theorem Everyone.set (hall : Everyone xs fun m y => m ≠ n → P m y) (hnew : P n x) :
    Everyone (xs.set n (some x)) P := by
  intro m y hy
  rw [List.getElem?_set] at hy
  split_ifs at hy with hm
  · rw [Option.some.injEq, Option.some.injEq] at hy
    exact hm ▸ hy ▸ hnew
  · exact hall m y hy (Ne.symm hm)

theorem Everyone.leave (hall : Everyone xs P) (n : Nat) : Everyone (xs.set n none) P := by
  intro m y hy
  rw [List.getElem?_set] at hy
  split_ifs at hy with hm
  · cases hy
  · exact hall m y hy

theorem Everyone.imp {Q : Nat → α → Prop} (hall : Everyone xs P) (himp : ∀ m y, P m y → Q m y) :
    Everyone xs Q :=
  fun m y hy => himp m y (hall m y hy)

/-- How many are there. -/
def present (xs : List (Option α)) : Nat := xs.countP Option.isSome

theorem present_append (xs : List (Option α)) (x : α) :
    present (xs ++ [some x]) = present xs + 1 := by
  simp [present]

theorem present_replace (hthere : xs[n]?.join.isSome) (entry : Option α) :
    present (xs.set n entry) + 1 = present xs + if entry.isSome then 1 else 0 := by
  obtain ⟨x, hx⟩ := Option.isSome_iff_exists.1 hthere
  obtain ⟨hlt, hentry⟩ := List.getElem?_eq_some_iff.1 (Option.join_eq_some_iff.1 hx)
  have hpositive : 0 < present xs :=
    List.countP_pos_iff.2 ⟨_, List.getElem_mem hlt, by rw [hentry]; rfl⟩
  rw [present, List.countP_set hlt, hentry, Option.isSome_some, if_pos rfl]
  rw [present] at hpositive ⊢
  omega

theorem present_set (hthere : xs[n]?.join.isSome) (x : α) :
    present (xs.set n (some x)) = present xs :=
  Nat.add_right_cancel (present_replace hthere (some x))

theorem present_leave (hthere : xs[n]?.join.isSome) :
    present (xs.set n none) + 1 = present xs :=
  present_replace hthere none

end Numbers

/-! ### The whole audience -/

/-- The audience accounts for what everyone has seen. A menu that has missed nothing is the one for
the user who is signed in. -/
structure InTouch (a : Audience) (h : List Happening) : Prop where
  subscriptions : Everyone a.subscriptions fun n sub =>
    Follows a.session.changes h (.subscription n) sub.seen
  menus : Everyone a.menus fun n menu =>
    Follows a.session.changes h (.menu n) menu.subscription.seen
  built : Everyone a.menus fun _ menu =>
    menu.subscription.seen = a.session.changes → menu.menu = Menu.Mounted.build a.session.user
  count : a.count = present a.subscriptions + present a.menus

namespace InTouch

/-- Whoever does not look misses what it missed before. -/
theorem looked (hinTouch : InTouch a h) (reader : Reader) :
    (Everyone a.subscriptions fun n sub => reader ≠ .subscription n →
      Follows a.session.changes (.looked reader :: h) (.subscription n) sub.seen) ∧
    Everyone a.menus fun n menu => reader ≠ .menu n →
      Follows a.session.changes (.looked reader :: h) (.menu n) menu.subscription.seen :=
  ⟨hinTouch.subscriptions.imp fun _ _ hfollows hne => hfollows.otherLooked hne,
    hinTouch.menus.imp fun _ _ hfollows hne => hfollows.otherLooked hne⟩

theorem subscriptionLooked (hinTouch : InTouch a h) (n : Nat) :
    (Everyone a.subscriptions fun m sub => m ≠ n →
      Follows a.session.changes (.looked (.subscription n) :: h) (.subscription m) sub.seen) ∧
    Everyone a.menus fun m menu =>
      Follows a.session.changes (.looked (.subscription n) :: h) (.menu m)
        menu.subscription.seen := by
  obtain ⟨hsubscriptions, hmenus⟩ := hinTouch.looked (.subscription n)
  exact ⟨hsubscriptions.imp fun m _ hfollows hne => hfollows (by simpa using Ne.symm hne),
    hmenus.imp fun m _ hfollows => hfollows (by simp)⟩

theorem menuLooked (hinTouch : InTouch a h) (n : Nat) :
    (Everyone a.subscriptions fun m sub =>
      Follows a.session.changes (.looked (.menu n) :: h) (.subscription m) sub.seen) ∧
    Everyone a.menus fun m menu => m ≠ n →
      Follows a.session.changes (.looked (.menu n) :: h) (.menu m) menu.subscription.seen := by
  obtain ⟨hsubscriptions, hmenus⟩ := hinTouch.looked (.menu n)
  exact ⟨hsubscriptions.imp fun m _ hfollows => hfollows (by simp),
    hmenus.imp fun m _ hfollows hne => hfollows (by simpa using Ne.symm hne)⟩

/-- A menu built now is the one for the user, and the others are as they were. -/
theorem built_of_ne (hinTouch : InTouch a h) (n : Nat) : Everyone a.menus fun m menu => m ≠ n →
    menu.subscription.seen = a.session.changes →
      menu.menu = Menu.Mounted.build a.session.user :=
  hinTouch.built.imp fun _ _ hbuilt _ => hbuilt

theorem after_step (hinTouch : InTouch a h) (hstep : Step a heard next) :
    InTouch next (heard ++ h) := by
  have hcount := hinTouch.count
  cases hstep with
  | nothing => exact hinTouch
  | change user =>
    refine ⟨hinTouch.subscriptions.imp fun _ _ hfollows => hfollows.changed,
      hinTouch.menus.imp fun _ _ hfollows => hfollows.changed, fun n menu hmenu hseen => ?_, hcount⟩
    -- Nobody has seen a change that was made just now, so no menu has to be right.
    have hle := (hinTouch.menus n menu hmenu).le
    exact absurd hseen (Nat.ne_of_lt (Nat.lt_succ_of_le hle))
  | finish => exact ⟨hinTouch.subscriptions, hinTouch.menus, hinTouch.built, hcount⟩
  | subscribe =>
    obtain ⟨hsubscriptions, hmenus⟩ := hinTouch.subscriptionLooked a.subscriptions.length
    refine ⟨hsubscriptions.append (.looked ..), hmenus, hinTouch.built, ?_⟩
    simp only [present_append]
    omega
  | @look n hthere =>
    obtain ⟨hsubscriptions, hmenus⟩ := hinTouch.subscriptionLooked n
    refine ⟨hsubscriptions.set (.looked ..), hmenus, hinTouch.built, ?_⟩
    exact hcount.trans (congrArg (· + present a.menus) (present_set hthere _).symm)
  | @unsubscribe n hthere =>
    refine ⟨hinTouch.subscriptions.leave n, hinTouch.menus, hinTouch.built, ?_⟩
    have hpresent := present_leave hthere
    simp only
    omega
  | mount =>
    obtain ⟨hsubscriptions, hmenus⟩ := hinTouch.menuLooked a.menus.length
    refine ⟨hsubscriptions, hmenus.append (.looked ..),
      (hinTouch.built_of_ne a.menus.length).append fun _ => rfl, ?_⟩
    simp only [withMenu, present_append]
    omega
  | @mountOn n hthere =>
    obtain ⟨hsubscriptions, hmenus⟩ := hinTouch.menuLooked a.menus.length
    refine ⟨hsubscriptions.leave n, hmenus.append (.looked ..),
      (hinTouch.built_of_ne a.menus.length).append fun _ => rfl, ?_⟩
    have hpresent := present_leave hthere
    simp only [withMenu, present_append]
    omega
  | @kept n menu hmenu hseen =>
    obtain ⟨hsubscriptions, hmenus⟩ := hinTouch.menuLooked n
    refine ⟨hsubscriptions, fun m other hother => ?_, hinTouch.built, hcount⟩
    -- The menu stays as it is, and its count is the one that a look would give it.
    by_cases hm : m = n
    · subst hm
      rw [menu?, Option.join_eq_some_iff, hother, Option.some.injEq, Option.some.injEq] at hmenu
      rw [hmenu, hseen]
      exact .looked ..
    · exact hmenus m other hother hm
  | @rebuilt n hthere =>
    obtain ⟨hsubscriptions, hmenus⟩ := hinTouch.menuLooked n
    refine ⟨hsubscriptions, hmenus.set (.looked ..), (hinTouch.built_of_ne n).set fun _ => rfl, ?_⟩
    exact hcount.trans (congrArg (present a.subscriptions + ·) (present_set hthere _).symm)
  | @unmount n hthere =>
    refine ⟨hinTouch.subscriptions, hinTouch.menus.leave n, hinTouch.built.leave n, ?_⟩
    have hpresent := present_leave hthere
    simp only
    omega

end InTouch

theorem inTouch_run (events : List Event) :
    InTouch (run {} events) (history {} events) := by
  have hstart : InTouch {} [] := by
    constructor <;> simp [Everyone, present]
  simpa using run_induction hstart InTouch.after_step events

/-! ### Asking and waiting -/

/-- What a reader holds on to. -/
def follower? (a : Audience) : Reader → Option Subscription
  | .subscription n => a.subscription? n
  | .menu n => (a.menu? n).map Menu.Mounted.subscription

/-- Whether a reader finds a change by asking: a subscription asks whether there is one, and a menu
is refreshed. -/
def Finds (a : Audience) : Reader → Prop
  | .subscription n => (a.step (.hasChanged n)).2 = .truth true
  | .menu n => ∃ routes, (a.step (.refresh n)).2 = .refreshed true routes

theorem finds_iff {sub : Subscription} (hthere : a.follower? reader = some sub) :
    a.Finds reader ↔ sub.hasChanged a.session = true := by
  cases reader with
  | subscription n =>
    have hsub : a.subscription? n = some sub := hthere
    simp [Finds, step, hsub]
  | menu n =>
    obtain ⟨menu, hmenu, rfl⟩ := Option.map_eq_some_iff.1 hthere
    cases hchanged : menu.subscription.hasChanged a.session <;>
      simp [Finds, step, hmenu, Menu.Mounted.refresh?, hchanged]

theorem InTouch.seen_ne_iff (hinTouch : InTouch a h) {sub : Subscription}
    (hthere : a.follower? reader = some sub) :
    sub.seen ≠ a.session.changes ↔ Missed reader h := by
  cases reader with
  | subscription n =>
    exact (hinTouch.subscriptions n sub (Option.join_eq_some_iff.1 hthere)).missed
  | menu n =>
    obtain ⟨menu, hmenu, rfl⟩ := Option.map_eq_some_iff.1 hthere
    exact (hinTouch.menus n menu (Option.join_eq_some_iff.1 hmenu)).missed

/-- A reader that waits is told of a change exactly if it has missed one, and one that asks finds a
change exactly if it has missed one and the session goes on. So the two agree unless the session is
over and a change in it has been missed. -/
theorem polling_agrees_iff (events : List Event) {reader : Reader} {sub : Subscription}
    (hthere : (run {} events).follower? reader = some sub) :
    ((run {} events).Finds reader ↔ .finish ∉ events ∧ Missed reader (history {} events)) ∧
    (sub.changed (run {} events).session).1 =
      (if Missed reader (history {} events) then .user (run {} events).session.user
      else if .finish ∈ events then .ended else .waiting) ∧
    (((run {} events).Finds reader ↔
        ∃ user, (sub.changed (run {} events).session).1 = .user user) ↔
      (.finish ∉ events ∨ ¬ Missed reader (history {} events))) := by
  have hlive : (run {} events).session.live = true ↔ .finish ∉ events := by
    simp [live_run]
  have hseen := (inTouch_run events).seen_ne_iff hthere
  have hfinds : (run {} events).Finds reader ↔
      .finish ∉ events ∧ Missed reader (history {} events) := by
    rw [finds_iff hthere, Subscription.hasChanged, Bool.and_eq_true, hlive, bne_iff_ne, hseen]
  have htold : (sub.changed (run {} events).session).1 =
      (if Missed reader (history {} events) then .user (run {} events).session.user
      else if .finish ∈ events then .ended else .waiting) := by
    rw [Subscription.changed]
    by_cases hmissed : Missed reader (history {} events)
    · rw [if_pos (hseen.2 hmissed), if_pos hmissed]
    · rw [if_neg (mt hseen.1 hmissed), if_neg hmissed]
      by_cases hover : .finish ∈ events
      · rw [if_neg (mt hlive.1 (not_not.2 hover)), if_pos hover]
      · rw [if_pos (hlive.2 hover), if_neg hover]
  refine ⟨hfinds, htold, ?_⟩
  have hgiven : (∃ user, (sub.changed (run {} events).session).1 = .user user) ↔
      Missed reader (history {} events) := by
    rw [htold]
    split_ifs with hmissed <;> simp [hmissed]
  rw [hfinds, hgiven]
  tauto

def superAdmin : User := ⟨1, "admin", .superAdmin⟩

/-- A menu is mounted for a super-administrator, who then signs out. -/
def signedOut : List Event := [.login superAdmin, .mount, .subscribe, .logout]

theorem change_found_by_asking :
    (run {} signedOut).follower? (.subscription 0) = some ⟨1⟩ ∧
      (run {} signedOut).Finds (.subscription 0) ∧
      ∃ user, (Subscription.changed ⟨1⟩ (run {} signedOut).session).1 = .user user := by
  obtain ⟨hfinds, -, hagree⟩ :=
    polling_agrees_iff signedOut (show follower? _ (.subscription 0) = some ⟨1⟩ from rfl)
  have hfound := hfinds.2 (by decide)
  exact ⟨rfl, hfound, (hagree.2 (.inl (by decide))).1 hfound⟩

/-- The session ends before anyone has looked again. -/
def overBeforeLooking : List Event := signedOut ++ [.finish]

/-- Whoever waits is still told that the user has signed out, but neither the subscription nor the
menu finds it by asking, and the menu goes on to offer the configuration of servers. -/
theorem change_hidden_from_asking :
    ((run {} overBeforeLooking).step (.changed 0)).2 = .notice (.user none) ∧
      ((run {} overBeforeLooking).step (.hasChanged 0)).2 = .truth false ∧
      ((run {} overBeforeLooking).step (.refresh 0)).2 =
        .refreshed false (Menu.forRole (some .superAdmin)).routes ∧
      ∀ reader ∈ [Reader.subscription 0, .menu 0],
        (run {} overBeforeLooking).follower? reader = some ⟨1⟩ ∧
          ¬ ((run {} overBeforeLooking).Finds reader ↔ ∃ user,
            (Subscription.changed ⟨1⟩ (run {} overBeforeLooking).session).1 = .user user) := by
  refine ⟨rfl, rfl, rfl, ?_⟩
  rw [List.forall_mem_cons, List.forall_mem_singleton]
  refine ⟨⟨rfl, fun hagree => ?_⟩, ⟨rfl, fun hagree => ?_⟩⟩
  · have hfound : Answer.truth false = .truth true := hagree.2 ⟨none, rfl⟩
    cases hfound
  · obtain ⟨routes, hfound⟩ := hagree.2 ⟨none, rfl⟩
    cases hfound

end FleetConsole.Audience
