import FleetConsole.Proofs.Session.Missed

/-!
# Menus that follow a session

A menu is built when it is mounted, and again when it is refreshed and has missed a change. One that
has missed none need not be built again: the user is still the one for whom it was built
(`InTouch.built`). So right after either the menu is the one for the user who is signed in, and a
refresh says whether the session had changed (`menus_follow_session`).
-/

namespace FleetConsole

/-- The configuration of servers is offered to super-administrators and to nobody else. -/
theorem Menu.mem_routes_forRole {route : String} (hroute : route ∈ servers.items.map Item.route)
    (role : Option Role) : route ∈ (forRole role).routes ↔ role = some .superAdmin := by
  rw [forRole]
  split_ifs with hrole
  · simp only [routes, List.flatMap_cons, List.mem_append, hroute, hrole, true_or]
  · have hnot : ∀ other ∈ servers.items.map Item.route,
        other ∉ (⟨[users, profile]⟩ : Menu).routes := by
      decide
    simp only [hnot route hroute, hrole]

namespace Audience

variable {a : Audience} {n : Nat}

/-- A menu is the one for the user who is signed in. -/
structure Offers (a : Audience) (n : Nat) (routes : List String) : Prop where
  menu : (a.menu? n).map Menu.Mounted.menu = some (Menu.forRole (a.session.user.map User.role))
  shown : routes = (Menu.forRole (a.session.user.map User.role)).routes
  servers : ∀ route ∈ Menu.servers.items.map Menu.Item.route,
    route ∈ routes ↔ ∃ user, a.session.user = some user ∧ user.role = .superAdmin

theorem offers_of_menu
    (hmenu : (a.menu? n).map Menu.Mounted.menu = some (Menu.Mounted.build a.session.user)) :
    Offers a n (Menu.Mounted.build a.session.user).routes where
  menu := hmenu
  shown := rfl
  servers route hroute := by
    rw [Menu.Mounted.build, Menu.mem_routes_forRole hroute, Option.map_eq_some_iff]

theorem offers_mounted {other : Audience} (hsession : other.session = a.session)
    (hmenus : other.menus = a.menus ++ [some a.mounted]) :
    Offers other a.menus.length (Menu.Mounted.build a.session.user).routes := by
  rw [← hsession]
  refine offers_of_menu ?_
  rw [menu?, hmenus, List.getElem?_concat_length, hsession]
  rfl

/-- In a session that goes on a refresh says whether the menu has missed a change, and leaves the
menu for the user. -/
theorem InTouch.refresh {h : List Happening} (hinTouch : InTouch a h)
    (hlive : a.session.live = true) (hthere : (a.menu? n).isSome) :
    ∃ routes, (a.step (.refresh n)).2 = .refreshed (decide (Missed (.menu n) h)) routes ∧
      Offers (a.step (.refresh n)).1 n routes := by
  obtain ⟨menu, hmenu⟩ := Option.isSome_iff_exists.1 hthere
  have hentry := Option.join_eq_some_iff.1 hmenu
  have hseen := (hinTouch.menus n menu hentry).missed
  by_cases hmissed : Missed (.menu n) h
  · have hstep : a.step (.refresh n) = ({ a with menus := a.menus.set n (some a.mounted) },
        .refreshed true a.mounted.menu.routes) := by
      rw [step, hmenu]
      simp only [Menu.Mounted.refresh?, Subscription.hasChanged, hlive, Bool.true_and,
        bne_iff_ne.2 (hseen.2 hmissed), if_true]
      rfl
    obtain ⟨hlt, -⟩ := List.getElem?_eq_some_iff.1 hentry
    rw [hstep, decide_eq_true hmissed]
    refine ⟨_, rfl, offers_of_menu ?_⟩
    rw [menu?, List.getElem?_set_self hlt]
    rfl
  · have hsame : menu.subscription.seen = a.session.changes := not_not.1 (mt hseen.1 hmissed)
    have hstep : a.step (.refresh n) = (a, .refreshed false menu.menu.routes) := by
      rw [step, hmenu]
      simp only [Menu.Mounted.refresh?, Subscription.hasChanged, hsame, bne_self_eq_false,
        Bool.and_false, Bool.false_eq_true, if_false]
    rw [hstep, decide_eq_false hmissed, hinTouch.built n menu hentry hsame]
    refine ⟨_, rfl, offers_of_menu ?_⟩
    rw [hmenu, Option.map_some, hinTouch.built n menu hentry hsame]

/-- In a session that goes on, every menu is the one for the user right after it has been mounted or
refreshed, and a refresh finds a change exactly if the session has changed since the menu was
mounted or refreshed last. The session knows how many subscriptions and menus there are. -/
theorem menus_follow_session {events : List Event} (hlive : .finish ∉ events) :
    (∀ n, ((run {} events).menu? n).isSome → ∃ routes,
      ((run {} events).step (.refresh n)).2 =
        .refreshed (decide (Missed (.menu n) (history {} events))) routes ∧
      Offers ((run {} events).step (.refresh n)).1 n routes) ∧
    (∃ routes, ((run {} events).step .mount).2 = .routes routes ∧
      Offers ((run {} events).step .mount).1 (run {} events).menus.length routes) ∧
    (∀ n, ((run {} events).subscription? n).isSome → ∃ routes,
      ((run {} events).step (.mountOn n)).2 = .routes routes ∧
      Offers ((run {} events).step (.mountOn n)).1 (run {} events).menus.length routes) ∧
    (run {} events).count =
      present (run {} events).subscriptions + present (run {} events).menus := by
  have hinTouch := inTouch_run events
  have hgoesOn : (run {} events).session.live = true := (live_run {} events).2 ⟨rfl, hlive⟩
  refine ⟨fun n hthere => hinTouch.refresh hgoesOn hthere, ?_, fun n hthere => ?_, hinTouch.count⟩
  · rw [step, if_pos hgoesOn]
    exact ⟨_, rfl, offers_mounted rfl rfl⟩
  · obtain ⟨sub, hsub⟩ := Option.isSome_iff_exists.1 hthere
    rw [step, hsub]
    exact ⟨_, rfl, offers_mounted rfl rfl⟩

/-- A user signs in twice, and everyone but the first menu looks at the session after that. -/
def repeatedLogin : List Event :=
  [.login superAdmin, .mount, .subscribe, .mount, .login superAdmin, .current 0, .refresh 1]

theorem repeated_login_found : .finish ∉ repeatedLogin ∧
    ((run {} repeatedLogin).menu? 0).isSome ∧ ((run {} repeatedLogin).menu? 1).isSome ∧
    (∃ routes, ((run {} repeatedLogin).step (.refresh 0)).2 = .refreshed true routes ∧
      "/machines/all" ∈ routes) ∧
    (∃ routes, ((run {} repeatedLogin).step (.refresh 1)).2 = .refreshed false routes) ∧
    (run {} repeatedLogin).count = 3 := by
  have hlive : .finish ∉ repeatedLogin := by decide
  obtain ⟨hrefresh, -, -, hcount⟩ := menus_follow_session hlive
  refine ⟨hlive, rfl, rfl, ?_, ?_, hcount⟩
  · obtain ⟨routes, hanswer, hoffers⟩ := hrefresh 0 rfl
    exact ⟨routes, hanswer, (hoffers.servers _ (by decide)).2 ⟨superAdmin, rfl, rfl⟩⟩
  · obtain ⟨routes, hanswer, -⟩ := hrefresh 1 rfl
    exact ⟨routes, hanswer⟩

end Audience

end FleetConsole
