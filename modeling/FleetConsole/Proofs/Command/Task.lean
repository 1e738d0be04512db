import FleetConsole.Proofs.Command.Exchange
import FleetConsole.Proofs.Controller.Parts

/-!
# Commands in a world

The answers that an operation gets in a world, and the world after it, are known before the
operation is carried out, in whatever order the answers arrive. So is what becomes of the dumps
among them, since only the answer to a request for a dump brings one (`arrivals_run`).
-/

namespace FleetConsole

namespace Command

/-! ### What was reported -/

theorem errors_append (earlier later : List Effects) :
    errors (earlier ++ later) = errors earlier ++ errors later := by
  rw [errors, List.flatMap_append, List.filter_append]
  rfl

theorem checked_cases (effects : List Effects) :
    (errors effects = [] ∧ checked effects = .ok ()) ∨
      (errors effects ≠ [] ∧ checked effects = .error (.reported (errors effects))) := by
  rw [checked]
  cases errors effects with
  | nil => exact .inl ⟨rfl, rfl⟩
  | cons n ns => exact .inr ⟨List.cons_ne_nil n ns, rfl⟩

section Task

variable {settings : Settings} {dir : String} {c : Controller} {event : Controller.Event}
  {w : World}

/-! ### Answers to requests -/

/-- The answers to requests for parts of the listing, in the order of the requests. -/
def listAnswers (requests : List Listing.Request) (pages : List (Except Failure Page)) :
    List Controller.Event :=
  List.zipWith (fun request page => .listAnswered request.tag page) requests pages

theorem run_settle_list (settings : Settings) (requests : List Listing.Request) (w : World) :
    ((requests.map Request.list).mapM (World.services settings).settle).run w =
      (listAnswers requests (w.pages settings.server (requests.map (·.query))),
        w.after (settings.server.requests (requests.map fun request => .list request.query))) := by
  induction requests generalizing w with
  | nil => rfl
  | cons request requests ih =>
    have hask : ((World.services settings).settle (.list request)).run w =
        (.listAnswered request.tag (w.answer settings.server (.list request.query)),
          w.after (settings.server.requests [.list request.query])) :=
      World.run_ask_map settings.server (.list request.query) w
        (Controller.Event.listAnswered request.tag)
    rw [List.map_cons, List.mapM_cons, World.run_bind, hask, World.run_bind, ih,
      World.after_append, ← Server.requests_append]
    rfl

theorem run_settle_one {request : Request} {answer : Controller.Event} {later : World}
    (hsettled : ((World.services settings).settle request).run w = (answer, later)) :
    ([request].mapM (World.services settings).settle).run w = ([answer], later) := by
  rw [List.mapM_cons, World.run_bind, hsettled]
  rfl

/-! ### Operations -/

/-- Events that bring no dump hand none over. -/
theorem arrivals_run {events : List Controller.Event}
    (hnone : ∀ event ∈ events, ∀ serial artifact, event ≠ .dumpAnswered serial (.ok artifact)) :
    (c.run events).2.flatMap Effects.arrivals = [] := by
  induction events generalizing c with
  | nil => rfl
  | cons event events ih =>
    rw [List.forall_mem_cons] at hnone
    rw [Controller.run, List.flatMap_cons, ih hnone.2, List.append_nil]
    rcases c.arrivals_cases event with hempty | ⟨serial, artifact, -, hevent, -⟩
    · exact hempty
    · exact absurd hevent (hnone.1 serial artifact)

/-- The answers arrive in the order of the requests, or in reverse; then the dumps among them are
stored. -/
theorem run_perform (dir : String) (c : Controller) (event : Controller.Event)
    {answers : List Controller.Event} {later : World}
    (hsettled : ((c.step event).2.requests.mapM (World.services settings).settle).run w =
      (answers, later)) :
    ∃ arrived, (arrived = answers ∨ arrived = answers.reverse) ∧
      ∀ next effects stored last, (c.step event).1.run arrived = (next, effects) →
        ((effects.flatMap Effects.arrivals).mapM ((World.services settings).store dir)).run later =
          (stored, last) →
        (perform (World.services settings) dir c event).run w =
          (((next.run stored).1, (c.step event).2 :: effects ++ (next.run stored).2), last) := by
  refine ⟨if later.overtake later.received then answers.reverse else answers, ?_, ?_⟩
  · split
    · exact .inr rfl
    · exact .inl rfl
  · intro next effects stored last harrived hstored
    have hovertaken : (World.services settings).overtake.run later =
        (later.overtake later.received, later) := rfl
    rw [perform, World.run_bind, hsettled, World.run_bind, hovertaken]
    simp only [harrived]
    rw [World.run_bind, hstored]
    rfl

/-- If no dump is among the answers, the operation is over with them. -/
theorem run_perform_answers (dir : String) (c : Controller) (event : Controller.Event)
    {answers : List Controller.Event} {later : World}
    (hsettled : ((c.step event).2.requests.mapM (World.services settings).settle).run w =
      (answers, later))
    (hnone : ∀ event ∈ answers, ∀ serial artifact, event ≠ .dumpAnswered serial (.ok artifact)) :
    ∃ arrived, (arrived = answers ∨ arrived = answers.reverse) ∧
      (perform (World.services settings) dir c event).run w =
        ((((c.step event).1.run arrived).1, (c.step event).2 :: ((c.step event).1.run arrived).2),
          later) := by
  obtain ⟨arrived, harrived, hperformed⟩ := run_perform dir c event hsettled
  have hempty : (((c.step event).1.run arrived).2.flatMap Effects.arrivals) = [] := by
    refine arrivals_run fun other hother => hnone other ?_
    rcases harrived with rfl | rfl
    · exact hother
    · exact List.mem_reverse.1 hother
  refine ⟨arrived, harrived, ?_⟩
  rw [hperformed _ _ [] later rfl (by rw [hempty]; rfl)]
  exact congrArg (fun effects => ((_, effects), later)) (List.append_nil _)

theorem run_performAll_cons {services : Services (StateM World)} {events : List Controller.Event}
    {next last : Controller} {effects others : List Effects} {between later : World}
    (hfirst : (perform services dir c event).run w = ((next, effects), between))
    (hothers : (performAll services dir next events).run between = ((last, others), later)) :
    (performAll services dir c (event :: events)).run w = ((last, effects ++ others), later) := by
  rw [performAll, World.run_bind, hfirst, World.run_bind, hothers]
  rfl

theorem run_performAll_one {services : Services (StateM World)} {next : Controller}
    {effects : List Effects} {later : World}
    (hperformed : (perform services dir c event).run w = ((next, effects), later)) :
    (performAll services dir c [event]).run w = ((next, effects), later) := by
  have hothers := run_performAll_cons hperformed
    (show (performAll services dir next []).run later = ((next, []), later) from rfl)
  rwa [List.append_nil] at hothers

/-! ### Tasks -/

theorem run_bind_ok {task : Task (StateM World) α} {next : α → Task (StateM World) β} {a : α}
    {later : World} (htask : task.run.run w = (.ok a, later)) :
    (task >>= next).run.run w = (next a).run.run later :=
  congrArg (fun p : Except Problem α × World =>
    StateT.run (ExceptT.bindCont next p.1 : StateM World (Except Problem β)) p.2) htask

theorem run_bind_error {task : Task (StateM World) α} {next : α → Task (StateM World) β}
    {problem : Problem} {later : World} (htask : task.run.run w = (.error problem, later)) :
    (task >>= next).run.run w = (.error problem, later) :=
  congrArg (fun p : Except Problem α × World =>
    StateT.run (ExceptT.bindCont next p.1 : StateM World (Except Problem β)) p.2) htask

theorem run_begin (setup : Setup) (w : World) :
    (begin setup : Task (StateM World) Controller).run.run w =
      ((Controller.initial setup).mapError .refused, w) := by
  rw [begin]
  cases Controller.initial setup <;> rfl

theorem run_carryOut {services : Services (StateM World)} {events : List Controller.Event}
    {last : Controller} {effects : List Effects} {later : World}
    (hperformed : (performAll services dir c events).run w = ((last, effects), later)) :
    (carryOut services dir c events).run.run w =
      ((checked effects).map fun _ => (last, effects), later) := by
  have hlifted : (liftM (performAll services dir c events) :
      Task (StateM World) (Controller × List Effects)).run.run w =
        (.ok (last, effects), later) :=
    congrArg (fun p : (Controller × List Effects) × World => (Except.ok p.1, p.2)) hperformed
  rw [carryOut, run_bind_ok hlifted]
  simp only
  cases checked effects <;> rfl

end Task

end Command

end FleetConsole
