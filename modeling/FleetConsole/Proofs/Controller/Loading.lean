import FleetConsole.Proofs.Controller.Awaited
import Mathlib.Data.List.Induction
import Mathlib.Data.List.Perm.Basic

/-!
# The loading gauge

The gauge counts what operations wait for: the requests without an answer, but also the dumps that
are being stored. It is the number of requests in flight exactly while no dump is being stored
(`loading_counts_awaited`).
-/

namespace FleetConsole.Controller

variable {c : Controller} {event : Event} {waiting : List Awaited}

/-! ### Accounts of a run -/

/-- The operations that were begun and had to wait, in order. -/
def begun (c : Controller) (events : List Event) : List Operation :=
  (c.run events).2.filterMap fun effects => effects.progress.begun?

/-- The operations that had to wait and are over, in order. -/
def completed (c : Controller) (events : List Event) : List Operation :=
  (c.run events).2.filterMap fun effects => effects.progress.completed?

/-- What a run has come to: what is waited for, and the operations. -/
structure Accounted (c : Controller) (waiting : List Awaited) (begun completed : List Operation) :
    Prop where
  keeps : Keeps waiting c
  inOrder : InOrder c
  inFlight : c.gauge.inFlight = waiting.length
  known : ∀ operation ∈ begun, c.Known operation
  begun_nodup : begun.Nodup
  completed_nodup : completed.Nodup
  begun_of_completed : ∀ operation ∈ completed, operation ∈ begun
  /-- An operation is under way as long as it waits for something. -/
  underWay : ∀ operation, (operation ∈ begun ∧ operation ∉ completed) ↔
    ∃ awaited ∈ waiting, awaited.operation = operation

namespace Accounted

variable {begun completed : List Operation}

theorem quiet (haccounted : Accounted c waiting begun completed)
    (hends : ∀ awaited ∈ waiting, event.ends awaited = false)
    (hrequests : (c.step event).2.requests = []) (harrivals : (c.step event).2.arrivals = [])
    (hgauge : (c.step event).1.gauge = c.gauge) :
    Accounted (c.step event).1 (awaiting waiting (event, (c.step event).2)) begun completed := by
  have hsame : awaiting waiting (event, (c.step event).2) = waiting := by
    rw [awaiting, hrequests, harrivals, List.map_nil, List.map_nil, List.append_nil,
      List.append_nil]
    exact List.filter_eq_self.2 fun awaited hmem => by rw [hends awaited hmem]; rfl
  have hkeeps := haccounted.keeps.step event
  rw [hsame] at hkeeps ⊢
  exact { haccounted with
    keeps := hkeeps
    inOrder := haccounted.inOrder.step event
    inFlight := by rw [hgauge, haccounted.inFlight]
    known := fun operation hmem => (haccounted.known operation hmem).step event }

theorem sent (haccounted : Accounted c waiting begun completed) {operation : Operation}
    (hbegins : event.begins = true) (hsome : (c.step event).2.requests ≠ [])
    (harrivals : (c.step event).2.arrivals = [])
    (hoperation : ∀ request ∈ (c.step event).2.requests, request.operation = operation)
    (hnew : ¬ c.Known operation) (hknown : (c.step event).1.Known operation)
    (hgauge : (c.step event).1.gauge.inFlight =
      c.gauge.inFlight + (c.step event).2.requests.length) :
    Accounted (c.step event).1 (awaiting waiting (event, (c.step event).2))
      (begun ++ [operation]) completed := by
  have hsame : awaiting waiting (event, (c.step event).2) =
      waiting ++ (c.step event).2.requests.map .answer := by
    rw [awaiting, harrivals, List.map_nil, List.append_nil]
    congr 1
    exact List.filter_eq_self.2 fun awaited _ => by rw [ends_of_begins hbegins]; rfl
  have hkeeps := haccounted.keeps.step event
  rw [hsame] at hkeeps ⊢
  have hunknown : operation ∉ begun := fun hmem => hnew (haccounted.known operation hmem)
  refine ⟨hkeeps, haccounted.inOrder.step event, ?_, ?_, ?_, haccounted.completed_nodup, ?_, ?_⟩
  · rw [hgauge, haccounted.inFlight, List.length_append, List.length_map]
  · intro other hother
    rcases List.mem_append.1 hother with hother | hother
    · exact (haccounted.known other hother).step event
    · rwa [List.mem_singleton.1 hother]
  · simpa [List.nodup_append, haccounted.begun_nodup] using
      fun other hother => ne_of_mem_of_not_mem hother hunknown
  · exact fun other hother => List.mem_append_left _ (haccounted.begun_of_completed other hother)
  · intro other
    have hbefore := haccounted.underWay other
    by_cases hother : other = operation
    · subst hother
      obtain ⟨request, hrequest⟩ := List.exists_mem_of_ne_nil _ hsome
      refine iff_of_true ⟨by simp, ?_⟩ ⟨.answer request,
        List.mem_append_right _ (List.mem_map_of_mem hrequest), hoperation request hrequest⟩
      exact fun hcompleted => hunknown (haccounted.begun_of_completed _ hcompleted)
    · rw [List.mem_append, List.mem_singleton, or_iff_left hother, hbefore]
      refine exists_congr fun awaited => ?_
      rw [List.mem_append]
      refine and_congr_left fun hawaited => (or_iff_left fun hsent => hother ?_).symm
      obtain ⟨request, hrequest, rfl⟩ := List.mem_map.1 hsent
      exact hawaited.symm.trans (hoperation request hrequest)

/-- What an event that ends one wait leaves of operations other than that which waited. -/
theorem underWay_other (haccounted : Accounted c waiting begun completed) {awaited : Awaited}
    (hone : waiting.filter event.ends = [awaited]) {operation : Operation}
    (hother : operation ≠ awaited.operation) :
    (operation ∈ begun ∧ operation ∉ completed) ↔
      ∃ other ∈ waiting.filter fun other => !event.ends other, other.operation = operation := by
  rw [haccounted.underWay]
  refine exists_congr fun other => and_congr_left fun hoperation => ?_
  rw [mem_left hone, iff_self_and]
  rintro - rfl
  exact hother hoperation.symm

/-- In place of the answer that brought a dump, the download waits for the dump to be stored. -/
theorem arrived (haccounted : Accounted c waiting begun completed) {request : Request}
    {arrival : Dump.Arrival} (hone : waiting.filter event.ends = [.answer request])
    (hrequests : (c.step event).2.requests = [])
    (harrivals : (c.step event).2.arrivals = [arrival])
    (hoperation : request.operation = .dump arrival.serial)
    (hgauge : (c.step event).1.gauge = c.gauge) :
    Accounted (c.step event).1 (awaiting waiting (event, (c.step event).2)) begun completed := by
  have hkeeps := haccounted.keeps.step event
  have hlength := List.length_eq_length_filter_add (l := waiting) event.ends
  rw [hone, List.length_singleton] at hlength
  rw [awaiting, hrequests, harrivals, List.map_nil, List.nil_append, List.map_singleton]
    at hkeeps ⊢
  refine { haccounted with
    keeps := hkeeps
    inOrder := haccounted.inOrder.step event
    inFlight := ?_
    known := fun operation hmem => (haccounted.known operation hmem).step event
    underWay := fun operation => ?_ }
  · rw [hgauge, haccounted.inFlight, hlength, List.length_append, List.length_singleton]
    exact Nat.add_comm _ _
  · by_cases hother : operation = .dump arrival.serial
    · rw [hother]
      exact iff_of_true
        ((haccounted.underWay _).2 ⟨_, (mem_of_filter_ends hone).1, hoperation⟩)
        ⟨.storage arrival, List.mem_append_right _ List.mem_cons_self, rfl⟩
    · rw [haccounted.underWay_other hone fun hsame => hother (hsame.trans hoperation)]
      refine exists_congr fun other => ?_
      rw [List.mem_append, List.mem_singleton]
      refine and_congr_left fun hsame => (or_iff_left ?_).symm
      rintro rfl
      exact hother hsame.symm

theorem ended {completed' : List Operation}
    (haccounted : Accounted c waiting begun completed) {awaited : Awaited}
    (hone : waiting.filter event.ends = [awaited]) (hrequests : (c.step event).2.requests = [])
    (harrivals : (c.step event).2.arrivals = [])
    (hgauge : (c.step event).1.gauge = c.gauge.finish) (hnodup : completed'.Nodup)
    (hbegun : ∀ operation ∈ completed', operation ∈ begun)
    (hunderWay : ∀ operation, (operation ∈ begun ∧ operation ∉ completed') ↔
      ∃ other ∈ waiting.filter fun other => !event.ends other, other.operation = operation) :
    Accounted (c.step event).1 (awaiting waiting (event, (c.step event).2)) begun completed' := by
  have hkeeps := haccounted.keeps.step event
  rw [awaiting, hrequests, harrivals, List.map_nil, List.map_nil, List.append_nil,
    List.append_nil] at hkeeps ⊢
  refine { haccounted with
    keeps := hkeeps
    inOrder := haccounted.inOrder.step event
    inFlight := ?_
    known := fun operation hmem => (haccounted.known operation hmem).step event
    completed_nodup := hnodup
    begun_of_completed := hbegun
    underWay := hunderWay }
  have hlength := List.length_eq_length_filter_add (l := waiting) event.ends
  rw [hone, List.length_singleton] at hlength
  rw [hgauge]
  show c.gauge.inFlight - 1 = (waiting.filter fun other => !event.ends other).length
  rw [haccounted.inFlight]
  omega

theorem ended_waiting (haccounted : Accounted c waiting begun completed) {awaited : Awaited}
    (hone : waiting.filter event.ends = [awaited]) (hrequests : (c.step event).2.requests = [])
    (harrivals : (c.step event).2.arrivals = [])
    (hgauge : (c.step event).1.gauge = c.gauge.finish)
    (hwaits : ∃ other ∈ waiting.filter fun other => !event.ends other,
      other.operation = awaited.operation) :
    Accounted (c.step event).1 (awaiting waiting (event, (c.step event).2)) begun completed := by
  refine haccounted.ended hone hrequests harrivals hgauge haccounted.completed_nodup
    haccounted.begun_of_completed fun operation => ?_
  -- The operation is still under way: it was so before, and it waits for something else.
  by_cases hother : operation = awaited.operation
  · rw [hother]
    exact iff_of_true ((haccounted.underWay _).2 ⟨awaited, (mem_of_filter_ends hone).1, rfl⟩) hwaits
  · exact haccounted.underWay_other hone hother

theorem ended_over (haccounted : Accounted c waiting begun completed) {awaited : Awaited}
    (hone : waiting.filter event.ends = [awaited]) (hrequests : (c.step event).2.requests = [])
    (harrivals : (c.step event).2.arrivals = [])
    (hgauge : (c.step event).1.gauge = c.gauge.finish)
    (hover : ∀ other ∈ waiting.filter fun other => !event.ends other,
      other.operation ≠ awaited.operation) :
    Accounted (c.step event).1 (awaiting waiting (event, (c.step event).2)) begun
      (completed ++ [awaited.operation]) := by
  obtain ⟨hbegun, hopen⟩ := (haccounted.underWay _).2 ⟨awaited, (mem_of_filter_ends hone).1, rfl⟩
  refine haccounted.ended hone hrequests harrivals hgauge ?_ ?_ fun operation => ?_
  · simpa [List.nodup_append, haccounted.completed_nodup] using
      fun other hother => ne_of_mem_of_not_mem hother hopen
  · intro operation hmem
    rcases List.mem_append.1 hmem with hmem | hmem
    · exact haccounted.begun_of_completed operation hmem
    · rwa [List.mem_singleton.1 hmem]
  · by_cases hother : operation = awaited.operation
    · subst hother
      refine iff_of_false (fun hnow => hnow.2 (by simp)) ?_
      rintro ⟨other, hmem, hsame⟩
      exact hover other hmem hsame
    · rw [← haccounted.underWay_other hone hother, List.mem_append, List.mem_singleton,
        or_iff_left hother]

theorem step (haccounted : Accounted c waiting begun completed) (event : Event) :
    Accounted (c.step event).1 (awaiting waiting (event, (c.step event).2))
      (begun ++ (c.step event).2.progress.begun?.toList)
      (completed ++ (c.step event).2.progress.completed?.toList) := by
  cases traffic haccounted.keeps haccounted.inOrder event with
  | quiet hends hrequests harrivals hgauge hpublished hprogress =>
    have hafter := haccounted.quiet hends hrequests harrivals hgauge
    rw [hprogress]
    cases event.begins <;> simpa [Progress.begun?, Progress.completed?] using hafter
  | sent operation hbegins hsome harrivals hoperation hnew hknown hgauge hpublished hprogress =>
    have hafter := haccounted.sent hbegins hsome harrivals hoperation hnew hknown hgauge
    rw [hprogress]
    simpa [Progress.begun?, Progress.completed?] using hafter
  | arrived request arrival hone hrequests harrivals hoperation hgauge hpublished hprogress =>
    have hafter := haccounted.arrived hone hrequests harrivals hoperation hgauge
    rw [hprogress]
    simpa [Progress.begun?, Progress.completed?] using hafter
  | ended awaited hone hrequests harrivals hgauge hpublished hprogress =>
    rcases hprogress with ⟨hwaits, hprogress⟩ | ⟨hover, path, hprogress⟩
    · have hafter := haccounted.ended_waiting hone hrequests harrivals hgauge hwaits
      simpa [hprogress, Progress.begun?, Progress.completed?] using hafter
    · have hafter := haccounted.ended_over hone hrequests harrivals hgauge hover
      simpa [hprogress, Progress.begun?, Progress.completed?] using hafter

end Accounted

theorem filterMap_effects_concat {α : Type} (f : Effects → Option α) (c : Controller)
    (events : List Event) (event : Event) :
    (c.run (events ++ [event])).2.filterMap f =
      (c.run events).2.filterMap f ++ (f ((c.run events).1.step event).2).toList := by
  rw [run_effects_append, List.filterMap_append]
  show _ ++ [((c.run events).1.step event).2].filterMap f = _
  cases hf : f ((c.run events).1.step event).2 <;> simp [hf]

theorem accounted_run {setup : Setup} {start : Controller} (hstart : initial setup = .ok start)
    (events : List Event) :
    Accounted (start.run events).1 (start.awaited events) (start.begun events)
      (start.completed events) := by
  induction events using List.reverseRecOn with
  | nil =>
    have hinOrder := inOrder_run hstart []
    rw [initial_eq_ok hstart] at hinOrder ⊢
    exact ⟨⟨rfl, rfl, rfl, rfl⟩, hinOrder, rfl, nofun, .nil, .nil, nofun, fun _ => by
      simp [begun, awaited, run]⟩
  | append_singleton events event ih =>
    rw [awaited_concat, begun, completed, filterMap_effects_concat, filterMap_effects_concat,
      run_append]
    exact ih.step event

/-- The calls that are refused before anything is sent. -/
inductive Refused (c : Controller) : Event → Prop
  | showToken (hphase : c.instruction.phase ≠ .hidden) : Refused c .showToken
  | regenerateToken (hphase : c.instruction.phase ≠ .shown) : Refused c .regenerateToken
  | setPage {offset limit : Nat} (hlimit : ¬ (1 ≤ limit ∧ limit ≤ 100)) :
      Refused c (.setPage offset limit)
  | downloadDump {machine : Int} (hmissing : ∀ m ∈ c.machines.items, m.id ≠ machine) :
      Refused c (.downloadDump machine)

theorem Refused.step_eq (hrefused : Refused c event) :
    ∃ notifications, c.step event = c.immediate notifications := by
  cases hrefused with
  | showToken hphase => exact ⟨[], showToken_refused hphase⟩
  | regenerateToken hphase =>
    have hnone : c.token.regenerate? = none := by
      rw [Token.Desk.regenerate?_eq]
      exact if_neg hphase
    refine ⟨[], ?_⟩
    simp only [step, hnone]
    rfl
  | setPage hlimit => exact ⟨_, step_setPage_refused hlimit _⟩
  | downloadDump hmissing => exact ⟨_, step_downloadDump_refused hmissing⟩

/-- What an event does to the gauge while operations wait. -/
structure GaugeStep (c : Controller) (waiting : List Awaited) (event : Event) : Prop where
  published : (c.step event).2.published.loading = true ↔
    (c.step event).2.requests ≠ [] ∨
      (∃ awaited ∈ waiting, event.ends awaited = true) ∧ (c.step event).2.arrivals = []
  /-- A dump is handed over without letting go of the gauge. -/
  handed : (c.step event).2.arrivals ≠ [] → (c.step event).1.gauge = c.gauge
  /-- The gauge is above zero when a guard lets go of it. -/
  released : ∀ awaited ∈ waiting, event.ends awaited = true → (c.step event).2.arrivals = [] →
    (c.step event).1.gauge.inFlight + 1 = c.gauge.inFlight
  refused : Refused c event →
    (c.step event).1 = c ∧ (c.step event).2.published = {} ∧ (c.step event).2.requests = []

theorem Accounted.gaugeStep {begun completed : List Operation}
    (haccounted : Accounted c waiting begun completed) (event : Event) :
    GaugeStep c waiting event := by
  have hrefused : Refused c event → (c.step event).1 = c ∧ (c.step event).2.published = {} ∧
      (c.step event).2.requests = [] := by
    intro hrefused
    obtain ⟨notifications, hstep⟩ := hrefused.step_eq
    rw [hstep]
    exact ⟨rfl, rfl, rfl⟩
  have hnot {awaited : Awaited} (hleft : event.ends awaited = false) {P : Prop}
      (hended : event.ends awaited = true) : P := by
    rw [hleft] at hended
    cases hended
  cases traffic haccounted.keeps haccounted.inOrder event with
  | quiet hends hrequests harrivals hgauge hpublished hprogress =>
    refine ⟨?_, fun _ => hgauge, fun awaited hmem => hnot (hends awaited hmem), hrefused⟩
    simp only [hpublished, hrequests, Bool.false_eq_true, ne_eq, not_true, false_or, false_iff]
    rintro ⟨⟨awaited, hmem, hended⟩, -⟩
    exact hnot (hends awaited hmem) hended
  | sent operation hbegins hsome harrivals hoperation hnew hknown hgauge hpublished hprogress =>
    exact ⟨iff_of_true hpublished (.inl hsome), fun hhanded => absurd harrivals hhanded,
      fun awaited _ => hnot (ends_of_begins hbegins awaited), hrefused⟩
  | arrived request arrival hone hrequests harrivals hoperation hgauge hpublished hprogress =>
    have hhanded : (c.step event).2.arrivals ≠ [] := by
      rw [harrivals]
      exact List.cons_ne_nil _ _
    refine ⟨?_, fun _ => hgauge, fun _ _ _ hnone => absurd hnone hhanded, hrefused⟩
    simp [hpublished, hrequests, harrivals]
  | ended awaited hone hrequests harrivals hgauge hpublished hprogress =>
    obtain ⟨hmem, hended⟩ := mem_of_filter_ends hone
    refine ⟨iff_of_true hpublished (.inr ⟨⟨awaited, hmem, hended⟩, harrivals⟩),
      fun hhanded => absurd harrivals hhanded, fun _ _ _ _ => ?_, hrefused⟩
    have hpositive := List.length_pos_of_mem hmem
    rw [hgauge]
    show c.gauge.inFlight - 1 + 1 = c.gauge.inFlight
    rw [haccounted.inFlight]
    omega

/-- What has become of the operations of a run. -/
structure OperationsSettle (start : Controller) (events : List Event) : Prop where
  begun_nodup : (start.begun events).Nodup
  completed_nodup : (start.completed events).Nodup
  /-- An operation is over at once, or begins to wait under a new name. -/
  begins : ∀ event, event.begins = true →
    ((start.run events).1.step event).2.progress = .immediate ∨
      ∃ operation, operation ∉ start.begun events ∧
        ((start.run events).1.step event).2.progress = .waiting operation
  underWay : ∀ operation,
    (operation ∈ start.begun events ∧ operation ∉ start.completed events) ↔
      (∃ request ∈ start.outstanding events, request.operation = operation) ∨
        ∃ arrival ∈ start.delivering events, .dump arrival.serial = operation
  /-- With all requests answered, what keeps an operation from being over is a dump being stored. -/
  settled : start.outstanding events = [] →
    ((start.completed events).Perm (start.begun events) ∧
      (start.run events).1.gauge.inFlight = 0 ↔ start.delivering events = [])

section Run

variable {setup : Setup} {start : Controller}

theorem exists_awaited (events : List Event) (operation : Operation) :
    (∃ awaited ∈ start.awaited events, awaited.operation = operation) ↔
      (∃ request ∈ start.outstanding events, request.operation = operation) ∨
        ∃ arrival ∈ start.delivering events, .dump arrival.serial = operation := by
  constructor
  · rintro ⟨request | arrival, hmem, hoperation⟩
    · exact .inl ⟨request, List.mem_filterMap.2 ⟨_, hmem, rfl⟩, hoperation⟩
    · exact .inr ⟨arrival, List.mem_filterMap.2 ⟨_, hmem, rfl⟩, hoperation⟩
  · rintro (⟨request, hmem, hoperation⟩ | ⟨arrival, hmem, hoperation⟩)
    · obtain ⟨awaited, hawaited, hrequest⟩ := List.mem_filterMap.1 hmem
      rw [Awaited.eq_of_request? hrequest] at hawaited
      exact ⟨_, hawaited, hoperation⟩
    · obtain ⟨awaited, hawaited, harrival⟩ := List.mem_filterMap.1 hmem
      rw [Awaited.eq_of_arrival? harrival] at hawaited
      exact ⟨_, hawaited, hoperation⟩

theorem inFlight_run (hstart : initial setup = .ok start) (events : List Event) :
    (start.run events).1.gauge.inFlight =
      (start.outstanding events).length + (start.delivering events).length :=
  (accounted_run hstart events).inFlight.trans (Awaited.length_eq _)

theorem operationsSettle (hstart : initial setup = .ok start) (events : List Event) :
    OperationsSettle start events := by
  have haccounted := accounted_run hstart events
  have hunderWay := fun operation =>
    (haccounted.underWay operation).trans (exists_awaited events operation)
  refine ⟨haccounted.begun_nodup, haccounted.completed_nodup, fun event hbegins => ?_,
    hunderWay, fun hnone => ⟨?_, fun hstored => ⟨?_, ?_⟩⟩⟩
  · cases traffic haccounted.keeps haccounted.inOrder event with
    | quiet hends hrequests harrivals hgauge hpublished hprogress =>
      rw [hbegins] at hprogress
      exact .inl hprogress
    | sent operation _ hsome harrivals hoperation hnew hknown hgauge hpublished hprogress =>
      exact .inr ⟨operation, fun hmem => hnew (haccounted.known operation hmem), hprogress⟩
    | arrived request arrival hone | ended awaited hone =>
      have hended := (mem_of_filter_ends hone).2
      rw [ends_of_begins hbegins] at hended
      cases hended
  · rintro ⟨-, hidle⟩
    rw [inFlight_run hstart, hnone, List.length_nil, Nat.zero_add] at hidle
    exact List.eq_nil_of_length_eq_zero hidle
  · refine (List.perm_ext_iff_of_nodup haccounted.completed_nodup haccounted.begun_nodup).2 ?_
    refine fun operation => ⟨haccounted.begun_of_completed operation, fun hbegun => ?_⟩
    by_contra hopen
    have hwaits := (hunderWay operation).1 ⟨hbegun, hopen⟩
    rw [hnone, hstored] at hwaits
    simp at hwaits
  · rw [inFlight_run hstart, hnone, hstored, List.length_nil, List.length_nil]

/-- The gauge is the number of requests in flight and of dumps being stored, and operations are over
when they wait for neither. -/
theorem loading_counts_awaited (hstart : initial setup = .ok start) (events : List Event) :
    (start.run events).1.gauge.inFlight =
        (start.outstanding events).length + (start.delivering events).length ∧
      ((start.run events).1.gauge.inFlight = (start.outstanding events).length ↔
        start.delivering events = []) ∧
      (∀ event, GaugeStep (start.run events).1 (start.awaited events) event) ∧
      OperationsSettle start events := by
  have hcount := inFlight_run hstart events
  refine ⟨hcount, ?_, (accounted_run hstart events).gaugeStep, operationsSettle hstart events⟩
  rw [hcount, Nat.add_eq_left, List.length_eq_zero_iff]

end Run

/-- A view and a dump that overlap with a fetch, all of them answered, and the dump stored. -/
def settledRun : List Event :=
  [.setView .authorized, .showToken, .listAnswered 2 (.ok ⟨[{ id := 1 }], 1⟩), .downloadDump 1,
    .tokenAnswered 1 (.error (.transport "slow")), .listAnswered 1 (.ok {}),
    .dumpAnswered 1 (.ok ⟨1, "a.txt", [0]⟩), .dumpStored 1 (.ok "dumps/a.txt")]

/-- In the middle of the run the count of the view, the fetch and the dump wait. -/
theorem loading_settled :
    initial {} = .ok fresh ∧ (fresh.run (settledRun.take 4)).1.gauge.inFlight = 3 ∧
      Refused (fresh.run (settledRun.take 4)).1 .showToken ∧
      ((fresh.run (settledRun.take 4)).1.step .showToken).2.published = {} ∧
      fresh.outstanding settledRun = [] ∧ fresh.delivering settledRun = [] ∧
      (fresh.completed settledRun).Perm [.list 2, .token 1, .dump 1] ∧
      (fresh.run settledRun).1.gauge.inFlight = 0 := by
  obtain ⟨hcount, -, hstep, -⟩ := loading_counts_awaited initial_fresh (settledRun.take 4)
  have hrefused : Refused (fresh.run (settledRun.take 4)).1 .showToken := .showToken (by decide)
  have hover := ((loading_counts_awaited initial_fresh settledRun).2.2.2.settled rfl).2 rfl
  exact ⟨initial_fresh, hcount.trans rfl, hrefused, ((hstep _).refused hrefused).2.1, rfl, rfl,
    hover⟩

/-- While a dump is being stored the gauge is one, and the download is not over, although every
request has been answered. -/
theorem loading_while_storing :
    initial {} = .ok fresh ∧ fresh.outstanding (settledRun.take 7) = [] ∧
      (fresh.run (settledRun.take 7)).1.gauge.inFlight = 1 ∧
      .dump 1 ∈ fresh.begun (settledRun.take 7) ∧
      .dump 1 ∉ fresh.completed (settledRun.take 7) :=
  ⟨rfl, rfl, rfl, by decide, by decide⟩

end FleetConsole.Controller
