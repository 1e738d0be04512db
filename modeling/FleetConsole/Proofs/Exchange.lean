/-!
# Exchanges of requests and answers

The listing, the instruction and the dumps have one thing in common: an operation of the operator
sends requests, which are numbered in the order in which they are sent and stay open until they are
answered, in whatever order the answers come. An exchange is that much of a part, with the laws of
its numbers.

What happened in a run is its history. The open requests can be read off the history alone: they are
those that were sent and not answered (`Exchange.tallies_run`). Everything else that is proved of
runs is stated on histories and goes by the one induction `Exchange.run_induction`.
-/

namespace FleetConsole

inductive Happening (Operation Request Answer : Type) where
  | called (operation : Operation)
  | issued (request : Request)
  | answered (request : Request) (answer : Answer)

/-- What happened, the latest first. -/
abbrev History (Operation Request Answer : Type) := List (Happening Operation Request Answer)

namespace History

variable {Operation Request Answer : Type}

/-- The requests that were sent and not answered. -/
def Open (h : History Operation Request Answer) (request : Request) : Prop :=
  .issued request ∈ h ∧ ∀ answer, .answered request answer ∉ h

/-- The requests sent, the oldest first. -/
def sent : History Operation Request Answer → List Request
  | [] => []
  | .issued request :: h => sent h ++ [request]
  | .called _ :: h | .answered _ _ :: h => sent h

/-- The histories that can come about: numbers increase, and only open requests are answered. -/
inductive Sound (number : Request → Nat) : History Operation Request Answer → Prop
  | nil : Sound number []
  | called {h : History Operation Request Answer} (operation : Operation) :
      Sound number h → Sound number (.called operation :: h)
  | issued {h : History Operation Request Answer} {request : Request} : Sound number h →
      (∀ earlier, .issued earlier ∈ h → number earlier < number request) →
      Sound number (.issued request :: h)
  | answered {h : History Operation Request Answer} {request : Request} (given : Answer) :
      Sound number h → Open h request → Sound number (.answered request given :: h)

variable {number : Request → Nat} {h : History Operation Request Answer} {request other : Request}

theorem sent_append (later earlier : History Operation Request Answer) :
    (later ++ earlier).sent = earlier.sent ++ later.sent := by
  induction later with
  | nil => simp [sent]
  | cons happening later ih => cases happening <;> simp [sent, ih]

theorem sent_issued (requests : List Request) (operation : Operation) :
    History.sent ((requests.map .issued).reverse ++
      [.called operation] : History Operation Request Answer) = requests := by
  rw [sent_append]
  induction requests with
  | nil => rfl
  | cons request requests ih => simpa [sent_append, sent] using ih

theorem Sound.eq_of_number_eq (hsound : h.Sound number) (hrequest : .issued request ∈ h)
    (hother : .issued other ∈ h) (hnumber : number request = number other) : request = other := by
  induction hsound with
  | nil => simp at hrequest
  | called operation _ ih =>
    simp only [List.mem_cons, reduceCtorEq, false_or] at hrequest hother
    exact ih hrequest hother
  | answered given _ _ ih =>
    simp only [List.mem_cons, reduceCtorEq, false_or] at hrequest hother
    exact ih hrequest hother
  | issued _ hless ih =>
    simp only [List.mem_cons, Happening.issued.injEq] at hrequest hother
    rcases hrequest with rfl | hrequest <;> rcases hother with rfl | hother
    · rfl
    · have := hless other hother
      omega
    · have := hless request hrequest
      omega
    · exact ih hrequest hother

theorem Sound.issued_of_answered (hsound : h.Sound number)
    {given : Answer} (hanswered : .answered request given ∈ h) : .issued request ∈ h := by
  induction hsound with
  | nil => simp at hanswered
  | called operation _ ih | issued _ _ ih =>
    simp only [List.mem_cons, reduceCtorEq, false_or] at hanswered
    exact List.mem_cons_of_mem _ (ih hanswered)
  | answered given _ hopen ih =>
    rcases List.mem_cons.1 hanswered with heq | hanswered
    · cases heq
      exact List.mem_cons_of_mem _ hopen.1
    · exact List.mem_cons_of_mem _ (ih hanswered)

/-- A history accounts for the number of requests sent and for the open ones. -/
structure Tallies (number : Request → Nat) (h : History Operation Request Answer) (issued : Nat)
    (pending : List Request) : Prop where
  sound : h.Sound number
  le_issued : ∀ request, .issued request ∈ h → number request ≤ issued
  mem_pending : ∀ request, request ∈ pending ↔ h.Open request

namespace Tallies

variable {issued : Nat} {pending : List Request}

theorem nil : Tallies number ([] : History Operation Request Answer) issued [] :=
  ⟨.nil, by simp, by simp [Open]⟩

theorem called (htallies : Tallies number h issued pending) (operation : Operation) :
    Tallies number (.called operation :: h) issued pending where
  sound := .called operation htallies.sound
  le_issued := by simpa using htallies.le_issued
  mem_pending := by simpa [Open] using htallies.mem_pending

theorem issue (htallies : Tallies number h issued pending) (hnumber : number request = issued + 1) :
    Tallies number (.issued request :: h) (issued + 1) (pending ++ [request]) := by
  have hless : ∀ earlier, .issued earlier ∈ h → number earlier < number request := by
    intro earlier hearlier
    have := htallies.le_issued earlier hearlier
    omega
  -- a request just sent cannot have been answered
  have hfresh : ∀ given, .answered request given ∉ h := by
    intro given hanswered
    have := hless request (htallies.sound.issued_of_answered hanswered)
    omega
  refine ⟨.issued htallies.sound hless, ?_, ?_⟩
  · intro other hother
    rcases List.mem_cons.1 hother with heq | hother
    · cases heq
      omega
    · have := htallies.le_issued other hother
      omega
  · intro other
    rw [List.mem_append, List.mem_singleton, htallies.mem_pending]
    simp only [Open, List.mem_cons, Happening.issued.injEq, reduceCtorEq, false_or]
    constructor
    · rintro (⟨hissued, hwaits⟩ | rfl)
      · exact ⟨.inr hissued, hwaits⟩
      · exact ⟨.inl rfl, hfresh⟩
    · rintro ⟨rfl | hissued, hwaits⟩
      · exact .inr rfl
      · exact .inl ⟨hissued, hwaits⟩

theorem issue_all (requests : List Request) (htallies : Tallies number h issued pending)
    (hnumbers : requests.map number = List.range' (issued + 1) requests.length) :
    Tallies number ((requests.map .issued).reverse ++ h) (issued + requests.length)
      (pending ++ requests) := by
  induction requests generalizing h issued pending with
  | nil => simpa using htallies
  | cons request requests ih =>
    simp only [List.map_cons, List.length_cons, List.range'_succ, List.cons.injEq] at hnumbers
    have hrest := ih (htallies.issue hnumbers.1) hnumbers.2
    have hcount : issued + 1 + requests.length = issued + (requests.length + 1) := by omega
    simpa [hcount] using hrest

theorem mem_filter_ne (htallies : Tallies number h issued pending) (hopen : request ∈ pending) :
    other ∈ pending.filter (fun other => number other ≠ number request) ↔
      other ∈ pending ∧ other ≠ request := by
  simp only [List.mem_filter, decide_eq_true_eq]
  refine and_congr_right fun hother => ⟨?_, ?_⟩
  · rintro hne rfl
    exact hne rfl
  · intro hne hnumber
    exact hne (htallies.sound.eq_of_number_eq ((htallies.mem_pending other).1 hother).1
      ((htallies.mem_pending request).1 hopen).1 hnumber)

theorem answer (htallies : Tallies number h issued pending) (hopen : request ∈ pending)
    (given : Answer) : Tallies number (.answered request given :: h) issued
      (pending.filter fun other => number other ≠ number request) := by
  refine ⟨.answered given htallies.sound ((htallies.mem_pending request).1 hopen), ?_, ?_⟩
  · simpa using htallies.le_issued
  · intro other
    rw [htallies.mem_filter_ne hopen, htallies.mem_pending]
    constructor
    · rintro ⟨hother, hne⟩
      refine ⟨List.mem_cons_of_mem _ hother.1, fun answer hanswer => ?_⟩
      rcases List.mem_cons.1 hanswer with heq | hanswer
      · cases heq
        exact hne rfl
      · exact hother.2 answer hanswer
    · rintro ⟨hissued, hwaits⟩
      refine ⟨⟨by simpa using hissued, fun answer hanswer => ?_⟩, ?_⟩
      · exact hwaits answer (List.mem_cons_of_mem _ hanswer)
      · rintro rfl
        exact hwaits given List.mem_cons_self

theorem find?_eq_some (htallies : Tallies number h issued pending) {n : Nat} :
    pending.find? (fun other => number other = n) = some request ↔
      request ∈ pending ∧ number request = n := by
  constructor
  · intro hfind
    exact ⟨List.mem_of_find?_eq_some hfind, by simpa using List.find?_some hfind⟩
  · rintro ⟨hmem, rfl⟩
    cases hfind : pending.find? (fun other => number other = number request) with
    | none => simpa using List.find?_eq_none.1 hfind request hmem
    | some found =>
      have hnumber : number found = number request := by simpa using List.find?_some hfind
      have hfound := (htallies.mem_pending found).1 (List.mem_of_find?_eq_some hfind)
      have hrequest := (htallies.mem_pending request).1 hmem
      rw [htallies.sound.eq_of_number_eq hfound.1 hrequest.1 hnumber]

end Tallies

end History

/-- A part of the console that sends requests and takes their answers. -/
structure Exchange (State Operation Request Answer : Type) where
  number : Request → Nat
  issued : State → Nat
  /-- The open requests, oldest first. -/
  pending : State → List Request
  /-- An operation, with the requests that it sends. -/
  call : State → Operation → State × List Request
  /-- The answer to an open request. -/
  answer : State → Request → Answer → State
  number_call : ∀ s operation, (call s operation).2.map number =
    List.range' (issued s + 1) (call s operation).2.length
  issued_call : ∀ s operation, issued (call s operation).1 =
    issued s + (call s operation).2.length
  pending_call : ∀ s operation, pending (call s operation).1 = pending s ++ (call s operation).2
  issued_answer : ∀ s request given, issued (answer s request given) = issued s
  pending_answer : ∀ s request given, pending (answer s request given) =
    (pending s).filter fun other => number other ≠ number request

namespace Exchange

inductive Event (Operation Answer : Type) where
  | call (operation : Operation)
  | answer (number : Nat) (answer : Answer)

variable {State Operation Request Answer : Type} (x : Exchange State Operation Request Answer)
  {s : State} {h : History Operation Request Answer}

def open? (s : State) (number : Nat) : Option Request :=
  (x.pending s).find? fun request => x.number request = number

/-- The state after an event. An answer to a request that is not open changes nothing. -/
def after (s : State) : Event Operation Answer → State
  | .call operation => (x.call s operation).1
  | .answer number given =>
    match x.open? s number with
    | some request => x.answer s request given
    | none => s

/-- What happens in an event, the latest first. -/
def heard (s : State) : Event Operation Answer → History Operation Request Answer
  | .call operation => ((x.call s operation).2.map .issued).reverse ++ [.called operation]
  | .answer number given =>
    match x.open? s number with
    | some request => [.answered request given]
    | none => []

def run (s : State) (events : List (Event Operation Answer)) : State := events.foldl x.after s

/-- What happened in events, the latest first. -/
def history (s : State) : List (Event Operation Answer) → History Operation Request Answer
  | [] => []
  | event :: events => history (x.after s event) events ++ x.heard s event

theorem heard_answer {number : Nat} {request : Request} (hopen : x.open? s number = some request)
    (given : Answer) : x.heard s (.answer number given : Event Operation Answer) =
      [.answered request given] := by
  simp [heard, hopen]

@[simp] theorem sent_heard_call (s : State) (operation : Operation) :
    (x.heard s (.call operation : Event Operation Answer)).sent = (x.call s operation).2 :=
  History.sent_issued _ operation

@[simp] theorem sent_heard_answer (s : State) (number : Nat) (given : Answer) :
    (x.heard s (.answer number given : Event Operation Answer)).sent = [] := by
  simp only [heard]
  split <;> rfl

theorem after_answer {number : Nat} {request : Request} (hopen : x.open? s number = some request)
    (given : Answer) : x.after s (.answer number given : Event Operation Answer) =
      x.answer s request given := by
  simp [after, hopen]

@[simp] theorem run_nil (s : State) : x.run s [] = s := rfl

@[simp] theorem history_nil (s : State) : x.history s [] = [] := rfl

theorem run_append (s : State) (earlier later : List (Event Operation Answer)) :
    x.run s (earlier ++ later) = x.run (x.run s earlier) later :=
  List.foldl_append ..

theorem history_append (s : State) (earlier later : List (Event Operation Answer)) :
    x.history s (earlier ++ later) = x.history (x.run s earlier) later ++ x.history s earlier := by
  induction earlier generalizing s with
  | nil => simp
  | cons event earlier ih => simp [history, run, ih, List.append_assoc]

theorem run_concat (s : State) (events : List (Event Operation Answer))
    (event : Event Operation Answer) :
    x.run s (events ++ [event]) = x.after (x.run s events) event :=
  x.run_append s events [event]

/-- What every event keeps, every run keeps. -/
theorem run_induction {P : State → History Operation Request Answer → Prop} (hstart : P s h)
    (hstep : ∀ s h event, P s h → P (x.after s event) (x.heard s event ++ h))
    (events : List (Event Operation Answer)) :
    P (x.run s events) (x.history s events ++ h) := by
  induction events generalizing s h with
  | nil => exact hstart
  | cons event events ih =>
    rw [history, List.append_assoc]
    exact ih (hstep s h event hstart)

theorem exists_of_mem_history {events : List (Event Operation Answer)}
    {happening : Happening Operation Request Answer} (hmem : happening ∈ x.history s events) :
    ∃ earlier event later, events = earlier ++ event :: later ∧
      happening ∈ x.heard (x.run s earlier) event := by
  induction events generalizing s with
  | nil => simp at hmem
  | cons event events ih =>
    rcases List.mem_append.1 hmem with hlater | hnow
    · obtain ⟨earlier, found, later, rfl, hheard⟩ := ih hlater
      exact ⟨event :: earlier, found, later, rfl, hheard⟩
    · exact ⟨[], event, events, rfl, hnow⟩

theorem called_mem_heard {event : Event Operation Answer} {operation : Operation} :
    .called operation ∈ x.heard s event ↔ event = .call operation := by
  cases event with
  | call called => simp [heard, eq_comm]
  | answer number given =>
    simp only [heard]
    split <;> simp

theorem answered_mem_heard {event : Event Operation Answer} {request : Request} {given : Answer}
    (hanswered : .answered request given ∈ x.heard s event) :
    event = .answer (x.number request) given := by
  cases event with
  | call operation => simp [heard] at hanswered
  | answer number answer =>
    simp only [heard] at hanswered
    split at hanswered
    · rename_i found hopen
      have hnumber : x.number found = number := by simpa using List.find?_some hopen
      simp only [List.mem_singleton, Happening.answered.injEq] at hanswered
      rw [hanswered.1, hanswered.2, hnumber]
    · simp at hanswered

/-- The operations in a history are those of the events. -/
theorem called_mem_history {events : List (Event Operation Answer)} {operation : Operation} :
    .called operation ∈ x.history s events ↔ .call operation ∈ events := by
  induction events generalizing s with
  | nil => simp
  | cons event events ih =>
    rw [history, List.mem_append, ih, List.mem_cons, or_comm, x.called_mem_heard, eq_comm]

/-- An answer in a history is an event with the number of the request. -/
theorem answer_mem_of_answered {events : List (Event Operation Answer)} {request : Request}
    {given : Answer} (hanswered : .answered request given ∈ x.history s events) :
    .answer (x.number request) given ∈ events := by
  obtain ⟨earlier, event, later, rfl, hheard⟩ := x.exists_of_mem_history hanswered
  rw [x.answered_mem_heard hheard]
  simp

abbrev Tallies (h : History Operation Request Answer) (s : State) : Prop :=
  h.Tallies x.number (x.issued s) (x.pending s)

theorem Tallies.open?_eq_some (htallies : x.Tallies h s) {number : Nat} {request : Request} :
    x.open? s number = some request ↔ request ∈ x.pending s ∧ x.number request = number :=
  History.Tallies.find?_eq_some htallies

theorem tallies_after (event : Event Operation Answer) (htallies : x.Tallies h s) :
    x.Tallies (x.heard s event ++ h) (x.after s event) := by
  cases event with
  | call operation =>
    simp only [Tallies, heard, after, x.issued_call, x.pending_call, List.append_assoc,
      List.singleton_append]
    exact (htallies.called operation).issue_all _ (x.number_call s operation)
  | answer number given =>
    simp only [heard, after]
    cases hopen : x.open? s number with
    | none => exact htallies
    | some request =>
      simp only [Tallies, x.issued_answer, x.pending_answer]
      exact History.Tallies.answer htallies (List.mem_of_find?_eq_some hopen) given

theorem Tallies.run (htallies : x.Tallies h s) (events : List (Event Operation Answer)) :
    x.Tallies (x.history s events ++ h) (x.run s events) :=
  x.run_induction (P := fun s h => x.Tallies h s) htallies (fun _ _ event => x.tallies_after event)
    events

/-- What every event keeps as long as the history accounts for the requests, every run keeps. -/
theorem invariant_run {P : State → History Operation Request Answer → Prop}
    (htallies : x.Tallies h s) (hstart : P s h)
    (hstep : ∀ s h event, x.Tallies h s → P s h → P (x.after s event) (x.heard s event ++ h))
    (events : List (Event Operation Answer)) :
    P (x.run s events) (x.history s events ++ h) := by
  have hboth := x.run_induction (P := fun s h => x.Tallies h s ∧ P s h) ⟨htallies, hstart⟩
    (fun s h event hboth => ⟨x.tallies_after event hboth.1, hstep s h event hboth.1 hboth.2⟩) events
  exact hboth.2

/-- The open requests are those that the history shows as sent and not answered. -/
theorem tallies_run (hstart : x.pending s = []) (events : List (Event Operation Answer)) :
    x.Tallies (x.history s events) (x.run s events) := by
  have hnil : x.Tallies [] s := by
    rw [Tallies, hstart]
    exact .nil
  simpa using Tallies.run x hnil events

/-- A request stays open until its answer comes. -/
theorem Tallies.open?_run (htallies : x.Tallies h s) {request : Request}
    (hopen : request ∈ x.pending s) {events : List (Event Operation Answer)}
    (hwait : ∀ given, .answer (x.number request) given ∉ events) :
    x.open? (x.run s events) (x.number request) = some request := by
  have hrequest := (htallies.mem_pending request).1 hopen
  have hlater := Tallies.run x htallies events
  refine (Tallies.open?_eq_some x hlater).2 ⟨(hlater.mem_pending request).2 ⟨?_, ?_⟩, rfl⟩
  · exact List.mem_append_right _ hrequest.1
  · intro given hanswered
    rcases List.mem_append.1 hanswered with hanswered | hanswered
    · exact hwait given (x.answer_mem_of_answered hanswered)
    · exact hrequest.2 given hanswered

/-! ### The open requests in order -/

/-- Whether an event is the answer to the request with a number. -/
def Event.settles : Event Operation Answer → Nat → Bool
  | .call _, _ => false
  | .answer number _, other => other = number

theorem number_of_open? {number : Nat} {request : Request}
    (hopen : x.open? s number = some request) :
    request ∈ x.pending s ∧ x.number request = number :=
  ⟨List.mem_of_find?_eq_some hopen, by simpa using List.find?_some hopen⟩

/-- What is open after an event: what was open without what it answers, and what it sends. -/
theorem pending_after (s : State) (event : Event Operation Answer) :
    x.pending (x.after s event) =
      (x.pending s).filter (fun request => !event.settles (x.number request)) ++
        (x.heard s event).sent := by
  cases event with
  | call operation =>
    have hall : (x.pending s).filter
        (fun request => !(Event.call operation : Event Operation Answer).settles
          (x.number request)) = x.pending s := List.filter_eq_self.2 fun _ _ => rfl
    rw [x.sent_heard_call, hall]
    exact x.pending_call s operation
  | answer number given =>
    rw [x.sent_heard_answer, List.append_nil]
    cases hopen : x.open? s number with
    | none =>
      have hnone : ∀ request ∈ x.pending s, x.number request ≠ number := by
        simpa [open?] using hopen
      rw [List.filter_eq_self.2 (by simpa [Event.settles] using hnone)]
      simp [after, hopen]
    | some request =>
      rw [x.after_answer hopen, x.pending_answer, (x.number_of_open? hopen).2]
      simp [Event.settles]

/-- A request stays open when something else happens. -/
theorem open?_after {number : Nat} {request : Request} (hopen : x.open? s number = some request)
    {event : Event Operation Answer} (hwait : event.settles number = false) :
    x.open? (x.after s event) number = some request := by
  rw [open?, pending_after, List.find?_append, List.find?_filter]
  have hsame : ∀ other, (!event.settles (x.number other) && decide (x.number other = number)) =
      decide (x.number other = number) := by
    intro other
    by_cases hnumber : x.number other = number
    · rw [hnumber, hwait]
      rfl
    · simp [hnumber]
  simp only [Bool.decide_and, Bool.decide_eq_true, hsame]
  rw [show (x.pending s).find? _ = some request from hopen, Option.some_or]

/-- A request that was answered is not open again. -/
theorem open?_after_answer (s : State) (number : Nat) (given : Answer) :
    x.open? (x.after s (.answer number given : Event Operation Answer)) number = none := by
  rw [open?, pending_after, sent_heard_answer, List.append_nil, List.find?_filter,
    List.find?_eq_none]
  intro request _
  simp [Event.settles]

/-- A number that was given is not given again. -/
theorem closed_after {number : Nat} (hclosed : x.open? s number = none)
    (hgiven : number ≤ x.issued s) (event : Event Operation Answer) :
    x.open? (x.after s event) number = none := by
  rw [open?, pending_after, List.find?_append, List.find?_filter, Option.or_eq_none_iff,
    List.find?_eq_none, List.find?_eq_none]
  rw [open?, List.find?_eq_none] at hclosed
  refine ⟨fun request hmem => by simp_all, fun request hmem => ?_⟩
  cases event with
  | answer other given =>
    rw [sent_heard_answer] at hmem
    cases hmem
  | call operation =>
    rw [sent_heard_call] at hmem
    have hnumber := List.mem_map_of_mem (f := x.number) hmem
    rw [x.number_call, List.mem_range'_1] at hnumber
    rw [decide_eq_true_iff]
    omega

theorem issued_le_after (s : State) (event : Event Operation Answer) :
    x.issued s ≤ x.issued (x.after s event) := by
  cases event with
  | call operation =>
    simp only [after, x.issued_call]
    omega
  | answer number given =>
    simp only [after]
    split
    · exact Nat.le_of_eq (x.issued_answer ..).symm
    · exact Nat.le_refl _

/-- Open requests have increasing numbers, up to the number of those sent. -/
structure InOrder (s : State) : Prop where
  increasing : (x.pending s).Pairwise fun earlier later => x.number earlier < x.number later
  le_issued : ∀ request ∈ x.pending s, x.number request ≤ x.issued s

variable {x}

theorem inOrder_of_pending_nil (hnone : x.pending s = []) : x.InOrder s := by
  constructor <;> simp [hnone]

theorem InOrder.after (hinOrder : x.InOrder s) (event : Event Operation Answer) :
    x.InOrder (x.after s event) := by
  cases event with
  | call operation =>
    simp only [Exchange.after]
    have hnumbers := x.number_call s operation
    have hnew : ∀ request ∈ (x.call s operation).2, x.issued s < x.number request ∧
        x.number request ≤ x.issued s + (x.call s operation).2.length := by
      intro request hrequest
      have hnumber := List.mem_map_of_mem (f := x.number) hrequest
      rw [hnumbers, List.mem_range'_1] at hnumber
      omega
    constructor
    · rw [x.pending_call, List.pairwise_append]
      refine ⟨hinOrder.increasing, ?_, ?_⟩
      · rw [← List.pairwise_map, hnumbers]
        exact List.pairwise_lt_range'
      · intro earlier hearlier later hlater
        have := hinOrder.le_issued earlier hearlier
        have := hnew later hlater
        omega
    · intro request hrequest
      rw [x.issued_call]
      rw [x.pending_call] at hrequest
      rcases List.mem_append.1 hrequest with hrequest | hrequest
      · have := hinOrder.le_issued request hrequest
        omega
      · exact (hnew request hrequest).2
  | answer number given =>
    simp only [Exchange.after]
    split
    · constructor
      · rw [x.pending_answer]
        exact hinOrder.increasing.filter _
      · intro request hrequest
        rw [x.pending_answer] at hrequest
        rw [x.issued_answer]
        exact hinOrder.le_issued request (List.mem_filter.1 hrequest).1
    · exact hinOrder

/-- An answer is for one request. -/
theorem InOrder.filter_settles (hinOrder : x.InOrder s) {number : Nat} {request : Request}
    (hopen : x.open? s number = some request) :
    (x.pending s).filter (fun other => x.number other = number) = [request] := by
  have hincreasing := hinOrder.increasing.filter fun other => x.number other = number
  have hnumber : ∀ other ∈ (x.pending s).filter (fun other => x.number other = number),
      x.number other = number := fun other hother => by simpa using (List.mem_filter.1 hother).2
  have hmem : request ∈ (x.pending s).filter fun other => x.number other = number := by
    simpa using x.number_of_open? hopen
  match hfound : (x.pending s).filter (fun other => x.number other = number) with
  | [] => simp [hfound] at hmem
  | [other] =>
    rw [hfound, List.mem_singleton] at hmem
    rw [hmem]
  | first :: second :: rest =>
    rw [hfound] at hincreasing hnumber
    have hless := (List.pairwise_cons.1 hincreasing).1 second (by simp)
    have hfirst := hnumber first (by simp)
    have hsecond := hnumber second (by simp)
    omega

variable (x)

/-- A system one part of which is an exchange runs that exchange on its own events. -/
theorem run_filterMap {System Step : Type} (part : System → State) (next : System → Step → System)
    (event? : Step → Option (Event Operation Answer))
    (hpart : ∀ system step, part (next system step) =
      (event? step).elim (part system) (x.after (part system)))
    (system : System) (steps : List Step) :
    part (steps.foldl next system) = x.run (part system) (steps.filterMap event?) := by
  induction steps generalizing system with
  | nil => rfl
  | cons step steps ih =>
    rw [List.foldl_cons, ih, hpart]
    cases hevent : event? step with
    | none => simp [hevent]
    | some event => simp [hevent, run]

end Exchange

end FleetConsole
