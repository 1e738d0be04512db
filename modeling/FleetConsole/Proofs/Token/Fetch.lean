import FleetConsole.Proofs.Token.Phase

/-!
# Fetches under way

Since the instruction can be closed and opened again at any moment, any number of fetches may be
open. Which of them was sent last is known from the number of its attempt (`knowsLast_run`). The
answers to all others are dropped. The answer to the last one finds the instruction loading, unless
it was closed in the meantime: it leaves that phase only by a closing or by this very answer
(`loading_run`), and comes back to it only by another fetch (`hidden_run`).
-/

namespace FleetConsole.Token

/-- The fetch sent last. -/
def lastFetch? : History → Option Request
  | [] => none
  | .issued request :: h =>
    if request.purpose = .regenerate then lastFetch? h else some request
  | .called _ :: h | .answered _ _ :: h => lastFetch? h

section LastFetch

variable {desk : Desk} {h : History} {request : Request}

theorem purpose_of_lastFetch? (hlast : lastFetch? h = some request) :
    request.purpose ≠ .regenerate := by
  induction h with
  | nil => simp [lastFetch?] at hlast
  | cons happening h ih =>
    cases happening with
    | called operation => exact ih hlast
    | answered other given => exact ih hlast
    | issued other =>
      rw [lastFetch?] at hlast
      split at hlast
      · exact ih hlast
      · cases hlast
        assumption

/-- A desk knows which fetch was sent last by the number of its attempt. -/
def KnowsLast (desk : Desk) (h : History) : Prop :=
  ∀ request, .issued request ∈ h →
    (lastFetch? h = some request ↔ request.purpose = .fetch desk.panel.attempts)

theorem KnowsLast.step (hknows : KnowsLast desk h) (horderly : Orderly desk h) {next : Desk}
    {heard : History} (hstep : Step desk heard next) : KnowsLast next (heard ++ h) := by
  intro request hissued
  cases hstep with
  | fetch hphase =>
    have hlast : lastFetch? ([.issued desk.nextFetch, .called .showToken] ++ h) =
        some desk.nextFetch := rfl
    rw [hlast, Option.some.injEq]
    constructor
    · rintro rfl
      rfl
    · intro hpurpose
      -- all attempts before this one have lower numbers
      simp only [List.cons_append, List.nil_append, List.mem_cons, Happening.issued.injEq,
        reduceCtorEq, false_or] at hissued
      rcases hissued with rfl | hissued
      · rfl
      · have := horderly.attempt_le request (desk.panel.attempts + 1) hissued hpurpose
        omega
  | regeneration hphase =>
    show lastFetch? h = some request ↔ _
    simp only [List.cons_append, List.nil_append, List.mem_cons, Happening.issued.injEq,
      reduceCtorEq, false_or] at hissued
    rcases hissued with rfl | hissued
    · constructor
      · intro hlast
        exact absurd rfl (purpose_of_lastFetch? hlast)
      · intro hpurpose
        cases hpurpose
    · exact hknows request hissued
  | closing | refusal | answer =>
    simp only [List.cons_append, List.nil_append, List.mem_cons, reduceCtorEq, false_or] at hissued
    exact hknows request hissued
  | unknown => exact hknows request hissued

theorem knowsLast_run (events : List Event) :
    KnowsLast (exchange.run {} events) (exchange.history {} events) := by
  have hstart : Orderly {} [] ∧ KnowsLast {} [] := ⟨.initial, by simp [KnowsLast]⟩
  have hrun := exchange.invariant_run (P := fun desk h => Orderly desk h ∧ KnowsLast desk h)
    .nil hstart (fun desk _ event htallies hbefore =>
      ⟨hbefore.1.step htallies (step_after desk event), hbefore.2.step hbefore.1
        (step_after desk event)⟩) events
  rw [List.append_nil] at hrun
  exact hrun.2

end LastFetch

/-! ### What the answer to a fetch brings about -/

namespace Desk

variable {desk : Desk} {request : Request}

theorem answer_superseded (hfetch : request.purpose ≠ .regenerate)
    (hlate : request.purpose ≠ .fetch desk.panel.attempts) (given : Except Failure String) :
    desk.answer request given = (desk.settle request desk.panel.instruction, false, none) := by
  obtain ⟨serial, purpose⟩ := request
  cases purpose with
  | regenerate => exact absurd rfl hfetch
  | fetch attempt =>
    have hattempt : desk.panel.attempts ≠ attempt := by
      rintro rfl
      exact hlate rfl
    cases given <;> simp [answer, Panel.completeShow, hattempt, settle, display]

theorem answer_failed (hlatest : request.purpose = .fetch desk.panel.attempts)
    (failure : Failure) : desk.answer request (.error failure) =
      (desk.settle request ⟨if desk.phase = .loading then .hidden else desk.phase, false, ""⟩, true,
        some failure) := by
  simp [answer, hlatest, Panel.completeShow, settle, display]

theorem answer_fetched (hlatest : request.purpose = .fetch desk.panel.attempts)
    (hphase : desk.phase = .loading) (token : String) :
    desk.answer request (.ok token) =
      (desk.settle request ⟨.shown, true, token⟩, true, none) := by
  simp [answer, hlatest, Panel.completeShow, hphase, settle, display]

theorem answer_unwanted (hlatest : request.purpose = .fetch desk.panel.attempts)
    (hphase : desk.phase ≠ .loading) (token : String) :
    desk.answer request (.ok token) =
      (desk.settle request desk.panel.instruction, false, none) := by
  simp [answer, hlatest, Panel.completeShow, hphase, settle, display]

/-- An answer that is not a failure reports none. -/
theorem answer_ok_failure (token : String) : (desk.answer request (.ok token)).2.2 = none := by
  obtain ⟨serial, purpose⟩ := request
  cases purpose with
  | fetch attempt =>
    simp only [answer, Panel.completeShow]
    split <;> rfl
  | regenerate =>
    simp only [answer, Panel.completeRegenerate]
    split <;> rfl

theorem answer_error_failure (failure : Failure) : (desk.answer request (.error failure)).2.2 =
    if request.purpose = .regenerate ∨ request.purpose = .fetch desk.panel.attempts then
      some failure else none := by
  by_cases hfetch : request.purpose = .regenerate
  · rw [if_pos (.inl hfetch)]
    simp [answer, hfetch, Panel.completeRegenerate]
  · by_cases hlatest : request.purpose = .fetch desk.panel.attempts
    · rw [if_pos (.inr hlatest), answer_failed hlatest]
    · rw [if_neg (not_or.2 ⟨hfetch, hlatest⟩), answer_superseded hfetch hlatest]

end Desk

/-! ### From the fetch to its answer -/

section Window

variable {desk : Desk} {request : Request} {during : List Event}

theorem Step.attempts_le {next : Desk} {heard : History} (hstep : Step desk heard next) :
    desk.panel.attempts ≤ next.panel.attempts := by
  cases hstep with
  | fetch => exact Nat.le_succ _
  | regeneration | closing | refusal | answer | unknown => exact Nat.le_refl _

theorem attempts_le_run (desk : Desk) (events : List Event) :
    desk.panel.attempts ≤ (exchange.run desk events).panel.attempts := by
  induction events generalizing desk with
  | nil => exact Nat.le_refl _
  | cons event events ih => exact Nat.le_trans (step_after desk event).attempts_le (ih _)

theorem Step.hidden {next : Desk} {heard : History} (hstep : Step desk heard next)
    (hphase : desk.phase = .hidden) (hattempts : next.panel.attempts = desk.panel.attempts) :
    next.phase = .hidden := by
  cases hstep with
  | fetch => exact absurd hattempts (Nat.succ_ne_self _)
  | regeneration hshown => simp [hshown] at hphase
  | closing => rfl
  | refusal | unknown => exact hphase
  | answer hopen hanswer =>
    rw [Desk.settle_phase]
    cases hanswer with
    | fetched token hlatest hloading => simp [hloading] at hphase
    | failed failure hlatest => simp [hphase]
    | regenerated given hpurpose hregenerating => simp [hregenerating] at hphase
    | dropped => exact hphase

/-- A closed instruction stays hidden until another fetch begins. -/
theorem hidden_run (hphase : desk.phase = .hidden)
    (hattempts : (exchange.run desk during).panel.attempts = desk.panel.attempts) :
    (exchange.run desk during).phase = .hidden := by
  induction during generalizing desk with
  | nil => exact hphase
  | cons event during ih =>
    have hstep := step_after desk event
    have hmono : (exchange.after desk event).panel.attempts ≤ desk.panel.attempts :=
      hattempts ▸ attempts_le_run (exchange.after desk event) during
    have hsame := Nat.le_antisymm hmono hstep.attempts_le
    exact ih (hstep.hidden hphase hsame) (hattempts.trans hsame.symm)

/-- The instruction is loading until the fetch is answered or the instruction closed. -/
theorem loading_step {h : History} (horderly : Orderly desk h) (hphase : desk.phase = .loading)
    (hopen : request ∈ desk.pending) (hlatest : request.purpose = .fetch desk.panel.attempts)
    {next : Desk} {heard : History} (hstep : Step desk heard next)
    (hclosed : .called .closeToken ∉ heard) (hwaits : ∀ given, .answered request given ∉ heard) :
    next.phase = .loading ∧ next.panel.attempts = desk.panel.attempts := by
  cases hstep with
  | fetch hhidden => simp [hhidden] at hphase
  | regeneration hshown => simp [hshown] at hphase
  | closing => exact absurd List.mem_cons_self hclosed
  | refusal | unknown => exact ⟨hphase, rfl⟩
  | @answer other given instruction hother hanswer =>
    refine ⟨?_, rfl⟩
    have hne : other.purpose ≠ .fetch desk.panel.attempts := by
      intro hsame
      obtain rfl := horderly.latest_unique other hother request hopen hsame hlatest
      exact hwaits given List.mem_cons_self
    rw [Desk.settle_phase]
    cases hanswer with
    | fetched token hsame => exact absurd hsame hne
    | failed failure hsame => exact absurd hsame hne
    | regenerated given hpurpose hregenerating => simp [hregenerating] at hphase
    | dropped => exact hphase

theorem loading_run {h : History} (horderly : Orderly desk h) (htallies : exchange.Tallies h desk)
    (hphase : desk.phase = .loading) (hopen : request ∈ desk.pending)
    (hlatest : request.purpose = .fetch desk.panel.attempts)
    (hclosed : .call .closeToken ∉ during)
    (hwaits : ∀ given, .answer request.serial given ∉ during) :
    (exchange.run desk during).phase = .loading := by
  induction during generalizing desk h with
  | nil => exact hphase
  | cons event during ih =>
    simp only [List.mem_cons, not_or, forall_and] at hclosed hwaits
    have hstep := step_after desk event
    obtain ⟨hloading, hattempts⟩ : (exchange.after desk event).phase = .loading ∧
        (exchange.after desk event).panel.attempts = desk.panel.attempts := by
      refine loading_step horderly hphase hopen hlatest hstep ?_ ?_
      · exact fun hheard => hclosed.1 (exchange.called_mem_heard.1 hheard).symm
      · exact fun given hheard => hwaits.1 given (exchange.answered_mem_heard hheard).symm
    have hnow : ∀ given, .answer request.serial given ∉ [event] :=
      fun given hmem => hwaits.1 given (List.mem_singleton.1 hmem)
    have hstill := htallies.open?_run exchange hopen hnow
    exact ih (horderly.step htallies hstep) (exchange.tallies_after event htallies) hloading
      (List.mem_of_find?_eq_some hstill) (hattempts ▸ hlatest) hclosed.2 hwaits.2

end Window

/-! ### What a fetch promises -/

/-- What a fetch promises of its answer. The answer comes to a desk with a history, after the events
since the fetch was sent. It leads to another desk, which is published or not, and the operation
that waited for it may end with a failure. -/
structure FetchKept (late : Desk) (h : History) (during : List Event) (request : Request) :
    Prop where
  waits : late.open? request.serial = some request
  superseded : lastFetch? h ≠ some request → ∀ given,
    late.answer request given = (late.settle request late.panel.instruction, false, none)
  failed : lastFetch? h = some request → ∀ failure, late.answer request (.error failure) =
    (late.settle request ⟨.hidden, false, ""⟩, true, some failure)
  fetched : lastFetch? h = some request → .call .closeToken ∉ during → ∀ token,
    late.answer request (.ok token) = (late.settle request ⟨.shown, true, token⟩, true, none)
  closed : lastFetch? h = some request → .call .closeToken ∈ during → ∀ token,
    late.answer request (.ok token) = (late.settle request late.panel.instruction, false, none)

section FetchKept

variable {before during : List Event} {desk next : Desk} {request : Request}

/-- A fetch is begun exactly while the instruction is hidden. -/
theorem Desk.show?_eq_some : desk.show? = some (next, request) ↔
    desk.phase = .hidden ∧ next = desk.fetching ∧ request = desk.nextFetch := by
  rw [Desk.show?_eq]
  by_cases hphase : desk.phase = .hidden <;> simp [hphase, eq_comm]

theorem Desk.show?_eq_none : desk.show? = none ↔ desk.phase ≠ .hidden := by
  rw [Desk.show?_eq]
  by_cases hphase : desk.phase = .hidden <;> simp [hphase]

theorem showToken_begun (hstart : desk.show? = some (next, request)) :
    exchange.after desk (.call .showToken) = next ∧
      exchange.heard desk (.call .showToken) = [.issued request, .called .showToken] := by
  have hcall : exchange.call desk .showToken = (next, [request]) := by
    show desk.begun desk.show? = _
    rw [hstart]
    rfl
  simp [Exchange.after, Exchange.heard, hcall]

theorem closeToken_phase (desk : Desk) :
    (exchange.after desk (.call .closeToken)).phase = .hidden := by
  show (desk.close?.getD desk).phase = .hidden
  rw [Desk.close?_eq]
  split
  · assumption
  · rfl

/-- An instruction that was closed is hidden unless another fetch was begun. -/
theorem closed_run (hclosed : .call .closeToken ∈ during)
    (hattempts : (exchange.run desk during).panel.attempts = desk.panel.attempts) :
    (exchange.run desk during).phase = .hidden := by
  obtain ⟨earlier, later, rfl⟩ := List.append_of_mem hclosed
  have hrun : exchange.run desk (earlier ++ .call .closeToken :: later) = exchange.run
      (exchange.after (exchange.run desk earlier) (.call .closeToken)) later :=
    exchange.run_append desk earlier _
  rw [hrun] at hattempts ⊢
  have hearlier := attempts_le_run desk earlier
  have hclosing := (step_after (exchange.run desk earlier) (.call .closeToken)).attempts_le
  have hlater := attempts_le_run (exchange.after (exchange.run desk earlier) (.call .closeToken))
    later
  exact hidden_run (closeToken_phase _) (by omega)

theorem fetch_kept (hstart : (exchange.run {} before).show? = some (desk, request))
    (hwaits : ∀ given, .answer request.serial given ∉ during) :
    FetchKept (exchange.run desk during)
      (exchange.history {} (before ++ .call .showToken :: during)) during request := by
  obtain ⟨hafter, hheard⟩ := showToken_begun hstart
  obtain ⟨hphase, hdesk, hrequest⟩ := Desk.show?_eq_some.1 hstart
  have hrun : exchange.run {} (before ++ .call .showToken :: during) =
      exchange.run desk during := by
    rw [exchange.run_append, ← hafter]
    rfl
  have hissued : .issued request ∈
      exchange.history {} (before ++ .call .showToken :: during) := by
    rw [exchange.history_append, Exchange.history, hheard]
    simp
  have hfetch : request.purpose = .fetch desk.panel.attempts := by rw [hrequest, hdesk]; rfl
  have hloading : desk.phase = .loading := by rw [hdesk]; rfl
  have hpending : request ∈ desk.pending := by rw [hrequest, hdesk]; simp [Desk.fetching]
  -- the desk when the fetch is sent, and when its answer comes
  have hbefore := exchange.tallies_run (rfl : exchange.pending {} = []) before
  have htallies := exchange.tallies_after (.call .showToken) hbefore
  have horderly := (orderly_run before).step hbefore
    (step_after (exchange.run {} before) (.call .showToken))
  rw [hafter] at htallies horderly
  have hlast := knowsLast_run _ request hissued
  have hlate := orderly_run (before ++ .call .showToken :: during)
  rw [hrun] at hlast hlate
  have hopen := htallies.open?_run exchange hpending hwaits
  refine ⟨hopen, ?_, ?_, ?_, ?_⟩
  · intro hsuperseded given
    exact Desk.answer_superseded (by simp [hfetch]) (mt hlast.2 hsuperseded) given
  · intro hlatest failure
    rw [Desk.answer_failed (hlast.1 hlatest)]
    have hwaiting := hlate.latest_waits request (List.mem_of_find?_eq_some hopen)
      (hlast.1 hlatest)
    rcases hwaiting with hphase | hphase <;> simp [hphase]
  · intro hlatest hclosed token
    exact Desk.answer_fetched (hlast.1 hlatest)
      (loading_run horderly htallies hloading hpending hfetch hclosed hwaits) token
  · intro hlatest hclosed token
    refine Desk.answer_unwanted (hlast.1 hlatest) ?_ token
    have hattempts := Purpose.fetch.inj ((hlast.1 hlatest).symm.trans hfetch)
    simp [closed_run hclosed hattempts]

end FetchKept

end FleetConsole.Token
