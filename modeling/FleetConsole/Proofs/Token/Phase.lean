import FleetConsole.Display.Instruction
import FleetConsole.Proofs.Token.Step

/-!
# The phases of the installation instruction

What the phase of the instruction says about the requests under way and about what is displayed. The
answer to a fetch that failed hides the instruction and clears its token without looking at the
phase. That does no harm, since the fetch of the latest attempt cannot wait for its answer while the
instruction is shown; `Orderly.latest_waits` is that invariant, and the others rest on it.
-/

namespace FleetConsole.Token

open Text

/-- What holds of a desk in every run. -/
structure Orderly (desk : Desk) (h : History) : Prop where
  attempt_le : ∀ request attempt, .issued request ∈ h → request.purpose = .fetch attempt →
    attempt ≤ desk.panel.attempts
  latest_unique : ∀ request ∈ desk.pending, ∀ other ∈ desk.pending,
    request.purpose = .fetch desk.panel.attempts → other.purpose = .fetch desk.panel.attempts →
    request = other
  latest_waits : ∀ request ∈ desk.pending, request.purpose = .fetch desk.panel.attempts →
    desk.phase = .hidden ∨ desk.phase = .loading
  visible_iff : desk.panel.instruction.visible = true ↔
    desk.phase = .shown ∨ desk.phase = .regenerating
  fetch_waits : desk.phase = .loading →
    ∃ request ∈ desk.pending, request.purpose = .fetch desk.panel.attempts
  regeneration_waits : desk.phase = .regenerating →
    ∃ request ∈ desk.pending, request.purpose = .regenerate
  value_answered : desk.panel.instruction.value = "" ∨
    ∃ request, .answered request (.ok desk.panel.instruction.value) ∈ h

namespace Orderly

variable {desk : Desk} {h : History}

theorem initial : Orderly {} [] := by
  constructor <;> simp [Desk.phase]

theorem value_mono (horderly : Orderly desk h) (heard : History) :
    desk.panel.instruction.value = "" ∨
      ∃ request, .answered request (.ok desk.panel.instruction.value) ∈ heard ++ h := by
  rcases horderly.value_answered with hempty | ⟨request, hanswered⟩
  · exact .inl hempty
  · exact .inr ⟨request, List.mem_append_right _ hanswered⟩

theorem refusal (horderly : Orderly desk h) (operation : Operation) :
    Orderly desk (.called operation :: h) :=
  { horderly with
    attempt_le := by simpa using horderly.attempt_le
    value_answered := horderly.value_mono [.called operation] }

/-- The attempt that begins is later than all that wait, so its fetch is the only one of it. -/
theorem eq_nextFetch (horderly : Orderly desk h) (htallies : exchange.Tallies h desk)
    {request : Request} (hrequest : request ∈ desk.fetching.pending)
    (hpurpose : request.purpose = .fetch (desk.panel.attempts + 1)) :
    request = desk.nextFetch := by
  rcases List.mem_append.1 hrequest with hrequest | hrequest
  · have := horderly.attempt_le request _ ((htallies.mem_pending request).1 hrequest).1 hpurpose
    omega
  · exact List.mem_singleton.1 hrequest

theorem fetch (horderly : Orderly desk h) (htallies : exchange.Tallies h desk)
    (hphase : desk.phase = .hidden) :
    Orderly desk.fetching (.issued desk.nextFetch :: .called .showToken :: h) where
  attempt_le request attempt hissued hpurpose := by
    rcases List.mem_cons.1 hissued with heq | hissued
    · cases heq
      cases hpurpose
      exact Nat.le_refl _
    · simp only [List.mem_cons, reduceCtorEq, false_or] at hissued
      exact Nat.le_succ_of_le (horderly.attempt_le request attempt hissued hpurpose)
  latest_unique request hrequest other hother hpurpose hpurpose' :=
    (horderly.eq_nextFetch htallies hrequest hpurpose).trans
      (horderly.eq_nextFetch htallies hother hpurpose').symm
  latest_waits _ _ _ := .inr rfl
  visible_iff := by
    have hvisible := horderly.visible_iff
    simp only [hphase, reduceCtorEq, or_self, iff_false] at hvisible
    simpa [Desk.fetching] using hvisible
  fetch_waits _ := ⟨desk.nextFetch, by simp [Desk.fetching], rfl⟩
  regeneration_waits hregenerating := by simp at hregenerating
  value_answered := horderly.value_mono [.issued desk.nextFetch, .called .showToken]

theorem mem_of_mem_regenerating {request : Request} {attempt : Nat}
    (hrequest : request ∈ desk.regenerating.pending) (hpurpose : request.purpose = .fetch attempt) :
    request ∈ desk.pending := by
  rcases List.mem_append.1 hrequest with hrequest | hrequest
  · exact hrequest
  · rw [List.mem_singleton.1 hrequest] at hpurpose
    cases hpurpose

theorem regeneration (horderly : Orderly desk h) (hphase : desk.phase = .shown) :
    Orderly desk.regenerating
      (.issued desk.nextRegeneration :: .called .regenerateToken :: h) where
  attempt_le request attempt hissued hpurpose := by
    rcases List.mem_cons.1 hissued with heq | hissued
    · cases heq
      cases hpurpose
    · simp only [List.mem_cons, reduceCtorEq, false_or] at hissued
      exact horderly.attempt_le request attempt hissued hpurpose
  latest_unique request hrequest other hother hpurpose hpurpose' :=
    horderly.latest_unique request (mem_of_mem_regenerating hrequest hpurpose)
      other (mem_of_mem_regenerating hother hpurpose') hpurpose hpurpose'
  latest_waits request hrequest hpurpose := by
    have hbefore := horderly.latest_waits request (mem_of_mem_regenerating hrequest hpurpose)
      hpurpose
    simp [hphase] at hbefore
  visible_iff := by
    have hvisible := horderly.visible_iff.2 (.inl hphase)
    simpa [Desk.regenerating] using hvisible
  fetch_waits hloading := by simp at hloading
  regeneration_waits _ := ⟨desk.nextRegeneration, by simp [Desk.regenerating], rfl⟩
  value_answered :=
    horderly.value_mono [.issued desk.nextRegeneration, .called .regenerateToken]

theorem closing (horderly : Orderly desk h) :
    Orderly desk.closed (.called .closeToken :: h) where
  attempt_le := by simpa [Desk.closed, Desk.display] using horderly.attempt_le
  latest_unique := horderly.latest_unique
  latest_waits _ _ _ := .inl rfl
  visible_iff := by simp [Desk.closed, Desk.display]
  fetch_waits hloading := by simp at hloading
  regeneration_waits hregenerating := by simp at hregenerating
  value_answered := horderly.value_mono [.called .closeToken]

/-- What an instruction has to say of the requests that are left after an answer. -/
theorem of_answer (horderly : Orderly desk h) (htallies : exchange.Tallies h desk)
    {request : Request} {given : Except Failure String} {instruction : Instruction}
    (hopen : request ∈ desk.pending)
    (hlatest : ∀ other ∈ desk.pending, other ≠ request →
      other.purpose = .fetch desk.panel.attempts →
      instruction.phase = .hidden ∨ instruction.phase = .loading)
    (hvisible : instruction.visible = true ↔
      instruction.phase = .shown ∨ instruction.phase = .regenerating)
    (hfetch : instruction.phase = .loading →
      ∃ other ∈ desk.pending, other ≠ request ∧ other.purpose = .fetch desk.panel.attempts)
    (hregeneration : instruction.phase = .regenerating →
      ∃ other ∈ desk.pending, other ≠ request ∧ other.purpose = .regenerate)
    (hvalue : instruction.value = "" ∨
      ∃ other, .answered other (.ok instruction.value) ∈ .answered request given :: h) :
    Orderly (desk.settle request instruction) (.answered request given :: h) := by
  have hmem : ∀ other, other ∈ (desk.settle request instruction).pending ↔
      other ∈ desk.pending ∧ other ≠ request :=
    fun _ => History.Tallies.mem_filter_ne htallies hopen
  constructor
  case attempt_le =>
    intro other attempt hissued
    exact horderly.attempt_le other attempt (by simpa using hissued)
  case latest_unique =>
    exact fun other hother third hthird => horderly.latest_unique other ((hmem other).1 hother).1
      third ((hmem third).1 hthird).1
  case latest_waits =>
    exact fun other hother => hlatest other ((hmem other).1 hother).1 ((hmem other).1 hother).2
  case visible_iff => exact hvisible
  case fetch_waits =>
    intro hloading
    obtain ⟨other, hother, hne, hpurpose⟩ := hfetch hloading
    exact ⟨other, (hmem other).2 ⟨hother, hne⟩, hpurpose⟩
  case regeneration_waits =>
    intro hregenerating
    obtain ⟨other, hother, hne, hpurpose⟩ := hregeneration hregenerating
    exact ⟨other, (hmem other).2 ⟨hother, hne⟩, hpurpose⟩
  case value_answered => exact hvalue

theorem answer (horderly : Orderly desk h) (htallies : exchange.Tallies h desk) {request : Request}
    {given : Except Failure String} {instruction : Instruction} (hopen : request ∈ desk.pending)
    (hanswer : desk.Answered request given instruction) :
    Orderly (desk.settle request instruction) (.answered request given :: h) := by
  cases hanswer with
  | fetched token hlatest hphase =>
    apply horderly.of_answer htallies hopen
    · intro other hother hne hpurpose
      exact absurd (horderly.latest_unique other hother request hopen hpurpose hlatest) hne
    · simp
    · simp
    · simp
    · exact .inr ⟨request, List.mem_cons_self⟩
  | failed failure hlatest =>
    -- the fetch has been waiting, so the instruction is not shown
    have hhidden : (if desk.phase = .loading then Phase.hidden else desk.phase) = .hidden := by
      rcases horderly.latest_waits request hopen hlatest with hphase | hphase <;> simp [hphase]
    rw [hhidden]
    apply horderly.of_answer htallies hopen <;> simp
  | regenerated given hpurpose hphase =>
    have hvisible := horderly.visible_iff.2 (.inr hphase)
    apply horderly.of_answer htallies hopen
    · intro other hother _ hlatest
      have hbefore := horderly.latest_waits other hother hlatest
      simp [hphase] at hbefore
    · simp [hvisible]
    · simp
    · simp
    · cases given with
      | ok token => exact .inr ⟨request, List.mem_cons_self⟩
      | error failure => exact horderly.value_mono [.answered request (.error failure)]
  | dropped given hfetch hregeneration =>
    -- what the phase waits for is another request than the one answered
    apply horderly.of_answer htallies hopen
    · exact fun other hother _ => horderly.latest_waits other hother
    · exact horderly.visible_iff
    · intro hphase
      obtain ⟨other, hother, hpurpose⟩ := horderly.fetch_waits hphase
      refine ⟨other, hother, ?_, hpurpose⟩
      rintro rfl
      exact hfetch hpurpose hphase
    · intro hphase
      obtain ⟨other, hother, hpurpose⟩ := horderly.regeneration_waits hphase
      refine ⟨other, hother, ?_, hpurpose⟩
      rintro rfl
      exact hregeneration hpurpose hphase
    · exact horderly.value_mono [.answered request given]

theorem step (horderly : Orderly desk h) (htallies : exchange.Tallies h desk) {heard : History}
    {next : Desk} (hstep : Step desk heard next) : Orderly next (heard ++ h) := by
  cases hstep with
  | fetch hphase => exact horderly.fetch htallies hphase
  | regeneration hphase => exact horderly.regeneration hphase
  | closing => exact horderly.closing
  | refusal => exact horderly.refusal _
  | answer hopen hanswer => exact horderly.answer htallies hopen hanswer
  | unknown => exact horderly

end Orderly

theorem Orderly.run {desk : Desk} {h : History} (horderly : Orderly desk h)
    (htallies : exchange.Tallies h desk) (events : List Event) :
    Orderly (exchange.run desk events) (exchange.history desk events ++ h) :=
  exchange.invariant_run htallies horderly
    (fun desk _ event htallies hbefore => hbefore.step htallies (step_after desk event)) events

theorem orderly_run (events : List Event) :
    Orderly (exchange.run {} events) (exchange.history {} events) := by
  have hrun := Orderly.initial.run .nil events
  rwa [List.append_nil] at hrun

/-! ### What is displayed -/

/-- What the phase of a desk says after a history. -/
structure Lawful (desk : Desk) (h : History) : Prop where
  visible_iff : desk.panel.instruction.visible = true ↔
    desk.phase = .shown ∨ desk.phase = .regenerating
  /-- The fetch of the latest attempt is open while the instruction loads. -/
  loading : desk.phase = .loading →
    ∃ request, h.Open request ∧ request.purpose = .fetch desk.panel.attempts ∧
      ∀ other attempt, .issued other ∈ h → other.purpose = .fetch attempt →
        attempt ≤ desk.panel.attempts
  regenerating : desk.phase = .regenerating →
    ∃ request, h.Open request ∧ request.purpose = .regenerate
  settled : (∀ request, ¬ h.Open request) → desk.phase = .hidden ∨ desk.phase = .shown
  value : desk.panel.instruction.value = "" ∨
    ∃ request, .answered request (.ok desk.panel.instruction.value) ∈ h
  text_hidden : desk.phase = .hidden ∨ desk.phase = .loading →
    ∀ server, Display.instruction desk.panel.instruction server = ""
  text_shown : desk.phase = .shown ∨ desk.phase = .regenerating →
    ∀ server, Display.instruction desk.panel.instruction server = joinWith "\n"
      ["Install the agent on the machine and register it with this server:",
        "  server url:   " ++ trimEnd '/' server,
        "  server token: " ++ desk.panel.instruction.value]

theorem Orderly.lawful {desk : Desk} {h : History} (horderly : Orderly desk h)
    (htallies : exchange.Tallies h desk) : Lawful desk h := by
  have hloading : desk.phase = .loading →
      ∃ request, h.Open request ∧ request.purpose = .fetch desk.panel.attempts ∧
        ∀ other attempt, .issued other ∈ h → other.purpose = .fetch attempt →
          attempt ≤ desk.panel.attempts := by
    intro hphase
    obtain ⟨request, hrequest, hpurpose⟩ := horderly.fetch_waits hphase
    exact ⟨request, (htallies.mem_pending request).1 hrequest, hpurpose, horderly.attempt_le⟩
  have hregenerating : desk.phase = .regenerating →
      ∃ request, h.Open request ∧ request.purpose = .regenerate := by
    intro hphase
    obtain ⟨request, hrequest, hpurpose⟩ := horderly.regeneration_waits hphase
    exact ⟨request, (htallies.mem_pending request).1 hrequest, hpurpose⟩
  refine ⟨horderly.visible_iff, hloading, hregenerating, ?_, horderly.value_answered, ?_, ?_⟩
  · intro hnone
    cases hphase : desk.phase with
    | hidden => exact .inl rfl
    | shown => exact .inr rfl
    | loading =>
      obtain ⟨request, hopen, _⟩ := hloading hphase
      exact absurd hopen (hnone request)
    | regenerating =>
      obtain ⟨request, hopen, _⟩ := hregenerating hphase
      exact absurd hopen (hnone request)
  · intro hphase server
    have hvisible : ¬ desk.panel.instruction.visible = true := by
      rw [horderly.visible_iff]
      rcases hphase with hphase | hphase <;> simp [hphase]
    simp [Display.instruction, hvisible]
  · intro hphase server
    have hloading : desk.phase ≠ .loading := by
      rcases hphase with hphase | hphase <;> simp [hphase]
    simp [Display.instruction, horderly.visible_iff.2 hphase, hloading]

theorem lawful_run (events : List Event) :
    Lawful (exchange.run {} events) (exchange.history {} events) :=
  (orderly_run events).lawful (exchange.tallies_run rfl events)

end FleetConsole.Token
