import FleetConsole.Proofs.Token.Phase

/-!
# Regenerations under way

The answer to a regeneration does not say which regeneration it answers: it counts whenever the
instruction is regenerating. What the instruction waits for can be read off a history, as the
regeneration that was begun and neither ended by a closing nor by an answer, be it the answer to
another one (`regenerating_run`).

So a regeneration keeps its promises as long as no other one is answered in between, and it is safe
in every course of events exactly if no other one is open when it begins. An answer that comes after
a closing is dropped unless a later regeneration is under way by then.
-/

namespace FleetConsole.Token

/-- What ends a regeneration, whether it was meant or not. -/
def Ends : Happening Operation Request (Except Failure String) → Prop
  | .called operation => operation = .closeToken
  | .issued _ => False
  | .answered request _ => request.purpose = .regenerate

/-- The latest regeneration has not been ended. -/
inductive UnderWay : History → Prop
  | issued {request : Request} (h : History) (hpurpose : request.purpose = .regenerate) :
      UnderWay (.issued request :: h)
  | later {happening : Happening Operation Request (Except Failure String)} {h : History}
      (hends : ¬ Ends happening) (hunderWay : UnderWay h) : UnderWay (happening :: h)

section UnderWay

variable {h : History} {request : Request}

theorem underWay_cons {happening : Happening Operation Request (Except Failure String)} :
    UnderWay (happening :: h) ↔
      (∃ request, happening = .issued request ∧ request.purpose = .regenerate) ∨
        ¬ Ends happening ∧ UnderWay h := by
  constructor
  · rintro (⟨_, hpurpose⟩ | ⟨hends, hunderWay⟩)
    · exact .inl ⟨_, rfl, hpurpose⟩
    · exact .inr ⟨hends, hunderWay⟩
  · rintro (⟨request, rfl, hpurpose⟩ | ⟨hends, hunderWay⟩)
    · exact .issued h hpurpose
    · exact .later hends hunderWay

theorem underWay_called (operation : Operation) :
    UnderWay (.called operation :: h) ↔ operation ≠ .closeToken ∧ UnderWay h := by
  simp [underWay_cons, Ends]

theorem underWay_issued :
    UnderWay (.issued request :: h) ↔ request.purpose = .regenerate ∨ UnderWay h := by
  simp [underWay_cons, Ends]

theorem underWay_answered (given : Except Failure String) :
    UnderWay (.answered request given :: h) ↔ request.purpose ≠ .regenerate ∧ UnderWay h := by
  simp [underWay_cons, Ends]

/-- What happened before a closing does not matter. -/
theorem underWay_append {late : History} (hclosed : .called .closeToken ∈ late) :
    UnderWay (late ++ h) ↔ UnderWay late := by
  induction late with
  | nil => simp at hclosed
  | cons happening late ih =>
    rw [List.cons_append, underWay_cons, underWay_cons]
    rcases List.mem_cons.1 hclosed with rfl | hlate
    · simp [Ends]
    · rw [ih hlate]

end UnderWay

namespace Desk

variable {desk : Desk} {request : Request} {given : Except Failure String}
  {instruction : Instruction}

/-- While the instruction is regenerating, the answer to any regeneration counts. -/
theorem Answered.eq_regenerated (hanswer : desk.Answered request given instruction)
    (hpurpose : request.purpose = .regenerate) (hphase : desk.phase = .regenerating) :
    instruction = desk.panel.instruction.regenerated given := by
  cases hanswer with
  | fetched token hlatest => simp [hpurpose] at hlatest
  | failed failure hlatest => simp [hpurpose] at hlatest
  | regenerated => rfl
  | dropped given hfetch hregeneration => exact absurd hphase (hregeneration hpurpose)

theorem Answered.eq_of_not_regenerating (hanswer : desk.Answered request given instruction)
    (hpurpose : request.purpose = .regenerate) (hphase : desk.phase ≠ .regenerating) :
    instruction = desk.panel.instruction := by
  cases hanswer with
  | fetched token hlatest => simp [hpurpose] at hlatest
  | failed failure hlatest => simp [hpurpose] at hlatest
  | regenerated _ _ hregenerating => exact absurd hregenerating hphase
  | dropped => rfl

end Desk

theorem instruction_after_answer {desk : Desk} {request : Request}
    (hopen : exchange.open? desk request.serial = some request)
    (hpurpose : request.purpose = .regenerate) (given : Except Failure String) :
    (exchange.after desk (.answer request.serial given)).panel.instruction =
      if desk.phase = .regenerating then desk.panel.instruction.regenerated given
      else desk.panel.instruction := by
  obtain ⟨instruction, hanswer, hafter⟩ := desk.answered request given
  have hinstruction :
      (exchange.after desk (.answer request.serial given)).panel.instruction = instruction := by
    rw [exchange.after_answer hopen]
    exact congrArg (·.panel.instruction) hafter
  rw [hinstruction]
  split
  · exact hanswer.eq_regenerated hpurpose ‹_›
  · exact hanswer.eq_of_not_regenerating hpurpose ‹_›

section Phase

variable {desk : Desk} {h : History}

theorem regenerating_answer (hbefore : desk.phase = .regenerating ↔ UnderWay h) {request : Request}
    {given : Except Failure String} {instruction : Instruction}
    (hanswer : desk.Answered request given instruction) :
    (desk.settle request instruction).phase = .regenerating ↔
      UnderWay (.answered request given :: h) := by
  rw [underWay_answered, ← hbefore, Desk.settle_phase]
  cases hanswer with
  | fetched token hlatest hphase => simp [hphase]
  | failed failure hlatest => by_cases hphase : desk.phase = .loading <;> simp [hphase, hlatest]
  | regenerated given hpurpose hphase => simp [hpurpose]
  | dropped given hfetch hregeneration =>
    refine ⟨fun hphase => ⟨?_, hphase⟩, And.right⟩
    exact fun hpurpose => hregeneration hpurpose hphase

theorem regenerating_step (hbefore : desk.phase = .regenerating ↔ UnderWay h) {next : Desk}
    {heard : History} (hstep : Step desk heard next) :
    next.phase = .regenerating ↔ UnderWay (heard ++ h) := by
  cases hstep with
  | fetch hphase =>
    have hnone : ¬ UnderWay h := by rw [← hbefore, hphase]; simp
    simp [underWay_issued, underWay_called, hnone, Desk.nextFetch]
  | regeneration hphase => simp [underWay_issued, Desk.nextRegeneration]
  | closing => simp [underWay_called]
  | refusal operation hphase =>
    rw [List.singleton_append, underWay_called, ← hbefore]
    -- a closing is refused only while the instruction is hidden
    refine ⟨fun hregenerating => ⟨?_, hregenerating⟩, And.right⟩
    intro hoperation
    simp [hphase hoperation] at hregenerating
  | answer hopen hanswer => exact regenerating_answer hbefore hanswer
  | unknown => exact hbefore

theorem regenerating_run (hbefore : desk.phase = .regenerating ↔ UnderWay h)
    (events : List Event) : (exchange.run desk events).phase = .regenerating ↔
      UnderWay (exchange.history desk events ++ h) :=
  exchange.run_induction (P := fun desk h => desk.phase = .regenerating ↔ UnderWay h) hbefore
    (fun desk _ event hbefore => regenerating_step hbefore (step_after desk event)) events

end Phase

/-- The instruction is closed while its token is regenerated, and opened again. -/
def reopened : List Event :=
  [.call .showToken, .answer 1 (.ok "A"), .call .regenerateToken, .call .closeToken,
    .call .showToken, .answer 3 (.ok "B")]

/-! ### A regeneration that has begun -/

/-- What holds when a regeneration has just begun. -/
structure Begun (desk : Desk) (request : Request) (h : History) : Prop where
  tallies : exchange.Tallies h desk
  orderly : Orderly desk h
  regenerating : desk.phase = .regenerating
  underWay : UnderWay h
  waits : request ∈ desk.pending
  purpose : request.purpose = .regenerate

section Begun

variable {before during : List Event} {desk : Desk} {request : Request}

theorem begun (hstart : (exchange.run {} before).regenerate? = some (desk, request)) :
    ∃ h, Begun desk request h := by
  obtain ⟨hphase, rfl, rfl⟩ := Desk.regenerate?_eq_some.1 hstart
  have hstep := step_after (exchange.run {} before) (.call .regenerateToken)
  have hheard : exchange.heard (exchange.run {} before) (.call .regenerateToken) =
      [.issued (exchange.run {} before).nextRegeneration, .called .regenerateToken] := by
    show ((Desk.call _ _).2.map _).reverse ++ _ = _
    simp [Desk.call, Desk.begun, hstart]
  have hafter : exchange.after (exchange.run {} before) (.call .regenerateToken) =
      (exchange.run {} before).regenerating := by
    show (Desk.call _ _).1 = _
    simp [Desk.call, Desk.begun, hstart]
  have htallies := exchange.tallies_after (.call .regenerateToken)
    (exchange.tallies_run (s := {}) rfl before)
  have horderly := (orderly_run before).step (exchange.tallies_run rfl before) hstep
  rw [hheard, hafter] at htallies horderly
  have hwaits : (exchange.run {} before).nextRegeneration ∈
      (exchange.run {} before).regenerating.pending := by simp [Desk.regenerating]
  exact ⟨_, htallies, horderly, rfl, .issued _ rfl, hwaits, rfl⟩

/-- The answer to a regeneration, in a run that has not brought it before. -/
theorem instruction_run_answer
    (hstart : (exchange.run {} before).regenerate? = some (desk, request))
    (hwaits : ∀ given, .answer request.serial given ∉ during) (given : Except Failure String) :
    (exchange.run desk (during ++ [.answer request.serial given])).panel.instruction =
      if (exchange.run desk during).phase = .regenerating then
        (exchange.run desk during).panel.instruction.regenerated given
      else (exchange.run desk during).panel.instruction := by
  obtain ⟨h, hbegun⟩ := begun hstart
  have hopen := hbegun.tallies.open?_run exchange hbegun.waits hwaits
  rw [exchange.run_concat]
  exact instruction_after_answer hopen hbegun.purpose given

theorem late_answer_dropped_iff
    (hstart : (exchange.run {} before).regenerate? = some (desk, request))
    (hclosed : .call .closeToken ∈ during)
    (hwaits : ∀ given, .answer request.serial given ∉ during) (given : Except Failure String) :
    ((exchange.run desk (during ++ [.answer request.serial given])).panel.instruction =
        (exchange.run desk during).panel.instruction ↔
      ¬ UnderWay (exchange.history desk during)) ∧
    (UnderWay (exchange.history desk during) →
      (exchange.run desk (during ++ [.answer request.serial given])).panel.instruction =
        (exchange.run desk during).panel.instruction.regenerated given) := by
  obtain ⟨h, hbegun⟩ := begun hstart
  have hlate : (exchange.run desk during).phase = .regenerating ↔
      UnderWay (exchange.history desk during) := by
    rw [regenerating_run (iff_of_true hbegun.regenerating hbegun.underWay),
      underWay_append (exchange.called_mem_history.2 hclosed)]
  rw [instruction_run_answer hstart hwaits, ← hlate]
  refine ⟨?_, fun hregenerating => if_pos hregenerating⟩
  constructor
  · intro hsame hregenerating
    -- what was regenerating is shown after the answer
    rw [if_pos hregenerating] at hsame
    have hshown := congrArg Instruction.phase hsame
    rw [Instruction.regenerated_phase] at hshown
    exact absurd (hshown.trans hregenerating) (by simp)
  · exact fun hdropped => if_neg hdropped

end Begun

/-- After a closing alone the answer is dropped, also when the instruction was opened again. -/
theorem late_answer_dropped_after_reopening :
    (exchange.run {} (reopened.take 2)).regenerate? =
        some (exchange.run {} (reopened.take 3), ⟨2, .regenerate⟩) ∧
      .call .closeToken ∈ reopened.drop 3 ∧
      (∀ given : Except Failure String, .answer 2 given ∉ reopened.drop 3) ∧
      ∀ given, (exchange.run (exchange.run {} (reopened.take 3))
          (reopened.drop 3 ++ [.answer 2 given])).panel.instruction = ⟨.shown, true, "B"⟩ := by
  have hclosed : .call .closeToken ∈ reopened.drop 3 := by simp [reopened]
  have hwaits : ∀ given : Except Failure String, .answer 2 given ∉ reopened.drop 3 := by
    simp [reopened]
  have hstart : (exchange.run {} (reopened.take 2)).regenerate? =
      some (exchange.run {} (reopened.take 3), ⟨2, .regenerate⟩) := rfl
  refine ⟨hstart, hclosed, hwaits, fun given => ?_⟩
  have hdropped : ¬ UnderWay (exchange.history (exchange.run {} (reopened.take 3))
      (reopened.drop 3)) := by
    show ¬ UnderWay [.answered ⟨3, .fetch 2⟩ (.ok "B"), .issued ⟨3, .fetch 2⟩,
      .called .showToken, .called .closeToken]
    simp [underWay_answered, underWay_issued, underWay_called]
  exact ((late_answer_dropped_iff hstart hclosed hwaits given).1.2 hdropped).trans rfl

/-- With a second regeneration under way, the answer to the first one is taken for its answer. -/
theorem late_answer_taken :
    (⟨2, .regenerate⟩ : Request) ∈
        (exchange.run {} (reopened ++ [.call .regenerateToken])).pending ∧
      (exchange.run {} (reopened ++ [.call .regenerateToken])).panel.instruction =
        ⟨.regenerating, true, "B"⟩ ∧
      (exchange.run {} (reopened ++
        [.call .regenerateToken, .answer 2 (.ok "C")])).panel.instruction =
          ⟨.shown, true, "C"⟩ := by
  decide

/-! ### A regeneration that is not interrupted -/

/-- Neither a closing nor the answer itself. -/
def Uninterrupted (request : Request) (during : List Event) : Prop :=
  .call .closeToken ∉ during ∧ ∀ given, .answer request.serial given ∉ during

/-- What a regeneration promises until its answer comes, and of its answer. -/
structure Kept (before desk : Desk) (request : Request) (during : List Event) : Prop where
  regenerating : ∀ earlier, earlier <+: during →
    (exchange.run desk earlier).phase = .regenerating
  /-- No other one is begun. -/
  alone : ∀ other, other.purpose = .regenerate →
    .issued other ∉ exchange.history desk during
  success : ∀ token,
    (exchange.run desk (during ++ [.answer request.serial (.ok token)])).panel.instruction =
      ⟨.shown, true, token⟩
  failure : ∀ failure,
    (exchange.run desk (during ++ [.answer request.serial (.error failure)])).panel.instruction =
      ⟨.shown, before.panel.instruction.visible, before.panel.instruction.value⟩

section Window

variable {desk : Desk} {request : Request} {h : History} {during : List Event}

theorem Step.phase_of_issued {next : Desk} {heard : History} (hstep : Step desk heard next)
    (hpurpose : request.purpose = .regenerate) (hissued : .issued request ∈ heard) :
    desk.phase = .shown := by
  cases hstep with
  | fetch =>
    obtain rfl : request = desk.nextFetch := by simpa using hissued
    cases hpurpose
  | regeneration hphase => exact hphase
  | closing | refusal | unknown | answer => simp at hissued

theorem Step.phase_of_answered {next : Desk} {heard : History} (hstep : Step desk heard next)
    (hpurpose : request.purpose = .regenerate) {given : Except Failure String}
    (hanswered : .answered request given ∈ heard) (hphase : desk.phase = .regenerating) :
    next.phase = .shown := by
  cases hstep with
  | fetch | regeneration | closing | refusal | unknown => simp at hanswered
  | answer hopen hanswer =>
    cases List.mem_singleton.1 hanswered
    rw [Desk.settle_phase, hanswer.eq_regenerated hpurpose hphase, Instruction.regenerated_phase]

/-- What neither ends a regeneration nor answers it leaves the instruction as it is. -/
theorem instruction_step (horderly : Orderly desk h) (hphase : desk.phase = .regenerating)
    {next : Desk} {heard : History} (hstep : Step desk heard next)
    (hquiet : ∀ happening ∈ heard, ¬ Ends happening) :
    next.panel.instruction = desk.panel.instruction := by
  cases hstep with
  | fetch hhidden => simp [hhidden] at hphase
  | regeneration hshown => simp [hshown] at hphase
  | closing => exact absurd rfl (hquiet (.called .closeToken) List.mem_cons_self)
  | refusal => rfl
  | unknown => rfl
  | answer hopen hanswer =>
    cases hanswer with
    | fetched token hlatest hloading => simp [hloading] at hphase
    | failed failure hlatest =>
      -- the fetch of the latest attempt does not wait while the instruction is open
      have hwaits := horderly.latest_waits _ hopen hlatest
      simp [hphase] at hwaits
    | regenerated _ hpurpose =>
      have hends := hquiet _ List.mem_cons_self
      exact absurd hpurpose hends
    | dropped => rfl

theorem instruction_run (horderly : Orderly desk h) (htallies : exchange.Tallies h desk)
    (hphase : desk.phase = .regenerating)
    (hquiet : ∀ happening ∈ exchange.history desk during, ¬ Ends happening) :
    (exchange.run desk during).panel.instruction = desk.panel.instruction := by
  induction during generalizing desk h with
  | nil => rfl
  | cons event during ih =>
    have hstep := step_after desk event
    have hfirst : (exchange.after desk event).panel.instruction = desk.panel.instruction :=
      instruction_step horderly hphase hstep fun happening hmem =>
        hquiet happening (List.mem_append_right _ hmem)
    have hrest := ih (horderly.step htallies hstep) (exchange.tallies_after event htallies)
      ((congrArg Instruction.phase hfirst).trans hphase)
      fun happening hmem => hquiet happening (List.mem_append_left _ hmem)
    exact hrest.trans hfirst

/-- If no other regeneration is open, then none is begun and none can end this one. -/
theorem alone_step (hphase : desk.phase = .regenerating)
    (halone : ∀ other ∈ desk.pending, other.purpose = .regenerate → other = request)
    {next : Desk} {heard : History} (hstep : Step desk heard next)
    (hclosed : .called .closeToken ∉ heard) (hwaits : ∀ given, .answered request given ∉ heard) :
    (∀ happening ∈ heard, ¬ Ends happening) ∧ next.phase = .regenerating ∧
      ∀ other ∈ next.pending, other.purpose = .regenerate → other = request := by
  cases hstep with
  | fetch hhidden => simp [hhidden] at hphase
  | regeneration hshown => simp [hshown] at hphase
  | closing => exact absurd List.mem_cons_self hclosed
  | unknown => exact ⟨by simp, hphase, halone⟩
  | refusal operation =>
    refine ⟨?_, hphase, halone⟩
    intro happening hmem
    rw [List.mem_singleton.1 hmem]
    rintro rfl
    exact hclosed List.mem_cons_self
  | @answer answered given instruction hopen hanswer =>
    -- the request is the only regeneration that is open, and it is not what was answered
    have hpurpose : answered.purpose ≠ .regenerate := by
      intro hpurpose
      rw [halone answered hopen hpurpose] at hwaits
      exact hwaits given List.mem_cons_self
    refine ⟨?_, ?_, fun other hother => halone other (List.mem_filter.1 hother).1⟩
    · intro happening hmem
      rw [List.mem_singleton.1 hmem]
      exact hpurpose
    · rw [Desk.settle_phase]
      cases hanswer with
      | fetched token hlatest hloading => simp [hloading] at hphase
      | failed failure hlatest => simp [hphase]
      | regenerated given hregenerate => exact absurd hregenerate hpurpose
      | dropped => exact hphase

theorem alone_run (hphase : desk.phase = .regenerating)
    (halone : ∀ other ∈ desk.pending, other.purpose = .regenerate → other = request)
    (hclosed : .called .closeToken ∉ exchange.history desk during)
    (hwaits : ∀ given, .answered request given ∉ exchange.history desk during) :
    ∀ happening ∈ exchange.history desk during, ¬ Ends happening := by
  induction during generalizing desk with
  | nil => simp
  | cons event during ih =>
    simp only [Exchange.history, List.mem_append, not_or, forall_and] at hclosed hwaits
    obtain ⟨hquiet, hphase, halone⟩ :=
      alone_step hphase halone (step_after desk event) hclosed.2 hwaits.2
    intro happening hmem
    rcases List.mem_append.1 hmem with hmem | hmem
    · exact ih hphase halone hclosed.1 hwaits.1 happening hmem
    · exact hquiet happening hmem

end Window

section Kept

variable {before during : List Event} {desk : Desk} {request : Request}

theorem kept_of_quiet (hstart : (exchange.run {} before).regenerate? = some (desk, request))
    (hquiet : ∀ happening ∈ exchange.history desk during, ¬ Ends happening)
    (hwaits : ∀ given, .answer request.serial given ∉ during) :
    Kept (exchange.run {} before) desk request during := by
  obtain ⟨h, hbegun⟩ := begun hstart
  obtain ⟨-, hdesk, -⟩ := Desk.regenerate?_eq_some.1 hstart
  -- nothing in the window changes the instruction, so its phase stays too
  have hsteady : ∀ earlier, earlier <+: during →
      (exchange.run desk earlier).panel.instruction = desk.panel.instruction := by
    rintro earlier ⟨later, rfl⟩
    refine instruction_run hbegun.orderly hbegun.tallies hbegun.regenerating ?_
    intro happening hmem
    refine hquiet happening ?_
    rw [exchange.history_append]
    exact List.mem_append_right _ hmem
  have hregenerating : ∀ earlier, earlier <+: during →
      (exchange.run desk earlier).phase = .regenerating :=
    fun earlier hearlier =>
      (congrArg Instruction.phase (hsteady earlier hearlier)).trans hbegun.regenerating
  have hanswer : ∀ given,
      (exchange.run desk (during ++ [.answer request.serial given])).panel.instruction =
        desk.panel.instruction.regenerated given := by
    intro given
    rw [instruction_run_answer hstart hwaits, if_pos (hregenerating during List.prefix_rfl),
      hsteady during List.prefix_rfl]
  refine ⟨hregenerating, ?_, ?_, ?_⟩
  · intro other hpurpose hissued
    obtain ⟨earlier, event, later, rfl, hheard⟩ := exchange.exists_of_mem_history hissued
    have hshown := (step_after (exchange.run desk earlier) event).phase_of_issued hpurpose hheard
    rw [hregenerating earlier (List.prefix_append _ _)] at hshown
    cases hshown
  · intro token
    have hvisible := hbegun.orderly.visible_iff.2 (.inr hbegun.regenerating)
    rw [hanswer, Instruction.regenerated, hvisible]
  · intro failure
    rw [hanswer, hdesk]
    rfl

theorem Kept.not_answered {start : Desk} (hkept : Kept start desk request during)
    {other : Request} (hpurpose : other.purpose = .regenerate) {given : Except Failure String} :
    .answered other given ∉ exchange.history desk during := by
  intro hanswered
  obtain ⟨earlier, event, later, rfl, hheard⟩ := exchange.exists_of_mem_history hanswered
  have hbefore := hkept.regenerating earlier (List.prefix_append _ _)
  have hafter := hkept.regenerating (earlier ++ [event]) ⟨later, by simp⟩
  rw [exchange.run_concat, (step_after _ event).phase_of_answered hpurpose hheard hbefore] at hafter
  cases hafter

theorem not_answered_of_alone
    (hstart : (exchange.run {} before).regenerate? = some (desk, request))
    (halone : ∀ other ∈ (exchange.run {} before).pending, other.purpose ≠ .regenerate)
    (hwindow : Uninterrupted request during) {other : Request}
    (hpurpose : other.purpose = .regenerate) {given : Except Failure String} :
    .answered other given ∉ exchange.history desk during := by
  intro hanswered
  obtain ⟨h, hbegun⟩ := begun hstart
  obtain ⟨-, hdesk, hrequest⟩ := Desk.regenerate?_eq_some.1 hstart
  have honly : ∀ third ∈ desk.pending, third.purpose = .regenerate → third = request := by
    intro third hthird hregenerate
    rw [hdesk] at hthird
    rcases List.mem_append.1 hthird with hthird | hthird
    · exact absurd hregenerate (halone third hthird)
    · rw [hrequest, List.mem_singleton.1 hthird]
  refine alone_run hbegun.regenerating honly ?_ ?_ _ hanswered hpurpose
  · exact fun hclosed => hwindow.1 (exchange.called_mem_history.1 hclosed)
  · exact fun answer hanswer => hwindow.2 answer (exchange.answer_mem_of_answered hanswer)

theorem alone_of_kept (hstart : (exchange.run {} before).regenerate? = some (desk, request))
    (hkept : ∀ during, Uninterrupted request during →
      Kept (exchange.run {} before) desk request during)
    {other : Request} (hother : other ∈ (exchange.run {} before).pending) :
    other.purpose ≠ .regenerate := by
  intro hpurpose
  obtain ⟨h, hbegun⟩ := begun hstart
  obtain ⟨-, hdesk, hrequest⟩ := Desk.regenerate?_eq_some.1 hstart
  -- the answer to the other one is taken for the answer to this one
  have hwindow : Uninterrupted request [.answer other.serial (.ok "")] := by
    have hbefore := exchange.tallies_run (s := {}) rfl before
    have hle : other.serial ≤ (exchange.run {} before).issued :=
      hbefore.le_issued other ((hbefore.mem_pending other).1 hother).1
    have hserial : request.serial = (exchange.run {} before).issued + 1 := by rw [hrequest]; rfl
    refine ⟨by simp, fun given hmem => ?_⟩
    have heq : request.serial = other.serial := by simp at hmem; exact hmem.1
    omega
  have hopen : exchange.open? desk other.serial = some other := by
    refine (hbegun.tallies.open?_eq_some exchange).2 ⟨?_, rfl⟩
    rw [hdesk]
    exact List.mem_append_left _ hother
  have hanswered : .answered other (.ok "") ∈
      exchange.history desk [.answer other.serial (.ok "")] := by
    rw [Exchange.history, exchange.heard_answer hopen]
    exact List.mem_append_right _ List.mem_cons_self
  exact (hkept _ hwindow).not_answered hpurpose hanswered

theorem regeneration_kept_iff
    (hstart : (exchange.run {} before).regenerate? = some (desk, request)) :
    (∀ during, Uninterrupted request during →
      (Kept (exchange.run {} before) desk request during ↔
        ∀ other given, other.purpose = .regenerate →
          .answered other given ∉ exchange.history desk during)) ∧
    ((∀ during, Uninterrupted request during →
        Kept (exchange.run {} before) desk request during) ↔
      ∀ other ∈ (exchange.run {} before).pending, other.purpose ≠ .regenerate) := by
  have hquiet : ∀ during, Uninterrupted request during →
      (∀ other given, other.purpose = .regenerate →
        .answered other given ∉ exchange.history desk during) →
      Kept (exchange.run {} before) desk request during := by
    rintro during ⟨hclosed, hwaits⟩ hothers
    refine kept_of_quiet hstart (fun happening hmem hends => ?_) hwaits
    cases happening with
    | called operation => exact hclosed (exchange.called_mem_history.1 (hends ▸ hmem))
    | issued other => exact hends
    | answered other given => exact hothers other given hends hmem
  refine ⟨fun during hwindow => ⟨?_, hquiet during hwindow⟩, ?_⟩
  · exact fun hkept other given hpurpose => hkept.not_answered hpurpose
  constructor
  · exact fun hkept other hother => alone_of_kept hstart hkept hother
  · intro halone during hwindow
    exact hquiet during hwindow fun other given hpurpose =>
      not_answered_of_alone hstart halone hwindow hpurpose

end Kept

theorem first_regeneration_kept :
    (exchange.run {} (reopened.take 2)).regenerate? =
        some (exchange.run {} (reopened.take 3), ⟨2, .regenerate⟩) ∧
      ∀ during, Uninterrupted ⟨2, .regenerate⟩ during →
        Kept (exchange.run {} (reopened.take 2)) (exchange.run {} (reopened.take 3))
          ⟨2, .regenerate⟩ during := by
  have hstart : (exchange.run {} (reopened.take 2)).regenerate? =
      some (exchange.run {} (reopened.take 3), ⟨2, .regenerate⟩) := rfl
  have halone : ∀ other ∈ (exchange.run {} (reopened.take 2)).pending,
      other.purpose ≠ .regenerate := by decide
  exact ⟨hstart, (regeneration_kept_iff hstart).2.2 halone⟩

/-- The token of a regeneration is lost: the answer to an earlier one came first. -/
theorem rotation_lost :
    (exchange.run {} reopened).regenerate? =
        some (exchange.run {} (reopened ++ [.call .regenerateToken]), ⟨4, .regenerate⟩) ∧
      Uninterrupted ⟨4, .regenerate⟩ [.answer 2 (.ok "C")] ∧
      ¬ Kept (exchange.run {} reopened) (exchange.run {} (reopened ++ [.call .regenerateToken]))
        ⟨4, .regenerate⟩ [.answer 2 (.ok "C")] ∧
      (exchange.run {} (reopened ++ [.call .regenerateToken, .answer 2 (.ok "C"),
        .answer 4 (.ok "D")])).panel.instruction = ⟨.shown, true, "C"⟩ := by
  refine ⟨rfl, ⟨by simp, by simp⟩, fun hkept => ?_, by decide⟩
  have hphase := hkept.regenerating _ List.prefix_rfl
  revert hphase
  decide

end FleetConsole.Token
