import FleetConsole.Proofs.Listing.Step

/-!
# The answers that the listing shows

Which answers count can be read off a history: the pages that came while their request was the one
sent last for its part (`shown`). The listing shows the newest of them for each part, and nothing
before the first one (`Agrees`). Since the tags of what was shown increase, an answer that was
overtaken never comes back.
-/

namespace FleetConsole.Listing

/-- The request sent last for a part. -/
def latest? (part : Part) : History → Option Request
  | [] => none
  | .issued request :: h => if request.part = part then some request else latest? part h
  | .called _ :: h | .answered _ _ :: h => latest? part h

/-- The pages that came for the request sent last for a part, the newest first. -/
def shown (part : Part) : History → List (Request × Page)
  | [] => []
  | .answered request (.ok page) :: h =>
    if latest? part h = some request then (request, page) :: shown part h else shown part h
  | .answered _ (.error _) :: h | .called _ :: h | .issued _ :: h => shown part h

/-- A listing displays a page in one of its parts. -/
def Displays (listing : Listing) : Part → Page → Prop
  | .page, page => listing.items = page.items ∧ listing.total = page.total
  | .count, page => listing.unauthorizedTotal = page.total

theorem displays_replace (listing : Listing) (part : Part) (page : Page) :
    (listing.replace part page).Displays part page := by
  cases part
  · exact ⟨rfl, rfl⟩
  · rfl

theorem displays_replace_of_ne {part other : Part} (hne : part ≠ other) (listing : Listing)
    (page shown : Page) : (listing.replace part page).Displays other shown ↔
      listing.Displays other shown := by
  cases part <;> cases other <;> first | exact absurd rfl hne | exact Iff.rfl

/-- An answer changes at most the part that it is for. -/
theorem displays_take_of_ne {part : Part} {request : Request} (hne : request.part ≠ part)
    (t : Tracker) (given : Except Failure Page) (page : Page) :
    (t.take request given).listing.Displays part page ↔ t.listing.Displays part page := by
  by_cases hcurrent : t.latest request.part = some request.tag
  · cases given with
    | ok came => rw [Tracker.take_of_current hcurrent, displays_replace_of_ne hne]
    | error failure => rw [Tracker.take_error]
  · rw [Tracker.take_of_late hcurrent]

variable {part : Part} {h : History} {request other : Request} {page : Page}

/-! ### The request sent last -/

theorem issued_of_latest? (hlatest : latest? part h = some request) :
    .issued request ∈ h ∧ request.part = part := by
  induction h with
  | nil => simp [latest?] at hlatest
  | cons happening h ih =>
    cases happening with
    | called operation => exact ⟨List.mem_cons_of_mem _ (ih hlatest).1, (ih hlatest).2⟩
    | answered request given => exact ⟨List.mem_cons_of_mem _ (ih hlatest).1, (ih hlatest).2⟩
    | issued sent =>
      rw [latest?] at hlatest
      split at hlatest
      · cases hlatest
        exact ⟨List.mem_cons_self, ‹_›⟩
      · exact ⟨List.mem_cons_of_mem _ (ih hlatest).1, (ih hlatest).2⟩

theorem tag_le_of_latest? (hsound : h.Sound Request.tag) (hlatest : latest? part h = some request)
    (hissued : .issued other ∈ h) (hpart : other.part = part) : other.tag ≤ request.tag := by
  induction hsound with
  | nil => simp at hissued
  | called operation _ ih | answered given _ _ ih =>
    simp only [List.mem_cons, reduceCtorEq, false_or] at hissued
    exact ih hlatest hissued
  | issued _ hless ih =>
    rw [latest?] at hlatest
    rcases List.mem_cons.1 hissued with heq | hbefore
    · cases heq
      rw [if_pos hpart] at hlatest
      cases hlatest
      exact Nat.le_refl _
    · split at hlatest
      · cases hlatest
        exact Nat.le_of_lt (hless other hbefore)
      · exact ih hlatest hbefore

/-! ### What was shown -/

theorem answered_of_shown (hshown : (request, page) ∈ shown part h) :
    .answered request (.ok page) ∈ h ∧ request.part = part := by
  induction h with
  | nil => simp [shown] at hshown
  | cons happening h ih =>
    have hrest : (request, page) ∈ shown part h →
        .answered request (.ok page) ∈ happening :: h ∧ request.part = part :=
      fun hshown => ⟨List.mem_cons_of_mem _ (ih hshown).1, (ih hshown).2⟩
    cases happening with
    | called operation => exact hrest hshown
    | issued sent => exact hrest hshown
    | answered answered given =>
      cases given with
      | error failure => exact hrest hshown
      | ok came =>
        rw [shown] at hshown
        split at hshown
        · rename_i hlatest
          rcases List.mem_cons.1 hshown with heq | hshown
          · cases heq
            exact ⟨List.mem_cons_self, (issued_of_latest? hlatest).2⟩
          · exact hrest hshown
        · exact hrest hshown

theorem shown_suffix (part : Part) (heard h : History) :
    shown part h <:+ shown part (heard ++ h) := by
  induction heard with
  | nil => exact List.suffix_rfl
  | cons happening heard ih =>
    cases happening with
    | called operation => exact ih
    | issued sent => exact ih
    | answered answered given =>
      cases given with
      | error failure => exact ih
      | ok came =>
        rw [List.cons_append, shown]
        split
        · exact ih.trans (List.suffix_cons _ _)
        · exact ih

/-- What is shown was sent after all that was shown before. -/
theorem shown_pairwise (part : Part) (hsound : h.Sound Request.tag) :
    (shown part h).Pairwise fun newer older => older.1.tag < newer.1.tag := by
  induction hsound with
  | nil => exact .nil
  | called operation _ ih => exact ih
  | issued _ _ ih => exact ih
  | @answered h answered given hsound hopen ih =>
    cases given with
    | error failure => exact ih
    | ok came =>
      rw [shown]
      split
      · rename_i hlatest
        refine List.pairwise_cons.2 ⟨?_, ih⟩
        rintro ⟨earlier, page⟩ hshown
        obtain ⟨hanswered, hpart⟩ := answered_of_shown hshown
        have hissued := hsound.issued_of_answered hanswered
        have hle := tag_le_of_latest? hsound hlatest hissued hpart
        -- the request was open, so it has not been shown before
        have hne : earlier.tag ≠ answered.tag := by
          intro htag
          rw [hsound.eq_of_number_eq hissued hopen.1 htag] at hanswered
          exact hopen.2 _ hanswered
        exact Nat.lt_of_le_of_ne hle hne
      · exact ih

/-- Once the request sent last is answered, its page is the newest one shown. -/
theorem head?_shown (hsound : h.Sound Request.tag) (hlatest : latest? part h = some request)
    (hanswered : .answered request (.ok page) ∈ h) :
    (shown part h).head? = some (request, page) := by
  induction hsound with
  | nil => simp at hanswered
  | called operation _ ih =>
    simp only [List.mem_cons, reduceCtorEq, false_or] at hanswered
    exact ih hlatest hanswered
  | issued hsound hless ih =>
    simp only [List.mem_cons, reduceCtorEq, false_or] at hanswered
    rw [latest?] at hlatest
    split at hlatest
    · cases hlatest
      have := hless request (hsound.issued_of_answered hanswered)
      omega
    · exact ih hlatest hanswered
  | @answered h answered given hsound hopen ih =>
    replace hlatest : latest? part h = some request := hlatest
    rcases List.mem_cons.1 hanswered with heq | hbefore
    · cases heq
      rw [shown, if_pos hlatest, List.head?_cons]
    · -- the request sent last is already answered, so it is not the one answered now
      have hne : latest? part h ≠ some answered := by
        intro hsame
        cases hlatest.symm.trans hsame
        exact hopen.2 _ hbefore
      cases given with
      | error failure => exact ih hlatest hbefore
      | ok came =>
        rw [shown, if_neg hne]
        exact ih hlatest hbefore

/-! ### What the listing shows -/

/-- The tracker knows the requests sent last, and its listing displays what was shown last. -/
structure Agrees (t : Tracker) (h : History) : Prop where
  latest : ∀ part, t.latest part = (latest? part h).map Request.tag
  displays : ∀ part, t.listing.Displays part (((shown part h).head?.map Prod.snd).getD {})

namespace Agrees

variable {t : Tracker}

theorem initial : Agrees {} [] where
  latest part := by cases part <;> rfl
  displays part := by
    cases part
    · exact ⟨rfl, rfl⟩
    · rfl

theorem called (hagrees : Agrees t h) (operation : Operation) :
    Agrees t (.called operation :: h) :=
  ⟨hagrees.latest, hagrees.displays⟩

theorem issued (hagrees : Agrees t h) (hpart : request.part = part)
    (htag : request.tag = t.issued + 1) : Agrees (t.issue part) (.issued request :: h) where
  latest other := by
    rw [Tracker.latest_issue, latest?, hpart, hagrees.latest]
    split
    · rw [Option.map_some, htag]
    · rfl
  displays other := by
    rw [Tracker.listing_issue]
    exact hagrees.displays other

theorem requested (hagrees : Agrees t h) {next : Tracker} {requests : List Request}
    (hrequested : Desk.Requested t next requests) :
    Agrees next ((requests.map .issued).reverse ++ h) := by
  cases hrequested with
  | page request hpart htag => exact hagrees.issued hpart htag
  | both count page hcount hpage htag htag' =>
    refine (hagrees.issued hcount htag).issued hpage ?_
    rw [Tracker.issued_issue]
    exact htag'

/-- For a request that was sent, the tracker knows whether it is the one sent last. -/
theorem latest_iff (hagrees : Agrees t h) (hsound : h.Sound Request.tag)
    (hissued : .issued request ∈ h) :
    t.latest request.part = some request.tag ↔ latest? request.part h = some request := by
  rw [hagrees.latest, Option.map_eq_some_iff]
  constructor
  · rintro ⟨last, hlatest, htag⟩
    rw [hlatest, hsound.eq_of_number_eq (issued_of_latest? hlatest).1 hissued htag]
  · exact fun hlatest => ⟨request, hlatest, rfl⟩

theorem answered (hagrees : Agrees t h) (hsound : h.Sound Request.tag)
    (hissued : .issued request ∈ h) (given : Except Failure Page) :
    Agrees (t.take request given) (.answered request given :: h) := by
  refine ⟨fun part => ?_, fun part => ?_⟩
  · rw [Tracker.latest_take, latest?, hagrees.latest]
  · cases given with
    | error failure => exact hagrees.displays part
    | ok page =>
      rw [shown]
      by_cases hlatest : latest? request.part h = some request
      · rw [Tracker.take_of_current ((hagrees.latest_iff hsound hissued).2 hlatest)]
        by_cases hpart : request.part = part
        · subst hpart
          rw [if_pos hlatest]
          exact displays_replace ..
        · have hne : latest? part h ≠ some request :=
            fun hsame => hpart (issued_of_latest? hsame).2
          rw [if_neg hne, displays_replace_of_ne hpart]
          exact hagrees.displays part
      · have hne : latest? part h ≠ some request := by
          intro hsame
          rw [(issued_of_latest? hsame).2] at hlatest
          exact hlatest hsame
        have hlate : t.latest request.part ≠ some request.tag :=
          fun hcurrent => hlatest ((hagrees.latest_iff hsound hissued).1 hcurrent)
        rw [if_neg hne, Tracker.take_of_late hlate]
        exact hagrees.displays part

theorem step {desk : Desk} (hagrees : Agrees desk.tracker h) (htallies : exchange.Tallies h desk)
    (event : Event) :
    Agrees (exchange.after desk event).tracker (exchange.heard desk event ++ h) := by
  cases event with
  | call operation =>
    simp only [Exchange.heard, Exchange.after, List.append_assoc, List.singleton_append]
    exact (hagrees.called operation).requested (desk.requested operation).1
  | answer tag given =>
    cases hopen : exchange.open? desk tag with
    | none => simpa [Exchange.heard, Exchange.after, hopen] using hagrees
    | some request =>
      rw [exchange.heard_answer hopen, exchange.after_answer hopen]
      have hwaits := (htallies.mem_pending request).1 (List.mem_of_find?_eq_some hopen)
      show Agrees (desk.answer request given).desk.tracker _
      rw [Desk.answer_desk]
      exact hagrees.answered htallies.sound hwaits.1 given

end Agrees

theorem agrees_run (limit : Nat) (text : Option String) (events : List Event) :
    Agrees (exchange.run (Desk.initial limit text) events).tracker
      (exchange.history (Desk.initial limit text) events) := by
  have hrun := exchange.invariant_run (s := Desk.initial limit text)
    (P := fun desk h => Agrees desk.tracker h) .nil .initial
    (fun _ _ event htallies hbefore => hbefore.step htallies event) events
  rwa [List.append_nil] at hrun

/-- What a listing displays after a history. -/
structure UpToDate (listing : Listing) (h : History) : Prop where
  /-- Before the first answer that counts, a part is empty. -/
  empty : ∀ part, shown part h = [] → listing.Displays part {}
  /-- After it, a part is that of one answer. -/
  newest : ∀ part request page, (shown part h).head? = some (request, page) →
    request.part = part ∧ .answered request (.ok page) ∈ h ∧ listing.Displays part page
  increasing : ∀ part, (shown part h).Pairwise fun newer older => older.1.tag < newer.1.tag
  latest : ∀ part request page, latest? part h = some request →
    .answered request (.ok page) ∈ h → listing.Displays part page

theorem Agrees.upToDate {t : Tracker} (hagrees : Agrees t h) (hsound : h.Sound Request.tag) :
    UpToDate t.listing h := by
  have hnewest : ∀ part request page, (shown part h).head? = some (request, page) →
      t.listing.Displays part page := by
    intro part request page hhead
    have hdisplays := hagrees.displays part
    rwa [hhead] at hdisplays
  refine ⟨?_, ?_, fun part => shown_pairwise part hsound, ?_⟩
  · intro part hnone
    have hdisplays := hagrees.displays part
    rwa [hnone] at hdisplays
  · intro part request page hhead
    obtain ⟨hanswered, hpart⟩ := answered_of_shown (List.mem_of_mem_head? hhead)
    exact ⟨hpart, hanswered, hnewest part request page hhead⟩
  · intro part request page hlatest hanswered
    exact hnewest part request page (head?_shown hsound hlatest hanswered)

end FleetConsole.Listing
