import FleetConsole.Proofs.Listing.Latest

/-!
# The selection and the pages

The selection changes when a page is requested, and the listing when the page comes. What ties them
together is that the page request sent last asks for what is selected (`selected_run`). So once all
answers have come, the listing shows the selected page or the last page request has failed
(`newest_or_failed`).
-/

namespace FleetConsole.Listing

variable {h : History} {request : Request} {page : Page}

/-- The page request sent last is the one for the selection. -/
def Selected (selection : Selection) (h : History) : Prop :=
  ∀ request, latest? .page h = some request → request.query = selection.query

theorem Desk.call_query (desk : Desk) (operation : Operation) :
    ∃ counts page, (desk.call operation).2 = counts ++ [page] ∧ page.part = .page ∧
      page.query = (desk.call operation).1.selection.query := by
  have hrequest : ∀ selection count, ∃ counts page,
      (desk.request selection count).2 = counts ++ [page] ∧ page.part = .page ∧
        page.query = (desk.request selection count).1.selection.query := by
    intro selection count
    cases count with
    | none => exact ⟨[], _, rfl, rfl, rfl⟩
    | some query => exact ⟨[_], _, rfl, rfl, rfl⟩
  cases operation <;> exact hrequest _ _

theorem Selected.step {desk : Desk} (hselected : Selected desk.selection h) (event : Event) :
    Selected (exchange.after desk event).selection (exchange.heard desk event ++ h) := by
  intro request hlatest
  cases event with
  | call operation =>
    obtain ⟨counts, page, hsent, hpart, hquery⟩ := desk.call_query operation
    have hheard : exchange.heard desk (.call operation) =
        .issued page :: ((counts.map Happening.issued).reverse ++ [.called operation]) := by
      show ((desk.call operation).2.map Happening.issued).reverse ++ _ = _
      rw [hsent]
      simp
    rw [hheard, List.cons_append, latest?, if_pos hpart] at hlatest
    cases hlatest
    exact hquery
  | answer tag given =>
    cases hopen : exchange.open? desk tag with
    | none =>
      simp only [Exchange.heard, Exchange.after, hopen, List.nil_append] at hlatest ⊢
      exact hselected request hlatest
    | some answered =>
      rw [exchange.heard_answer hopen] at hlatest
      rw [exchange.after_answer hopen]
      show request.query = (desk.answer answered given).desk.selection.query
      rw [Desk.answer_desk]
      exact hselected request hlatest

theorem selected_run (limit : Nat) (text : Option String) (events : List Event) :
    Selected (exchange.run (Desk.initial limit text) events).selection
      (exchange.history (Desk.initial limit text) events) := by
  have hrun := exchange.run_induction (s := Desk.initial limit text) (h := [])
    (P := fun desk h => Selected desk.selection h) nofun
    (fun _ _ event hbefore => hbefore.step event) events
  rwa [List.append_nil] at hrun

theorem exists_latest? {part : Part} (hissued : .issued request ∈ h) (hpart : request.part = part) :
    ∃ last, latest? part h = some last := by
  induction h with
  | nil => simp at hissued
  | cons happening h ih =>
    cases happening with
    | called operation | answered other given =>
      simp only [List.mem_cons, reduceCtorEq, false_or] at hissued
      exact ih hissued
    | issued other =>
      rw [latest?]
      split
      · exact ⟨other, rfl⟩
      · rename_i hother
        rcases List.mem_cons.1 hissued with heq | hissued
        · cases heq
          exact absurd hpart hother
        · exact ih hissued

/-- When nothing is open, the page displayed is the answer to the page request sent last, unless
that one failed. -/
theorem newest_or_failed {part : Part} (hsound : h.Sound Request.tag)
    (hshown : (shown part h).head? = some (request, page)) (hsettled : ∀ other, ¬ h.Open other) :
    ∃ last, latest? part h = some last ∧
      (last = request ∨ ∃ failure, .answered last (.error failure) ∈ h) := by
  obtain ⟨hanswered, hpart⟩ := answered_of_shown (List.mem_of_mem_head? hshown)
  obtain ⟨last, hlatest⟩ := exists_latest? (hsound.issued_of_answered hanswered) hpart
  refine ⟨last, hlatest, ?_⟩
  by_cases hclosed : ∃ given, .answered last given ∈ h
  · obtain ⟨given, hgiven⟩ := hclosed
    cases given with
    | error failure => exact .inr ⟨failure, hgiven⟩
    | ok came =>
      have hhead := head?_shown hsound hlatest hgiven
      rw [hshown] at hhead
      cases hhead
      exact .inl rfl
  · exact absurd ⟨(issued_of_latest? hlatest).1, fun given hgiven => hclosed ⟨given, hgiven⟩⟩
      (hsettled last)

end FleetConsole.Listing
