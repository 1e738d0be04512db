import FleetConsole.Machine.Page
import FleetConsole.Proofs.Machine.Read

/-!
# Pages that were read

Whatever form a page has in the text, an object or an array, its machines were read with two levels
less than the page has inside, and so each of them is in order (`wellFormed_of_read`).
-/

namespace FleetConsole.Page

open Json Json.Read

variable {depth : Nat} {cs rest : List Char}

/-- All machines of a list that was read with so many levels left are in order. -/
def InOrder (depth : Nat) (items : List Machine) : Prop :=
  ∀ m ∈ items, ∃ inner, depth = inner + 2 ∧ Machine.WellFormed inner m

theorem inOrder_nil (depth : Nat) : InOrder depth [] := fun _ hm => absurd hm List.not_mem_nil

theorem inOrder_of_list {items : List Machine}
    (hread : list depth Machine.read cs = .ok (items, rest)) : InOrder depth items := by
  obtain ⟨inner, body, rfl, hitems⟩ := list_eq_ok hread
  refine forall_items (fun _ m _ hm => ?_) hitems
  obtain ⟨innermost, fields, rfl, -, hfrom⟩ := Machine.exists_fields hm
  exact ⟨innermost, rfl, hfrom.wellFormed⟩

theorem inOrder_readItems {page : Page} (hread : readItems depth cs = .ok (page, rest)) :
    InOrder depth page.items := by
  obtain ⟨⟨items, after⟩, hitems, hread⟩ := bind_eq_ok.1 hread
  cases items with
  | none =>
    cases hread
    exact inOrder_nil depth
  | some items =>
    obtain ⟨⟨total, last⟩, -, heq⟩ := bind_eq_ok.1 hread
    cases heq
    obtain ⟨body, hlist⟩ := nextItem_eq_ok hitems
    exact inOrder_of_list hlist

/-- No field of a page brings machines that are not in order. -/
theorem inOrder_readField {name : String} {draft next : Draft}
    (hdraft : InOrder depth draft.toPage.items)
    (hread : readField depth name draft cs = .ok (next, rest)) :
    InOrder depth next.toPage.items := by
  unfold readField at hread
  split at hread
  · obtain ⟨items, hcolon, rfl⟩ := once_eq_ok hread
    obtain ⟨body, -, hlist⟩ := afterColon_eq_ok.1 hcolon
    exact inOrder_of_list hlist
  · obtain ⟨total, -, rfl⟩ := once_eq_ok hread
    exact hdraft
  · obtain ⟨_, -, heq⟩ := map_eq_ok.1 hread
    cases heq
    exact hdraft

/-- The machines of a page that was read are in order. -/
theorem wellFormed_of_read {page : Page} (hread : Page.read (depth + 3) cs = .ok (page, rest)) :
    ∀ m ∈ page.items, Machine.WellFormed depth m := by
  obtain ⟨inner, body, after, hdepth, hread⟩ := record_eq_ok hread
  have horder : InOrder inner page.items := by
    rcases hread with hitems | hfields
    · exact inOrder_readItems hitems
    · obtain ⟨⟨draft, last⟩, hmembers, heq⟩ := bind_eq_ok.1 hfields
      cases heq
      have hstart : InOrder inner (Draft.toPage {}).items := inOrder_nil inner
      exact members_invariant (P := fun draft => InOrder inner (Draft.toPage draft).items)
        (fun _ _ _ _ _ => inOrder_readField) hstart hmembers
  intro m hm
  obtain ⟨innermost, hinner, hwf⟩ := horder m hm
  obtain rfl : innermost = depth := by omega
  exact hwf

end FleetConsole.Page
