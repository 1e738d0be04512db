import FleetConsole.Proofs.Except
import FleetConsole.Proofs.Json.Written

/-!
# What is true of values that were read

Every value that a reader gives is kept (`kept_value`). The loops over items and fields are followed
once: all items have what one item has (`forall_items`), and two readers of fields that stay in step
on one field stay in step on all of them (`members_simulates`).
-/

namespace FleetConsole.Json.Read

open FleetConsole.Text

/-! ### Loops -/

theorem forall_itemsRest {α : Type} {item : Reader α} {P : α → Prop}
    (hitem : ∀ cs x rest, item cs = .ok (x, rest) → P x) {fuel : Nat} {kept xs : List α}
    {cs rest : List Char} (hkept : ∀ x ∈ kept, P x)
    (hread : itemsRest item fuel kept cs = .ok (xs, rest)) : ∀ x ∈ xs, P x := by
  induction fuel generalizing kept cs with
  | zero => cases hread
  | succ fuel ih =>
    simp only [itemsRest] at hread
    split at hread
    · cases hread
    · cases hread
      exact fun x hx => hkept x (List.mem_reverse.1 hx)
    · split at hread
      · cases hread
      · cases hread
      · obtain ⟨⟨x, after⟩, hx, hread⟩ := bind_eq_ok.1 hread
        exact ih (List.forall_mem_cons.2 ⟨hitem _ _ _ hx, hkept⟩) hread
    · cases hread

/-- All items of an array have what every single item has. -/
theorem forall_items {α : Type} {item : Reader α} {P : α → Prop}
    (hitem : ∀ cs x rest, item cs = .ok (x, rest) → P x) {xs : List α} {cs rest : List Char}
    (hread : items item cs = .ok (xs, rest)) : ∀ x ∈ xs, P x := by
  simp only [items] at hread
  split at hread
  · cases hread
  · cases hread
    exact fun x hx => absurd hx List.not_mem_nil
  · obtain ⟨⟨x, after⟩, hx, hread⟩ := bind_eq_ok.1 hread
    obtain ⟨⟨ys, last⟩, hrest, hread⟩ := bind_eq_ok.1 hread
    cases hread
    exact forall_itemsRest hitem (List.forall_mem_singleton.2 (hitem _ _ _ hx)) hrest

section Simulation

variable {σ τ : Type} {field : String → σ → Reader σ} {other : String → τ → Reader τ}
  {R : σ → τ → Prop}

/-- Whatever the first reader of a field takes, the second one takes as well, and what they have
read stays related. -/
def Simulates (R : σ → τ → Prop) (field : String → σ → Reader σ) (other : String → τ → Reader τ) :
    Prop :=
  ∀ name s t cs s' rest, R s t → field name s cs = .ok (s', rest) →
    ∃ t', other name t cs = .ok (t', rest) ∧ R s' t'

theorem membersRest_simulates (hsim : Simulates R field other) {fuel : Nat} {s s' : σ} {t : τ}
    {cs rest : List Char} (hrel : R s t) (hread : membersRest field fuel s cs = .ok (s', rest)) :
    ∃ t', membersRest other fuel t cs = .ok (t', rest) ∧ R s' t' := by
  induction fuel generalizing s t cs with
  | zero => cases hread
  | succ fuel ih =>
    -- Both loops look at the same characters, so one split decides the branch of both.
    simp only [membersRest] at hread ⊢
    split at hread
    · cases hread
    · cases hread
      exact ⟨t, rfl, hrel⟩
    · split at hread
      · cases hread
      · obtain ⟨⟨name, body⟩, hname, hread⟩ := bind_eq_ok.1 hread
        obtain ⟨⟨next, after⟩, hfield, hread⟩ := bind_eq_ok.1 hread
        obtain ⟨t', hother, hrel'⟩ := hsim _ _ _ _ _ _ hrel hfield
        obtain ⟨t'', hrest, hrel''⟩ := ih hrel' hread
        refine ⟨t'', ?_, hrel''⟩
        exact bind_eq_ok.2 ⟨_, hname, bind_eq_ok.2 ⟨_, hother, hrest⟩⟩
      · cases hread
    · cases hread

/-- Two readers of fields that stay in step on one field read the same objects. -/
theorem members_simulates (hsim : Simulates R field other) {s s' : σ} {t : τ}
    {cs rest : List Char} (hrel : R s t) (hread : members field s cs = .ok (s', rest)) :
    ∃ t', members other t cs = .ok (t', rest) ∧ R s' t' := by
  simp only [members] at hread ⊢
  split at hread
  · cases hread
  · cases hread
    exact ⟨t, rfl, hrel⟩
  · obtain ⟨⟨name, body⟩, hname, hread⟩ := bind_eq_ok.1 hread
    obtain ⟨⟨next, after⟩, hfield, hread⟩ := bind_eq_ok.1 hread
    obtain ⟨t', hother, hrel'⟩ := hsim _ _ _ _ _ _ hrel hfield
    obtain ⟨t'', hrest, hrel''⟩ := membersRest_simulates hsim hrel' hread
    refine ⟨t'', ?_, hrel''⟩
    exact bind_eq_ok.2 ⟨_, hname, bind_eq_ok.2 ⟨_, hother, hrest⟩⟩
  · cases hread

/-- What every field preserves is true of the object. -/
theorem members_invariant {P : σ → Prop}
    (hstep : ∀ name s cs s' rest, P s → field name s cs = .ok (s', rest) → P s') {s s' : σ}
    {cs rest : List Char} (hstart : P s) (hread : members field s cs = .ok (s', rest)) : P s' := by
  have hsim : Simulates (fun a b => a = b ∧ P a) field field := by
    rintro name s _ cs s' rest ⟨rfl, hs⟩ hfield
    exact ⟨s', hfield, rfl, hstep _ _ _ _ _ hs hfield⟩
  obtain ⟨t', -, -, hend⟩ := members_simulates hsim ⟨rfl, hstart⟩ hread
  exact hend

end Simulation

/-! ### Numbers -/

theorem takeBounded_lt {n : Nat} (hn : n < Nat.pow 2 64) (cs : List Char) :
    (Number.takeBounded n cs).1 < Nat.pow 2 64 := by
  induction cs generalizing n with
  | nil => exact hn
  | cons c cs ih =>
    rw [Number.takeBounded]
    split_ifs with hc
    · exact ih hc.2
    · exact hn

theorem ofInteger_kept {negative : Bool} {n : Nat} {k : Int} (hn : n < Nat.pow 2 64)
    (hint : Number.ofInteger negative n = .int k) : IsKeptInt k := by
  rw [Number.ofInteger] at hint
  rw [isKeptInt_iff]
  replace hn : n < 18446744073709551616 := hn
  split_ifs at hint with hpositive hrange
  · cases hint
    omega
  · replace hrange : ¬(n = 0 ∨ 9223372036854775808 < n) := hrange
    cases hint
    omega

theorem float_ne_int {n : Int} {rest : List Char}
    (read : Except ReadError (Double × List Char)) :
    read.map (fun r => (Number.float r.1, r.2)) ≠ .ok (.int n, rest) := by
  intro heq
  obtain ⟨r, -, hr⟩ := map_eq_ok.1 heq
  cases hr

/-- An integer is given only where the digits ended, and these are bounded. -/
theorem afterSign_kept {negative : Bool} {cs rest : List Char} {n : Int}
    (hread : Number.afterSign negative cs = .ok (.int n, rest)) : IsKeptInt n := by
  unfold Number.afterSign at hread
  split at hread
  · cases hread
  · next first digits =>
    have hvalue := takeBounded_lt (show 0 < Nat.pow 2 64 by decide) (first :: digits)
    split_ifs at hread
    generalize Number.takeBounded 0 (first :: digits) = taken at hread hvalue
    obtain ⟨value, count, after⟩ := taken
    dsimp only at hread hvalue
    split at hread
    · exact absurd hread (float_ne_int _)
    · exact absurd hread (float_ne_int _)
    · exact absurd hread (float_ne_int _)
    · exact ofInteger_kept hvalue (Prod.mk.inj (Except.ok.inj hread)).1
    · split_ifs at hread
      · split at hread
        · exact absurd hread (float_ne_int _)
        · exact absurd hread (float_ne_int _)
      · exact ofInteger_kept hvalue (Prod.mk.inj (Except.ok.inj hread)).1

theorem read_kept {cs rest : List Char} {n : Int} (hread : Number.read cs = .ok (.int n, rest)) :
    IsKeptInt n := by
  unfold Number.read at hread
  split at hread
  · exact afterSign_kept hread
  · exact afterSign_kept hread

theorem scalar_kept {cs rest : List Char} {j : Json} (hread : scalar cs = .ok (j, rest))
    (depth : Nat) : Kept depth j := by
  unfold scalar at hread
  split at hread
  · cases hread
  · obtain ⟨r, -, heq⟩ := map_eq_ok.1 hread
    cases heq
    exact .null depth
  · obtain ⟨r, -, heq⟩ := map_eq_ok.1 hread
    cases heq
    exact .bool depth true
  · obtain ⟨r, -, heq⟩ := map_eq_ok.1 hread
    cases heq
    exact .bool depth false
  · obtain ⟨r, -, heq⟩ := map_eq_ok.1 hread
    cases heq
    exact .text depth r.1
  · split_ifs at hread
    obtain ⟨⟨number, after⟩, hnumber, heq⟩ := map_eq_ok.1 hread
    cases heq
    cases number with
    | int n => exact .int depth (read_kept hnumber)
    | float x => exact .float depth x

/-- Fields of which each value is kept, in the order of their names. -/
structure KeptFields (depth : Nat) (fields : Fields) : Prop where
  values : ∀ field ∈ fields, Kept depth field.2
  sorted : Fields.Sorted fields

theorem KeptFields.nil (depth : Nat) : KeptFields depth [] :=
  ⟨fun _ hfield => absurd hfield List.not_mem_nil, List.Pairwise.nil⟩

theorem KeptFields.insert {depth : Nat} {fields : Fields} (hfields : KeptFields depth fields)
    {j : Json} (hj : Kept depth j) (name : String) :
    KeptFields depth (Fields.insert name j fields) := by
  refine ⟨fun field hfield => ?_, hfields.sorted.insert⟩
  rcases Fields.mem_insert hfield with rfl | hfield
  · exact hj
  · exact hfields.values field hfield

theorem afterColon_eq_ok {α : Type} {reader : Reader α} {cs : List Char} {r : α × List Char} :
    afterColon reader cs = .ok r ↔ ∃ body, skipSpace cs = ':' :: body ∧ reader body = .ok r := by
  simp only [afterColon]
  split
  · next heq => simp [heq]
  · next heq => simp [heq]
  · next hnot =>
    constructor
    · intro heq
      cases heq
    · rintro ⟨body, heq, -⟩
      exact absurd heq (hnot body)

/-- Every value that is read is kept. -/
theorem kept_value {depth : Nat} {cs rest : List Char} {j : Json}
    (hread : value depth cs = .ok (j, rest)) : Kept depth j := by
  induction depth generalizing cs rest j with
  | zero =>
    simp only [value] at hread
    split at hread
    · cases hread
    · cases hread
    · exact scalar_kept hread 0
  | succ depth ih =>
    simp only [value] at hread
    split at hread
    · obtain ⟨⟨xs, after⟩, hitems, heq⟩ := bind_eq_ok.1 hread
      cases heq
      exact .array (forall_items (fun _ _ _ hitem => ih hitem) hitems)
    · obtain ⟨⟨fields, after⟩, hmembers, heq⟩ := bind_eq_ok.1 hread
      cases heq
      have hstep : ∀ name (fields : Fields) cs (next : Fields) rest, KeptFields depth fields →
          keepField depth name fields cs = .ok (next, rest) → KeptFields depth next := by
        intro name fields cs next rest hfields hfield
        obtain ⟨⟨x, after⟩, hx, heq⟩ := bind_eq_ok.1 hfield
        cases heq
        obtain ⟨body, -, hx⟩ := afterColon_eq_ok.1 hx
        exact hfields.insert (ih hx) name
      have hkept := members_invariant hstep (KeptFields.nil depth) hmembers
      exact .object hkept.values hkept.sorted
    · exact scalar_kept hread (depth + 1)

end FleetConsole.Json.Read
