import FleetConsole.Proofs.Listing.Step
import Mathlib.Data.List.Nodup

/-!
# Tags in the hands of callers

A tracker is asked anything at any time: tags come back late, twice, or for the part that they were
not issued for. What every call brings about can be told from what the calls before it returned,
since only the tag issued last for a part counts for it (`lastIssued?`). This is kept by every
single call (`Follows.perform`) and so holds after any sequence of them (`offers_follow_tags`).
-/

namespace FleetConsole.Listing.Tracker

/-! ### What the calls returned -/

/-- A call with what it brought about. -/
abbrev Entry := Call × Effect

/-- The entries of calls that are carried out one after another. -/
def record (t : Tracker) : List Call → List Entry
  | [] => []
  | call :: calls => (call, t.perform call) :: record (t.perform call).tracker calls

/-- The tracker after such calls. -/
def performAll (t : Tracker) (calls : List Call) : Tracker :=
  calls.foldl (fun t call => (t.perform call).tracker) t

/-- The tag that a call returned, with the part for which it was issued. -/
def Entry.tag? : Entry → Option (Part × Nat)
  | (.issue part, { reply := .tag n, .. }) => some (part, n)
  | _ => none

/-- The tags issued for either part, the earliest first. -/
def tags (log : List Entry) : List (Part × Nat) := log.filterMap Entry.tag?

/-- The tag issued last for a part. -/
def lastIssued? (part : Part) (log : List Entry) : Option Nat :=
  ((tags log).filter fun tag => tag.1 = part).getLast?.map Prod.snd

/-- The listings that were published, the earliest first. -/
def published (log : List Entry) : List Listing := log.filterMap fun entry => entry.2.published

variable {t : Tracker} {log : List Entry} {part : Part} {tag : Nat}

theorem tags_concat (log : List Entry) (entry : Entry) :
    tags (log ++ [entry]) = tags log ++ entry.tag?.toList := by
  rw [tags, List.filterMap_append, ← tags]
  cases htag : entry.tag? <;> simp [List.filterMap, htag]

theorem published_concat (log : List Entry) (entry : Entry) :
    published (log ++ [entry]) = published log ++ entry.2.published.toList := by
  rw [published, List.filterMap_append, ← published]
  cases hnew : entry.2.published <;> simp [List.filterMap, hnew]

theorem lastIssued?_congr {other : List Entry} (htags : tags other = tags log) (part : Part) :
    lastIssued? part other = lastIssued? part log := by
  rw [lastIssued?, htags, lastIssued?]

theorem mem_tags_of_lastIssued? (hlast : lastIssued? part log = some tag) :
    (part, tag) ∈ tags log := by
  obtain ⟨⟨found, n⟩, hfound, rfl⟩ := Option.map_eq_some_iff.1 hlast
  obtain ⟨hmem, hpart⟩ := List.mem_filter.1 (List.mem_of_getLast? hfound)
  cases of_decide_eq_true hpart
  exact hmem

theorem lastIssued?_issue {entry : Entry} (htag : entry.tag? = some (part, tag)) (other : Part) :
    lastIssued? other (log ++ [entry]) =
      if part = other then some tag else lastIssued? other log := by
  rw [lastIssued?, tags_concat, htag, Option.toList_some, List.filter_append]
  by_cases hpart : part = other
  · simp [hpart]
  · simp [hpart, lastIssued?]

/-! ### One call -/

/-- How a tracker stands to what was returned and published so far. -/
structure Follows (t : Tracker) (log : List Entry) : Prop where
  bounded : ∀ tag ∈ tags log, tag.2 ≤ t.issued
  increasing : (tags log).Pairwise fun earlier later => earlier.2 < later.2
  latest : ∀ part, t.latest part = lastIssued? part log
  listing : t.listing = (published log).getLast?.getD {}

theorem follows_initial : Follows {} [] where
  bounded _ hmem := absurd hmem List.not_mem_nil
  increasing := .nil
  latest part := by cases part <;> rfl
  listing := rfl

theorem perform_offer_current (hcurrent : t.latest part = some tag) (page : Page) :
    t.perform (.offer part tag page) =
      { tracker := { t with listing := t.listing.replace part page }, reply := .truth true,
        published := some (t.listing.replace part page) } := by
  simp [perform, accept?, isCurrent, hcurrent]

theorem perform_offer_late (hlate : t.latest part ≠ some tag) (page : Page) :
    t.perform (.offer part tag page) = { tracker := t, reply := .truth false } := by
  simp [perform, accept?, isCurrent, hlate]

namespace Follows

/-- A call that issues no tag keeps what is known of tags. -/
theorem of_no_tag (hfollows : Follows t log) {next : Tracker} {entry : Entry}
    (htag : entry.tag? = none) (hissued : next.issued = t.issued)
    (hlatest : ∀ part, next.latest part = t.latest part)
    (hlisting : next.listing = (published (log ++ [entry])).getLast?.getD {}) :
    Follows next (log ++ [entry]) := by
  have htags : tags (log ++ [entry]) = tags log := by
    rw [tags_concat, htag, Option.toList_none, List.append_nil]
  refine ⟨?_, ?_, fun part => ?_, hlisting⟩
  · rw [htags, hissued]
    exact hfollows.bounded
  · rw [htags]
    exact hfollows.increasing
  · rw [hlatest, hfollows.latest, lastIssued?_congr htags]

theorem of_unpublished (hfollows : Follows t log) {entry : Entry}
    (hnone : entry.2.published = none) :
    t.listing = (published (log ++ [entry])).getLast?.getD {} := by
  rw [published_concat, hnone, Option.toList_none, List.append_nil]
  exact hfollows.listing

theorem perform (hfollows : Follows t log) (call : Call) :
    Follows (t.perform call).tracker (log ++ [(call, t.perform call)]) := by
  cases call with
  | issue part =>
    have htag : Entry.tag? (.issue part, t.perform (.issue part)) = some (part, t.issued + 1) := by
      cases part <;> rfl
    have htags := tags_concat log (.issue part, t.perform (.issue part))
    rw [htag, Option.toList_some] at htags
    have hissued : (t.perform (.issue part)).tracker.issued = t.issued + 1 := issued_issue t part
    refine ⟨?_, ?_, fun other => ?_, ?_⟩
    · rw [htags, hissued]
      intro old hold
      rcases List.mem_append.1 hold with hold | hnew
      · have := hfollows.bounded old hold
        omega
      · cases List.mem_singleton.1 hnew
        exact Nat.le_refl _
    -- the new tag is above all that were issued, so it goes behind them
    · rw [htags, List.pairwise_append]
      refine ⟨hfollows.increasing, List.pairwise_singleton _ _, fun old hold new hnew => ?_⟩
      cases List.mem_singleton.1 hnew
      have := hfollows.bounded old hold
      show old.2 < t.issued + 1
      omega
    · rw [lastIssued?_issue htag, ← hfollows.latest]
      exact latest_issue t part other
    · exact (listing_issue t part).trans (hfollows.of_unpublished rfl)
  | isCurrent part tag =>
    exact hfollows.of_no_tag rfl rfl (fun _ => rfl) (hfollows.of_unpublished rfl)
  | offer part tag page =>
    by_cases hcurrent : t.latest part = some tag
    · rw [perform_offer_current hcurrent]
      refine hfollows.of_no_tag rfl rfl (fun other => by cases other <;> rfl) ?_
      rw [published_concat, Option.toList_some, List.getLast?_concat]
      rfl
    · rw [perform_offer_late hcurrent]
      exact hfollows.of_no_tag rfl rfl (fun _ => rfl) (hfollows.of_unpublished rfl)

theorem performAll (hfollows : Follows t log) (calls : List Call) :
    Follows (t.performAll calls) (log ++ record t calls) := by
  induction calls generalizing t log with
  | nil =>
    rw [record, List.append_nil]
    exact hfollows
  | cons call calls ih =>
    have hnext := ih (hfollows.perform call)
    rw [List.append_assoc] at hnext
    exact hnext

/-- No tag was issued twice. -/
theorem eq_of_mem (hfollows : Follows t log) {first second : Part}
    (hfirst : (first, tag) ∈ tags log) (hsecond : (second, tag) ∈ tags log) : first = second := by
  have hnodup : ((tags log).map Prod.snd).Nodup :=
    (List.pairwise_map.2 hfollows.increasing).imp Nat.ne_of_lt
  exact congrArg Prod.fst (List.inj_on_of_nodup_map hnodup hfirst hsecond rfl)

end Follows

/-! ### Every call after any others -/

/-- Exactly one part of a listing is that of a page. -/
def Replaces (part : Part) (page : Page) (before after : Listing) : Prop :=
  match part with
  | .page => after.items = page.items ∧ after.total = page.total ∧
      after.unauthorizedTotal = before.unauthorizedTotal
  | .count => after.items = before.items ∧ after.total = before.total ∧
      after.unauthorizedTotal = page.total

/-- What the tags returned so far say about a tracker and about the next call to it. -/
structure Governed (t : Tracker) (log : List Entry) : Prop where
  /-- Tags increase from one to the next, whichever part they are for. -/
  increasing : (tags log).Pairwise fun earlier later => earlier.2 < later.2
  current : ∀ part tag, t.isCurrent part tag = true ↔ lastIssued? part log = some tag
  /-- For a part no two tags are current, and no tag is current for two parts. -/
  single : ∀ part tag other, t.isCurrent part tag = true → t.isCurrent part other = true →
    tag = other
  apart : ∀ tag part other, t.isCurrent part tag = true → t.isCurrent other tag = true →
    part = other
  /-- An answer with the last tag of its part replaces that part of the listing and nothing else,
  and the new listing is published. -/
  taken : ∀ part tag page, lastIssued? part log = some tag → ∃ listing,
    Replaces part page t.listing listing ∧
    t.perform (.offer part tag page) =
      { tracker := { t with listing }, reply := .truth true, published := some listing }
  /-- An answer with any other tag changes and publishes nothing. -/
  dropped : ∀ part tag page, lastIssued? part log ≠ some tag →
    t.perform (.offer part tag page) = { tracker := t, reply := .truth false }
  /-- A question changes and publishes nothing. -/
  asked : ∀ part tag, t.perform (.isCurrent part tag) =
    { tracker := t, reply := .truth (lastIssued? part log = some tag) }
  /-- A new tag is above all others, and the listing stays as it is. -/
  issued : ∀ part, ∃ tag, (∀ old ∈ tags log, old.2 < tag) ∧
    (t.perform (.issue part)).reply = .tag tag ∧
    (t.perform (.issue part)).tracker.listing = t.listing ∧
    (t.perform (.issue part)).published = none
  /-- Whoever watches knows the listing. -/
  watched : t.listing = (published log).getLast?.getD {}

theorem replaces_replace (listing : Listing) (part : Part) (page : Page) :
    Replaces part page listing (listing.replace part page) := by
  cases part <;> exact ⟨rfl, rfl, rfl⟩

theorem Follows.governed (hfollows : Follows t log) : Governed t log := by
  have hcurrent : ∀ part tag, t.isCurrent part tag = true ↔ lastIssued? part log = some tag := by
    intro part tag
    rw [isCurrent_iff, hfollows.latest]
  refine
    { increasing := hfollows.increasing
      current := hcurrent
      single := fun part tag other htag hother => ?_
      apart := fun tag part other hpart hother => ?_
      taken := fun part tag page hlast => ?_
      dropped := fun part tag page hlast => perform_offer_late (hfollows.latest part ▸ hlast) page
      asked := fun part tag => ?_
      issued := fun part => ⟨t.issued + 1, fun old hold => ?_, ?_, listing_issue t part, rfl⟩
      watched := hfollows.listing }
  · rw [hcurrent] at htag hother
    exact Option.some.inj (htag.symm.trans hother)
  · rw [hcurrent] at hpart hother
    exact hfollows.eq_of_mem (mem_tags_of_lastIssued? hpart) (mem_tags_of_lastIssued? hother)
  · rw [← hfollows.latest] at hlast
    exact ⟨_, replaces_replace t.listing part page, perform_offer_current hlast page⟩
  · rw [Tracker.perform, isCurrent, hfollows.latest]
  · exact Nat.lt_succ_of_le (hfollows.bounded old hold)
  · cases part <;> rfl

/-- After any calls on a new tracker, tags that come late, again, or for the wrong part included,
the next call does what the tags returned so far say. -/
theorem offers_follow_tags (calls : List Call) :
    Governed (performAll {} calls) (record {} calls) :=
  (follows_initial.performAll calls).governed

/-- An answer is offered with the tag of the other part, with its own tag, and with its own tag once
more after a newer one was issued. -/
example : (record {} [.issue .page, .issue .count, .offer .count 1 {}, .offer .page 1 {},
    .issue .page, .offer .page 1 {}]).map (fun entry => entry.2.reply) =
    [.tag 1, .tag 2, .truth false, .truth true, .tag 3, .truth false] := rfl

end FleetConsole.Listing.Tracker
