import FleetConsole.Machine.Basic
import FleetConsole.Proofs.Json.Record
import FleetConsole.Proofs.Time.Instant

/-!
# Machines that were read

A text that is read as a machine is also read as an object (`exists_fields`), and the machine is
`Drawn` from the fields of that object: the fields that the console does not interpret have their
last values in it, and it holds an optional value only if the text has the field. Besides, a machine
that was read is in order (`WellFormed`): its numbers are in range and its other fields are kept.
-/

namespace FleetConsole.Machine

open Json Json.Read

/-- The names of the fields that the console interprets. -/
def knownNames : List String :=
  ["id", "address", "agentPort", "hostname", "authorized", "agentVersion", "lastVisitedAt", "error"]

/-- What is true of every machine that was read with room for so many containers in a field. -/
structure WellFormed (depth : Nat) (m : Machine) : Prop where
  id : -(Nat.pow 2 63 : Int) ≤ m.id ∧ m.id ≤ (Nat.pow 2 63 : Int) - 1
  agentPort : m.agentPort ≤ Nat.pow 2 16 - 1
  lastVisitedAt : ∀ t, m.lastVisitedAt = some t → t.IsProper
  extra : KeptFields depth m.extra
  names : ∀ field ∈ m.extra, field.1 ∉ knownNames

theorem WellFormed.mono {depth greater : Nat} {m : Machine} (hwf : WellFormed depth m)
    (hle : depth ≤ greater) : WellFormed greater m :=
  { hwf with
    extra := ⟨fun field hfield => (hwf.extra.values field hfield).mono hle, hwf.extra.sorted⟩ }

/-- How the fields read so far stand to the fields of the text. -/
structure Drawn (depth : Nat) (draft : Draft) (fields : List (String × Json)) : Prop where
  id : ∀ n, draft.id = some n → -(Nat.pow 2 63 : Int) ≤ n ∧ n ≤ (Nat.pow 2 63 : Int) - 1
  agentPort : ∀ n, draft.agentPort = some n → n ≤ Nat.pow 2 16 - 1
  lastVisitedAt : ∀ t, draft.lastVisitedAt.join = some t → t.IsProper
  extra : KeptFields depth draft.extra
  names : ∀ field ∈ draft.extra, field.1 ∉ knownNames
  others : ∀ name ∉ knownNames, Fields.get? name draft.extra = Fields.last? name fields
  version : draft.agentVersion ≠ none → ∃ j, ("agentVersion", j) ∈ fields
  visit : draft.lastVisitedAt ≠ none → ∃ j, ("lastVisitedAt", j) ∈ fields
  fault : draft.error ≠ none → ∃ j, ("error", j) ∈ fields

variable {depth : Nat} {draft next : Draft} {fields : List (String × Json)} {cs rest : List Char}

theorem Drawn.nil (depth : Nat) : Drawn depth {} [] where
  id _ h := by cases h
  agentPort _ h := by cases h
  lastVisitedAt _ h := by cases h
  extra := KeptFields.nil depth
  names _ h := absurd h List.not_mem_nil
  others _ _ := rfl
  version h := absurd rfl h
  visit h := absurd rfl h
  fault h := absurd rfl h

/-- A field that the console interprets changes nothing about the others. -/
theorem Drawn.known (hdrawn : Drawn depth draft fields) {name : String} (hname : name ∈ knownNames)
    (j : Json) : Drawn depth draft (fields ++ [(name, j)]) where
  id := hdrawn.id
  agentPort := hdrawn.agentPort
  lastVisitedAt := hdrawn.lastVisitedAt
  extra := hdrawn.extra
  names := hdrawn.names
  others other hother := by
    have hne : other ≠ name := fun heq => hother (heq ▸ hname)
    rw [Fields.last?_concat, if_neg hne]
    exact hdrawn.others other hother
  version h := (hdrawn.version h).imp fun _ hmem => List.mem_append_left _ hmem
  visit h := (hdrawn.visit h).imp fun _ hmem => List.mem_append_left _ hmem
  fault h := (hdrawn.fault h).imp fun _ hmem => List.mem_append_left _ hmem

theorem Drawn.unknown (hdrawn : Drawn depth draft fields) {name : String}
    (hname : name ∉ knownNames) {j : Json} (hj : Kept depth j) :
    Drawn depth { draft with extra := draft.extra.insert name j } (fields ++ [(name, j)]) where
  id := hdrawn.id
  agentPort := hdrawn.agentPort
  lastVisitedAt := hdrawn.lastVisitedAt
  extra := hdrawn.extra.insert hj name
  names field hfield := by
    rcases Fields.mem_insert hfield with rfl | hfield
    · exact hname
    · exact hdrawn.names field hfield
  others other hother := by
    rw [Fields.last?_concat]
    by_cases heq : other = name
    · rw [if_pos heq, heq]
      exact Fields.get?_insert_self name j draft.extra
    · rw [if_neg heq, Fields.get?_insert_of_ne heq]
      exact hdrawn.others other hother
  version h := (hdrawn.version h).imp fun _ hmem => List.mem_append_left _ hmem
  visit h := (hdrawn.visit h).imp fun _ hmem => List.mem_append_left _ hmem
  fault h := (hdrawn.fault h).imp fun _ hmem => List.mem_append_left _ hmem

theorem narrows_readInstant (depth : Nat) : Narrows depth readInstant := by
  intro cs t rest hread
  obtain ⟨⟨s, after⟩, htext, hread⟩ := bind_eq_ok.1 hread
  dsimp only at hread
  split at hread
  · cases hread
    exact narrows_text depth _ _ _ htext
  · cases hread

theorem isProper_of_readInstant {t : Instant} (hread : readInstant cs = .ok (t, rest)) :
    t.IsProper := by
  obtain ⟨⟨s, after⟩, htext, hread⟩ := bind_eq_ok.1 hread
  dsimp only at hread
  split at hread
  · next heq =>
    cases hread
    exact Instant.isProper_of_ofText? heq
  · cases hread

theorem nullable_eq_some {α : Type} {reader : Reader α} {x : α}
    (hread : nullable reader cs = .ok (some x, rest)) : ∃ cs, reader cs = .ok (x, rest) := by
  simp only [nullable] at hread
  split at hread
  · obtain ⟨r, -, hr⟩ := map_eq_ok.1 hread
    cases hr
  · obtain ⟨r, hvalue, hr⟩ := map_eq_ok.1 hread
    cases hr
    exact ⟨_, hvalue⟩

theorem readField_unknown {name : String} (hname : name ∉ knownNames) (draft : Draft)
    (cs : List Char) : readField depth name draft cs =
      (afterColon (value depth) cs).map fun r =>
        ({ draft with extra := draft.extra.insert name r.1 }, r.2) := by
  unfold readField
  split
  all_goals first
    | rfl
    | exact absurd (by decide) hname

/-- What the reader of a known field took is a value in the text. -/
theorem Drawn.once (hdrawn : Drawn depth draft fields) {α : Type} {reader : Reader α}
    (hnarrows : Narrows depth reader) (name : String) (hname : name ∈ knownNames) {seen : Option α}
    {keep : α → Draft} (hread : Read.once seen reader keep cs = .ok (next, rest)) :
    ∃ x j, keep x = next ∧ (∃ body, reader body = .ok (x, rest)) ∧
      appendField depth name fields cs = .ok (fields ++ [(name, j)], rest) ∧
      Drawn depth draft (fields ++ [(name, j)]) := by
  obtain ⟨x, hcolon, hkeep⟩ := once_eq_ok hread
  obtain ⟨j, hj⟩ := hnarrows.afterColon _ _ _ hcolon
  obtain ⟨body, -, hbody⟩ := afterColon_eq_ok.1 hcolon
  exact ⟨x, j, hkeep, ⟨body, hbody⟩, map_eq_ok.2 ⟨_, hj, rfl⟩, hdrawn.known hname j⟩

/-- A field that is read is a field of the text. -/
theorem Drawn.step (hdrawn : Drawn depth draft fields) {name : String}
    (hread : readField depth name draft cs = .ok (next, rest)) :
    ∃ after, appendField depth name fields cs = .ok (after, rest) ∧ Drawn depth next after := by
  by_cases hname : name ∈ knownNames
  -- Each known field says what its own reader promises and leaves the rest as it was.
  · simp only [knownNames, List.mem_cons, List.not_mem_nil, or_false] at hname
    rcases hname with rfl | rfl | rfl | rfl | rfl | rfl | rfl | rfl
    · rw [readField] at hread
      obtain ⟨x, j, rfl, ⟨body, hx⟩, hfield, hnext⟩ :=
        hdrawn.once (narrows_integer depth _ _) "id" (by decide) hread
      obtain ⟨-, -, -, -, -, hbounds⟩ := integer_eq_ok hx
      exact ⟨_, hfield, { hnext with id := fun n hn => Option.some.inj hn ▸ hbounds }⟩
    · rw [readField] at hread
      obtain ⟨x, j, rfl, -, hfield, hnext⟩ :=
        hdrawn.once (narrows_text depth) "address" (by decide) hread
      exact ⟨_, hfield, { hnext with }⟩
    · rw [readField] at hread
      obtain ⟨x, j, rfl, ⟨body, hx⟩, hfield, hnext⟩ :=
        hdrawn.once (narrows_natural depth _) "agentPort" (by decide) hread
      have hbound := (natural_eq_ok hx).2
      exact ⟨_, hfield, { hnext with agentPort := fun n hn => Option.some.inj hn ▸ hbound }⟩
    · rw [readField] at hread
      obtain ⟨x, j, rfl, -, hfield, hnext⟩ :=
        hdrawn.once (narrows_text depth) "hostname" (by decide) hread
      exact ⟨_, hfield, { hnext with }⟩
    · rw [readField] at hread
      obtain ⟨x, j, rfl, -, hfield, hnext⟩ :=
        hdrawn.once (narrows_bool depth) "authorized" (by decide) hread
      exact ⟨_, hfield, { hnext with }⟩
    · rw [readField] at hread
      obtain ⟨x, j, rfl, -, hfield, hnext⟩ :=
        hdrawn.once (narrows_nullable (narrows_text depth)) "agentVersion" (by decide) hread
      exact ⟨_, hfield, { hnext with version := fun _ => ⟨j, List.mem_concat_self⟩ }⟩
    · rw [readField] at hread
      obtain ⟨x, j, rfl, ⟨body, hx⟩, hfield, hnext⟩ :=
        hdrawn.once (narrows_nullable (narrows_readInstant depth)) "lastVisitedAt" (by decide) hread
      refine ⟨_, hfield, { hnext with
        lastVisitedAt := fun t ht => ?_
        visit := fun _ => ⟨j, List.mem_concat_self⟩ }⟩
      cases ht
      obtain ⟨cs, hcs⟩ := nullable_eq_some hx
      exact isProper_of_readInstant hcs
    · rw [readField] at hread
      obtain ⟨x, j, rfl, -, hfield, hnext⟩ :=
        hdrawn.once (narrows_nullable (narrows_text depth)) "error" (by decide) hread
      exact ⟨_, hfield, { hnext with fault := fun _ => ⟨j, List.mem_concat_self⟩ }⟩
  · rw [readField_unknown hname, map_eq_ok] at hread
    obtain ⟨⟨j, after⟩, hj, heq⟩ := hread
    cases heq
    obtain ⟨body, -, hbody⟩ := afterColon_eq_ok.1 hj
    exact ⟨_, map_eq_ok.2 ⟨_, hj, rfl⟩, hdrawn.unknown hname (kept_value hbody)⟩

/-- How a machine that was read stands to the fields of the text: it is in order, the fields that
the console does not interpret have their last values, and what may be absent is there only if the
text has it. -/
structure ReadFrom (depth : Nat) (m : Machine) (fields : List (String × Json)) : Prop where
  wellFormed : WellFormed depth m
  others : ∀ name ∉ knownNames, Fields.get? name m.extra = Fields.last? name fields
  version : m.agentVersion ≠ none → ∃ j, ("agentVersion", j) ∈ fields
  visit : m.lastVisitedAt ≠ none → ∃ j, ("lastVisitedAt", j) ∈ fields
  fault : m.error ≠ none → ∃ j, ("error", j) ∈ fields

theorem join_ne_none {α : Type} {x : Option (Option α)} (hx : x.join ≠ none) : x ≠ none := by
  rintro rfl
  exact hx rfl

theorem Drawn.readFrom (hdrawn : Drawn depth draft fields) {m : Machine}
    (hm : draft.toMachine = .ok m) : ReadFrom depth m fields := by
  obtain ⟨n, hid, heq⟩ := bind_eq_ok.1 hm
  cases heq
  have hn : draft.id = some n := by
    cases h : draft.id with
    | none =>
      rw [h] at hid
      cases hid
    | some k =>
      rw [h] at hid
      cases hid
      rfl
  refine ⟨⟨hdrawn.id n hn, ?_, hdrawn.lastVisitedAt, hdrawn.extra, hdrawn.names⟩, hdrawn.others,
    fun h => hdrawn.version (join_ne_none h), fun h => hdrawn.visit (join_ne_none h),
    fun h => hdrawn.fault (join_ne_none h)⟩
  change draft.agentPort.getD 0 ≤ _
  cases h : draft.agentPort with
  | none => exact Nat.zero_le _
  | some port => exact hdrawn.agentPort port h

/-- A machine is read from the fields of an object. -/
theorem exists_fields {m : Machine} (hread : Machine.read depth cs = .ok (m, rest)) :
    ∃ inner fields, depth = inner + 1 ∧ objectFields depth cs = .ok (fields, rest) ∧
      ReadFrom inner m fields := by
  obtain ⟨inner, body, after, rfl, hbrace, hfields, hclose⟩ := object_eq_ok.1 hread
  obtain ⟨⟨draft, last⟩, hmembers, hfields⟩ := bind_eq_ok.1 hfields
  obtain ⟨m', hm, heq⟩ := bind_eq_ok.1 hfields
  cases heq
  have hsimulates : Simulates (Drawn inner) (readField inner) (appendField inner) :=
    fun _ _ _ _ _ _ hdrawn hfield => hdrawn.step hfield
  obtain ⟨fields, hread, hdrawn⟩ := members_simulates hsimulates (Drawn.nil inner) hmembers
  exact ⟨inner, fields, rfl, object_eq_ok.2 ⟨inner, body, _, rfl, hbrace, hread, hclose⟩,
    hdrawn.readFrom hm⟩

end FleetConsole.Machine
