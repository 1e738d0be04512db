import FleetConsole.Json.Record
import FleetConsole.Proofs.Json.Kept

/-!
# Reading records and their fields

A reader for values of one kind takes nothing that is not a value (`Narrows`), reads back what is
written for such a value, and may be used behind a colon. The fields of an object can also be read
as they stand in the text, repetitions included (`objectFields`), which is what a record is compared
with.
-/

namespace FleetConsole.Json.Read

open FleetConsole.Text

/-! ### Values of one kind -/

/-- Whatever the reader takes is a value. -/
def Narrows {α : Type} (depth : Nat) (reader : Reader α) : Prop :=
  ∀ cs x rest, reader cs = .ok (x, rest) → ∃ j, value depth cs = .ok (j, rest)

section Kinds

variable {depth : Nat} {layout : Layout}

theorem narrows_text (depth : Nat) : Narrows depth text := by
  intro cs s rest hread
  simp only [text] at hread
  split at hread
  · next heq =>
    refine ⟨.text s, ?_⟩
    rw [value_scalar heq (by decide) (by decide), scalar, hread]
    rfl
  · cases hread

theorem narrows_bool (depth : Nat) : Narrows depth bool := by
  intro cs b rest hread
  simp only [bool] at hread
  split at hread
  · next heq =>
    obtain ⟨r, hword, hr⟩ := map_eq_ok.1 hread
    cases hr
    refine ⟨.bool true, ?_⟩
    rw [value_scalar heq (by decide) (by decide), scalar, hword]
    rfl
  · next heq =>
    obtain ⟨r, hword, hr⟩ := map_eq_ok.1 hread
    cases hr
    refine ⟨.bool false, ?_⟩
    rw [value_scalar heq (by decide) (by decide), scalar, hword]
    rfl
  · cases hread

theorem integer_eq_ok {least greatest n : Int} {cs rest : List Char}
    (hread : integer least greatest cs = .ok (n, rest)) : ∃ c after, skipSpace cs = c :: after ∧
      (c = '-' ∨ c.isDigit = true) ∧ Number.read (c :: after) = .ok (.int n, rest) ∧
      least ≤ n ∧ n ≤ greatest := by
  simp only [integer] at hread
  split at hread
  · cases hread
  · next c after heq =>
    split_ifs at hread with hc
    obtain ⟨⟨number, last⟩, hnumber, hread⟩ := bind_eq_ok.1 hread
    cases number with
    | int k =>
      dsimp only at hread
      split_ifs at hread with hbounds
      cases hread
      exact ⟨c, after, heq, hc, hnumber, hbounds⟩
    | float x => cases hread

theorem narrows_integer (depth : Nat) (least greatest : Int) :
    Narrows depth (integer least greatest) := by
  intro cs n rest hread
  obtain ⟨c, after, heq, hc, hnumber, -⟩ := integer_eq_ok hread
  refine ⟨.number (.int n), ?_⟩
  rw [value_scalar heq (ne_of_numeral hc (by decide) (by decide))
    (ne_of_numeral hc (by decide) (by decide)), scalar_number hc, hnumber]
  rfl

theorem natural_eq_ok {greatest n : Nat} {cs rest : List Char}
    (hread : natural greatest cs = .ok (n, rest)) : integer 0 greatest cs = .ok ((n : Int), rest) ∧
      n ≤ greatest := by
  obtain ⟨⟨k, after⟩, hk, heq⟩ := bind_eq_ok.1 hread
  cases heq
  obtain ⟨-, -, -, -, -, hleast, hgreatest⟩ := integer_eq_ok hk
  exact ⟨by rw [hk, Int.toNat_of_nonneg hleast], by omega⟩

theorem narrows_natural (depth greatest : Nat) : Narrows depth (natural greatest) := by
  intro cs n rest hread
  exact narrows_integer depth 0 greatest cs n rest (natural_eq_ok hread).1

theorem narrows_nullable {α : Type} {reader : Reader α} (hnarrows : Narrows depth reader) :
    Narrows depth (nullable reader) := by
  intro cs x rest hread
  simp only [nullable] at hread
  split at hread
  · next heq =>
    obtain ⟨r, hword, hr⟩ := map_eq_ok.1 hread
    cases hr
    refine ⟨.null, ?_⟩
    rw [value_scalar heq (by decide) (by decide), scalar, hword]
    rfl
  · obtain ⟨r, hvalue, hr⟩ := map_eq_ok.1 hread
    cases hr
    rw [← ignoresSpace_value]
    exact hnarrows _ _ _ hvalue

theorem Narrows.afterColon {α : Type} {reader : Reader α} (hnarrows : Narrows depth reader) :
    ∀ cs x rest, afterColon reader cs = .ok (x, rest) →
      ∃ j, Read.afterColon (value depth) cs = .ok (j, rest) := by
  intro cs x rest hread
  obtain ⟨body, hcolon, hbody⟩ := afterColon_eq_ok.1 hread
  obtain ⟨j, hj⟩ := hnarrows _ _ _ hbody
  exact ⟨j, afterColon_eq_ok.2 ⟨body, hcolon, hj⟩⟩

/-! ### Written values of one kind -/

theorem ignoresSpace_text : IgnoresSpace text := by
  intro cs
  simp only [text, skipSpace_skipSpace]

theorem ignoresSpace_bool : IgnoresSpace bool := by
  intro cs
  simp only [bool, skipSpace_skipSpace]

theorem ignoresSpace_integer (least greatest : Int) : IgnoresSpace (integer least greatest) := by
  intro cs
  simp only [integer, skipSpace_skipSpace]

theorem ignoresSpace_natural (greatest : Nat) : IgnoresSpace (natural greatest) := by
  intro cs
  simp only [natural, ignoresSpace_integer 0 greatest cs]

theorem ignoresSpace_nullable {α : Type} (reader : Reader α) : IgnoresSpace (nullable reader) := by
  intro cs
  simp only [nullable, skipSpace_skipSpace]

theorem reads_text (layout : Layout) (s : String) : Reads text layout s (.text s) := by
  refine ⟨head_write layout (.text s), fun tail _ => ?_⟩
  rw [write, quoted_append, text, skipSpace_cons (by decide)]
  exact string_written s tail

theorem reads_bool (layout : Layout) (b : Bool) : Reads bool layout b (.bool b) := by
  refine ⟨head_write layout (.bool b), fun tail _ => ?_⟩
  cases b <;> rw [write] <;> rfl

theorem reads_integer (layout : Layout) {least greatest n : Int} (hn : IsKeptInt n)
    (hleast : least ≤ n) (hgreatest : n ≤ greatest) :
    Reads (integer least greatest) layout n (.number (.int n)) := by
  refine ⟨head_write layout (.int n), fun tail hends => ?_⟩
  obtain ⟨c, cs, hchars, hc⟩ := exists_intText n
  have hnumber := read_intText hn hends
  have hwritten : write layout (.number (.int n)) = c :: cs := by
    rw [write]
    exact hchars
  rw [hchars, List.cons_append] at hnumber
  rw [hwritten, List.cons_append, integer, skipSpace_cons (isSpace_of_numeral hc)]
  simp only [if_pos hc, hnumber]
  dsimp only [bind, Except.bind]
  rw [if_pos ⟨hleast, hgreatest⟩]
  rfl

theorem reads_natural (layout : Layout) {greatest n : Nat} (hn : IsKeptInt n)
    (hgreatest : n ≤ greatest) : Reads (natural greatest) layout n (Json.ofNat n) := by
  have hreads := reads_integer layout hn (Int.natCast_nonneg n)
    (show (n : Int) ≤ (greatest : Int) by omega)
  refine ⟨hreads.head, fun tail hends => ?_⟩
  have hread := hreads.read tail hends
  rw [natural, Json.ofNat, hread]
  rfl

theorem reads_nullable {α : Type} {reader : Reader α} {x : α} {s : String}
    (hreads : Reads reader layout x (.text s)) :
    Reads (nullable reader) layout (some x) (.text s) := by
  refine ⟨hreads.head, fun tail hends => ?_⟩
  have hread := hreads.read tail hends
  rw [write, quoted_append] at hread ⊢
  rw [nullable, skipSpace_cons (by decide)]
  change (reader _).map (fun r => (some r.1, r.2)) = .ok (some x, tail)
  rw [hread]
  rfl

theorem ignoresSpace_list {α : Type} (depth : Nat) (item : Nat → Reader α) :
    IgnoresSpace (list depth item) := by
  intro cs
  simp only [list, skipSpace_skipSpace]

theorem reads_list {α : Type} {item : Nat → Reader α} {xs : List α} {js : List Json}
    (hreads : List.Forall₂ (Reads (item depth) layout.inner) xs js) :
    Reads (list (depth + 1) item) layout xs (.array js) := by
  refine ⟨head_array layout js, fun tail _ => ?_⟩
  obtain ⟨body, hbody, hread⟩ := items_array hreads tail
  rw [hbody]
  simp only [list, skipSpace_cons (show isSpace '[' = false by decide)]
  exact hread

/-! ### Numbers that are passed over -/

theorem skipNumber_digits (n : Nat) {tail : List Char} (htail : Ends tail) :
    skipNumber (digits n ++ tail) = .ok ((), tail) := by
  have hno : NoDigit tail := fun c hc => (htail c hc).1
  cases hfirst : digits n with
  | nil => exact absurd hfirst Nat.toDigits_ne_nil
  | cons first rest =>
    have hdigits : ∀ c ∈ first :: rest, c.isDigit = true :=
      fun c hc => isDigit_of_mem_digits (hfirst ▸ hc)
    rw [List.forall_mem_cons] at hdigits
    have hminus : first ≠ '-' := by
      rintro rfl
      exact absurd hdigits.1 (by decide)
    have hdrop : (rest ++ tail).dropWhile Char.isDigit = tail := by
      rw [List.dropWhile_append_of_pos hdigits.2]
      cases tail with
      | nil => rfl
      | cons c cs => exact List.dropWhile_cons_of_neg (by simp [hno c rfl])
    rw [List.cons_append]
    unfold skipNumber
    extract_lets digitsAfter exponent unsigned
    have hunsigned : unsigned = first :: (rest ++ tail) := by
      simp only [unsigned]
      split
      · next heq =>
        cases heq
        exact absurd rfl hminus
      · rfl
    simp only [hunsigned, if_neg (no_leading_zero hfirst hno), if_pos hdigits.1, hdrop]
    cases tail with
    | nil => rfl
    | cons c cs =>
      obtain ⟨-, hpoint, hlower, hupper⟩ := htail c rfl
      split
      · next heq =>
        cases heq
        exact absurd rfl hpoint
      · exact if_neg (not_or.2 ⟨hlower, hupper⟩)

theorem skip_numeral {cs rest : List Char} {c : Char} (hcs : skipSpace cs = c :: rest)
    (hc : c = '-' ∨ c.isDigit = true) : skip cs = skipNumber (c :: rest) := by
  simp only [skip, skipValue, hcs]
  split
  · next heq => cases heq; exact absurd rfl (ne_of_numeral hc (by decide) (by decide))
  · next heq => cases heq; exact absurd rfl (ne_of_numeral hc (by decide) (by decide))
  · next heq => cases heq; exact absurd rfl (ne_of_numeral hc (by decide) (by decide))
  · next heq =>
    cases heq
    rw [if_pos hc]
  · next heq => cases heq

/-- A number is passed over where it is not asked for. -/
theorem ignored_ofNat {σ : Type} (state : σ) (n : Nat) {tail : List Char} (htail : Ends tail) :
    ignored state (layout.colon ++ (write layout (Json.ofNat n) ++ tail)) = .ok (state, tail) := by
  have hwritten : write layout (Json.ofNat n) = digits n := by
    rw [Json.ofNat, write, Number.text, intText, if_neg (by omega)]
    exact String.toList_ofList
  have hskip := skipNumber_digits n htail
  rw [hwritten]
  cases hfirst : digits n with
  | nil => exact absurd hfirst Nat.toDigits_ne_nil
  | cons c rest =>
    have hc : c = '-' ∨ c.isDigit = true :=
      .inr (isDigit_of_mem_digits (hfirst ▸ List.mem_cons_self))
    rw [hfirst] at hskip
    obtain ⟨body, hbody, hspace⟩ : ∃ body,
        skipSpace (layout.colon ++ (c :: rest ++ tail)) = ':' :: body ∧
        skipSpace body = c :: (rest ++ tail) := by
      cases layout with
      | compact => exact ⟨_, rfl, skipSpace_cons (isSpace_of_numeral hc) _⟩
      | indented level => exact ⟨_, rfl, skipSpace_cons (isSpace_of_numeral hc) _⟩
    rw [ignored, map_eq_ok]
    refine ⟨((), tail), afterColon_eq_ok.2 ⟨body, hbody, ?_⟩, rfl⟩
    rw [skip_numeral hspace hc]
    exact hskip

end Kinds

/-! ### Objects and documents -/

/-- A field kept behind those that stand before it in the text. -/
def appendField (depth : Nat) (name : String) (fields : List (String × Json)) :
    Reader (List (String × Json)) := fun cs =>
  (afterColon (value depth) cs).map fun r => (fields ++ [(name, r.1)], r.2)

/-- The fields of an object as they stand in the text, each name as often as it is repeated. -/
def objectFields (depth : Nat) : Reader (List (String × Json)) :=
  object depth fun depth => members (appendField depth) []

theorem takes_appendField {depth : Nat} {layout : Layout} {read written : List (String × Json)}
    (hreads : List.Forall₂ (ReadsField depth layout) read written) (prior : List (String × Json)) :
    Takes (appendField depth) layout prior written (prior ++ read) := by
  induction hreads generalizing prior with
  | nil =>
    rw [List.append_nil]
    exact .nil prior
  | @cons field other _ _ hfield hrest ih =>
    have hnext := ih (prior ++ [field])
    rw [List.append_assoc] at hnext
    refine .cons (fun tail hends => ?_) hnext
    rw [appendField, afterColon_written (ignoresSpace_value depth), hfield.2.read tail hends,
      ← hfield.1]
    rfl

section Records

variable {α σ : Type}

theorem once_written {layout : Layout} {reader : Reader α} {x : α} {j : Json}
    (hreads : Reads reader layout x j) (hignores : IgnoresSpace reader) (keep : α → σ)
    (tail : List Char) (hends : Ends tail) :
    once none reader keep (layout.colon ++ (write layout j ++ tail)) = .ok (keep x, tail) := by
  have hunseen : ¬(none : Option α).isSome = true := Bool.false_ne_true
  rw [once, if_neg hunseen, afterColon_written hignores, hreads.read tail hends]
  rfl

theorem once_eq_ok {seen : Option α} {reader : Reader α} {keep : α → σ} {s : σ}
    {cs rest : List Char} (hread : once seen reader keep cs = .ok (s, rest)) :
    ∃ x, afterColon reader cs = .ok (x, rest) ∧ keep x = s := by
  rw [once, ite_error_eq_ok, map_eq_ok] at hread
  obtain ⟨-, ⟨x, after⟩, hcolon, heq⟩ := hread
  cases heq
  exact ⟨x, hcolon, rfl⟩

theorem object_eq_ok {depth : Nat} {fields : Nat → Reader α} {x : α} {cs rest : List Char} :
    object depth fields cs = .ok (x, rest) ↔ ∃ inner body after, depth = inner + 1 ∧
      skipSpace cs = '{' :: body ∧ fields inner body = .ok (x, after) ∧
      closeBrace after = .ok ((), rest) := by
  constructor
  · intro hread
    simp only [object] at hread
    split at hread
    · next inner body heq =>
      obtain ⟨⟨y, after⟩, hfields, hread⟩ := bind_eq_ok.1 hread
      obtain ⟨⟨_, last⟩, hclose, heq'⟩ := bind_eq_ok.1 hread
      cases heq'
      exact ⟨inner, body, after, rfl, heq, hfields, hclose⟩
    · cases hread
    · cases hread
  · rintro ⟨inner, body, after, rfl, heq, hfields, hclose⟩
    simp only [object, heq]
    exact bind_eq_ok.2 ⟨_, hfields, bind_eq_ok.2 ⟨_, hclose, rfl⟩⟩

/-- An object is read from what is written for it if its fields are. -/
theorem object_written {depth : Nat} {layout : Layout} {fields : Nat → Reader α} {x : α}
    {js : List (String × Json)} {tail body : List Char}
    (hbody : write layout (.object js) ++ tail = '{' :: body)
    (hfields : fields depth body = .ok (x, '}' :: tail)) :
    object (depth + 1) fields (write layout (.object js) ++ tail) = .ok (x, tail) := by
  rw [object_eq_ok, hbody]
  exact ⟨depth, body, _, rfl, skipSpace_cons (by decide) body, hfields, rfl⟩

theorem list_eq_ok {depth : Nat} {item : Nat → Reader α} {xs : List α}
    {cs rest : List Char} (hread : list depth item cs = .ok (xs, rest)) :
    ∃ inner body, depth = inner + 1 ∧ items (item inner) body = .ok (xs, rest) := by
  simp only [list] at hread
  split at hread
  · exact ⟨_, _, rfl, hread⟩
  · cases hread
  · cases hread

theorem nextItem_eq_ok {first : Bool} {item : Reader α} {x : α} {cs rest : List Char}
    (hread : nextItem first item cs = .ok (some x, rest)) : ∃ body, item body = .ok (x, rest) := by
  have hpresent : ∀ body, (item body).map (fun r => (some r.1, r.2)) = .ok (some x, rest) →
      item body = .ok (x, rest) := by
    intro body hbody
    obtain ⟨⟨y, after⟩, hy, heq⟩ := map_eq_ok.1 hbody
    cases heq
    exact hy
  simp only [nextItem] at hread
  split at hread
  · cases hread
  · split_ifs at hread
    · cases hread
    · exact ⟨_, hpresent _ hread⟩
    · split at hread
      · cases hread
      · cases hread
      · exact ⟨_, hpresent _ hread⟩

theorem record_object {fields items : Nat → Reader α} {depth : Nat} {cs body : List Char}
    (hbrace : skipSpace cs = '{' :: body) :
    record depth fields items cs = object depth fields cs := by
  simp only [record, hbrace]
  split
  · next heq => cases heq
  · next heq => cases heq
  · simp only [Read.object, hbrace, skipSpace_cons (show isSpace '{' = false by decide)]

/-- A record is read from its items or from its fields, one level further inside. -/
theorem record_eq_ok {depth : Nat} {fields items : Nat → Reader α} {x : α}
    {cs rest : List Char} (hread : record depth fields items cs = .ok (x, rest)) :
    ∃ inner body after, depth = inner + 1 ∧
      (items inner body = .ok (x, after) ∨ fields inner body = .ok (x, after)) := by
  simp only [record] at hread
  split at hread
  · obtain ⟨⟨y, after⟩, hitems, hread⟩ := bind_eq_ok.1 hread
    obtain ⟨⟨_, last⟩, -, heq⟩ := bind_eq_ok.1 hread
    cases heq
    exact ⟨_, _, after, rfl, .inl hitems⟩
  · cases hread
  · obtain ⟨inner, body, after, rfl, -, hfields, -⟩ := object_eq_ok.1 hread
    exact ⟨inner, body, after, rfl, .inr hfields⟩

/-- The fields of an object are read back as they stand. -/
theorem objectFields_object {depth : Nat} {layout : Layout} {read written : List (String × Json)}
    (hreads : List.Forall₂ (ReadsField depth layout.inner) read written) (tail : List Char) :
    objectFields (depth + 1) (write layout (.object written) ++ tail) = .ok (read, tail) := by
  obtain ⟨body, hbody, hmembers⟩ := members_object (takes_appendField hreads []) tail
  exact object_written hbody hmembers

theorem document_eq_ok {reader : Reader α} {s : String} {x : α} :
    document reader s = .ok x ↔ ∃ rest, reader s.toList = .ok (x, rest) ∧ skipSpace rest = [] := by
  rw [document, bind_eq_ok]
  constructor
  · rintro ⟨⟨y, rest⟩, hread, hend⟩
    dsimp only at hend
    split at hend
    · next heq =>
      cases hend
      exact ⟨rest, hread, heq⟩
    · cases hend
  · rintro ⟨rest, hread, hend⟩
    refine ⟨(x, rest), hread, ?_⟩
    simp only [hend]
    rfl

theorem document_ofList {reader : Reader α} {cs : List Char} {x : α}
    (hread : reader (cs ++ []) = .ok (x, [])) : document reader (String.ofList cs) = .ok x := by
  rw [List.append_nil] at hread
  exact document_eq_ok.2 ⟨[], by rw [String.toList_ofList, hread], rfl⟩

end Records

end FleetConsole.Json.Read
