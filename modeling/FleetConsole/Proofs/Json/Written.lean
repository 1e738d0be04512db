import FleetConsole.Proofs.Json.Fields
import FleetConsole.Proofs.Json.Scalar
import Mathlib.Data.List.Forall2

/-!
# Reading written values

A value is kept if a reader with so many levels left can have given it (`Kept`), and it is integral
if all its numbers are integers (`Integral`). Such a value is read back from what is written for it
in either layout (`reads_value`). The loops over items and fields do not depend on what stands
inside: an array is read back if its items are (`items_array`), and an object leads from one state
to another if its fields do so one by one (`members_object`). As a value, an object is read back
with its fields in the order of their names, whatever the order in which they were written
(`reads_object`).
-/

namespace FleetConsole.Json.Read

open FleetConsole.Text

/-! ### What is written -/

/-- A reader takes exactly what is written for a value, and gives the result. -/
structure Reads {α : Type} (reader : Reader α) (layout : Layout) (x : α) (j : Json) : Prop where
  head : ∃ c cs, write layout j = c :: cs ∧ isSpace c = false ∧ c ≠ ']'
  read : ∀ tail, Ends tail → reader (write layout j ++ tail) = .ok (x, tail)

theorem skipSpace_gap (layout : Layout) (cs : List Char) :
    skipSpace (layout.gap ++ cs) = skipSpace cs :=
  skipSpace_append (fun _ hc => isSpace_of_mem_gap hc) cs

theorem ends_gap (layout : Layout) {c : Char} {cs : List Char}
    (hc : c.isDigit = false ∧ c ≠ '.' ∧ c ≠ 'e' ∧ c ≠ 'E') : Ends (layout.gap ++ c :: cs) := by
  cases layout with
  | compact => exact ends_cons hc
  | indented level => exact ends_cons (by decide)

/-! ### Arrays -/

section Items

variable {α : Type} {item : Reader α} {layout : Layout}

/-- A value is found behind the gap in front of it. -/
theorem Reads.behind_gap {x : α} {j : Json} (hreads : Reads item layout x j) {follow : List Char}
    (hends : Ends follow) : ∃ c cs, skipSpace (layout.gap ++ (write layout j ++ follow)) = c :: cs ∧
      c ≠ ']' ∧ item (c :: cs) = .ok (x, follow) := by
  obtain ⟨c, cs, hwritten, hspace, hclose⟩ := hreads.head
  refine ⟨c, cs ++ follow, ?_, hclose, ?_⟩
  · rw [skipSpace_gap, hwritten, List.cons_append, skipSpace_cons hspace]
  · rw [← List.cons_append, ← hwritten]
    exact hreads.read follow hends

theorem itemsRest_comma {fuel : Nat} {kept : List α} {rest cs : List Char} {c : Char}
    (hrest : skipSpace rest = c :: cs) (hc : c ≠ ']') :
    itemsRest item (fuel + 1) kept (',' :: rest) =
      (item (c :: cs)).bind fun r => itemsRest item fuel (r.1 :: kept) r.2 := by
  simp only [itemsRest, skipSpace_cons (show isSpace ',' = false by decide), hrest]
  split
  · next heq => cases heq
  · next heq =>
    cases heq
    exact absurd rfl hc
  · rfl

theorem items_first {rest cs : List Char} {c : Char} (hrest : skipSpace rest = c :: cs)
    (hc : c ≠ ']') : items item rest = (item (c :: cs)).bind fun r =>
      (itemsRest item (r.2.length + 1) [r.1] r.2).bind fun s => .ok (s.1, s.2.drop 1) := by
  simp only [items, hrest]
  split
  · next heq => cases heq
  · next heq =>
    cases heq
    exact absurd rfl hc
  · rfl

theorem ends_items (outer : Layout) (js : List Json) (tail : List Char) :
    Ends (writeItems layout js ++ (outer.gap ++ ']' :: tail)) := by
  cases js with
  | nil => exact ends_gap outer (by decide)
  | cons j js => exact ends_cons (by decide)

theorem itemsRest_written (outer : Layout) (tail : List Char) {xs : List α} {js : List Json}
    (hreads : List.Forall₂ (Reads item layout) xs js) {fuel : Nat} (hfuel : js.length < fuel)
    (kept : List α) :
    itemsRest item fuel kept (writeItems layout js ++ (outer.gap ++ ']' :: tail)) =
      .ok (kept.reverse ++ xs, ']' :: tail) := by
  induction hreads generalizing fuel kept with
  | nil =>
    cases fuel with
    | zero => cases hfuel
    | succ fuel =>
      simp only [writeItems, List.nil_append, itemsRest, skipSpace_gap,
        skipSpace_cons (show isSpace ']' = false by decide), List.append_nil]
  | cons hfirst hrest ih =>
    obtain ⟨c, cs, hskip, hclose, hread⟩ := hfirst.behind_gap (ends_items outer _ tail)
    cases fuel with
    | zero => cases hfuel
    | succ fuel =>
      simp only [writeItems, List.cons_append, List.append_assoc]
      rw [itemsRest_comma hskip hclose, hread]
      dsimp only [Except.bind]
      rw [ih (Nat.lt_of_succ_lt_succ hfuel), List.reverse_cons, List.append_assoc]
      rfl

theorem length_le_writeItems (layout : Layout) (js : List Json) :
    js.length ≤ (writeItems layout js).length := by
  induction js with
  | nil => exact Nat.le_refl 0
  | cons j js ih =>
    simp only [writeItems, List.cons_append, List.length_cons, List.length_append]
    omega

/-- The items of a written array are read back if each of them is. -/
theorem items_array {xs : List α} {js : List Json}
    (hreads : List.Forall₂ (Reads item layout.inner) xs js) (tail : List Char) :
    ∃ body, write layout (.array js) ++ tail = '[' :: body ∧ items item body = .ok (xs, tail) := by
  cases hreads with
  | nil =>
    refine ⟨']' :: tail, by simp only [write]; rfl, ?_⟩
    simp only [items, skipSpace_cons (show isSpace ']' = false by decide)]
  | @cons x j xs js hfirst hrest =>
    obtain ⟨c, cs, hskip, hclose, hread⟩ := hfirst.behind_gap (ends_items layout js tail)
    refine ⟨layout.inner.gap ++ (write layout.inner j ++
      (writeItems layout.inner js ++ (layout.gap ++ ']' :: tail))), ?_, ?_⟩
    · simp only [write, List.cons_append, List.append_assoc, List.nil_append]
    · rw [items_first hskip hclose, hread]
      dsimp only [Except.bind]
      have hlength := length_le_writeItems layout.inner js
      rw [itemsRest_written layout tail hrest (by rw [List.length_append]; omega) [x]]
      rfl

end Items

/-! ### Objects -/

section Members

variable {σ : Type} {field : String → σ → Reader σ} {layout : Layout}

/-- The written fields lead from one state to another, each being read from its colon on. -/
inductive Takes (field : String → σ → Reader σ) (layout : Layout) :
    σ → List (String × Json) → σ → Prop
  | nil (state : σ) : Takes field layout state [] state
  | cons {state next last : σ} {name : String} {value : Json} {rest : List (String × Json)}
      (hread : ∀ tail, Ends tail →
        field name state (layout.colon ++ (write layout value ++ tail)) = .ok (next, tail))
      (hrest : Takes field layout next rest last) :
      Takes field layout state ((name, value) :: rest) last

theorem Takes.append {state next last : σ} {first later : List (String × Json)}
    (hfirst : Takes field layout state first next) (hlater : Takes field layout next later last) :
    Takes field layout state (first ++ later) last := by
  induction hfirst with
  | nil => exact hlater
  | cons hread hrest ih => exact .cons hread (ih hlater)

theorem membersRest_comma {fuel : Nat} {state : σ} {rest cs : List Char}
    (hrest : skipSpace rest = '"' :: cs) :
    membersRest field (fuel + 1) state (',' :: rest) = (string cs).bind fun r =>
      (field r.1 state r.2).bind fun s => membersRest field fuel s.1 s.2 := by
  simp only [membersRest, skipSpace_cons (show isSpace ',' = false by decide), hrest]
  rfl

theorem members_first {start : σ} {rest cs : List Char} (hrest : skipSpace rest = '"' :: cs) :
    members field start rest = (string cs).bind fun r =>
      (field r.1 start r.2).bind fun s => membersRest field (s.2.length + 1) s.1 s.2 := by
  simp only [members, hrest]
  rfl

theorem ends_fields (outer : Layout) (fields : List (String × Json)) (tail : List Char) :
    Ends (writeFields layout fields ++ (outer.gap ++ '}' :: tail)) := by
  cases fields with
  | nil => exact ends_gap outer (by decide)
  | cons field fields => exact ends_cons (by decide)

theorem length_le_writeFields (layout : Layout) (fields : List (String × Json)) :
    fields.length ≤ (writeFields layout fields).length := by
  induction fields with
  | nil => exact Nat.le_refl 0
  | cons field fields ih =>
    simp only [writeFields, List.cons_append, List.length_cons, List.length_append]
    omega

theorem skipSpace_writeField (name : String) (value : Json) (follow : List Char) :
    skipSpace (layout.gap ++ (writeField layout (name, value) ++ follow)) =
      '"' :: (name.toList.flatMap escapeChar ++ '"' ::
        (layout.colon ++ (write layout value ++ follow))) := by
  simp only [writeField, List.append_assoc, skipSpace_gap]
  rw [quoted_append]
  exact skipSpace_cons (show isSpace '"' = false by decide) _

theorem membersRest_written (outer : Layout) (tail : List Char) {state last : σ}
    {fields : List (String × Json)} (htakes : Takes field layout state fields last) {fuel : Nat}
    (hfuel : fields.length < fuel) :
    membersRest field fuel state (writeFields layout fields ++ (outer.gap ++ '}' :: tail)) =
      .ok (last, '}' :: tail) := by
  induction htakes generalizing fuel with
  | nil state =>
    cases fuel with
    | zero => cases hfuel
    | succ fuel =>
      simp only [writeFields, List.nil_append, membersRest, skipSpace_gap,
        skipSpace_cons (show isSpace '}' = false by decide)]
  | cons hread hrest ih =>
    cases fuel with
    | zero => cases hfuel
    | succ fuel =>
      simp only [writeFields, List.cons_append, List.append_assoc]
      rw [membersRest_comma (skipSpace_writeField _ _ _), string_written]
      dsimp only [Except.bind]
      rw [hread _ (ends_fields outer _ tail)]
      exact ih (Nat.lt_of_succ_lt_succ hfuel)

/-- The fields of a written object lead to the state to which they lead one by one. -/
theorem members_object {start last : σ} {fields : List (String × Json)}
    (htakes : Takes field layout.inner start fields last) (tail : List Char) :
    ∃ body, write layout (.object fields) ++ tail = '{' :: body ∧
      members field start body = .ok (last, '}' :: tail) := by
  cases htakes with
  | nil =>
    refine ⟨'}' :: tail, by simp only [write]; rfl, ?_⟩
    simp only [members, skipSpace_cons (show isSpace '}' = false by decide)]
  | @cons _ next _ name value rest hread hrest =>
    refine ⟨layout.inner.gap ++ (writeField layout.inner (name, value) ++
      (writeFields layout.inner rest ++ (layout.gap ++ '}' :: tail))), ?_, ?_⟩
    · simp only [write, List.cons_append, List.append_assoc, List.nil_append]
    · rw [members_first (skipSpace_writeField _ _ _), string_written]
      dsimp only [Except.bind]
      rw [hread _ (ends_fields layout _ tail)]
      have hlength := length_le_writeFields layout.inner rest
      exact membersRest_written layout tail hrest (by rw [List.length_append]; omega)

end Members

/-! ### Values -/

/-- A value that a reader with so many levels left may give: integers are in range, the names of an
object are in order, and the nesting is not too deep. -/
inductive Kept : Nat → Json → Prop
  | null (depth : Nat) : Kept depth .null
  | bool (depth : Nat) (b : Bool) : Kept depth (.bool b)
  | int (depth : Nat) {n : Int} (hn : IsKeptInt n) : Kept depth (.number (.int n))
  | float (depth : Nat) (x : Double) : Kept depth (.number (.float x))
  | text (depth : Nat) (s : String) : Kept depth (.text s)
  | array {depth : Nat} {items : List Json} (hitems : ∀ item ∈ items, Kept depth item) :
      Kept (depth + 1) (.array items)
  | object {depth : Nat} {fields : Fields} (hfields : ∀ field ∈ fields, Kept depth field.2)
      (hsorted : Fields.Sorted fields) : Kept (depth + 1) (.object fields)

/-- What was kept with some levels left is kept with more. -/
theorem Kept.mono {depth greater : Nat} {j : Json} (hkept : Kept depth j) (hle : depth ≤ greater) :
    Kept greater j := by
  induction hkept generalizing greater with
  | null => exact .null greater
  | bool _ b => exact .bool greater b
  | int _ hn => exact .int greater hn
  | float _ x => exact .float greater x
  | text _ s => exact .text greater s
  | array hitems ih =>
    obtain ⟨greater, rfl⟩ := Nat.exists_eq_add_of_lt hle
    exact .array fun item hitem => ih item hitem (Nat.le_add_right _ _)
  | object hfields hsorted ih =>
    obtain ⟨greater, rfl⟩ := Nat.exists_eq_add_of_lt hle
    exact .object (fun field hfield => ih field hfield (Nat.le_add_right _ _)) hsorted

/-- A value with no other numbers than integers. -/
inductive Integral : Json → Prop
  | null : Integral .null
  | bool (b : Bool) : Integral (.bool b)
  | int (n : Int) : Integral (.number (.int n))
  | text (s : String) : Integral (.text s)
  | array {items : List Json} (hitems : ∀ item ∈ items, Integral item) : Integral (.array items)
  | object {fields : Fields} (hfields : ∀ field ∈ fields, Integral field.2) :
      Integral (.object fields)

theorem exists_intText (n : Int) :
    ∃ c cs, (intText n).toList = c :: cs ∧ (c = '-' ∨ c.isDigit = true) := by
  cases hchars : (intText n).toList with
  | nil =>
    rw [intText] at hchars
    split_ifs at hchars
    · rw [String.toList_append] at hchars
      cases (List.append_eq_nil_iff.1 hchars).1
    · rw [natText, String.toList_ofList] at hchars
      exact absurd hchars Nat.toDigits_ne_nil
  | cons c cs => exact ⟨c, cs, rfl, mem_intText (hchars ▸ List.mem_cons_self)⟩

theorem ne_of_numeral {c d : Char} (hc : c = '-' ∨ c.isDigit = true) (hd : d ≠ '-')
    (hdigit : d.isDigit = false) : c ≠ d := by
  rintro rfl
  rcases hc with hc | hc
  · exact hd hc
  · rw [hdigit] at hc
    cases hc

theorem isSpace_of_numeral {c : Char} (hc : c = '-' ∨ c.isDigit = true) : isSpace c = false := by
  have hspace : c ≠ ' ' ∧ c ≠ '\n' ∧ c ≠ '\t' ∧ c ≠ '\r' := by
    refine ⟨?_, ?_, ?_, ?_⟩ <;> exact ne_of_numeral hc (by decide) (by decide)
  simp [isSpace, hspace]

theorem head_array (layout : Layout) (items : List Json) :
    ∃ c cs, write layout (.array items) = c :: cs ∧ isSpace c = false ∧ c ≠ ']' := by
  cases items with
  | nil => exact ⟨'[', _, by rw [write], by decide, by decide⟩
  | cons item items => exact ⟨'[', _, by rw [write]; rfl, by decide, by decide⟩

theorem head_object (layout : Layout) (fields : List (String × Json)) :
    ∃ c cs, write layout (.object fields) = c :: cs ∧ isSpace c = false ∧ c ≠ ']' := by
  cases fields with
  | nil => exact ⟨'{', _, by rw [write], by decide, by decide⟩
  | cons field fields => exact ⟨'{', _, by rw [write]; rfl, by decide, by decide⟩

/-- What is written for an integral value begins with no white space and with no closing bracket. -/
theorem head_write (layout : Layout) {j : Json} (hint : Integral j) :
    ∃ c cs, write layout j = c :: cs ∧ isSpace c = false ∧ c ≠ ']' := by
  cases hint with
  | null => exact ⟨'n', _, by rw [write], by decide, by decide⟩
  | bool b => cases b <;> exact ⟨_, _, by rw [write], by decide, by decide⟩
  | int n =>
    obtain ⟨c, cs, hchars, hc⟩ := exists_intText n
    exact ⟨c, cs, by rw [write]; exact hchars, isSpace_of_numeral hc,
      ne_of_numeral hc (by decide) (by decide)⟩
  | text s => exact ⟨'"', _, by rw [write, quoted, List.cons_append], by decide, by decide⟩
  | @array items hitems => exact head_array layout items
  | @object fields hfields => exact head_object layout fields

theorem ignoresSpace_value (depth : Nat) : IgnoresSpace (value depth) := by
  intro cs
  cases depth <;> simp only [value, skipSpace_skipSpace]

theorem afterColon_written {α : Type} {reader : Reader α} (hignores : IgnoresSpace reader)
    (layout : Layout) (cs : List Char) : afterColon reader (layout.colon ++ cs) = reader cs := by
  cases layout with
  | compact =>
    simp only [Layout.colon, List.cons_append, List.nil_append, afterColon,
      skipSpace_cons (show isSpace ':' = false by decide)]
  | indented level =>
    simp only [Layout.colon, List.cons_append, List.nil_append, afterColon,
      skipSpace_cons (show isSpace ':' = false by decide)]
    rw [← hignores, ← hignores cs]
    rfl

/-- Where no container begins, a scalar is read. -/
theorem value_scalar {cs after : List Char} {c : Char} (heq : skipSpace cs = c :: after)
    (harray : c ≠ '[') (hobject : c ≠ '{') (depth : Nat) :
    value depth cs = scalar (c :: after) := by
  cases depth <;> simp only [value, heq] <;> split
  all_goals first
    | next heq => cases heq; exact absurd rfl harray
    | next heq => cases heq; exact absurd rfl hobject
    | rfl

theorem scalar_number {c : Char} (hc : c = '-' ∨ c.isDigit = true) (cs : List Char) :
    scalar (c :: cs) = (Number.read (c :: cs)).map fun r => (.number r.1, r.2) := by
  unfold scalar
  split
  · next heq => cases heq
  · next heq => cases heq; exact absurd rfl (ne_of_numeral hc (by decide) (by decide))
  · next heq => cases heq; exact absurd rfl (ne_of_numeral hc (by decide) (by decide))
  · next heq => cases heq; exact absurd rfl (ne_of_numeral hc (by decide) (by decide))
  · next heq => cases heq; exact absurd rfl (ne_of_numeral hc (by decide) (by decide))
  · next heq =>
    cases heq
    rw [if_pos hc]

/-- How a field of any name and value is kept. -/
def keepField (depth : Nat) (name : String) (fields : Fields) : Reader Fields := fun cs => do
  let (x, rest) ← afterColon (value depth) cs
  return (fields.insert name x, rest)

theorem value_array (depth : Nat) (cs : List Char) : value (depth + 1) ('[' :: cs) =
    (items (value depth) cs).bind fun r => .ok (.array r.1, r.2) := by
  simp only [value, skipSpace_cons (show isSpace '[' = false by decide)]
  rfl

theorem value_object (depth : Nat) (cs : List Char) : value (depth + 1) ('{' :: cs) =
    (members (keepField depth) [] cs).bind fun r => .ok (.object r.1, r.2.drop 1) := by
  simp only [value, skipSpace_cons (show isSpace '{' = false by decide)]
  rfl

/-- A field is read as one of the same name. -/
def ReadsField (depth : Nat) (layout : Layout) (read written : String × Json) : Prop :=
  read.1 = written.1 ∧ Reads (value depth) layout read.2 written.2

theorem readsFields_self {depth : Nat} {layout : Layout} {fields : List (String × Json)}
    (hreads : ∀ field ∈ fields, Reads (value depth) layout field.2 field.2) :
    List.Forall₂ (ReadsField depth layout) fields fields :=
  List.forall₂_same.2 fun field hfield => ⟨rfl, hreads field hfield⟩

theorem takes_keepField {depth : Nat} {layout : Layout} {read written : List (String × Json)}
    (hreads : List.Forall₂ (ReadsField depth layout) read written) (prior : Fields) :
    Takes (keepField depth) layout prior written (prior.insertAll read) := by
  induction hreads generalizing prior with
  | nil => exact .nil prior
  | @cons field other _ _ hfield hrest ih =>
    refine .cons (fun tail hends => ?_) (ih (prior.insert field.1 field.2))
    rw [keepField, afterColon_written (ignoresSpace_value depth), hfield.2.read tail hends,
      hfield.1]
    rfl

/-- An array is read back if its items are. -/
theorem reads_array {depth : Nat} {layout : Layout} {xs js : List Json}
    (hreads : List.Forall₂ (Reads (value depth) layout.inner) xs js) :
    Reads (value (depth + 1)) layout (.array xs) (.array js) := by
  refine ⟨head_array layout js, fun tail _ => ?_⟩
  obtain ⟨body, hbody, hread⟩ := items_array hreads tail
  rw [hbody, value_array, hread]
  rfl

/-- An object is read back, its fields in the order of their names, if they are. -/
theorem reads_object {depth : Nat} {layout : Layout} {read written : List (String × Json)}
    (hreads : List.Forall₂ (ReadsField depth layout.inner) read written) :
    Reads (value (depth + 1)) layout (.object (Fields.insertAll [] read)) (.object written) := by
  refine ⟨head_object layout written, fun tail _ => ?_⟩
  obtain ⟨body, hbody, hread⟩ := members_object (takes_keepField hreads []) tail
  rw [hbody, value_object, hread]
  rfl

theorem reads_scalar {layout : Layout} {j : Json} {c : Char} {cs : List Char}
    (hint : Integral j) (hwritten : write layout j = c :: cs) (harray : c ≠ '[') (hobject : c ≠ '{')
    (hread : ∀ tail, Ends tail → scalar (c :: cs ++ tail) = .ok (j, tail)) (depth : Nat) :
    Reads (value depth) layout j j := by
  refine ⟨head_write layout hint, fun tail hends => ?_⟩
  obtain ⟨d, ds, hhead, hspace, -⟩ := head_write layout hint
  rw [hwritten] at hhead
  cases hhead
  rw [hwritten]
  exact (value_scalar (skipSpace_cons hspace (cs ++ tail)) harray hobject depth).trans
    (hread tail hends)

/-- A kept value without other numbers than integers is read back as it was. -/
theorem reads_value {depth : Nat} {j : Json} (hkept : Kept depth j) (hint : Integral j)
    (layout : Layout) : Reads (value depth) layout j j := by
  induction hkept generalizing layout with
  | null depth =>
    exact reads_scalar hint (by rw [write]) (by decide) (by decide) (fun _ _ => rfl) depth
  | bool depth b =>
    cases b <;>
      exact reads_scalar hint (by rw [write]) (by decide) (by decide) (fun _ _ => rfl) depth
  | @int depth n hn =>
    obtain ⟨c, cs, hchars, hc⟩ := exists_intText n
    refine reads_scalar hint (by rw [write]; exact hchars)
      (ne_of_numeral hc (by decide) (by decide)) (ne_of_numeral hc (by decide) (by decide))
      (fun tail hends => ?_) depth
    have hnumber := read_intText hn hends
    rw [hchars] at hnumber
    rw [List.cons_append] at hnumber ⊢
    rw [scalar_number hc, hnumber]
    rfl
  | float depth x => cases hint
  | text depth s =>
    refine reads_scalar hint (by rw [write, quoted, List.cons_append]) (by decide) (by decide)
      (fun tail hends => ?_) depth
    have hstring := string_written s tail
    rw [← List.cons_append, ← quoted, quoted_append, scalar, hstring]
    rfl
  | @array depth items hitems ih =>
    cases hint with
    | array hints =>
      exact reads_array <| List.forall₂_same.2 fun item hitem =>
        ih item hitem (hints item hitem) layout.inner
  | @object depth fields hfields hsorted ih =>
    cases hint with
    | object hints =>
      have hself : List.Forall₂ (ReadsField depth layout.inner) fields fields :=
        readsFields_self fun field hfield => ih field hfield (hints field hfield) layout.inner
      have hreads := reads_object hself
      rwa [hsorted.insertAll_eq] at hreads

end FleetConsole.Json.Read
