import FleetConsole.Json.Read
import FleetConsole.Json.Write
import FleetConsole.Proofs.Text.Digits

/-!
# Reading written scalars

White space in front of a value is passed over, numbers end where no digit, point or exponent mark
follows (`Ends`), and a string ends at its quote. In these places the readers take exactly what was
written for an integer (`read_intText`) and for a text (`string_written`).
-/

namespace FleetConsole.Json.Read

open FleetConsole.Text

/-! ### White space -/

/-- A reader that may be given the characters with or without the white space in front. -/
def IgnoresSpace {α : Type} (reader : Reader α) : Prop :=
  ∀ cs, reader (skipSpace cs) = reader cs

theorem skipSpace_cons {c : Char} (hc : isSpace c = false) (cs : List Char) :
    skipSpace (c :: cs) = c :: cs :=
  List.dropWhile_cons_of_neg (by simp [hc])

theorem skipSpace_append {space : List Char} (hspace : ∀ c ∈ space, isSpace c = true)
    (cs : List Char) : skipSpace (space ++ cs) = skipSpace cs :=
  List.dropWhile_append_of_pos hspace

theorem skipSpace_skipSpace (cs : List Char) : skipSpace (skipSpace cs) = skipSpace cs := by
  cases hcs : skipSpace cs with
  | nil => rfl
  | cons c rest =>
    have hc : isSpace c = false := head?_dropWhile_false (by rw [← skipSpace, hcs]; rfl)
    exact skipSpace_cons hc rest

theorem isSpace_of_mem_gap {layout : Layout} {c : Char} (hc : c ∈ layout.gap) :
    isSpace c = true := by
  cases layout with
  | compact => cases hc
  | indented level =>
    rcases List.mem_cons.1 hc with rfl | hc
    · rfl
    · rw [List.eq_of_mem_replicate hc]
      rfl

/-! ### Integers -/

/-- No number goes on with these characters. -/
def Ends (cs : List Char) : Prop :=
  ∀ c, cs.head? = some c → c.isDigit = false ∧ c ≠ '.' ∧ c ≠ 'e' ∧ c ≠ 'E'

theorem ends_cons {c : Char} {cs : List Char}
    (hc : c.isDigit = false ∧ c ≠ '.' ∧ c ≠ 'e' ∧ c ≠ 'E') : Ends (c :: cs) := by
  intro d hd
  cases hd
  exact hc

/-- An integer that is kept exactly. -/
def IsKeptInt (n : Int) : Prop := -(Nat.pow 2 63 : Int) ≤ n ∧ n < (Nat.pow 2 64 : Int)

theorem isKeptInt_iff {n : Int} :
    IsKeptInt n ↔ -9223372036854775808 ≤ n ∧ n < 18446744073709551616 :=
  Iff.rfl

theorem isKeptInt_of_lt {n : Nat} (hn : n < Nat.pow 2 64) : IsKeptInt n := by
  replace hn : n < 18446744073709551616 := hn
  rw [isKeptInt_iff]
  omega

theorem le_foldDigits (ds : List Char) (n : Nat) : n ≤ foldDigits 10 n ds := by
  induction ds generalizing n with
  | nil => exact Nat.le_refl n
  | cons c ds ih =>
    have hstep : n ≤ 10 * n + (hexDigit? c).getD 0 := by omega
    exact Nat.le_trans hstep (ih _)

theorem takeBounded_digits {ds tail : List Char} {n : Nat} (hds : ∀ c ∈ ds, c.isDigit = true)
    (hbound : foldDigits 10 n ds < Nat.pow 2 64) (htail : NoDigit tail) :
    Number.takeBounded n (ds ++ tail) = (foldDigits 10 n ds, ds.length, tail) := by
  induction ds generalizing n with
  | nil =>
    cases tail with
    | nil => rfl
    | cons c tail =>
      have hc : ¬(c.isDigit = true ∧ 10 * n + digitValue c < Nat.pow 2 64) := by
        simp [htail c rfl]
      rw [List.nil_append, Number.takeBounded, if_neg hc]
      rfl
  | cons c ds ih =>
    rw [List.forall_mem_cons] at hds
    have hstep : foldDigits 10 n (c :: ds) = foldDigits 10 (10 * n + digitValue c) ds := by
      rw [← getD_hexDigit? hds.1]
      rfl
    rw [hstep] at hbound ⊢
    have hvalue := Nat.lt_of_le_of_lt (le_foldDigits ds _) hbound
    rw [List.cons_append, Number.takeBounded, if_pos ⟨hds.1, hvalue⟩, ih hds.2 hbound]
    rfl

/-- A number is not written with a zero in front, so a zero stands alone. -/
theorem eq_nil_of_digits_eq_zero_cons {n : Nat} {rest : List Char}
    (hdigits : digits n = '0' :: rest) : rest = [] := by
  by_contra hne
  have hrest : ∀ c ∈ rest, c.isDigit = true := by
    intro c hc
    apply isDigit_of_mem_digits (n := n)
    rw [hdigits]
    exact List.mem_cons_of_mem _ hc
  have hvalue : n = decimalValue rest := by
    rw [← decimalValue_digits n, hdigits]
    rfl
  have hlt := decimalValue_lt hrest
  rw [← hvalue] at hlt
  have hlength : (digits n).length ≤ rest.length :=
    (Nat.length_toDigits_le_iff (by decide) (List.length_pos_iff.2 hne)).2 hlt
  rw [hdigits, List.length_cons] at hlength
  omega

theorem no_leading_zero {n : Nat} {first : Char} {rest tail : List Char}
    (hdigits : digits n = first :: rest) (htail : NoDigit tail) :
    ¬(first = '0' ∧ (rest ++ tail).head?.any Char.isDigit = true) := by
  rintro ⟨rfl, hany⟩
  rw [eq_nil_of_digits_eq_zero_cons hdigits, List.nil_append] at hany
  cases tail with
  | nil => cases hany
  | cons c cs => simp [htail c rfl] at hany

theorem afterSign_digits {n : Nat} (hn : n < Nat.pow 2 64) (negative : Bool) {tail : List Char}
    (htail : Ends tail) :
    Number.afterSign negative (digits n ++ tail) = .ok (Number.ofInteger negative n, tail) := by
  have hdigits : ∀ c ∈ digits n, c.isDigit = true := fun c hc => isDigit_of_mem_digits hc
  have hno : NoDigit tail := fun c hc => (htail c hc).1
  have htaken : Number.takeBounded 0 (digits n ++ tail) = (n, (digits n).length, tail) := by
    have hvalue : foldDigits 10 0 (digits n) = n := decimalValue_digits n
    rw [takeBounded_digits hdigits (by rw [hvalue]; exact hn) hno, hvalue]
  cases hfirst : digits n with
  | nil => exact absurd hfirst Nat.toDigits_ne_nil
  | cons first rest =>
    rw [hfirst] at htaken hdigits
    have hzero := no_leading_zero hfirst hno
    rw [List.cons_append, Number.afterSign, if_neg hzero, if_pos (hdigits first List.mem_cons_self)]
    rw [List.cons_append] at htaken
    rw [htaken]
    cases tail with
    | nil => rfl
    | cons c cs =>
      obtain ⟨hdigit, hpoint, hlower, hupper⟩ := htail c rfl
      simp [hdigit]

/-- An integer in range is read from its text. -/
theorem read_intText {n : Int} (hn : IsKeptInt n) {tail : List Char} (htail : Ends tail) :
    Number.read ((intText n).toList ++ tail) = .ok (.int n, tail) := by
  rw [isKeptInt_iff] at hn
  have hbound : n.natAbs < Nat.pow 2 64 := show n.natAbs < 18446744073709551616 by omega
  have hdigits := afterSign_digits hbound (decide (n < 0)) htail
  by_cases hneg : n < 0
  · have hchars : (natText n.natAbs).toList = digits n.natAbs := String.toList_ofList
    rw [intText, if_pos hneg, String.toList_append, hchars]
    rw [decide_eq_true hneg] at hdigits
    have hkept : Number.ofInteger true n.natAbs = .int n := by
      have hrange : ¬(n.natAbs = 0 ∨ Nat.pow 2 63 < n.natAbs) :=
        show ¬(n.natAbs = 0 ∨ 9223372036854775808 < n.natAbs) by omega
      rw [Number.ofInteger, if_neg (by decide), if_neg hrange]
      congr 1
      omega
    rw [hkept] at hdigits
    exact hdigits
  · rw [intText, if_neg hneg, natText, String.toList_ofList]
    rw [decide_eq_false hneg] at hdigits
    have hkept : Number.ofInteger false n.natAbs = .int n := by
      rw [Number.ofInteger, if_pos (by rfl)]
      congr 1
      omega
    rw [hkept] at hdigits
    cases hfirst : digits n.natAbs with
    | nil => exact absurd hfirst Nat.toDigits_ne_nil
    | cons first rest =>
      have hdigit : first.isDigit = true := by
        apply isDigit_of_mem_digits (n := n.natAbs)
        rw [hfirst]
        exact List.mem_cons_self
      rw [hfirst] at hdigits
      rw [List.cons_append] at hdigits ⊢
      unfold Number.read
      split
      · next heq =>
        cases heq
        exact absurd hdigit (by decide)
      · exact hdigits

/-! ### Texts -/

theorem quad?_hexChar : ∀ n < 0x20, quad? (hexChar (n / 16 / 16 / 16 % 16))
    (hexChar (n / 16 / 16 % 16)) (hexChar (n / 16 % 16)) (hexChar (n % 16)) = some n := by
  decide

theorem unicodeEscape_lowDigits {c : Char} (hc : c.toNat < 0x20) (cs : List Char) :
    unicodeEscape (lowDigits hexChar 16 4 c.toNat ++ cs) = .ok (c, cs) := by
  have hquad : quad (lowDigits hexChar 16 4 c.toNat ++ cs) = .ok (c.toNat, cs) := by
    simp only [lowDigits, List.nil_append, List.cons_append, quad, quad?_hexChar c.toNat hc]
  have hlow : ¬(0xDC00 ≤ c.toNat ∧ c.toNat ≤ 0xDFFF) := by omega
  have hhigh : ¬(0xD800 ≤ c.toNat ∧ c.toNat ≤ 0xDBFF) := by omega
  rw [unicodeEscape, hquad]
  dsimp only [bind, Except.bind]
  rw [if_neg hlow, if_neg hhigh, Char.ofNat_toNat]
  rfl

theorem stringRest_escapeChar (fuel : Nat) (kept : List Char) (c : Char) (cs : List Char) :
    stringRest escape List.cons (fuel + 1) kept (escapeChar c ++ cs) =
      stringRest escape List.cons fuel (c :: kept) cs := by
  rw [escapeChar]
  split_ifs with h1 h2 h3 h4 h5 h6 h7 hcontrol
  · rw [h1]
    rfl
  · rw [h2]
    rfl
  · rw [h3]
    rfl
  · rw [h4]
    rfl
  · rw [h5]
    rfl
  · rw [h6]
    rfl
  · rw [h7]
    rfl
  · have hescape : escape ('u' :: (lowDigits hexChar 16 4 c.toNat ++ cs)) = .ok (c, cs) :=
      unicodeEscape_lowDigits hcontrol cs
    rw [List.cons_append, List.cons_append, stringRest, if_neg (by decide), if_pos rfl, hescape]
    rfl
  · rw [List.singleton_append, stringRest, if_neg h1, if_neg h2, if_neg hcontrol]

theorem stringRest_written {fuel : Nat} (cs kept tail : List Char) (hfuel : cs.length < fuel) :
    stringRest escape List.cons fuel kept (cs.flatMap escapeChar ++ '"' :: tail) =
      .ok (kept.reverse ++ cs, tail) := by
  induction cs generalizing fuel kept with
  | nil =>
    cases fuel with
    | zero => cases hfuel
    | succ fuel => rw [List.append_nil]; rfl
  | cons c cs ih =>
    cases fuel with
    | zero => cases hfuel
    | succ fuel =>
      have hrest := ih (c :: kept) (Nat.lt_of_succ_lt_succ hfuel)
      rw [List.flatMap_cons, List.append_assoc, stringRest_escapeChar, hrest, List.reverse_cons,
        List.append_assoc]
      rfl

theorem length_le_escaped (cs : List Char) : cs.length ≤ (cs.flatMap escapeChar).length := by
  induction cs with
  | nil => exact Nat.le_refl 0
  | cons c cs ih =>
    have hc : 0 < (escapeChar c).length := by
      rw [escapeChar]
      split_ifs <;> exact Nat.succ_pos _
    rw [List.flatMap_cons, List.length_append, List.length_cons]
    omega

/-- A text is read from what stands after its opening quote. -/
theorem string_written (s : String) (tail : List Char) :
    string (s.toList.flatMap escapeChar ++ '"' :: tail) = .ok (s, tail) := by
  have hfuel : s.toList.length < (s.toList.flatMap escapeChar ++ '"' :: tail).length + 1 := by
    have hlength := length_le_escaped s.toList
    rw [List.length_append]
    omega
  rw [string, stringRest_written s.toList [] tail hfuel, List.reverse_nil, List.nil_append]
  dsimp only [bind, Except.bind]
  rw [String.ofList_toList]
  rfl

theorem quoted_append (s : String) (tail : List Char) :
    quoted s ++ tail = '"' :: (s.toList.flatMap escapeChar ++ '"' :: tail) := by
  simp only [quoted, List.cons_append, List.append_assoc, List.nil_append]

end FleetConsole.Json.Read
