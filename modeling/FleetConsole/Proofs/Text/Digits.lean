import FleetConsole.Proofs.Text.Chars
import Mathlib.Tactic.SplitIfs

/-!
# Reading written numbers back

The digits of a number spell the number (`decimalValue_digits`), and zeros in front of them change
nothing (`decimalValue_padZeros`). A reader takes the run of digits in front of it, so it takes
exactly the written ones where no further digit follows.
-/

namespace FleetConsole.Text

/-! ### Values -/

theorem foldDigits_eq_ofDigitChars {cs : List Char} (hcs : ∀ c ∈ cs, c.isDigit = true)
    (start : Nat) : foldDigits 10 start cs = Nat.ofDigitChars 10 cs start := by
  induction cs generalizing start with
  | nil => rfl
  | cons c cs ih =>
    rw [List.forall_mem_cons] at hcs
    have hc : hexDigit? c = some (c.toNat - '0'.toNat) := if_pos hcs.1
    rw [Nat.ofDigitChars_cons, ← ih hcs.2, foldDigits, List.foldl_cons, hc]
    rfl

theorem decimalValue_digits (n : Nat) : decimalValue (digits n) = n := by
  rw [decimalValue, foldDigits_eq_ofDigitChars fun c hc => isDigit_of_mem_digits hc]
  exact Nat.ofDigitChars_ten_toDigits

theorem decimalValue_padZeros (width n : Nat) : decimalValue (padZeros width n) = n := by
  have hzeros : ∀ count, foldDigits 10 0 (List.replicate count '0') = 0 := by
    intro count
    induction count with
    | zero => rfl
    | succ count ih => exact ih
  rw [padZeros, decimalValue, foldDigits, List.foldl_append]
  rw [show List.foldl _ 0 (List.replicate (width - (digits n).length) '0') = 0 from hzeros _]
  exact decimalValue_digits n

theorem getD_hexDigit? {c : Char} (hc : c.isDigit = true) :
    (hexDigit? c).getD 0 = digitValue c := by
  rw [hexDigit?, digitValue, if_pos hc, if_pos hc]
  rfl

theorem digitValue_lt {c : Char} (hc : c.isDigit = true) : digitValue c < 10 := by
  rw [digitValue, if_pos hc]
  rw [Char.isDigit, Bool.and_eq_true, decide_eq_true_eq, decide_eq_true_eq] at hc
  have hhigh : c.toNat ≤ 57 := hc.2
  have hzero : '0'.toNat = 48 := rfl
  omega

theorem decimalValue_lt {cs : List Char} (hcs : ∀ c ∈ cs, c.isDigit = true) :
    decimalValue cs < Nat.pow 10 cs.length := by
  have hfold : ∀ (ds : List Char) (start : Nat), (∀ c ∈ ds, c.isDigit = true) →
      foldDigits 10 start ds < (start + 1) * Nat.pow 10 ds.length := by
    intro ds
    induction ds with
    | nil =>
      intro start _
      simp [foldDigits]
    | cons c ds ih =>
      intro start hds
      rw [List.forall_mem_cons] at hds
      have hc := digitValue_lt hds.1
      calc foldDigits 10 start (c :: ds)
          = foldDigits 10 (10 * start + digitValue c) ds := by rw [← getD_hexDigit? hds.1]; rfl
        _ < (10 * start + digitValue c + 1) * Nat.pow 10 ds.length := ih _ hds.2
        _ ≤ ((start + 1) * 10) * Nat.pow 10 ds.length := Nat.mul_le_mul_right _ (by omega)
        _ = (start + 1) * Nat.pow 10 (c :: ds).length := by
          rw [Nat.mul_assoc, List.length_cons, Nat.pow_eq, Nat.pow_eq, ← Nat.pow_succ']
  simpa [decimalValue] using hfold cs 0 hcs

theorem nat?_digits (n : Nat) : nat? (digits n) = some n := by
  have hne : (digits n).isEmpty = false := List.isEmpty_eq_false_iff.2 Nat.toDigits_ne_nil
  have hall : (digits n).all Char.isDigit = true :=
    List.all_eq_true.2 fun c hc => isDigit_of_mem_digits hc
  rw [nat?, hne, hall, decimalValue_digits]
  rfl

/-- Where a number begins with a digit, it has no sign. -/
theorem int?_of_isDigit {c : Char} {cs : List Char} {n : Nat} (hc : c.isDigit = true)
    (hread : nat? (c :: cs) = some n) : int? (c :: cs) = some (n : Int) := by
  unfold int?
  split
  · next heq =>
    cases heq
    cases hc
  · next heq =>
    cases heq
    cases hc
  · rw [hread]
    rfl

theorem int?_intText (n : Int) : int? (intText n).toList = some n := by
  have hdigits := nat?_digits n.natAbs
  rw [intText]
  split_ifs with hn
  · have hchars : ("-" ++ natText n.natAbs).toList = '-' :: digits n.natAbs := by
      rw [String.toList_append, natText]
      exact congrArg (['-'] ++ ·) String.toList_ofList
    have hread : int? ('-' :: digits n.natAbs) = some (-(n.natAbs : Int)) := by
      rw [int?, hdigits]
      rfl
    rw [hchars, hread, Option.some.injEq]
    omega
  · rw [natText, String.toList_ofList]
    cases hchars : digits n.natAbs with
    | nil => exact absurd hchars Nat.toDigits_ne_nil
    | cons c cs =>
      have hc : c.isDigit = true := isDigit_of_mem_digits (hchars ▸ List.mem_cons_self)
      rw [int?_of_isDigit hc (hchars ▸ hdigits), Option.some.injEq]
      omega

/-! ### Runs of digits -/

theorem isDigit_of_mem_padZeros {width n : Nat} {c : Char} (hc : c ∈ padZeros width n) :
    c.isDigit = true := by
  rcases List.mem_append.1 hc with hc | hc
  · rw [List.eq_of_mem_replicate hc]
    rfl
  · exact isDigit_of_mem_digits hc

theorem length_padZeros {width n : Nat} (hwidth : 0 < width) (hn : n < Nat.pow 10 width) :
    (padZeros width n).length = width := by
  have hdigits : (digits n).length ≤ width := (Nat.length_toDigits_le_iff (by decide) hwidth).2 hn
  rw [padZeros, List.length_append, List.length_replicate]
  omega

theorem padZeros_ne_nil (width n : Nat) : padZeros width n ≠ [] := by
  rw [padZeros, ne_eq, List.append_eq_nil_iff, not_and]
  intro _
  exact Nat.toDigits_ne_nil

theorem isBlank_of_isDigit {c : Char} (hc : c.isDigit = true) : isBlank c = false := by
  rw [Char.isDigit, Bool.and_eq_true, decide_eq_true_eq, decide_eq_true_eq] at hc
  have hlow : 48 ≤ c.toNat := hc.1
  have hhigh : c.toNat ≤ 57 := hc.2
  simp only [isBlank, blankRanges, List.any_cons, List.any_nil, Bool.or_false, Bool.or_eq_false_iff,
    Bool.and_eq_false_iff, decide_eq_false_iff_not]
  omega

/-- The first character is not a digit, or there is none. -/
def NoDigit (cs : List Char) : Prop := ∀ c, cs.head? = some c → c.isDigit = false

theorem takeWhile_isDigit_append {ds rest : List Char} (hds : ∀ c ∈ ds, c.isDigit = true)
    (hrest : NoDigit rest) : (ds ++ rest).takeWhile Char.isDigit = ds := by
  rw [List.takeWhile_append_of_pos hds]
  cases rest with
  | nil => exact List.append_nil ds
  | cons c rest => rw [List.takeWhile_cons_of_neg (by simp [hrest c rfl]), List.append_nil]

theorem dropBlank_cons {c : Char} (hc : isBlank c = false) (cs : List Char) :
    dropBlank (c :: cs) = c :: cs :=
  List.dropWhile_cons_of_neg (by simp [hc])

theorem dropBlank_digits_append {ds : List Char} (hds : ∀ c ∈ ds, c.isDigit = true) (hne : ds ≠ [])
    (rest : List Char) : dropBlank (ds ++ rest) = ds ++ rest := by
  cases ds with
  | nil => exact absurd rfl hne
  | cons d ds => exact dropBlank_cons (isBlank_of_isDigit (hds d List.mem_cons_self)) _

end FleetConsole.Text
