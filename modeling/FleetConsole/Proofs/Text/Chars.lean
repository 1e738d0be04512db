import FleetConsole.Text.Blank
import FleetConsole.Text.Digits
import Mathlib.Data.Bool.AllAny
import Mathlib.Data.List.DropRight

/-!
# Trimming, splitting, letters and digits

A text is trimmed if it neither begins nor ends with a blank character. Trimming makes every text
so, and takes nothing from its inside. The parts of a text hold no separator, and putting a
separator between two texts puts their parts behind each other. Numbers are written with digits, and
with few of them if they are small.
-/

namespace FleetConsole.Text

/-! ### Trimming -/

/-- Characters of which neither the first nor the last is blank. -/
structure Trimmed (cs : List Char) : Prop where
  front : ∀ c, cs.head? = some c → isBlank c = false
  back : ∀ c, cs.getLast? = some c → isBlank c = false

theorem isPrefix_dropEndWhile (p : Char → Bool) (cs : List Char) : dropEndWhile p cs <+: cs :=
  List.rdropWhile_prefix p cs

theorem head?_dropWhile_false {p : Char → Bool} {cs : List Char} {c : Char}
    (hhead : (cs.dropWhile p).head? = some c) : p c = false := by
  have hnot := List.head?_dropWhile_not p cs
  rwa [hhead] at hnot

theorem getLast?_dropEndWhile_false {p : Char → Bool} {cs : List Char} {c : Char}
    (hlast : (dropEndWhile p cs).getLast? = some c) : p c = false := by
  rw [dropEndWhile, List.getLast?_reverse] at hlast
  exact head?_dropWhile_false hlast

theorem trimmed_trimChars (cs : List Char) : Trimmed (trimChars cs) where
  front c hhead := by
    obtain ⟨rest, hrest⟩ := isPrefix_dropEndWhile isBlank (dropBlank cs)
    apply head?_dropWhile_false
    rw [show cs.dropWhile isBlank = dropBlank cs from rfl, ← hrest, List.head?_append]
    rw [show (dropEndWhile isBlank (dropBlank cs)).head? = some c from hhead, Option.some_or]
  back c hlast := getLast?_dropEndWhile_false hlast

theorem dropEndWhile_eq_self {p : Char → Bool} {cs : List Char}
    (hlast : ∀ c, cs.getLast? = some c → p c = false) : dropEndWhile p cs = cs := by
  apply List.reverse_injective
  rw [dropEndWhile, List.reverse_reverse, List.dropWhile_eq_self_iff]
  intro hpos
  have hhead := List.getElem_mem hpos
  rw [hlast _ (by rw [← List.head?_reverse, List.head?_eq_getElem?, List.getElem?_eq_getElem hpos])]
  exact Bool.false_ne_true

theorem Trimmed.trimChars_eq_self {cs : List Char} (htrimmed : Trimmed cs) : trimChars cs = cs := by
  have hfront : dropBlank cs = cs := by
    rw [dropBlank, List.dropWhile_eq_self_iff]
    intro hpos
    rw [htrimmed.front _ (by rw [List.head?_eq_getElem?, List.getElem?_eq_getElem hpos])]
    exact Bool.false_ne_true
  rw [trimChars, hfront, dropEndWhile_eq_self htrimmed.back]

/-- What is left of a trimmed text has a character that is not blank, unless nothing is left. -/
theorem Trimmed.not_blank {s : String} (htrimmed : Trimmed s.toList) (hne : s ≠ "") :
    isBlankText s = false := by
  cases hchars : s.toList with
  | nil => exact absurd (String.toList_eq_nil_iff.1 hchars) hne
  | cons c cs =>
    have hfront := htrimmed.front c (by rw [hchars, List.head?_cons])
    simp [isBlankText, hchars, hfront]

/-! ### Beginnings and ends -/

section Ends

variable {p : Char → Bool} {c : Char}

theorem takeWhile_append_cons (hc : p c = false) (cs later : List Char) :
    (cs ++ c :: later).takeWhile p = cs.takeWhile p := by
  induction cs with
  | nil => simp [hc]
  | cons d cs ih =>
    rw [List.cons_append, List.takeWhile_cons, List.takeWhile_cons, ih]

theorem dropWhile_append_cons (hc : p c = false) (cs later : List Char) :
    (cs ++ c :: later).dropWhile p = cs.dropWhile p ++ c :: later := by
  induction cs with
  | nil => simp [hc]
  | cons d cs ih =>
    rw [List.cons_append, List.dropWhile_cons, List.dropWhile_cons, ih]
    split <;> rfl

section Stop

variable {cs : List Char} (hstop : cs.dropWhile p ≠ [])

include hstop

/-- Where dropping stops in the middle, what is behind does not matter. -/
theorem dropWhile_append_of_ne_nil (later : List Char) :
    (cs ++ later).dropWhile p = cs.dropWhile p ++ later := by
  rw [List.dropWhile_append, if_neg (by simpa using hstop)]

theorem takeWhile_append_of_ne_nil (later : List Char) :
    (cs ++ later).takeWhile p = cs.takeWhile p := by
  obtain ⟨d, rest, hrest⟩ := List.exists_cons_of_ne_nil hstop
  have hd : p d = false := head?_dropWhile_false (by rw [hrest, List.head?_cons])
  have hcs : cs = cs.takeWhile p ++ d :: rest := by rw [← hrest, List.takeWhile_append_dropWhile]
  rw [hcs, List.append_assoc, List.cons_append, takeWhile_append_cons hd, takeWhile_append_cons hd]

end Stop

theorem dropEndWhile_append_cons (hc : p c = false) (cs later : List Char) :
    dropEndWhile p (cs ++ c :: later) = cs ++ c :: dropEndWhile p later := by
  rw [dropEndWhile, List.reverse_append, List.reverse_cons, List.append_assoc,
    List.singleton_append, dropWhile_append_cons hc, List.reverse_append, List.reverse_cons,
    List.reverse_reverse, List.append_assoc, List.singleton_append]
  rfl

theorem rdropWhile_append_replicate {α : Type} {p : α → Bool} {a : α} (ha : p a = true)
    (xs : List α) (n : Nat) : (xs ++ List.replicate n a).rdropWhile p = xs.rdropWhile p := by
  induction n with
  | zero => rw [List.replicate_zero, List.append_nil]
  | succ n ih =>
    rw [List.replicate_succ', ← List.append_assoc, List.rdropWhile_concat_pos p _ a ha, ih]

theorem dropEndWhile_append_replicate (hc : p c = true) (cs : List Char) (n : Nat) :
    dropEndWhile p (cs ++ List.replicate n c) = dropEndWhile p cs :=
  rdropWhile_append_replicate hc cs n

/-- What is put back at an end that has been dropped is of the kind that was dropped, if the whole
is the same again. -/
theorem all_of_dropEndWhile_append {cs later : List Char}
    (hsame : dropEndWhile p cs ++ later = cs) : ∀ d ∈ later, p d = true := by
  have hends : dropEndWhile p cs ++ cs.rtakeWhile p = cs := List.rdropWhile_append_rtakeWhile
  have hlater : later = cs.rtakeWhile p := List.append_cancel_left (hsame.trans hends.symm)
  rw [hlater]
  exact fun d hd => List.mem_rtakeWhile_imp hd

theorem afterStart?_append (start cs : List Char) : afterStart? start (start ++ cs) = some cs := by
  induction start with
  | nil => rfl
  | cons d start ih => rw [List.cons_append, afterStart?, if_pos rfl, ih]

theorem afterStart?_eq_some {start cs rest : List Char} :
    afterStart? start cs = some rest ↔ cs = start ++ rest := by
  refine ⟨fun hrest => ?_, fun hcs => hcs ▸ afterStart?_append start rest⟩
  induction start generalizing cs with
  | nil => exact Option.some.inj hrest
  | cons d start ih =>
    cases cs with
    | nil => cases hrest
    | cons c cs =>
      rw [afterStart?] at hrest
      split_ifs at hrest with hc
      rw [hc, ih hrest, List.cons_append]

end Ends

/-! ### Small letters -/

/-- A character is its small letter unless it is a capital letter of ASCII. -/
theorem toLower_cases (c : Char) : c.toLower = c ∨
    c.toLower.toNat = c.toNat + 32 ∧ 65 ≤ c.toNat ∧ c.toNat ≤ 90 := by
  by_cases hupper : c.val ≥ 'A'.val ∧ c.val ≤ 'Z'.val
  · have hleast : 65 ≤ c.toNat := UInt32.le_iff_toNat_le.1 hupper.1
    have hgreatest : c.toNat ≤ 90 := UInt32.le_iff_toNat_le.1 hupper.2
    have hsmall : c.toLower.val = c.val + ('a'.val - 'A'.val) := congrArg Char.val (dif_pos hupper)
    refine .inr ⟨?_, hleast, hgreatest⟩
    change c.toLower.val.toNat = c.toNat + 32
    rw [hsmall, UInt32.toNat_add]
    exact Nat.mod_eq_of_lt (Nat.lt_of_le_of_lt (Nat.add_le_add_right hgreatest 32) (by decide))
  · exact .inl (dif_neg hupper)

theorem toLower_toLower (c : Char) : c.toLower.toLower = c.toLower := by
  rcases toLower_cases c with hsame | ⟨hsmall, hleast, -⟩
  · rw [hsame, hsame]
  · rcases toLower_cases c.toLower with hsame | ⟨-, -, hgreatest⟩
    · exact hsame
    · omega

/-! ### Controls and blanks -/

/-- What holds of each blank and control in ASCII holds of one of them. -/
theorem of_low {c : Char} (hlow : c.toNat ≤ 0x20) {p : Char → Bool}
    (hall : ((List.range 0x21).all fun n => p (Char.ofNat n)) = true) : p c = true := by
  have hc := List.all_eq_true.1 hall c.toNat (List.mem_range.2 (Nat.lt_succ_of_le hlow))
  rwa [Char.ofNat_toNat] at hc

theorem ne_of_low {c d : Char} (hlow : c.toNat ≤ 0x20) (hd : 0x20 < d.toNat) : c ≠ d := by
  rintro rfl
  exact absurd hlow (Nat.not_le.2 hd)

/-! ### Splitting -/

section Split

variable {p : Char → Bool}

theorem not_separator_of_mem_splitChars {cs part : List Char} (hpart : part ∈ splitChars p cs) :
    ∀ c ∈ part, p c = false := by
  induction cs generalizing part with
  | nil =>
    cases List.mem_singleton.1 hpart
    simp
  | cons d cs ih =>
    rw [splitChars] at hpart
    split_ifs at hpart with hd
    · rcases List.mem_cons.1 hpart with rfl | hpart
      · simp
      · exact ih hpart
    · cases hparts : splitChars p cs with
      | nil => exact absurd hparts (splitChars_ne_nil p cs)
      | cons first rest =>
        rw [hparts] at hpart ih
        rcases List.mem_cons.1 hpart with rfl | hpart
        · intro c hc
          rcases List.mem_cons.1 hc with rfl | hc
          · simpa using hd
          · exact ih List.mem_cons_self c hc
        · exact ih (List.mem_cons_of_mem _ hpart)

theorem splitChars_of_not_separator {cs : List Char} (hcs : ∀ c ∈ cs, p c = false) :
    splitChars p cs = [cs] := by
  induction cs with
  | nil => rfl
  | cons c cs ih =>
    rw [List.forall_mem_cons] at hcs
    rw [splitChars, if_neg (by simp [hcs.1]), ih hcs.2]

theorem splitChars_append {separator : Char} (hseparator : p separator = true)
    (cs later : List Char) :
    splitChars p (cs ++ separator :: later) = splitChars p cs ++ splitChars p later := by
  induction cs with
  | nil => simp [splitChars, hseparator]
  | cons c cs ih =>
    rw [List.cons_append, splitChars, splitChars, ih]
    by_cases hc : p c = true
    · simp [hc]
    · rw [if_neg hc, if_neg hc]
      cases hparts : splitChars p cs with
      | nil => exact absurd hparts (splitChars_ne_nil p cs)
      | cons first rest => rfl

/-- What follows the last separator goes to the last part. -/
theorem splitChars_append_last {later : List Char} (hlater : ∀ c ∈ later, p c = false)
    (cs : List Char) : ∃ front last, splitChars p cs = front ++ [last] ∧
      splitChars p (cs ++ later) = front ++ [last ++ later] := by
  induction cs with
  | nil => exact ⟨[], [], rfl, splitChars_of_not_separator hlater⟩
  | cons c cs ih =>
    obtain ⟨front, last, hshort, hlong⟩ := ih
    by_cases hc : p c = true
    · refine ⟨[] :: front, last, ?_, ?_⟩
      · rw [splitChars, if_pos hc, hshort, List.cons_append]
      · rw [List.cons_append, splitChars, if_pos hc, hlong, List.cons_append]
    · rw [List.cons_append, splitChars, splitChars, if_neg hc, if_neg hc, hshort, hlong]
      cases front with
      | nil => exact ⟨[], c :: last, rfl, rfl⟩
      | cons first front => exact ⟨(c :: first) :: front, last, rfl, rfl⟩

theorem exists_part_of_mem {cs : List Char} {c : Char} (hc : c ∈ cs) (hnot : p c = false) :
    ∃ part ∈ splitChars p cs, c ∈ part := by
  induction cs with
  | nil => cases hc
  | cons d cs ih =>
    by_cases hd : p d = true
    · have hcs : c ∈ cs := by
        rcases List.mem_cons.1 hc with rfl | hcs
        · exact absurd (hnot.symm.trans hd) Bool.false_ne_true
        · exact hcs
      obtain ⟨part, hpart, hmem⟩ := ih hcs
      rw [splitChars, if_pos hd]
      exact ⟨part, List.mem_cons_of_mem _ hpart, hmem⟩
    · rw [splitChars, if_neg hd]
      cases hparts : splitChars p cs with
      | nil => exact absurd hparts (splitChars_ne_nil p cs)
      | cons first rest =>
        rw [hparts] at ih
        rcases List.mem_cons.1 hc with rfl | hcs
        · exact ⟨_, List.mem_cons_self, List.mem_cons_self⟩
        · obtain ⟨part, hpart, hmem⟩ := ih hcs
          rcases List.mem_cons.1 hpart with rfl | hpart
          · exact ⟨_, List.mem_cons_self, List.mem_cons_of_mem _ hmem⟩
          · exact ⟨part, List.mem_cons_of_mem _ hpart, hmem⟩

end Split

/-! ### Digits -/

theorem isDigit_of_mem_digits {n : Nat} {c : Char} (hc : c ∈ digits n) : c.isDigit = true :=
  Nat.isDigit_of_mem_toDigits (by decide) (by decide) hc

theorem natText_injective {m n : Nat} (hsame : natText m = natText n) : m = n := by
  have hchars := congrArg String.toList hsame
  simp only [natText, digits, String.toList_ofList] at hchars
  have hnumber := congrArg (fun cs => Nat.ofDigitChars 10 cs 0) hchars
  simpa using hnumber

theorem length_natText_le {n width : Nat} (hwidth : 0 < width) (hn : n < Nat.pow 10 width) :
    (natText n).toList.length ≤ width := by
  rw [natText, String.toList_ofList]
  exact (Nat.length_toDigits_le_iff (by decide) hwidth).2 hn

theorem mem_intText {n : Int} {c : Char} (hc : c ∈ (intText n).toList) :
    c = '-' ∨ c.isDigit = true := by
  have hnat : ∀ m : Nat, c ∈ (natText m).toList → c.isDigit = true := by
    intro m hm
    rw [natText, String.toList_ofList] at hm
    exact isDigit_of_mem_digits hm
  rw [intText] at hc
  split_ifs at hc with hn
  · rw [String.toList_append, List.mem_append] at hc
    rcases hc with hc | hc
    · exact .inl (by simpa using hc)
    · exact .inr (hnat _ hc)
  · exact .inr (hnat _ hc)

end FleetConsole.Text
