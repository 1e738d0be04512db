import FleetConsole.Proofs.Text.Chars
import FleetConsole.Proofs.Text.Utf8
import FleetConsole.Url.Form
import Mathlib.Tactic.IntervalCases

/-!
# Form encoding can be read back

Whoever decodes a form gets the names and values that were encoded, in their order
(`decode_encode`). The two halves of this are stated apart. A name or a value is read back from its
characters (`decodeText_encodeText`), because a plus sign stands for a blank only and a percent sign
always has two digits behind it. Pairs are found again because no name and no value has one of the
two marks between them in its encoded form (`not_mark_of_mem_encodeText`).
-/

namespace FleetConsole.Url

open Text

/-! ### Percent signs -/

theorem utf8Bytes_eq (c : Char) : utf8Bytes c = String.utf8EncodeChar c := by
  rw [utf8Bytes, toList_toUTF8, String.toList_singleton, encodeUtf8, List.flatMap_singleton]

theorem utf8Bytes_of_ascii {c : Char} (hc : c.toNat < 0x80) :
    utf8Bytes c = [UInt8.ofNat c.toNat] := by
  rw [utf8Bytes_eq, String.utf8EncodeChar]
  exact if_pos (Nat.le_of_lt_succ hc)

theorem percentDecode_cons {b : UInt8} (hb : b ≠ 0x25) (rest : List UInt8) :
    percentDecode (b :: rest) = b :: percentDecode rest := by
  match rest with
  | [] | [_] => rfl
  | _ :: _ :: _ => rw [percentDecode, if_neg hb]

theorem upperHexChar_spec {n : Nat} (hn : n < 16) : (upperHexChar n).toNat < 0x80 ∧
    Form.isPlain (upperHexChar n) = true ∧ hexDigit? (upperHexChar n) = some n := by
  interval_cases n <;> decide

theorem percentByte_eq (b : UInt8) :
    percentByte b = ['%', upperHexChar (b.toNat / 16), upperHexChar (b.toNat % 16)] := by
  have hhigh : b.toNat / 16 % 16 = b.toNat / 16 := Nat.mod_eq_of_lt (by have := b.toNat_lt; omega)
  simp only [percentByte, lowDigits, hhigh, List.nil_append, List.cons_append]

/-- A byte as it is written is decoded as this byte. -/
theorem percentDecode_percentByte (b : UInt8) (rest : List UInt8) :
    percentDecode ((percentByte b).flatMap utf8Bytes ++ rest) = b :: percentDecode rest := by
  have hb := b.toNat_lt
  obtain ⟨hhigh, -, hhighDigit⟩ := upperHexChar_spec (n := b.toNat / 16) (by omega)
  obtain ⟨hlow, -, hlowDigit⟩ := upperHexChar_spec (n := b.toNat % 16) (by omega)
  have hback : ∀ c : Char, c.toNat < 0x80 → Char.ofNat (UInt8.ofNat c.toNat).toNat = c := by
    intro c hc
    rw [toNat_ofNat (by omega), Char.ofNat_toNat]
  have hbyte : UInt8.ofNat (16 * (b.toNat / 16) + b.toNat % 16) = b := by
    rw [Nat.div_add_mod, UInt8.ofNat_toNat]
  simp only [percentByte_eq, List.flatMap_cons, List.flatMap_nil, utf8Bytes_of_ascii hhigh,
    utf8Bytes_of_ascii hlow, utf8Bytes_of_ascii (show '%'.toNat < 0x80 by decide),
    List.cons_append, List.nil_append]
  rw [percentDecode, if_pos (by decide), hback _ hhigh, hback _ hlow, hhighDigit, hlowDigit]
  exact congrArg (· :: percentDecode rest) hbyte

namespace Form

/-! ### Names and values -/

/-- The bytes that the characters of a name or a value stand for. -/
def decodeBytes (cs : List Char) : List UInt8 :=
  percentDecode ((cs.map fun c => if c = '+' then ' ' else c).flatMap utf8Bytes)

theorem isPlain_ascii {c : Char} (hc : isPlain c = true) :
    c.toNat < 0x80 ∧ c ≠ '+' ∧ c ≠ '%' ∧ c ≠ '&' ∧ c ≠ '=' := by
  have hne : ∀ d, isPlain d = false → c ≠ d := by
    rintro d hd rfl
    exact Bool.false_ne_true (hd.symm.trans hc)
  refine ⟨?_, hne _ (by decide), hne _ (by decide), hne _ (by decide), hne _ (by decide)⟩
  change ((decide (c.val ≥ 'A'.val ∧ c.val ≤ 'Z'.val) || c.val ≥ 'a'.val && c.val ≤ 'z'.val ||
    c.val ≥ '0'.val && c.val ≤ '9'.val) || c = '*' || c = '-' || c = '.' || c = '_') = true at hc
  simp only [Bool.or_eq_true, Bool.and_eq_true, decide_eq_true_eq, ge_iff_le,
    UInt32.le_iff_toNat_le] at hc
  rcases hc with ((((((⟨-, hc⟩ | ⟨-, hc⟩) | ⟨-, hc⟩) | rfl) | rfl) | rfl) | rfl)
  · exact Nat.lt_of_le_of_lt hc (by decide)
  · exact Nat.lt_of_le_of_lt hc (by decide)
  · exact Nat.lt_of_le_of_lt hc (by decide)
  all_goals decide

theorem percentBytes_decoded (bytes : List UInt8) (rest : List Char) :
    decodeBytes (bytes.flatMap percentByte ++ rest) = bytes ++ decodeBytes rest := by
  induction bytes with
  | nil => rfl
  | cons b bytes ih =>
    have hkept : (percentByte b).map (fun c => if c = '+' then ' ' else c) = percentByte b := by
      have hb := b.toNat_lt
      obtain ⟨-, hhigh, -⟩ := upperHexChar_spec (n := b.toNat / 16) (by omega)
      obtain ⟨-, hlow, -⟩ := upperHexChar_spec (n := b.toNat % 16) (by omega)
      simp [percentByte_eq, (isPlain_ascii hhigh).2.1, (isPlain_ascii hlow).2.1]
    rw [List.flatMap_cons, List.append_assoc, decodeBytes, List.map_append, List.flatMap_append,
      hkept, percentDecode_percentByte, ← decodeBytes, ih, List.cons_append]

theorem decodeBytes_encodeChar (c : Char) (rest : List Char) :
    decodeBytes (encodeChar c ++ rest) = String.utf8EncodeChar c ++ decodeBytes rest := by
  rw [encodeChar]
  split_ifs with hplain hblank
  · obtain ⟨hascii, hplus, hpercent, -⟩ := isPlain_ascii hplain
    have hbyte : UInt8.ofNat c.toNat ≠ 0x25 := by
      intro hsame
      have hnumber := congrArg UInt8.toNat hsame
      rw [toNat_ofNat (by omega)] at hnumber
      exact hpercent (Char.toNat_inj.1 hnumber)
    rw [List.singleton_append, decodeBytes, List.map_cons, List.flatMap_cons, if_neg hplus,
      ← utf8Bytes_eq, utf8Bytes_of_ascii hascii, List.singleton_append, percentDecode_cons hbyte]
    rfl
  · subst hblank
    rw [List.singleton_append, decodeBytes, List.map_cons, List.flatMap_cons, if_pos rfl,
      ← utf8Bytes_eq, utf8Bytes_of_ascii (by decide), List.singleton_append,
      percentDecode_cons (by decide)]
    rfl
  · rw [percentBytes_decoded, utf8Bytes_eq]

theorem decodeText_encodeText (s : String) : decodeText (encodeText s) = s := by
  have hbytes : ∀ cs : List Char, decodeBytes (cs.flatMap encodeChar) = encodeUtf8 cs := by
    intro cs
    induction cs with
    | nil => rfl
    | cons c cs ih =>
      rw [List.flatMap_cons, decodeBytes_encodeChar, ih, encodeUtf8, encodeUtf8,
        List.flatMap_cons]
  rw [decodeText, ← decodeBytes, encodeText, hbytes, lenientText, lenientChars_encodeUtf8,
    String.ofList_toList]

/-! ### Pairs -/

theorem not_mark_of_mem_encodeText {s : String} {c : Char} (hc : c ∈ encodeText s) :
    c ≠ '&' ∧ c ≠ '=' := by
  obtain ⟨d, -, hc⟩ := List.mem_flatMap.1 hc
  rw [encodeChar] at hc
  split_ifs at hc with hplain
  · rw [List.mem_singleton.1 hc]
    exact (isPlain_ascii hplain).2.2.2
  · rw [List.mem_singleton.1 hc]
    decide
  · obtain ⟨b, -, hc⟩ := List.mem_flatMap.1 hc
    have hb := b.toNat_lt
    rw [percentByte_eq, List.mem_cons, List.mem_cons, List.mem_singleton] at hc
    rcases hc with rfl | rfl | rfl
    · decide
    · exact (isPlain_ascii (upperHexChar_spec (by omega)).2.1).2.2.2
    · exact (isPlain_ascii (upperHexChar_spec (by omega)).2.1).2.2.2

theorem not_ampersand_of_mem_encodePair {pair : String × String} {c : Char}
    (hc : c ∈ encodePair pair) : c ≠ '&' := by
  rw [encodePair, List.mem_append, List.mem_cons] at hc
  rcases hc with hc | rfl | hc
  · exact (not_mark_of_mem_encodeText hc).1
  · decide
  · exact (not_mark_of_mem_encodeText hc).1

theorem decodePair_encodePair (pair : String × String) : decodePair (encodePair pair) = pair := by
  have hname : ∀ c ∈ encodeText pair.1, decide (c ≠ '=') = true :=
    fun c hc => decide_eq_true (not_mark_of_mem_encodeText hc).2
  rw [decodePair, encodePair, List.takeWhile_append_of_pos hname,
    List.dropWhile_append_of_pos hname, List.takeWhile_cons_of_neg (by simp),
    List.dropWhile_cons_of_neg (by simp), List.append_nil, List.tail_cons, decodeText_encodeText,
    decodeText_encodeText]

/-- Forms behind each other with an ampersand between them. -/
theorem decode_append (cs later : List Char) :
    decode (cs ++ '&' :: later) = decode cs ++ decode later := by
  rw [decode, splitChars_append (by decide), List.filter_append, List.map_append]
  rfl

theorem decode_encodePair (pair : String × String) : decode (encodePair pair) = [pair] := by
  have hsplit : splitChars (· = '&') (encodePair pair) = [encodePair pair] :=
    splitChars_of_not_separator fun c hc => by simp [not_ampersand_of_mem_encodePair hc]
  have hsome : (encodePair pair).isEmpty = false := by simp [encodePair]
  rw [decode, hsplit, List.filter_cons_of_pos (by simp [hsome]), List.filter_nil,
    List.map_singleton, decodePair_encodePair]

theorem decode_encode (pairs : List (String × String)) : decode (encode pairs) = pairs := by
  fun_induction encode pairs with
  | case1 => rfl
  | case2 pair => exact decode_encodePair pair
  | case3 pair pairs _ ih => rw [decode_append, decode_encodePair, ih, List.singleton_append]

end Form

end FleetConsole.Url
