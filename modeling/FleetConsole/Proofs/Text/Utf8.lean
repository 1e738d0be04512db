import FleetConsole.Text.Utf8
import Mathlib.Tactic.SplitIfs

/-!
# Reading UTF-8 back

The bytes of a text are read as this text, also by a reader that puts something in place of what it
cannot read (`charsWith_encodeUtf8`). It suffices that the reader takes the bytes of one character
off the front of any bytes: the first byte says how many follow, and between which bounds the next
one lies (`lead?_two`, `lead?_three`, `lead?_four`).
-/

namespace FleetConsole.Text

/-! ### Byte arrays -/

theorem toList_loop (bytes : ByteArray) (i : Nat) (front : List UInt8) :
    ByteArray.toList.loop bytes i front = front.reverse ++ bytes.data.toList.drop i := by
  fun_induction ByteArray.toList.loop bytes i front with
  | case1 i front hi ih =>
    have hlength : i < bytes.data.toList.length := by simpa using hi
    rw [ih, List.drop_eq_getElem_cons hlength]
    simp [ByteArray.get!, hi]
  | case2 i front hi =>
    rw [List.drop_eq_nil_of_le (by simpa using Nat.le_of_not_lt hi), List.append_nil]

theorem toList_toByteArray (bytes : List UInt8) : bytes.toByteArray.toList = bytes := by
  rw [ByteArray.toList, toList_loop, List.toList_data_toByteArray]
  rfl

/-- The bytes of characters. -/
def encodeUtf8 (cs : List Char) : List UInt8 := cs.flatMap String.utf8EncodeChar

theorem toList_toUTF8 (s : String) : s.toUTF8.toList = encodeUtf8 s.toList := by
  have hbytes : s.toUTF8 = (encodeUtf8 s.toList).toByteArray := by
    rw [String.toUTF8, ← s.ofList_toList, String.toByteArray_ofList, String.toList_ofList]
    rfl
  rw [hbytes, toList_toByteArray]

theorem encodeUtf8_of_strictText? {bytes : List UInt8} {s : String}
    (htext : strictText? bytes = some s) : encodeUtf8 s.toList = bytes := by
  rw [strictText?, String.fromUTF8?] at htext
  split_ifs at htext with hvalid
  have hbytes : s.toUTF8 = ByteArray.mk bytes.toArray := by
    rw [← Option.some.inj htext]
    rfl
  rw [← toList_toUTF8, hbytes, ByteArray.toList, toList_loop]
  simp

/-! ### Characters of bytes -/

theorem toNat_ofNat {n : Nat} (hn : n < 0x100) : (UInt8.ofNat n).toNat = n :=
  UInt8.toNat_ofNat_of_lt hn

theorem lead?_one {b : Nat} (hb : b < 0x80) : lead? b = some { bits := b, followers := 0 } :=
  if_pos hb

theorem lead?_two {b : Nat} (hlow : 0xC2 ≤ b) (hhigh : b < 0xE0) :
    lead? b = some { bits := b - 0xC0, followers := 1 } := by
  rw [lead?, if_neg (by omega), if_neg (by omega), if_pos hhigh]

theorem lead?_three {b : Nat} (hlow : 0xE0 ≤ b) (hhigh : b < 0xF0) :
    lead? b = some ⟨b - 0xE0, 2, if b = 0xE0 then 0xA0 else 0x80,
      if b = 0xED then 0x9F else 0xBF⟩ := by
  rw [lead?, if_neg (by omega), if_neg (by omega), if_neg (by omega), if_pos hhigh]

theorem lead?_four {b : Nat} (hlow : 0xF0 ≤ b) (hhigh : b < 0xF5) :
    lead? b = some ⟨b - 0xF0, 3, if b = 0xF0 then 0x90 else 0x80,
      if b = 0xF4 then 0x8F else 0xBF⟩ := by
  rw [lead?, if_neg (by omega), if_neg (by omega), if_neg (by omega), if_neg (by omega),
    if_pos hhigh]

theorem finish_cons {low high followers bits n : Nat} (hn : n < 0x100) (hlow : low ≤ n)
    (hhigh : n ≤ high) (rest : List UInt8) :
    finish low high (followers + 1) bits (UInt8.ofNat n :: rest) =
      finish 0x80 0xBF followers (64 * bits + (n - 0x80)) rest := by
  rw [finish, toNat_ofNat hn, if_pos ⟨hlow, hhigh⟩]

theorem charsWith_cons (misfit : List Char) {n : Nat} (hn : n < 0x100) {lead : Lead}
    (hlead : lead? n = some lead) {bits : Nat} {bytes rest : List UInt8}
    (hfinish : finish lead.low lead.high lead.followers lead.bits bytes = (some bits, rest)) :
    charsWith misfit (UInt8.ofNat n :: bytes) = Char.ofNat bits :: charsWith misfit rest := by
  rw [charsWith, toNat_ofNat hn]
  simp only [hlead, hfinish, Option.map_some, Option.getD_some, List.singleton_append]

theorem charsWith_encodeChar (misfit : List Char) (c : Char) (rest : List UInt8) :
    charsWith misfit (String.utf8EncodeChar c ++ rest) = c :: charsWith misfit rest := by
  have hchar : Char.ofNat c.toNat = c := Char.ofNat_toNat c
  have hvalid : c.toNat < 0xD800 ∨ (0xDFFF < c.toNat ∧ c.toNat < 0x110000) := c.valid
  rw [String.utf8EncodeChar, show c.val.toNat = c.toNat from rfl]
  generalize c.toNat = n at hchar hvalid ⊢
  subst hchar
  split_ifs with hone htwo hthree
  · exact charsWith_cons misfit (by omega) (lead?_one (by omega)) rfl
  · have hfinish : finish 0x80 0xBF 1 (n / 64 % 32 + 192 - 0xC0)
        (UInt8.ofNat (n % 64 + 128) :: rest) = (some n, rest) := by
      have hbits : 64 * (n / 64 % 32 + 192 - 0xC0) + (n % 64 + 128 - 0x80) = n := by omega
      rw [finish_cons (by omega) (by omega) (by omega), finish, hbits]
    exact charsWith_cons misfit (by omega) (lead?_two (by omega) (by omega)) hfinish
  · -- The bounds on the second byte leave out what two bytes can say and the surrogates.
    have hfinish : finish (if n / 4096 % 16 + 224 = 0xE0 then 0xA0 else 0x80)
        (if n / 4096 % 16 + 224 = 0xED then 0x9F else 0xBF) 2 (n / 4096 % 16 + 224 - 0xE0)
        (UInt8.ofNat (n / 64 % 64 + 128) :: UInt8.ofNat (n % 64 + 128) :: rest) =
          (some n, rest) := by
      have hbits : 64 * (64 * (n / 4096 % 16 + 224 - 0xE0) + (n / 64 % 64 + 128 - 0x80)) +
          (n % 64 + 128 - 0x80) = n := by omega
      rw [finish_cons (by omega) (by split_ifs <;> omega) (by split_ifs <;> omega),
        finish_cons (by omega) (by omega) (by omega), finish, hbits]
    exact charsWith_cons misfit (by omega) (lead?_three (by omega) (by omega)) hfinish
  · -- Here they leave out what three bytes can say and what is beyond the last character.
    have hfinish : finish (if n / 262144 % 8 + 240 = 0xF0 then 0x90 else 0x80)
        (if n / 262144 % 8 + 240 = 0xF4 then 0x8F else 0xBF) 3 (n / 262144 % 8 + 240 - 0xF0)
        (UInt8.ofNat (n / 4096 % 64 + 128) :: UInt8.ofNat (n / 64 % 64 + 128) ::
          UInt8.ofNat (n % 64 + 128) :: rest) = (some n, rest) := by
      have hbits : 64 * (64 * (64 * (n / 262144 % 8 + 240 - 0xF0) + (n / 4096 % 64 + 128 - 0x80)) +
          (n / 64 % 64 + 128 - 0x80)) + (n % 64 + 128 - 0x80) = n := by omega
      rw [finish_cons (by omega) (by split_ifs <;> omega) (by split_ifs <;> omega),
        finish_cons (by omega) (by omega) (by omega), finish_cons (by omega) (by omega) (by omega),
        finish, hbits]
    exact charsWith_cons misfit (by omega) (lead?_four (by omega) (by omega)) hfinish

/-- The bytes of characters are read as these characters. -/
theorem charsWith_encodeUtf8 (misfit cs : List Char) : charsWith misfit (encodeUtf8 cs) = cs := by
  induction cs with
  | nil => rw [encodeUtf8, List.flatMap_nil, charsWith]
  | cons c cs ih => rw [encodeUtf8, List.flatMap_cons, charsWith_encodeChar, ← encodeUtf8, ih]

theorem lenientChars_encodeUtf8 (cs : List Char) : lenientChars (encodeUtf8 cs) = cs :=
  charsWith_encodeUtf8 _ cs

end FleetConsole.Text
