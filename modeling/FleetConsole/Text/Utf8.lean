/-!
# Reading bytes as text

What a server sends as text need not be UTF-8. It is read all the same: a run of bytes that begins a
character but does not finish it is a misfit, and so is a byte that begins none. In what is shown, a
replacement character stands for each misfit. Bytes that are UTF-8 are read as what they are.
-/

namespace FleetConsole.Text

/-- What is shown in place of bytes that are no character. -/
def replacement : Char := '\ufffd'

/-- What the first byte of a character says: its own bits, how many bytes follow, and between which
bounds the next one lies. -/
structure Lead where
  bits : Nat
  followers : Nat
  low : Nat := 0x80
  high : Nat := 0xBF
  deriving DecidableEq, Repr, Inhabited

/-- What a byte says if it can begin a character. The bounds leave out numbers that a shorter form
has, surrogates, and what is beyond the last character. -/
def lead? (b : Nat) : Option Lead :=
  if b < 0x80 then some { bits := b, followers := 0 }
  else if b < 0xC2 then none
  else if b < 0xE0 then some { bits := b - 0xC0, followers := 1 }
  else if b < 0xF0 then
    some ⟨b - 0xE0, 2, if b = 0xE0 then 0xA0 else 0x80, if b = 0xED then 0x9F else 0xBF⟩
  else if b < 0xF5 then
    some ⟨b - 0xF0, 3, if b = 0xF0 then 0x90 else 0x80, if b = 0xF4 then 0x8F else 0xBF⟩
  else none

/-- The number of a character whose first bits are known, if it is finished, and the bytes after
what was read of it. -/
def finish (low high : Nat) : Nat → Nat → List UInt8 → Option Nat × List UInt8
  | 0, bits, rest => (some bits, rest)
  | _ + 1, _, [] => (none, [])
  | followers + 1, bits, b :: rest =>
    if low ≤ b.toNat ∧ b.toNat ≤ high then
      finish 0x80 0xBF followers (64 * bits + (b.toNat - 0x80)) rest
    else (none, b :: rest)

theorem length_finish_le (low high followers bits : Nat) (bytes : List UInt8) :
    (finish low high followers bits bytes).2.length ≤ bytes.length := by
  induction followers generalizing low high bits bytes with
  | zero => simp [finish]
  | succ n ih =>
      cases bytes with
      | nil => simp [finish]
      | cons b rest =>
          rw [finish]
          split
          · exact Nat.le_succ_of_le (ih ..)
          · simp

/-- The characters of bytes, with some characters in place of each misfit. -/
def charsWith (misfit : List Char) : List UInt8 → List Char
  | [] => []
  | b :: rest =>
    match lead? b.toNat with
    | none => misfit ++ charsWith misfit rest
    | some lead =>
      let step := finish lead.low lead.high lead.followers lead.bits rest
      ((step.1.map fun n => [Char.ofNat n]).getD misfit) ++ charsWith misfit step.2
termination_by bytes => bytes.length
decreasing_by
  · simp
  · exact Nat.lt_succ_of_le (length_finish_le ..)

def lenientChars (bytes : List UInt8) : List Char := charsWith [replacement] bytes

def lenientText (bytes : List UInt8) : String :=
  String.ofList (lenientChars bytes)

def strictText? (bytes : List UInt8) : Option String :=
  String.fromUTF8? (ByteArray.mk bytes.toArray)

end FleetConsole.Text
