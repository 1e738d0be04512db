/-!
# Blank characters and trimming

Every place where the console trims text or asks whether it is empty uses one class, the characters
with the Unicode property `White_Space`. The class is a table of ten ranges, so that it holds
exactly the characters of the standard: the information separators `U+001C` to `U+001F` and the
zero-width space are not in it, the next-line control and the ideographic space are.
-/

namespace FleetConsole.Text

/-- The ranges of the Unicode property `White_Space`, both ends included, in order. -/
def blankRanges : List (Nat × Nat) :=
  [(0x09, 0x0D), (0x20, 0x20), (0x85, 0x85), (0xA0, 0xA0), (0x1680, 0x1680), (0x2000, 0x200A),
    (0x2028, 0x2029), (0x202F, 0x202F), (0x205F, 0x205F), (0x3000, 0x3000)]

/-- Whether a character has the Unicode property `White_Space`. -/
def isBlank (c : Char) : Bool :=
  blankRanges.any fun range => range.1 ≤ c.toNat && c.toNat ≤ range.2

def dropBlank (cs : List Char) : List Char :=
  cs.dropWhile isBlank

/-- Characters without those at the end that satisfy `p`. -/
def dropEndWhile (p : Char → Bool) (cs : List Char) : List Char :=
  (cs.reverse.dropWhile p).reverse

def trimChars (cs : List Char) : List Char :=
  dropEndWhile isBlank (dropBlank cs)

def trim (s : String) : String :=
  String.ofList (trimChars s.toList)

/-- A text without a given character at its end, however often it stands there. -/
def trimEnd (c : Char) (s : String) : String :=
  String.ofList (dropEndWhile (· = c) s.toList)

def isBlankText (s : String) : Bool :=
  s.toList.all isBlank

/-- The parts of a text between the characters that satisfy `p`; there is always at least one. -/
def splitChars (p : Char → Bool) : List Char → List (List Char)
  | [] => [[]]
  | c :: cs =>
    if p c then [] :: splitChars p cs
    else
      match splitChars p cs with
      | [] => [[c]]
      | part :: parts => (c :: part) :: parts

/-- Parts put together again with a separator between neighbours. -/
def joinWith (separator : String) : List String → String
  | [] => ""
  | [part] => part
  | part :: parts => part ++ separator ++ joinWith separator parts

/-- The text that follows a given beginning. -/
def afterStart? : List Char → List Char → Option (List Char)
  | [], cs => some cs
  | _ :: _, [] => none
  | d :: ds, c :: cs => if d = c then afterStart? ds cs else none

/-! ### Lemmas -/

theorem splitChars_ne_nil (p : Char → Bool) (cs : List Char) : splitChars p cs ≠ [] := by
  cases cs with
  | nil => simp [splitChars]
  | cons c cs =>
      rw [splitChars]
      split
      · simp
      · split <;> simp

end FleetConsole.Text
