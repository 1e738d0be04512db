import FleetConsole.Proofs.Text.Chars
import FleetConsole.Proofs.Url.Form
import FleetConsole.Url.Parse
import Mathlib.Tactic.Tauto

/-!
# Paths with more names at the end

A path is read segment by segment, and dots in it take back what was kept before them. Of a path
that goes on with a slash and plain names, the same segments are kept whatever the names are, and
the names stay behind them (`pathAfterHost_slashed`). The last segment of a path that does not go on
is read differently if it consists of dots, but only in that it leaves a slash at the end
(`pathAfterHost_end`).
-/

namespace FleetConsole.Url

open Text

/-! ### Plain names -/

/-- A character that stands for itself in every part of an address. -/
def IsPlain (c : Char) : Prop := c.isLower = true ∨ c.isDigit = true ∨ c = '-'

instance (c : Char) : Decidable (IsPlain c) := inferInstanceAs (Decidable (_ ∨ _ ∨ _))

theorem isPlain_of_all {cs : List Char} (hall : cs.all (fun c => IsPlain c) = true) :
    ∀ c ∈ cs, IsPlain c :=
  fun c hc => of_decide_eq_true (List.all_eq_true.1 hall c hc)

/-- The marks that delimit the parts of an address or are encoded in one of them. -/
def marks : List Char :=
  ['/', '\\', '?', '#', '%', '.', ' ', '"', '<', '>', '\'', '\x60', '\x7b', '\x7d']

section Plain

variable {c : Char} (hplain : IsPlain c)

include hplain

theorem IsPlain.toNat_cases :
    (97 ≤ c.toNat ∧ c.toNat ≤ 122) ∨ (48 ≤ c.toNat ∧ c.toNat ≤ 57) ∨ c.toNat = 45 := by
  rcases hplain with hlower | hdigit | rfl
  · change (decide (c.val ≥ 'a'.val) && decide (c.val ≤ 'z'.val)) = true at hlower
    simp only [Bool.and_eq_true, decide_eq_true_iff, ge_iff_le, UInt32.le_iff_toNat_le] at hlower
    exact .inl hlower
  · simp only [Char.isDigit, Bool.and_eq_true, decide_eq_true_iff, ge_iff_le,
      UInt32.le_iff_toNat_le] at hdigit
    exact .inr (.inl hdigit)
  · exact .inr (.inr rfl)

theorem IsPlain.toLower : c.toLower = c := by
  have hcases := hplain.toNat_cases
  have hupper : ¬ (c.val ≥ 'A'.val ∧ c.val ≤ 'Z'.val) := by
    change ¬ (65 ≤ c.toNat ∧ c.toNat ≤ 90)
    omega
  exact dif_neg hupper

theorem IsPlain.ne_mark : ∀ d ∈ marks, c ≠ d := by
  rintro d hd rfl
  have hnone : marks.all (fun d => !decide (IsPlain d)) = true := by decide
  simpa [hplain] using List.all_eq_true.1 hnone c hd

theorem IsPlain.not_isControl : isControl c = false := by
  have hcases := hplain.toNat_cases
  rw [isControl, Bool.or_eq_false_iff, decide_eq_false_iff_not, decide_eq_false_iff_not]
  omega

theorem IsPlain.not_encoded :
    inPath c = false ∧ inSpecialQuery c = false ∧ inFragment c = false := by
  have hmarks := hplain.ne_mark
  simp only [marks, List.forall_mem_cons] at hmarks
  simp [inPath, inSpecialQuery, inQuery, inFragment, hplain.not_isControl, hmarks]

theorem IsPlain.not_delimiter : (c = '/' || c = '\\') = false ∧ c ≠ '?' ∧ c ≠ '#' := by
  have hmarks := hplain.ne_mark
  simp only [marks, List.forall_mem_cons] at hmarks
  simp [hmarks]

end Plain

theorem percentEncode_eq_self {isEncoded : Char → Bool} {cs : List Char}
    (hcs : ∀ c ∈ cs, isEncoded c = false) : percentEncode isEncoded cs = cs := by
  induction cs with
  | nil => rfl
  | cons c cs ih =>
    rw [List.forall_mem_cons] at hcs
    rw [percentEncode, List.flatMap_cons, ← percentEncode, ih hcs.2]
    simp [hcs.1]

theorem percentEncode_append (isEncoded : Char → Bool) (cs later : List Char) :
    percentEncode isEncoded (cs ++ later) =
      percentEncode isEncoded cs ++ percentEncode isEncoded later := List.flatMap_append

/-- Names as they stand in a path. -/
def slashed (names : List (List Char)) : List Char := names.flatMap fun name => '/' :: name

theorem slashed_cons (name : List Char) (names : List (List Char)) :
    slashed (name :: names) = '/' :: name ++ slashed names := rfl

theorem slashed_singleton (name : List Char) : slashed [name] = '/' :: name := by
  rw [slashed_cons]
  exact List.append_nil _

theorem mem_slashed {names : List (List Char)} {c : Char} (hc : c ∈ slashed names) :
    c = '/' ∨ ∃ name ∈ names, c ∈ name := by
  obtain ⟨name, hname, hmem⟩ := List.mem_flatMap.1 hc
  rcases List.mem_cons.1 hmem with rfl | hmem
  · exact .inl rfl
  · exact .inr ⟨name, hname, hmem⟩

theorem slashed_append (names others : List (List Char)) :
    slashed (names ++ others) = slashed names ++ slashed others := List.flatMap_append

/-! ### Dots -/

/-- Whether a segment stands for itself. -/
def IsName (segment : List Char) : Prop := isAbove segment = false ∧ isHere segment = false

/-- What stands for the directory itself or for the one above it, in small letters. -/
def dots : List (List Char) :=
  [".".toList, "%2e".toList, "..".toList, "%2e.".toList, ".%2e".toList, "%2e%2e".toList]

theorem isName_iff {segment : List Char} : IsName segment ↔ segment.map Char.toLower ∉ dots := by
  simp only [IsName, isAbove, isHere, dots, Bool.or_eq_false_iff, decide_eq_false_iff_not,
    List.mem_cons, List.not_mem_nil, or_false, not_or]
  tauto

theorem isName_of_plain {segment : List Char} (hplain : ∀ c ∈ segment, IsPlain c) :
    IsName segment := by
  have hlower : segment.map Char.toLower = segment := by
    rw [List.map_congr_left fun c hc => (hplain c hc).toLower, List.map_id'']
    exact fun _ => rfl
  have hmarks : ∀ target ∈ dots, '.' ∈ target ∨ '%' ∈ target := by decide
  rw [isName_iff, hlower]
  intro hdots
  rcases hmarks segment hdots with hmark | hmark
  · exact (hplain _ hmark).ne_mark '.' (by decide) rfl
  · exact (hplain _ hmark).ne_mark '%' (by decide) rfl

theorem resolveDots_cons {rest : List (List Char)} (hrest : rest ≠ []) (kept : List (List Char))
    (segment : List Char) : resolveDots kept (segment :: rest) =
      if isAbove segment then resolveDots kept.dropLast rest
      else if isHere segment then resolveDots kept rest
      else resolveDots (kept ++ [segment]) rest := by
  cases rest with
  | nil => exact absurd rfl hrest
  | cons next rest => rfl

theorem resolveDots_names (kept : List (List Char)) {names : List (List Char)}
    (hnames : ∀ name ∈ names, IsName name) : resolveDots kept names = kept ++ names := by
  induction names generalizing kept with
  | nil => rw [resolveDots, List.append_nil]
  | cons name names ih =>
    rw [List.forall_mem_cons] at hnames
    by_cases hlast : names = []
    · simp [hlast, resolveDots, hnames.1.1, hnames.1.2]
    · have hrest := ih (kept ++ [name]) hnames.2
      rw [resolveDots_cons hlast, hnames.1.1, hnames.1.2, if_neg (by simp), if_neg (by simp), hrest,
        List.append_assoc]
      rfl

/-- One segment more, which is not the last one. -/
def keepNext (kept : List (List Char)) (segment : List Char) : List (List Char) :=
  if isAbove segment then kept.dropLast else if isHere segment then kept else kept ++ [segment]

theorem keepNext_of_isName {segment : List Char} (hname : IsName segment)
    (kept : List (List Char)) : keepNext kept segment = kept ++ [segment] := by
  rw [keepNext, hname.1, hname.2]
  rfl

/-- Names behind segments stay when dots are resolved, whatever the segments are. -/
theorem resolveDots_append {names : List (List Char)} (hsome : names ≠ [])
    (hnames : ∀ name ∈ names, IsName name) (kept segments : List (List Char)) :
    resolveDots kept (segments ++ names) = segments.foldl keepNext kept ++ names := by
  -- Dots in front may take away what was kept, but never reach the names behind them.
  induction segments generalizing kept with
  | nil => exact resolveDots_names kept hnames
  | cons segment segments ih =>
    rw [List.cons_append, resolveDots_cons (by simp [hsome]), ih, ih, ih, List.foldl_cons, keepNext]
    split_ifs <;> rfl

/-- Dots at the end leave a slash. -/
theorem resolveDots_concat (kept segments : List (List Char)) (last : List Char) :
    resolveDots kept (segments ++ [last]) = segments.foldl keepNext kept ++ [last] ∧
        IsName last ∨
      resolveDots kept (segments ++ [last]) = (segments ++ [last]).foldl keepNext kept ++ [[]] := by
  induction segments generalizing kept with
  | nil =>
    rw [List.nil_append, resolveDots, List.foldl_cons, List.foldl_nil, List.foldl_nil, keepNext]
    by_cases habove : isAbove last = true
    · exact .inr (by rw [if_pos habove, if_pos habove])
    · by_cases hhere : isHere last = true
      · exact .inr (by rw [if_neg habove, if_neg habove, if_pos hhere, if_pos hhere])
      · rw [if_neg habove, if_neg hhere]
        exact .inl ⟨rfl, by simpa using habove, by simpa using hhere⟩
  | cons segment segments ih =>
    rw [List.cons_append, resolveDots_cons (by simp), List.foldl_cons, List.foldl_cons, keepNext]
    split_ifs <;> exact ih _

/-! ### Segments -/

/-- What separates the segments of a path on a host. -/
def isSlash (c : Char) : Bool := c = '/' || (true && c = '\\')

/-- The segments of a path as they are written. -/
def written : List Char → List (List Char)
  | [] => []
  | c :: cs =>
    (splitChars isSlash (if isSlash c then cs else c :: cs)).map (percentEncode inPath)

/-- The segments that are kept of a path if it goes on. -/
def keptOf (cs : List Char) : List (List Char) := (written cs).foldl keepNext []

theorem pathAfterHost_of_ne_nil {cs : List Char} (hsome : cs ≠ []) :
    pathAfterHost true cs = .segments (resolveDots [] (written cs)) := by
  cases cs with
  | nil => exact absurd rfl hsome
  | cons c cs =>
    have hslash : (c = '/' ∨ ((true : Bool) = true ∧ c = '\\')) ↔ isSlash c = true := by
      simp [isSlash]
    rw [pathAfterHost, written]
    by_cases hc : isSlash c = true
    · rw [if_pos (hslash.2 hc), if_pos hc]
      rfl
    · rw [if_neg (mt hslash.1 hc), if_neg hc]
      rfl

/-- A segment that is kept as it is written. -/
structure Stays (segment : List Char) : Prop where
  whole : ∀ c ∈ segment, isSlash c = false
  unencoded : ∀ c ∈ segment, inPath c = false
  isName : IsName segment

theorem stays_of_plain {segment : List Char} (hplain : ∀ c ∈ segment, IsPlain c) :
    Stays segment where
  whole c hc := (hplain c hc).not_delimiter.1
  unencoded c hc := (hplain c hc).not_encoded.1
  isName := isName_of_plain hplain

theorem stays_nil : Stays [] := stays_of_plain (by simp)

theorem splitChars_slashed {p : Char → Bool} (hslash : p '/' = true) {name : List Char}
    {names : List (List Char)} (hnames : ∀ other ∈ name :: names, ∀ c ∈ other, p c = false) :
    splitChars p (name ++ slashed names) = name :: names := by
  induction names generalizing name with
  | nil =>
    rw [slashed, List.flatMap_nil, List.append_nil]
    exact splitChars_of_not_separator (hnames name List.mem_cons_self)
  | cons next names ih =>
    rw [List.forall_mem_cons] at hnames
    rw [slashed_cons, List.cons_append, splitChars_append hslash,
      splitChars_of_not_separator hnames.1, ih hnames.2]
    rfl

section Names

variable {names : List (List Char)} (hsome : names ≠ []) (hstay : ∀ name ∈ names, Stays name)

include hsome hstay

theorem written_slashed (cs : List Char) : written (cs ++ slashed names) = written cs ++ names := by
  have hslash : isSlash '/' = true := rfl
  have hencoded : names.map (percentEncode inPath) = names := by
    rw [List.map_congr_left fun name hname => percentEncode_eq_self (hstay name hname).unencoded,
      List.map_id'']
    exact fun _ => rfl
  obtain ⟨name, later, rfl⟩ := List.exists_cons_of_ne_nil hsome
  have hsplit := splitChars_slashed hslash fun other hother => (hstay other hother).whole
  cases cs with
  | nil =>
    change written ('/' :: (name ++ slashed later)) = name :: later
    rw [written, if_pos hslash, hsplit, hencoded]
  | cons c cs =>
    have hmore : ∀ front : List Char, splitChars isSlash (front ++ slashed (name :: later)) =
        splitChars isSlash front ++ name :: later := by
      intro front
      rw [slashed_cons, List.cons_append, splitChars_append hslash, hsplit]
    rw [List.cons_append, written, written]
    split_ifs
    · rw [hmore, List.map_append, hencoded]
    · rw [← List.cons_append, hmore, List.map_append, hencoded]

/-- Names behind a path are its last segments. -/
theorem pathAfterHost_slashed (cs : List Char) :
    pathAfterHost true (cs ++ slashed names) = .segments (keptOf cs ++ names) := by
  have hnonempty : cs ++ slashed names ≠ [] := by
    obtain ⟨name, later, rfl⟩ := List.exists_cons_of_ne_nil hsome
    simp [slashed_cons]
  rw [pathAfterHost_of_ne_nil hnonempty, written_slashed hsome hstay,
    resolveDots_append hsome fun name hname => (hstay name hname).isName, keptOf]

end Names

/-! ### The end of a path -/

/-- Characters without a slash go to the last segment. -/
theorem written_append_last {cs later : List Char} (hsome : cs ≠ [])
    (hlater : ∀ c ∈ later, isSlash c = false) : ∃ front last, written cs = front ++ [last] ∧
      written (cs ++ later) = front ++ [last ++ percentEncode inPath later] := by
  obtain ⟨c, cs, rfl⟩ := List.exists_cons_of_ne_nil hsome
  have hinner : (if isSlash c = true then cs ++ later else c :: (cs ++ later)) =
      (if isSlash c = true then cs else c :: cs) ++ later := by
    split_ifs <;> rfl
  obtain ⟨front, last, hshort, hlong⟩ := splitChars_append_last hlater
    (if isSlash c = true then cs else c :: cs)
  refine ⟨front.map (percentEncode inPath), percentEncode inPath last, ?_, ?_⟩
  · rw [written, hshort, List.map_append, List.map_singleton]
  · rw [List.cons_append, written, hinner, hlong, List.map_append, List.map_singleton,
      percentEncode_append]

theorem slashed_replicate (n : Nat) : slashed (List.replicate n []) = List.replicate n '/' := by
  induction n with
  | zero => rfl
  | succ n ih =>
    rw [List.replicate_succ, List.replicate_succ, slashed_cons, ih]
    rfl

/-- A path that does not go on ends with what is kept of it, or with slashes behind that. -/
theorem pathAfterHost_end (cs : List Char) (count : Nat) :
    ∃ slashes, pathAfterHost true (cs ++ List.replicate count '/') =
      .segments (keptOf cs ++ List.replicate slashes []) := by
  cases count with
  | succ count =>
    have hstay : ∀ name ∈ List.replicate (count + 1) ([] : List Char), Stays name := by
      intro name hname
      rw [List.eq_of_mem_replicate hname]
      exact stays_nil
    exact ⟨count + 1, by rw [← slashed_replicate, pathAfterHost_slashed (by simp) hstay]⟩
  | zero =>
    rw [List.replicate_zero, List.append_nil]
    by_cases hnil : cs = []
    · rw [hnil]
      exact ⟨1, rfl⟩
    · have hlater : ∀ c ∈ ([] : List Char), isSlash c = false := by simp
      obtain ⟨front, last, hwritten, -⟩ := written_append_last hnil hlater
      rw [pathAfterHost_of_ne_nil hnil, keptOf, hwritten]
      rcases resolveDots_concat [] front last with ⟨hresolved, hname⟩ | hresolved
      · refine ⟨0, ?_⟩
        rw [hresolved, List.foldl_append, List.foldl_cons, List.foldl_nil, keepNext_of_isName hname,
          List.replicate_zero, List.append_nil]
      · exact ⟨1, by rw [hresolved]; rfl⟩

/-! ### Blanks at the end of a path -/

/-- A blank or a control as it is written makes a name of every segment that ends in it. -/
theorem isName_of_low {b : UInt8} (hlow : b.toNat ≤ 0x20) (front : List Char) :
    IsName (front ++ percentByte b) := by
  have hnone : ∀ n ∈ List.range 0x21, ∀ target ∈ dots,
      ¬(percentByte (UInt8.ofNat n)).map Char.toLower <:+ target := by decide
  rw [isName_iff, List.map_append]
  intro hdots
  refine hnone b.toNat (List.mem_range.2 (Nat.lt_succ_of_le hlow)) _ hdots ?_
  rw [UInt8.ofNat_toNat]
  exact List.suffix_append _ _

theorem length_slashed_keepNext (kept : List (List Char)) (segment : List Char) :
    (slashed (keepNext kept segment)).length ≤ (slashed kept).length + segment.length + 1 := by
  rw [keepNext]
  split_ifs
  · obtain ⟨last, hlast⟩ := kept.dropLast_prefix
    have hlength := congrArg (fun names => (slashed names).length) hlast
    simp only [slashed_append, List.length_append] at hlength
    omega
  · omega
  · rw [slashed_append, slashed_singleton, List.length_append, List.length_cons]
    omega

/-- Blanks and controls are written as their bytes in a path. -/
theorem exists_percentEncode_low {blanks : List Char} (hblanks : blanks ≠ [])
    (hlow : ∀ c ∈ blanks, c.toNat ≤ 0x20) :
    ∃ front b, percentEncode inPath blanks = front ++ percentByte b ∧ b.toNat ≤ 0x20 := by
  obtain ⟨init, c, rfl⟩ := (List.eq_nil_or_concat' blanks).resolve_left hblanks
  have hc : c.toNat ≤ 0x20 := hlow c (by simp)
  refine ⟨percentEncode inPath init, UInt8.ofNat c.toNat, ?_, ?_⟩
  · rw [percentEncode_append, percentEncode, percentEncode, List.flatMap_singleton,
      if_pos (of_low hc (by decide)), utf8Bytes_of_ascii (by omega), List.flatMap_singleton]
  · rw [toNat_ofNat (by omega)]
    exact hc

/-- Blanks behind a path are kept, so it is longer than without them when it goes on. -/
theorem length_keptOf_blanks {cs blanks : List Char} (hsome : cs ≠ []) (hblanks : blanks ≠ [])
    (hlow : ∀ c ∈ blanks, c.toNat ≤ 0x20) :
    (pathAfterHost true cs).chars.length < (slashed (keptOf (cs ++ blanks))).length := by
  have hwhole : ∀ c ∈ blanks, isSlash c = false := by
    intro c hc
    simpa using of_low (hlow c hc) (p := fun c => !isSlash c) (by decide)
  obtain ⟨front, last, hshort, hlong⟩ := written_append_last hsome hwhole
  obtain ⟨encoded, b, hencoded, hb⟩ := exists_percentEncode_low hblanks hlow
  have hname : IsName (last ++ percentEncode inPath blanks) := by
    rw [hencoded, ← List.append_assoc]
    exact isName_of_low hb _
  have hlength : 3 ≤ (percentEncode inPath blanks).length := by
    rw [hencoded, List.length_append, percentByte_eq]
    simp
  have hkept : (slashed (keptOf (cs ++ blanks))).length =
      (slashed (front.foldl keepNext [])).length + 1 + last.length +
        (percentEncode inPath blanks).length := by
    rw [keptOf, hlong, List.foldl_append, List.foldl_cons, List.foldl_nil,
      keepNext_of_isName hname, slashed_append, slashed_singleton, List.length_append,
      List.length_cons, List.length_append]
    omega
  have hnext := length_slashed_keepNext (front.foldl keepNext []) last
  have hpath : (pathAfterHost true cs).chars =
      slashed (resolveDots [] (front ++ [last])) := by
    rw [pathAfterHost_of_ne_nil hsome, hshort]
    rfl
  rw [hkept, hpath]
  rcases resolveDots_concat [] front last with ⟨hresolved, -⟩ | hresolved
  · rw [hresolved, slashed_append, slashed_singleton, List.length_append, List.length_cons]
    omega
  · rw [hresolved, List.foldl_append, List.foldl_cons, List.foldl_nil, slashed_append,
      slashed_singleton, List.length_append, List.length_singleton]
    omega

end FleetConsole.Url
