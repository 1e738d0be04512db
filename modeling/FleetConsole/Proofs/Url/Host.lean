import FleetConsole.Proofs.Except
import FleetConsole.Proofs.Url.Form
import FleetConsole.Url.Parse
import Mathlib.Tactic.SplitIfs

/-!
# No host ends in a blank

A blank behind a host, or a control, is not passed over: it stands for itself among the bytes of the
host (`percentDecode_concat`), it is kept when a domain is written in ASCII (`mem_labelToAscii?`),
and no domain may have it. So what has one at the end of its authority is no address
(`afterSlashes_blank`).
-/

namespace FleetConsole.Url

open Text

/-! ### Bytes of a host -/

theorem percentDecode_of_no_digits {b c d : UInt8} (rest : List UInt8)
    (hdigits : ∀ high low, hexDigit? (Char.ofNat c.toNat) = some high →
      hexDigit? (Char.ofNat d.toNat) = some low → False) :
    percentDecode (b :: c :: d :: rest) = b :: percentDecode (c :: d :: rest) := by
  rw [percentDecode]
  split_ifs
  · split
    · rename_i high low hhigh hlow
      exact absurd hlow fun hlow => hdigits high low hhigh hlow
    · rfl
  · rfl

/-- A byte that is no digit is not part of what a percent sign stands for. -/
theorem percentDecode_concat {b : UInt8} (hb : hexDigit? (Char.ofNat b.toNat) = none)
    (bytes : List UInt8) : percentDecode (bytes ++ [b]) = percentDecode bytes ++ [b] := by
  fun_induction percentDecode bytes with
  | case1 c d rest high low hhigh hlow ih =>
    rw [List.cons_append, List.cons_append, List.cons_append, percentDecode, if_pos rfl, hhigh,
      hlow, List.cons_append, ← ih]
  | case2 c d rest hdigits ih =>
    exact (percentDecode_of_no_digits _ hdigits).trans (congrArg (0x25 :: ·) ih)
  | case3 first c d rest hfirst ih =>
    exact (percentDecode_cons hfirst _).trans (congrArg (first :: ·) ih)
  | case4 first rest hshort ih =>
    have hfirst : percentDecode (first :: (rest ++ [b])) =
        first :: percentDecode (rest ++ [b]) := by
      rcases rest with _ | ⟨c, _ | ⟨d, rest⟩⟩
      · rfl
      · exact percentDecode_of_no_digits [] fun high low _ hlow => by simp [hb] at hlow
      · exact absurd rfl (hshort c d rest)
    exact hfirst.trans (congrArg (first :: ·) ih)
  | case5 => rfl

/-- A character that is ASCII is the last one if its byte is. -/
theorem getLast?_of_encodeUtf8 {cs : List Char} {c : Char} (hc : c.toNat < 0x80)
    (hlast : (encodeUtf8 cs).getLast? = some (UInt8.ofNat c.toNat)) : cs.getLast? = some c := by
  rcases List.eq_nil_or_concat' cs with rfl | ⟨front, d, rfl⟩
  · cases hlast
  · have hsome : String.utf8EncodeChar d ≠ [] := String.utf8EncodeChar_ne_nil
    rw [encodeUtf8, List.flatMap_append, List.flatMap_singleton, List.getLast?_append,
      List.getLast?_eq_some_getLast hsome, Option.some_or, ← List.getLast?_eq_some_getLast hsome,
      String.utf8EncodeChar] at hlast
    -- The last byte of a character that is not ASCII is at least 0x80.
    have hlarge : ∀ m, some (UInt8.ofNat (m % 64 + 128)) ≠ some (UInt8.ofNat c.toNat) := by
      intro m hsame
      have hnumber := congrArg UInt8.toNat (Option.some.inj hsame)
      rw [toNat_ofNat (by omega), toNat_ofNat (by omega)] at hnumber
      omega
    split_ifs at hlast with hascii
    · rw [List.getLast?_singleton, Option.some.injEq] at hlast
      have hnumber := congrArg UInt8.toNat hlast
      rw [toNat_ofNat (Nat.lt_of_le_of_lt hascii (by decide)), toNat_ofNat (by omega)] at hnumber
      rw [List.getLast?_concat, Char.toNat_inj.1 hnumber]
    all_goals exact absurd hlast (hlarge _)

/-! ### Domains -/

namespace Punycode

/-- What is written of a label is never taken back. -/
theorem written_prefix_place (label : List Char) (basic : Nat) (codes : List Nat) (n : Nat)
    (p : Progress) : p.written <+: (place label basic codes n p).written := by
  have hpass : ∀ (m : Nat) (cs : List Char) (q : Progress),
      q.written <+: (cs.foldl (pass basic m) q).written := by
    intro m cs
    induction cs with
    | nil => exact fun q => List.prefix_refl _
    | cons c cs ih =>
      intro q
      refine List.IsPrefix.trans ?_ (ih (pass basic m q c))
      rw [pass]
      split_ifs
      · exact List.prefix_refl _
      · exact List.prefix_append _ _
      · exact List.prefix_refl _
  induction codes generalizing n p with
  | nil => exact List.prefix_refl _
  | cons m codes ih =>
    rw [place]
    refine List.IsPrefix.trans ?_ (ih _ _)
    exact hpass m label { p with delta := p.delta + (m - n) * (p.placed + 1) }

theorem mem_encode {label : List Char} {c : Char} (hc : c ∈ label) (hascii : c.toNat < 0x80) :
    c ∈ encode label := by
  have hmem : c ∈ label.filter fun c => c.toNat < 0x80 :=
    List.mem_filter.2 ⟨hc, decide_eq_true hascii⟩
  have hsome : (label.filter fun c => c.toNat < 0x80).isEmpty = false := by
    simpa using List.ne_nil_of_mem hmem
  rw [encode]
  refine (written_prefix_place _ _ _ _ _).subset ?_
  rw [hsome]
  exact List.mem_append_left _ hmem

end Punycode

namespace Domain

theorem mapChar_of_low {c : Char} (hlow : c.toNat ≤ 0x20) : mapChar c = some [c] :=
  of_decide_eq_true (of_low hlow (p := fun c => mapChar c = some [c]) (by decide))

theorem mem_labelToAscii? {label ascii : List Char} {c : Char} (hc : c ∈ label)
    (hascii : c.toNat < 0x80) (hlabel : labelToAscii? label = some ascii) : c ∈ ascii := by
  rw [labelToAscii?] at hlabel
  split at hlabel
  · obtain ⟨decoded, -, hkept⟩ := Option.bind_eq_some_iff.1 hlabel
    dsimp only at hkept
    split_ifs at hkept
    cases hkept
    exact hc
  · split_ifs at hlabel
    · cases hlabel
      exact hc
    · cases hlabel
      exact List.mem_append_right _ (Punycode.mem_encode hc hascii)

theorem exists_of_mapM {α β : Type} {f : α → Option β} {xs : List α} {ys : List β}
    (hmap : xs.mapM f = some ys) {x : α} (hx : x ∈ xs) : ∃ y ∈ ys, f x = some y := by
  induction xs generalizing ys with
  | nil => cases hx
  | cons z xs ih =>
    rw [List.mapM_cons] at hmap
    obtain ⟨y, hy, hmap⟩ := Option.bind_eq_some_iff.1 hmap
    obtain ⟨later, hlater, hmap⟩ := Option.bind_eq_some_iff.1 hmap
    cases hmap
    rcases List.mem_cons.1 hx with rfl | hx
    · exact ⟨y, List.mem_cons_self, hy⟩
    · obtain ⟨w, hw, hfw⟩ := ih hlater hx
      exact ⟨w, List.mem_cons_of_mem _ hw, hfw⟩

theorem mem_intercalate {separator part : List Char} {parts : List (List Char)} {c : Char}
    (hpart : part ∈ parts) (hc : c ∈ part) : c ∈ separator.intercalate parts := by
  induction parts with
  | nil => cases hpart
  | cons first parts ih =>
    cases parts with
    | nil =>
      rw [List.intercalate_singleton, ← List.mem_singleton.1 hpart]
      exact hc
    | cons next parts =>
      rw [List.intercalate_cons_cons, List.append_assoc, List.mem_append, List.mem_append]
      rcases List.mem_cons.1 hpart with rfl | hpart
      · exact .inl hc
      · exact .inr (.inr (ih hpart))

/-- No domain has a blank or a control in it. -/
theorem toAscii?_eq_none {cs : List Char} {c : Char} (hc : c ∈ cs) (hlow : c.toNat ≤ 0x20) :
    toAscii? cs = none := by
  rw [Option.eq_none_iff_forall_ne_some]
  intro name hname
  obtain ⟨mapped, hmapped, hname⟩ := Option.bind_eq_some_iff.1 hname
  obtain ⟨labels, hlabels, hname⟩ := Option.bind_eq_some_iff.1 hname
  obtain ⟨chars, hchars, hkept⟩ := exists_of_mapM hmapped hc
  rw [mapChar_of_low hlow] at hkept
  cases hkept
  have hnot : decide (c = '.') = false := by
    rw [decide_eq_false_iff_not]
    rintro rfl
    exact absurd hlow (by decide)
  obtain ⟨part, hpart, hmem⟩ := exists_part_of_mem (p := (· = '.'))
    (List.mem_flatten.2 ⟨[c], hchars, List.mem_singleton_self c⟩) hnot
  obtain ⟨label, hlabel, hascii⟩ := exists_of_mapM hlabels hpart
  have hlast : c ∈ ['.'].intercalate labels :=
    mem_intercalate hlabel (mem_labelToAscii? hmem (by omega) hascii)
  have hforbidden : (['.'].intercalate labels).any isForbidden = true :=
    List.any_eq_true.2 ⟨c, hlast, by simp [isForbidden, hlow]⟩
  dsimp only at hname
  rw [if_pos hforbidden] at hname
  cases hname

end Domain

/-! ### Authorities -/

section Blank

variable {c : Char} (hlow : c.toNat ≤ 0x20)

include hlow

theorem hexDigit?_of_low : hexDigit? c = none :=
  of_decide_eq_true (of_low hlow (p := fun c => hexDigit? c = none) (by decide))

theorem inBrackets?_blank {cs : List Char} {inner : Except ParseError (List Char)}
    (hinner : Host.inBrackets? (cs ++ [c]) = some inner) : inner = .error .invalidIPv6 := by
  have hlast : (cs ++ [c]).getLast? = some c := List.getLast?_concat
  unfold Host.inBrackets? at hinner
  split at hinner
  · rename_i rest hcs
    have hne : rest.getLast? ≠ some ']' := by
      intro hbracket
      rw [hcs, List.getLast?_cons, hbracket, Option.some.injEq] at hlast
      exact ne_of_low hlow (by decide) hlast.symm
    rw [if_neg hne] at hinner
    exact (Option.some.inj hinner).symm
  · cases hinner

theorem Host.parse_blank (cs : List Char) (host : Host) : Host.parse (cs ++ [c]) ≠ .ok host := by
  intro hread
  rw [Host.parse] at hread
  cases hbrackets : Host.inBrackets? (cs ++ [c]) with
  | some inner =>
    rw [hbrackets, inBrackets?_blank hlow hbrackets] at hread
    cases hread
  | none =>
    have hbyte : Char.ofNat (UInt8.ofNat c.toNat).toNat = c := by
      rw [toNat_ofNat (by omega), Char.ofNat_toNat]
    have hbytes : percentDecode ((cs ++ [c]).flatMap utf8Bytes) =
        percentDecode (cs.flatMap utf8Bytes) ++ [UInt8.ofNat c.toNat] := by
      rw [List.flatMap_append, List.flatMap_singleton, utf8Bytes_of_ascii (by omega),
        percentDecode_concat (by rw [hbyte, hexDigit?_of_low hlow])]
    rw [hbrackets] at hread
    simp only [hbytes] at hread
    split at hread
    · cases hread
    · rename_i decoded hdecoded
      have hlast : (encodeUtf8 decoded.toList).getLast? = some (UInt8.ofNat c.toNat) := by
        rw [encodeUtf8_of_strictText? hdecoded, List.getLast?_concat]
      have hmem := List.mem_of_getLast? (getLast?_of_encodeUtf8 (by omega) hlast)
      rw [Domain.toAscii?_eq_none hmem hlow] at hread
      cases hread

theorem readPort_blank (cs : List Char) (port : Option Nat) :
    readPort (cs ++ [c]) ≠ .ok port := by
  intro hread
  have hdigit : c.isDigit = false :=
    Bool.not_eq_true' _ ▸ of_low hlow (p := fun c => !c.isDigit) (by decide)
  have hsome : (cs ++ [c]).isEmpty = false := by simp
  have hnone : nat? (cs ++ [c]) = none := by simp [nat?, hdigit]
  rw [readPort, hsome, hnone] at hread
  cases hread

/-- What follows a host belongs to it, or to its port if there is a place for one. -/
theorem splitHost_concat (inside : Bool) (cs : List Char) :
    (∃ host, splitHost inside (cs ++ [c]) = (host ++ [c], [])) ∨
      ∃ host port, splitHost inside (cs ++ [c]) = (host, ':' :: (port ++ [c])) := by
  have hcolon : c ≠ ':' := ne_of_low hlow (by decide)
  induction cs generalizing inside with
  | nil => exact .inl ⟨[], by simp [splitHost, hcolon]⟩
  | cons d cs ih =>
    rw [List.cons_append, splitHost]
    by_cases hd : (d = ':' && !inside) = true
    · rw [if_pos hd]
      rw [Bool.and_eq_true, decide_eq_true_iff] at hd
      exact .inr ⟨[], cs, by rw [hd.1]⟩
    · rw [if_neg hd]
      rcases ih (if d = '[' then true else if d = ']' then false else inside) with
        ⟨host, hhost⟩ | ⟨host, port, hhost⟩
      · exact .inl ⟨d :: host, by rw [hhost]; rfl⟩
      · exact .inr ⟨d :: host, port, by rw [hhost]⟩

/-- What is behind the last at sign ends as all of it does. -/
theorem splitUserInfo_concat (cs : List Char) :
    ∃ host, (splitUserInfo (cs ++ [c])).2 = host ++ [c] := by
  have hnot : ∀ d ∈ [c], decide (d = '@') = false := by
    simpa using ne_of_low hlow (d := '@') (by decide)
  obtain ⟨front, last, -, hparts⟩ := splitChars_append_last hnot cs
  refine ⟨last, ?_⟩
  rw [splitUserInfo, hparts]
  match front with
  | [] | [_] => rfl
  | first :: next :: front =>
    have hlast := List.getLast?_concat (l := first :: next :: front) (a := last ++ [c])
    exact congrArg (Option.getD · []) hlast

/-- What has a blank at the end of its authority is no address. -/
theorem afterSlashes_blank {scheme cs front : List Char}
    (hend : (splitAuthority true cs).1 = front ++ [c]) (url : Url) :
    afterSlashes scheme true cs ≠ .ok url := by
  intro hread
  obtain ⟨hostAndPort, hhost⟩ := splitUserInfo_concat hlow front
  simp only [afterSlashes, hend, hhost, ite_error_eq_ok] at hread
  obtain ⟨-, hread⟩ := hread
  rcases splitHost_concat hlow false hostAndPort with ⟨host, hsplit⟩ | ⟨host, port, hsplit⟩
  · have hsome : (host ++ [c]).isEmpty = false := by simp
    simp only [hsplit, hsome, Bool.false_eq_true, if_false, if_true] at hread
    obtain ⟨found, hfound, -⟩ := bind_eq_ok.1 hread
    obtain ⟨found, hfound, -⟩ := map_eq_ok.1 hfound
    exact Host.parse_blank hlow host found hfound
  · simp only [hsplit, Bool.true_or, if_true] at hread
    split_ifs at hread
    all_goals
      obtain ⟨found, hhost, hread⟩ := bind_eq_ok.1 hread
    · cases hhost
    · obtain ⟨found, hfound, -⟩ := bind_eq_ok.1 hread
      obtain ⟨number, hnumber, -⟩ := bind_eq_ok.1 hfound
      exact readPort_blank hlow port number hnumber

end Blank

end FleetConsole.Url
