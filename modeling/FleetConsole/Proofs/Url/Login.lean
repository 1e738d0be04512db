import FleetConsole.Proofs.Url.Below

/-!
# Credentials of addresses below another

The credentials of an address stand before its host. So what is put behind the text of an address
has no influence on them, and what is read for a place below it has the credentials of the address
itself, or none (`credentials_below`).
-/

namespace FleetConsole.Url

open Text

/-- Without an at sign before the path there are no credentials. -/
theorem credentials_of_no_at {scheme cs : List Char} {url : Url}
    (hread : afterSlashes scheme true cs = .ok url) (hat : '@' ∉ (splitAuthority true cs).1) :
    url.credentials = [] := by
  have hinfo : splitUserInfo (splitAuthority true cs).1 = (none, (splitAuthority true cs).1) := by
    rw [splitUserInfo, splitChars_of_not_separator]
    rintro c hc
    refine decide_eq_false ?_
    rintro rfl
    exact hat hc
  have huser : readUserInfo [] = ([], none) := rfl
  simp only [afterSlashes, hinfo, Option.getD_none, huser, ite_error_eq_ok, Bool.true_or,
    if_true] at hread
  obtain ⟨-, hread⟩ := hread
  split_ifs at hread
  all_goals
    obtain ⟨host, -, hport⟩ := bind_eq_ok.1 hread
    obtain ⟨port, -, hend⟩ := bind_eq_ok.1 hport
    cases (ite_error_eq_ok.1 hend).2
    rfl

section Below

variable {s : String} {scheme body cs : List Char} {place : Url}

/-- What is read behind slashes stays readable with another path, and keeps its credentials. -/
theorem parse_of_authority {rest : List Char} (hscheme : scheme? (relevant s) = some (scheme, rest))
    (hfile : scheme ≠ "file".toList) (hspecial : isSpecial scheme = true) {own : List Char}
    (hown : (rest.dropWhile fun c => c = '/' || c = '\\') = own)
    (hsame : (splitAuthority true own).1 = (splitAuthority true (body ++ '/' :: cs)).1)
    (hread : afterSlashes scheme true (body ++ '/' :: cs) = .ok place) :
    ∃ url, parse s = .ok url ∧ place.credentials = url.credentials := by
  refine ⟨place.behind (splitAuthority true own).2, ?_, rfl⟩
  rw [parse, hscheme]
  simp only [if_neg hfile, hspecial, if_true, hown]
  exact (afterSlashes_of_authority hsame hread).2

/-- Blanks at the end of an address stand before the path of a place below it, where no host can
have them. So there is something else before the path. -/
theorem parse_of_blanks {own blanks : List Char}
    (hscheme : scheme? (relevant s) = some (scheme, own)) (hfile : scheme ≠ "file".toList)
    (hspecial : isSpecial scheme = true) (hnone : blanks ≠ [])
    (hlow : ∀ c ∈ blanks, c.toNat ≤ 0x20)
    (hread : afterSlashes scheme true
      (((own ++ blanks).dropWhile fun c => c = '/' || c = '\\') ++ '/' :: cs) = .ok place) :
    ∃ url, parse s = .ok url ∧ place.credentials = url.credentials := by
  obtain ⟨first, more, hfirst⟩ := List.exists_cons_of_ne_nil hnone
  have hbody : (own ++ blanks).dropWhile (fun c => c = '/' || c = '\\') =
      own.dropWhile (fun c => c = '/' || c = '\\') ++ blanks := by
    have hblank : first.toNat ≤ 0x20 := hlow first (hfirst ▸ List.mem_cons_self)
    rw [hfirst]
    refine dropWhile_append_cons ?_ own more
    exact Bool.not_eq_true' _ ▸ of_low hblank (p := fun c => !(c = '/' || c = '\\')) (by decide)
  rw [hbody] at hread
  generalize hfront : (own.dropWhile fun c => c = '/' || c = '\\') = front at hread
  by_cases hrest : (splitAuthority true front).2 = []
  · obtain ⟨others, last, hlast⟩ := (List.eq_nil_or_concat' blanks).resolve_left hnone
    have hend : (splitAuthority true (front ++ blanks ++ '/' :: cs)).1 =
        front ++ others ++ [last] := by
      rw [splitAuthority_append, splitAuthority_append_blanks hrest hlow, hlast, List.append_assoc]
    exact absurd hread (afterSlashes_blank (hlow last (by simp [hlast])) hend place)
  · refine parse_of_authority hscheme hfile hspecial hfront ?_ hread
    rw [List.append_assoc, splitAuthority_append_of_ne_nil hrest]

/-- What is read for a place below an address has the credentials of the address, or none. -/
theorem credentials_below {later : String} (hslash : later.toList = '/' :: cs) (hat : '@' ∉ cs)
    (hseen : ∀ c ∈ later.toList, 0x20 < c.toNat)
    (hread : parse (trimEnd '/' s ++ later) = .ok place) (hhttp : place.isHttp = true) :
    place.credentials = [] ∨ ∃ url, parse s = .ok url ∧ place.credentials = url.credentials := by
  have hnonempty : later ≠ "" := by
    rintro rfl
    cases hslash
  obtain ⟨rest, hscheme, hfile, hspecial⟩ := read_of_isHttp hread hhttp
  rw [parse, hscheme] at hread
  simp only [if_neg hfile, hspecial, if_true] at hread
  rw [relevant_append _ hnonempty hseen, hslash, scheme?_append] at hscheme
  obtain ⟨⟨found, beyond⟩, hfound, hsame⟩ := Option.map_eq_some_iff.1 hscheme
  obtain ⟨rfl, rfl⟩ := Prod.mk.inj hsame
  dsimp only at hfound hread
  by_cases hmiddle : (beyond.dropWhile fun c => c = '/' || c = '\\') = []
  · -- There is nothing before the path, so its first name is read as the host.
    refine .inl (credentials_of_no_at hread fun hmem => ?_)
    have hpath : '@' ∈ '/' :: cs := by
      have hdropped := List.takeWhile_subset _ hmem
      rw [List.dropWhile_append, hmiddle, List.isEmpty_nil, if_pos rfl] at hdropped
      exact (List.dropWhile_suffix _).subset hdropped
    rcases List.mem_cons.1 hpath with hslash | hmem
    · exact absurd hslash (by decide)
    · exact hat hmem
  · right
    rw [dropWhile_append_of_ne_nil hmiddle] at hread
    obtain ⟨count, blanks, htext, hlow, -, hends⟩ := exists_slashes s
    by_cases hnone : blanks = []
    · rw [hnone, List.append_nil] at htext
      have hwhole : scheme? (relevant s) =
          some (place.scheme, beyond ++ List.replicate count '/') := by
        rw [← htext]
        exact scheme?_append_of_eq_some hfound _
      refine parse_of_authority hwhole hfile hspecial (dropWhile_append_of_ne_nil hmiddle _) ?_
        hread
      rw [splitAuthority_append_slashes, splitAuthority_append]
    · obtain rfl := hends.resolve_left hnone
      have hcolon : ':' ∉ blanks := fun hmem => absurd (hlow _ hmem) (by decide)
      rw [List.replicate_zero, List.append_nil] at htext
      rw [htext] at hfound
      obtain ⟨own, hown, rfl⟩ := scheme?_of_append hcolon hfound
      exact parse_of_blanks hown hfile hspecial hnone hlow hread

end Below

end FleetConsole.Url
