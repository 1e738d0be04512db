import FleetConsole.Proofs.Url.Append
import FleetConsole.Proofs.Url.Host

/-!
# Addresses below another

The text of a place below an address is the text of the address, without the slashes at its end, and
the path of the place behind that. It is read as an address on the same host, unless the text ends
in a blank that would belong to the host then (`parse_below`). Whether the place is where it should
be, is decided by what stands behind the host (`Follows.isBase_iff`).
-/

namespace FleetConsole.Url

open Text

/-! ### Reading on behind a host -/

theorem scheme?_append_of_eq_some {cs scheme rest : List Char}
    (hscheme : scheme? cs = some (scheme, rest)) (later : List Char) :
    scheme? (cs ++ later) = some (scheme, rest ++ later) := by
  simp only [scheme?] at hscheme ⊢
  split at hscheme
  · rename_i found hfound
    have hstop : (cs.dropWhile fun c => c.isAlphanum || c = '+' || c = '-' || c = '.') ≠ [] := by
      rw [hfound]
      exact List.cons_ne_nil _ _
    rw [dropWhile_append_of_ne_nil hstop, takeWhile_append_of_ne_nil hstop, hfound]
    have hhead : (cs ++ later).head? = cs.head? := by
      cases cs with
      | nil => exact absurd rfl hstop
      | cons c cs => rfl
    simp only [List.cons_append, hhead]
    split_ifs at hscheme with halpha
    · cases hscheme
      rw [if_pos halpha]
  · cases hscheme

/-- What has no colon never ends a scheme. -/
theorem scheme?_of_append {cs later scheme rest : List Char} (hcolon : ':' ∉ later)
    (hscheme : scheme? (cs ++ later) = some (scheme, rest)) :
    ∃ beyond, scheme? cs = some (scheme, beyond) ∧ beyond ++ later = rest := by
  simp only [scheme?] at hscheme ⊢
  by_cases hstop : (cs.dropWhile fun c => c.isAlphanum || c = '+' || c = '-' || c = '.') = []
  · rw [List.dropWhile_append, hstop] at hscheme
    split at hscheme
    · rename_i found hfound
      exact absurd ((List.dropWhile_suffix _).subset (hfound ▸ List.mem_cons_self)) hcolon
    · cases hscheme
  · obtain ⟨d, beyond, hbeyond⟩ := List.exists_cons_of_ne_nil hstop
    have hhead : (cs ++ later).head? = cs.head? := by
      cases cs with
      | nil => exact absurd rfl hstop
      | cons c cs => rfl
    rw [dropWhile_append_of_ne_nil hstop, takeWhile_append_of_ne_nil hstop, hhead, hbeyond,
      List.cons_append] at hscheme
    rw [hbeyond]
    split at hscheme
    · rename_i found hfound
      cases hfound
      split_ifs at hscheme with halpha
      cases hscheme
      exact ⟨beyond, if_pos halpha, rfl⟩
    · cases hscheme

theorem afterSlashes_nil (scheme : List Char) (url : Url) :
    afterSlashes scheme true [] ≠ .ok url := by
  intro hread
  cases hread

/-- Without its slashes at the end a text counts for as much as before, but for the slashes. Blanks
at its end stand in front of what follows, so they count too. -/
theorem exists_slashes (s : String) : ∃ count blanks,
    leading (trimEnd '/' s).toList ++ List.replicate count '/' = relevant s ++ blanks ∧
      (∀ c ∈ blanks, c.toNat ≤ 0x20) ∧ (blanks = [] ↔ EndsVisibly s) ∧
        (blanks = [] ∨ count = 0) := by
  obtain ⟨blanks, hleading, hlow, hvisible⟩ := exists_blanks s
  have hends : s.toList.rtakeWhile (· = '/') =
      List.replicate (s.toList.rtakeWhile (· = '/')).length '/' :=
    List.eq_replicate_iff.2 ⟨rfl, fun c hc => by simpa using List.mem_rtakeWhile_imp hc⟩
  have hchars : s.toList = (trimEnd '/' s).toList ++
      List.replicate (s.toList.rtakeWhile (· = '/')).length '/' := by
    rw [← hends, trimEnd, String.toList_ofList]
    exact List.rdropWhile_append_rtakeWhile.symm
  generalize (s.toList.rtakeWhile (· = '/')).length = count at hchars
  refine ⟨count, blanks, ?_⟩
  cases count with
  | zero =>
    rw [List.replicate_zero, List.append_nil] at hchars ⊢
    rw [← hchars]
    exact ⟨hleading, hlow, hvisible, .inr rfl⟩
  | succ count =>
    have hsome : List.replicate (count + 1) '/' ≠ [] := List.cons_ne_nil _ _
    have hseen : ∀ c ∈ List.replicate (count + 1) '/', 0x20 < c.toNat := by
      intro c hc
      rw [List.eq_of_mem_replicate hc]
      decide
    rw [← leading_append hsome hseen, ← hchars]
    exact ⟨hleading, hlow, hvisible, .inl (hvisible.2 (endsVisibly_append hsome hseen hchars))⟩

theorem isSome_host {scheme cs : List Char} {url : Url}
    (hread : afterSlashes scheme true cs = .ok url) : url.host.isSome = true := by
  simp only [afterSlashes, ite_error_eq_ok, Bool.true_or, if_true] at hread
  obtain ⟨-, hread⟩ := hread
  split_ifs at hread
  all_goals obtain ⟨host, hhost, hread⟩ := bind_eq_ok.1 hread
  · cases hhost
  · obtain ⟨found, -, rfl⟩ := map_eq_ok.1 hhost
    obtain ⟨port, -, hread⟩ := bind_eq_ok.1 hread
    cases (ite_error_eq_ok.1 hread).2
    rfl

/-- The text of an address and the text of a place below it, as far as they are read alike: up to
the slashes before the host. What counts at the end of the first one are slashes that the second one
does not have, or else blanks. -/
theorem parse_append {s : String} {url : Url} (hread : parse s = .ok url)
    (hhttp : url.isHttp = true) :
    ∃ own body blanks count, afterSlashes url.scheme true own = .ok url ∧
      body ++ List.replicate count '/' = own ++ blanks ∧ (∀ c ∈ blanks, c.toNat ≤ 0x20) ∧
      (blanks = [] ↔ EndsVisibly s) ∧ (blanks = [] ∨ count = 0) ∧
      ∀ later : String, later ≠ "" → (∀ c ∈ later.toList, 0x20 < c.toNat) →
        parse (trimEnd '/' s ++ later) = afterSlashes url.scheme true (body ++ later.toList) := by
  obtain ⟨count, blanks, htext, hlow, hvisible, hends⟩ := exists_slashes s
  obtain ⟨rest, hscheme, hfile, hspecial⟩ := read_of_isHttp hread hhttp
  have hown : afterSlashes url.scheme true (rest.dropWhile fun c => c = '/' || c = '\\') =
      .ok url := by
    rw [parse, hscheme] at hread
    simpa only [if_neg hfile, hspecial, if_true] using hread
  have hstop : (rest.dropWhile fun c => c = '/' || c = '\\') ≠ [] := by
    intro hnil
    rw [hnil] at hown
    exact afterSlashes_nil _ _ hown
  -- The scheme is read from the longer text without its slashes at the end as well.
  have hlonger := scheme?_append_of_eq_some hscheme blanks
  rw [← htext] at hlonger
  obtain ⟨beyond, hbeyond, hrest⟩ := scheme?_of_append (by simp) hlonger
  have hmiddle : (beyond.dropWhile fun c => c = '/' || c = '\\') ≠ [] := by
    intro hnil
    have hall : ∀ c ∈ beyond ++ List.replicate count '/', (c = '/' || c = '\\') = true := by
      intro c hc
      rcases List.mem_append.1 hc with hc | hc
      · exact List.dropWhile_eq_nil_iff.1 hnil c hc
      · rw [List.eq_of_mem_replicate hc]
        rfl
    rw [hrest] at hall
    exact hstop (List.dropWhile_eq_nil_iff.2 fun c hc => hall c (List.mem_append_left _ hc))
  refine ⟨_, beyond.dropWhile fun c => c = '/' || c = '\\', blanks, count, hown, ?_, hlow, hvisible,
    hends, fun later hsome hseen => ?_⟩
  · rw [← dropWhile_append_of_ne_nil hmiddle, hrest, dropWhile_append_of_ne_nil hstop]
  · rw [parse, relevant_append _ hsome hseen, scheme?_append_of_eq_some hbeyond]
    simp only [if_neg hfile, hspecial, if_true, dropWhile_append_of_ne_nil hmiddle]

/-! ### What stands behind the host -/

section Authority

variable {cs : List Char}

theorem splitAuthority_append_of_ne_nil (hrest : (splitAuthority true cs).2 ≠ [])
    (later : List Char) : splitAuthority true (cs ++ later) =
      ((splitAuthority true cs).1, (splitAuthority true cs).2 ++ later) :=
  Prod.ext (takeWhile_append_of_ne_nil hrest later) (dropWhile_append_of_ne_nil hrest later)

theorem splitAuthority_append_slashes (cs : List Char) (count : Nat) :
    splitAuthority true (cs ++ List.replicate count '/') =
      ((splitAuthority true cs).1, (splitAuthority true cs).2 ++ List.replicate count '/') := by
  cases count with
  | zero => rw [List.replicate_zero, List.append_nil, List.append_nil]
  | succ count => exact splitAuthority_append _ _

/-- Without anything behind it, an authority goes on with the blanks that follow. -/
theorem splitAuthority_append_blanks (hrest : (splitAuthority true cs).2 = []) {blanks : List Char}
    (hlow : ∀ c ∈ blanks, c.toNat ≤ 0x20) :
    splitAuthority true (cs ++ blanks) = (cs ++ blanks, []) := by
  have hinside : ∀ c ∈ cs ++ blanks,
      (!(c = '/' || c = '?' || c = '#' || (true && c = '\\'))) = true := by
    intro c hc
    rcases List.mem_append.1 hc with hc | hc
    · exact List.dropWhile_eq_nil_iff.1 hrest c hc
    · exact of_low (hlow c hc)
        (p := fun c => !(c = '/' || c = '?' || c = '#' || (true && c = '\\'))) (by decide)
  exact Prod.ext (List.takeWhile_eq_self_iff.2 hinside) (List.dropWhile_eq_nil_iff.2 hinside)

end Authority

/-- What stands behind the host in the text of an address, and what stands there in front of the
path of a place below it. -/
structure Follows (s : String) (url : Url) (own rest : List Char) : Prop where
  host : url.host.isSome = true
  read : url = url.behind own
  /-- The slashes at the end are left out. -/
  slashes : EndsVisibly s → ∃ count, own = rest ++ List.replicate count '/'
  /-- Blanks at the end are not, and they are not the only thing behind the host. -/
  blanks : ¬EndsVisibly s → own ≠ [] ∧ ∃ blanks, blanks ≠ [] ∧ (∀ c ∈ blanks, c.toNat ≤ 0x20) ∧
    rest = own ++ blanks
  below : ∀ (later : String) (cs : List Char), later.toList = '/' :: cs →
    (∀ c ∈ later.toList, 0x20 < c.toNat) →
      parse (trimEnd '/' s ++ later) = .ok (url.behind (rest ++ later.toList))

/-- The text of a place below an address is read as an address on the same host, or not at all. -/
theorem parse_below {s : String} {url : Url} (hread : parse s = .ok url)
    (hhttp : url.isHttp = true) :
    (∃ own rest, Follows s url own rest) ∨
      ¬EndsVisibly s ∧ ∀ (later : String) (cs : List Char), later.toList = '/' :: cs →
        (∀ c ∈ later.toList, 0x20 < c.toNat) →
          ∀ place, parse (trimEnd '/' s ++ later) ≠ .ok place := by
  obtain ⟨own, body, blanks, count, hown, hbody, hlow, hvisible, hends, hlater⟩ :=
    parse_append hread hhttp
  have hbehind := afterSlashes_of_authority rfl hown
  have hself : url = url.behind (splitAuthority true own).2 :=
    Except.ok.inj (hown.symm.trans hbehind.2)
  have hplace : ∀ (later : String) (cs : List Char), later.toList = '/' :: cs →
      (∀ c ∈ later.toList, 0x20 < c.toNat) → parse (trimEnd '/' s ++ later) =
        afterSlashes url.scheme true (body ++ later.toList) := by
    intro later cs hslash hseen
    refine hlater later ?_ hseen
    rintro rfl
    cases hslash
  by_cases hseen : EndsVisibly s
  · -- The slashes at the end are behind the host, and so is what comes in their place.
    rw [hvisible.2 hseen, List.append_nil] at hbody
    have hsplit := splitAuthority_append_slashes body count
    rw [hbody] at hsplit
    refine .inl ⟨_, (splitAuthority true body).2, isSome_host hown, hself,
      fun _ => ⟨count, by rw [hsplit]⟩, fun hblank => absurd hseen hblank,
      fun later cs hslash hlater => ?_⟩
    have hlonger := splitAuthority_append body cs
    rw [hplace later cs hslash hlater, hslash,
      (afterSlashes_of_authority (by rw [hlonger, hsplit]) hown).2, hlonger]
  · have hsome : blanks ≠ [] := mt hvisible.1 hseen
    obtain rfl := hends.resolve_left hsome
    rw [List.replicate_zero, List.append_nil] at hbody
    by_cases hrest : (splitAuthority true own).2 = []
    · -- The blanks belong to the host.
      refine .inr ⟨hseen, fun later cs hslash hlater place => ?_⟩
      obtain ⟨front, c, rfl⟩ := (List.eq_nil_or_concat' blanks).resolve_left hsome
      have hauthority : (splitAuthority true (body ++ '/' :: cs)).1 = own ++ front ++ [c] := by
        rw [splitAuthority_append, hbody, splitAuthority_append_blanks hrest hlow,
          List.append_assoc]
      rw [hplace later cs hslash hlater, hslash]
      exact afterSlashes_blank (hlow c (by simp)) hauthority place
    · refine .inl ⟨_, (splitAuthority true own).2 ++ blanks, isSome_host hown, hself,
        fun hvisibly => absurd hvisibly hseen, fun _ => ⟨hrest, blanks, hsome, hlow, rfl⟩,
        fun later cs hslash hlater => ?_⟩
      have hlonger := splitAuthority_append_of_ne_nil hrest (blanks ++ '/' :: cs)
      rw [hplace later cs hslash hlater, hslash, hbody, List.append_assoc,
        (afterSlashes_of_authority (by rw [hlonger]) hown).2, hlonger, List.append_assoc]

/-! ### Where places below an address are -/

/-- Characters with neither of the marks that end a path. -/
def Unmarked (cs : List Char) : Prop := '?' ∉ cs ∧ '#' ∉ cs

section Marks

variable {cs : List Char}

theorem unmarked_append {later : List Char} :
    Unmarked (cs ++ later) ↔ Unmarked cs ∧ Unmarked later := by
  simp only [Unmarked, List.mem_append, not_or]
  tauto

theorem unmarked_of_low (hlow : ∀ c ∈ cs, c.toNat ≤ 0x20) : Unmarked cs :=
  ⟨fun hc => absurd (hlow _ hc) (by decide), fun hc => absurd (hlow _ hc) (by decide)⟩

theorem unmarked_slashes (count : Nat) : Unmarked (List.replicate count '/') := by
  simp [Unmarked]

theorem unmarked_slashed {names : List (List Char)} (hstay : ∀ name ∈ names, Stays name) :
    Unmarked (slashed names) := by
  have hnot : ∀ mark, inPath mark = true → mark ≠ '/' → mark ∉ slashed names := by
    intro mark hmark hslash hmem
    rcases mem_slashed hmem with rfl | ⟨name, hname, hc⟩
    · exact hslash rfl
    · exact Bool.false_ne_true (((hstay name hname).unencoded mark hc).symm.trans hmark)
  exact ⟨hnot '?' (by decide) (by decide), hnot '#' (by decide) (by decide)⟩

theorem splitTail_of_first_query {front back : List Char} (hquery : '?' ∉ front)
    (hfragment : '#' ∉ front) : (splitTail (front ++ '?' :: back)).1 = front := by
  have hpath : (splitTail (front ++ '?' :: back)).1 =
      ((front ++ '?' :: back).takeWhile (· ≠ '#')).takeWhile (· ≠ '?') := rfl
  rw [hpath, List.takeWhile_append_of_pos (ne_of_not_mem hfragment),
    List.takeWhile_cons_of_pos (by decide), takeWhile_ne_append hquery]

section Marked

variable (hmarked : ¬Unmarked cs)

include hmarked

theorem exists_mark : (∃ front back, cs = front ++ '#' :: back ∧ '#' ∉ front) ∨
    ∃ front back, cs = front ++ '?' :: back ∧ '?' ∉ front ∧ '#' ∉ cs := by
  by_cases hfragment : '#' ∈ cs
  · exact .inl (List.eq_append_cons_of_mem hfragment)
  · have hquery : '?' ∈ cs := by
      by_contra hnone
      exact hmarked ⟨hnone, hfragment⟩
    obtain ⟨front, back, hcs, hfront⟩ := List.eq_append_cons_of_mem hquery
    exact .inr ⟨front, back, hcs, hfront, hfragment⟩

/-- The path ends at the first mark, whatever follows. -/
theorem splitTail_append_of_marked (later : List Char) :
    (splitTail (cs ++ later)).1 = (splitTail cs).1 := by
  rcases exists_mark hmarked with ⟨front, back, rfl, hfront⟩ | ⟨front, back, rfl, hfront, hnone⟩
  · rw [List.append_assoc, List.cons_append, splitTail_of_fragment hfront,
      splitTail_of_fragment hfront]
  · have hfragment : '#' ∉ front := fun hmem => hnone (List.mem_append_left _ hmem)
    rw [List.append_assoc, List.cons_append, splitTail_of_first_query hfront hfragment,
      splitTail_of_first_query hfront hfragment]

theorem tail_of_marked : (splitTail cs).2.1 ≠ none ∨ (splitTail cs).2.2 ≠ none := by
  rcases exists_mark hmarked with ⟨front, back, rfl, hfront⟩ | ⟨front, back, rfl, hfront, hnone⟩
  · rw [splitTail_of_fragment hfront]
    exact .inr (Option.some_ne_none _)
  · rw [splitTail_of_query hfront hnone]
    exact .inl (Option.some_ne_none _)

end Marked

end Marks

theorem behind_of_unmarked {cs : List Char} (hnone : Unmarked cs) (url : Url) :
    url.behind cs =
      { url with path := pathAfterHost true cs, query := none, fragment := none } := by
  rw [behind, splitTail_of_path hnone.1 hnone.2]
  rfl

/-- The place with some names below an address. Slashes at the end of the address do not count, and
its query and its fragment are no part of the place. -/
def below (url : Url) (names : List (List Char)) : Url :=
  match url.path with
  | .segments all =>
    { url with
      path := .segments (all.rdropWhile List.isEmpty ++ names), query := none, fragment := none }
  | .uninterpreted _ => url

/-- Whether the text of an address, with the path of a place behind it, is the text of that place.
-/
structure IsBase (s : String) (url : Url) : Prop where
  query : url.query = none
  fragment : url.fragment = none
  visible : EndsVisibly s
  /-- With one slash at its end the path does not end in two. -/
  single : ∀ place, parse (trimEnd '/' s ++ "/") = .ok place → ¬['/', '/'] <:+ place.path.chars

section Follows

variable {s : String} {url : Url} {own rest : List Char} (hfollows : Follows s url own rest)

include hfollows

/-- In one of the two texts there is a mark behind the host exactly if there is one in the other. -/
theorem Follows.unmarked_iff : Unmarked own ↔ Unmarked rest := by
  by_cases hseen : EndsVisibly s
  · obtain ⟨count, rfl⟩ := hfollows.slashes hseen
    rw [unmarked_append]
    exact and_iff_left (unmarked_slashes count)
  · obtain ⟨-, blanks, -, hlow, rfl⟩ := hfollows.blanks hseen
    rw [unmarked_append]
    exact (and_iff_left (unmarked_of_low hlow)).symm

/-- The address has no query and no fragment exactly if there is no mark in its text. -/
theorem Follows.tail_eq_none_iff : url.query = none ∧ url.fragment = none ↔ Unmarked own := by
  constructor
  · rintro ⟨hquery, hfragment⟩
    by_contra hmarked
    rw [hfollows.read] at hquery hfragment
    rcases tail_of_marked hmarked with hsome | hsome
    · exact hsome (Option.map_eq_none_iff.1 hquery)
    · exact hsome (Option.map_eq_none_iff.1 hfragment)
  · intro hunmarked
    rw [hfollows.read, behind_of_unmarked hunmarked]
    exact ⟨rfl, rfl⟩

/-- Behind a mark, names do not get into the path. -/
theorem Follows.path_of_marked (hmarked : ¬Unmarked own) (later : List Char) :
    (url.behind (rest ++ later)).path = url.path := by
  have hpath : (splitTail (rest ++ later)).1 = (splitTail own).1 := by
    by_cases hseen : EndsVisibly s
    · have hrest := mt hfollows.unmarked_iff.2 hmarked
      obtain ⟨count, rfl⟩ := hfollows.slashes hseen
      rw [splitTail_append_of_marked hrest, splitTail_append_of_marked hrest]
    · obtain ⟨-, blanks, -, -, rfl⟩ := hfollows.blanks hseen
      rw [List.append_assoc, splitTail_append_of_marked hmarked]
  have hown : url.path = pathAfterHost true (splitTail own).1 := congrArg Url.path hfollows.read
  rw [hown, ← hpath]
  rfl

section Names

variable {names : List (List Char)} (hsome : names ≠ []) (hstay : ∀ name ∈ names, Stays name)

include hsome hstay

/-- Without marks, names get to the end of what is kept of the path. -/
theorem Follows.behind_slashed (hunmarked : Unmarked own) : url.behind (rest ++ slashed names) =
    { url with path := .segments (keptOf rest ++ names), query := none, fragment := none } := by
  have hboth := unmarked_append.2 ⟨hfollows.unmarked_iff.1 hunmarked, unmarked_slashed hstay⟩
  rw [behind_of_unmarked hboth, pathAfterHost_slashed hsome hstay]

end Names

/-- The path of an address ends with what is kept of it, or with slashes behind that. -/
theorem Follows.path_of_unmarked (hunmarked : Unmarked own) (hseen : EndsVisibly s) :
    ∃ slashes, url.path = .segments (keptOf rest ++ List.replicate slashes []) := by
  obtain ⟨count, rfl⟩ := hfollows.slashes hseen
  have hown := congrArg Url.path hfollows.read
  rw [behind_of_unmarked hunmarked] at hown
  rw [hown]
  exact pathAfterHost_end rest count

/-- With blanks at its end, a text is longer than the path of its address when it goes on. -/
theorem Follows.length_of_blanks (hunmarked : Unmarked own) (hblank : ¬EndsVisibly s) :
    url.path.chars.length < (slashed (keptOf rest)).length := by
  obtain ⟨hsome, blanks, hblanks, hlow, rfl⟩ := hfollows.blanks hblank
  have hown := congrArg Url.path hfollows.read
  rw [behind_of_unmarked hunmarked] at hown
  rw [hown]
  exact length_keptOf_blanks hsome hblanks hlow

/-- With one slash at its end, the text of an address is that of what is kept of it. -/
theorem Follows.single_iff (hunmarked : Unmarked own) :
    (∀ place, parse (trimEnd '/' s ++ "/") = .ok place → ¬['/', '/'] <:+ place.path.chars) ↔
      (slashed (keptOf rest)).getLast? ≠ some '/' := by
  have hbelow := hfollows.below "/" [] rfl (List.all_iff_forall_prop.1 (by decide))
  have hstay : ∀ name ∈ [[]], Stays name := by simpa using stays_nil
  have hslash : "/".toList = slashed [[]] := rfl
  rw [hslash, hfollows.behind_slashed (List.cons_ne_nil _ _) hstay hunmarked] at hbelow
  have hchars : (Path.segments (keptOf rest ++ [[]])).chars = slashed (keptOf rest) ++ ['/'] :=
    slashed_append _ _
  constructor
  · intro hsingle hlast
    obtain ⟨front, hfront⟩ := List.getLast?_eq_some_iff.1 hlast
    refine hsingle _ hbelow ⟨front, ?_⟩
    rw [hchars, hfront, List.append_assoc]
    rfl
  · rintro hlast place hplace ⟨front, hfront⟩
    cases hplace.symm.trans hbelow
    rw [hchars, ← List.singleton_append, ← List.append_assoc] at hfront
    refine hlast ?_
    rw [← List.append_cancel_right hfront, List.getLast?_concat]

theorem Follows.dropEndWhile_path (hunmarked : Unmarked own) (hseen : EndsVisibly s) :
    dropEndWhile (· = '/') url.path.chars = dropEndWhile (· = '/') (slashed (keptOf rest)) := by
  obtain ⟨slashes, hpath⟩ := hfollows.path_of_unmarked hunmarked hseen
  have hchars : url.path.chars = slashed (keptOf rest) ++ List.replicate slashes '/' := by
    rw [hpath, ← slashed_replicate]
    exact slashed_append _ _
  rw [hchars, dropEndWhile_append_replicate (by decide)]

/-- No name gets behind the path of an address with a mark. -/
theorem Follows.unmarked_of_path {names : List (List Char)} {name : List Char}
    (hname : name ∈ names) (hstay : Stays name) (hnonempty : name ≠ [])
    (hpath : (url.behind (rest ++ slashed names)).path.chars =
      dropEndWhile (· = '/') url.path.chars ++ slashed names) : Unmarked own := by
  by_contra hmarked
  rw [hfollows.path_of_marked hmarked] at hpath
  -- The names would be among the slashes that are left out.
  obtain ⟨c, cs, rfl⟩ := List.exists_cons_of_ne_nil hnonempty
  have hc := all_of_dropEndWhile_append hpath.symm c
    (List.mem_flatMap.2 ⟨c :: cs, hname, by simp⟩)
  have hwhole := hstay.whole c List.mem_cons_self
  rw [of_decide_eq_true hc] at hwhole
  cases hwhole

/-- Names are put behind the path of an address, without its slashes at the end, exactly if the text
of the address is one to put names behind. -/
theorem Follows.isBase_iff {names : List (List Char)} (hstay : ∀ name ∈ names, Stays name)
    (hsome : ∃ name ∈ names, name ≠ []) :
    (url.behind (rest ++ slashed names)).path.chars =
      dropEndWhile (· = '/') url.path.chars ++ slashed names ↔ IsBase s url := by
  obtain ⟨name, hname, hnonempty⟩ := hsome
  have hnames : names ≠ [] := List.ne_nil_of_mem hname
  constructor
  · intro hpath
    have hunmarked := hfollows.unmarked_of_path hname (hstay _ hname) hnonempty hpath
    rw [hfollows.behind_slashed hnames hstay hunmarked] at hpath
    have hfront : slashed (keptOf rest) = dropEndWhile (· = '/') url.path.chars :=
      List.append_cancel_right ((slashed_append _ _).symm.trans hpath)
    have hseen : EndsVisibly s := by
      by_contra hblank
      have hlonger := hfollows.length_of_blanks hunmarked hblank
      have hshorter := (isPrefix_dropEndWhile (· = '/') url.path.chars).length_le
      rw [hfront] at hlonger
      omega
    obtain ⟨hquery, hfragment⟩ := hfollows.tail_eq_none_iff.2 hunmarked
    refine ⟨hquery, hfragment, hseen, (hfollows.single_iff hunmarked).2 fun hlast => ?_⟩
    rw [hfront, hfollows.dropEndWhile_path hunmarked hseen] at hlast
    exact absurd (getLast?_dropEndWhile_false hlast) (by decide)
  · rintro ⟨hquery, hfragment, hseen, hsingle⟩
    have hunmarked := hfollows.tail_eq_none_iff.1 ⟨hquery, hfragment⟩
    have hlast := (hfollows.single_iff hunmarked).1 hsingle
    have hkept : dropEndWhile (· = '/') (slashed (keptOf rest)) = slashed (keptOf rest) := by
      refine dropEndWhile_eq_self fun c hc => decide_eq_false ?_
      rintro rfl
      exact hlast hc
    rw [hfollows.behind_slashed hnames hstay hunmarked, hfollows.dropEndWhile_path hunmarked hseen,
      hkept]
    exact slashed_append _ _

/-- Behind the text of an address that is one to put names behind, they are at the place below it.
-/
theorem Follows.behind_eq_below (hbase : IsBase s url) {names : List (List Char)}
    (hstay : ∀ name ∈ names, Stays name) (hsome : names ≠ []) :
    url.behind (rest ++ slashed names) = url.below names := by
  have hunmarked := hfollows.tail_eq_none_iff.1 ⟨hbase.query, hbase.fragment⟩
  have hlast := (hfollows.single_iff hunmarked).1 hbase.single
  obtain ⟨slashes, hpath⟩ := hfollows.path_of_unmarked hunmarked hbase.visible
  have hkept : (keptOf rest).rdropWhile List.isEmpty = keptOf rest := by
    refine List.rdropWhile_eq_self_iff.2 fun hnonempty hempty => hlast ?_
    rw [← List.dropLast_concat_getLast hnonempty, List.isEmpty_iff.1 hempty, slashed_append,
      slashed_singleton, List.getLast?_concat]
  rw [hfollows.behind_slashed hsome hstay hunmarked, Url.below, hpath]
  have hempty : List.isEmpty ([] : List Char) = true := rfl
  simp only [rdropWhile_append_replicate hempty, hkept]

end Follows

end FleetConsole.Url
