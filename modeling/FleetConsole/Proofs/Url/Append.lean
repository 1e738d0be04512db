import FleetConsole.Proofs.Except
import FleetConsole.Proofs.Url.Path

/-!
# Addresses with more names at the end

If a text is the address of something on a host, then so is the text with more names behind it, and
it is the same address but for its last part: the names go to the path, or to what stands behind it
if the text has a question mark or a number sign. This holds because reading goes from the front to
the end, and no step of it looks beyond the first slash after its own part.
-/

namespace FleetConsole.Url

open Text

/-! ### Longer addresses -/

/-- The address with names at its end: in its fragment, else in its query, else in its path. -/
def extend (url : Url) (names : List (List Char)) : Url :=
  match url.fragment, url.query, url.path with
  | some fragment, _, _ => { url with fragment := some (fragment ++ slashed names) }
  | none, some query, _ => { url with query := some (query ++ slashed names) }
  | none, none, .segments all => { url with path := .segments (all ++ names) }
  | none, none, .uninterpreted _ => url

/-- An address with a place for a host and a path of segments. -/
structure OnHost (url : Url) : Prop where
  authority : url.hasAuthority = true
  segments : ∃ segments, url.path = .segments segments

section Parts

variable {url : Url} (names : List (List Char))

@[simp] theorem isHttp_extend : (url.extend names).isHttp = url.isHttp := by
  rw [extend]
  split <;> rfl

@[simp] theorem host_extend : (url.extend names).host = url.host := by
  rw [extend]
  split <;> rfl

@[simp] theorem userName_extend : (url.extend names).userName = url.userName := by
  rw [extend]
  split <;> rfl

@[simp] theorem password_extend : (url.extend names).password = url.password := by
  rw [extend]
  split <;> rfl

theorem withoutCredentials_extend :
    (url.extend names).withoutCredentials = url.withoutCredentials.extend names := by
  simp only [extend, withoutCredentials]
  split <;> rfl

theorem chars_extend (honHost : url.OnHost) :
    (url.extend names).chars = url.chars ++ slashed names := by
  obtain ⟨segments, hpath⟩ := honHost.segments
  have hauthority := honHost.authority
  cases url with
  | mk scheme userName password host hasAuthority port path query fragment =>
    subst hpath hauthority
    cases fragment with
    | some fragment => simp [extend, chars, authorityChars, credentials, portChars, marked]
    | none =>
      cases query with
      | some query => simp [extend, chars, authorityChars, credentials, portChars, marked]
      | none =>
        simp [extend, chars, authorityChars, credentials, portChars, marked, Path.chars, slashed]

/-- Parameters make an address longer, at least by their own length. -/
theorem length_withParameters (url : Url) {parameters : List (String × String)}
    (hsome : parameters ≠ []) :
    url.chars.length + (Form.encode parameters).length ≤
      (url.withParameters parameters).chars.length := by
  rw [withParameters, if_neg (by simpa using hsome)]
  cases url with
  | mk scheme userName password host hasAuthority port path query fragment =>
    cases query with
    | none => simp [chars, authorityChars, credentials, portChars, marked]; omega
    | some query =>
      cases query <;> simp [chars, authorityChars, credentials, portChars, marked] <;> omega

end Parts

/-- The address whose path, query and fragment are those of some characters behind a host. -/
def behind (url : Url) (cs : List Char) : Url :=
  { url with path := pathAfterHost true (splitTail cs).1 }.withTail true (splitTail cs).2.1
    (splitTail cs).2.2

section Tail

variable {mark : Char} {cs front back : List Char}

theorem ne_of_not_mem (hcs : mark ∉ cs) : ∀ c ∈ cs, decide (c ≠ mark) = true := by
  rintro c hc
  rw [decide_eq_true_iff]
  rintro rfl
  exact hcs hc

theorem takeWhile_ne_append (hfront : mark ∉ front) :
    (front ++ mark :: back).takeWhile (· ≠ mark) = front := by
  rw [List.takeWhile_append_of_pos (ne_of_not_mem hfront)]
  simp

theorem dropWhile_ne_append (hfront : mark ∉ front) :
    (front ++ mark :: back).dropWhile (· ≠ mark) = mark :: back := by
  rw [List.dropWhile_append_of_pos (ne_of_not_mem hfront)]
  simp

theorem takeWhile_ne_eq_self (hcs : mark ∉ cs) : cs.takeWhile (· ≠ mark) = cs :=
  List.takeWhile_eq_self_iff.2 (ne_of_not_mem hcs)

theorem dropWhile_ne_eq_nil (hcs : mark ∉ cs) : cs.dropWhile (· ≠ mark) = [] :=
  List.dropWhile_eq_nil_iff.2 (ne_of_not_mem hcs)

theorem splitTail_of_fragment (hfront : '#' ∉ front) :
    splitTail (front ++ '#' :: back) = ((splitTail front).1, (splitTail front).2.1, some back) := by
  simp only [splitTail, takeWhile_ne_append hfront, dropWhile_ne_append hfront,
    takeWhile_ne_eq_self hfront]

theorem splitTail_of_query (hfront : '?' ∉ front) (hfragment : '#' ∉ front ++ '?' :: back) :
    splitTail (front ++ '?' :: back) = (front, some back, none) := by
  simp only [splitTail, takeWhile_ne_eq_self hfragment, dropWhile_ne_eq_nil hfragment,
    takeWhile_ne_append hfront, dropWhile_ne_append hfront]

theorem splitTail_of_path (hquery : '?' ∉ cs) (hfragment : '#' ∉ cs) :
    splitTail cs = (cs, none, none) := by
  simp only [splitTail, takeWhile_ne_eq_self hfragment, dropWhile_ne_eq_nil hfragment,
    takeWhile_ne_eq_self hquery, dropWhile_ne_eq_nil hquery]

/-- What is behind an address goes to its last part. -/
theorem splitTail_append (cs : List Char) {later : List Char} (hquery : '?' ∉ later)
    (hfragment : '#' ∉ later) : splitTail (cs ++ later) =
      match splitTail cs with
      | (path, query, some fragment) => (path, query, some (fragment ++ later))
      | (path, some query, none) => (path, some (query ++ later), none)
      | (path, none, none) => (path ++ later, none, none) := by
  by_cases hhash : '#' ∈ cs
  · obtain ⟨front, back, rfl, hfront⟩ := List.eq_append_cons_of_mem hhash
    rw [List.append_assoc, List.cons_append, splitTail_of_fragment hfront,
      splitTail_of_fragment hfront]
  · by_cases hmark : '?' ∈ cs
    · obtain ⟨front, back, rfl, hfront⟩ := List.eq_append_cons_of_mem hmark
      have hlater : '#' ∉ front ++ '?' :: (back ++ later) := by
        rw [← List.cons_append, ← List.append_assoc, List.mem_append, not_or]
        exact ⟨hhash, hfragment⟩
      rw [List.append_assoc, List.cons_append, splitTail_of_query hfront hhash,
        splitTail_of_query hfront hlater]
    · rw [splitTail_of_path hmark hhash, splitTail_of_path]
      · rw [List.mem_append, not_or]
        exact ⟨hmark, hquery⟩
      · rw [List.mem_append, not_or]
        exact ⟨hhash, hfragment⟩

end Tail

section Extend

variable {name : List Char} {names : List (List Char)}
  (hplain : ∀ other ∈ name :: names, ∀ c ∈ other, IsPlain c)

theorem segments_pathAfterHost (special : Bool) (cs : List Char) :
    ∃ segments, pathAfterHost special cs = .segments segments := by
  cases cs with
  | nil => exact ⟨_, rfl⟩
  | cons c cs =>
    rw [pathAfterHost]
    split_ifs <;> exact ⟨_, rfl⟩

theorem percentEncode_slashed {isEncoded : Char → Bool}
    (hplainly : ∀ c ∈ slashed (name :: names), isEncoded c = false) (cs : List Char) :
    percentEncode isEncoded (cs ++ slashed (name :: names)) =
      percentEncode isEncoded (cs ++ '/' :: name) ++ slashed names := by
  have hlater : ∀ c ∈ slashed names, isEncoded c = false := by
    intro c hc
    apply hplainly c
    rw [slashed_cons]
    exact List.mem_append_right _ hc
  rw [slashed_cons, ← List.append_assoc, percentEncode_append _ (cs ++ '/' :: name),
    percentEncode_eq_self hlater]

include hplain

theorem not_mark_of_mem_slashed {c : Char} (hc : c ∈ slashed (name :: names)) :
    c ≠ '?' ∧ c ≠ '#' ∧ inSpecialQuery c = false ∧ inFragment c = false := by
  rcases mem_slashed hc with rfl | ⟨other, hother, hmem⟩
  · exact ⟨by decide, by decide, by decide, by decide⟩
  · have hc := hplain other hother c hmem
    exact ⟨hc.not_delimiter.2.1, hc.not_delimiter.2.2, hc.not_encoded.2.1, hc.not_encoded.2.2⟩

theorem behind_extend (url : Url) (cs : List Char) :
    url.behind (cs ++ slashed (name :: names)) = (url.behind (cs ++ '/' :: name)).extend names := by
  have hall := fun (c : Char) hc => not_mark_of_mem_slashed hplain (c := c) hc
  have hquery : '?' ∉ slashed (name :: names) := fun hc => (hall '?' hc).1 rfl
  have hfragment : '#' ∉ slashed (name :: names) := fun hc => (hall '#' hc).2.1 rfl
  have hone : ∀ mark, mark ∉ slashed (name :: names) → mark ∉ '/' :: name :=
    fun mark hnone hc => hnone (List.mem_append_left _ hc)
  rw [behind, behind, splitTail_append cs hquery hfragment,
    splitTail_append cs (hone _ hquery) (hone _ hfragment)]
  match splitTail cs with
  | (path, query, some fragment) =>
    simp only [withTail, extend, Option.map_some]
    rw [percentEncode_slashed fun c hc => (hall c hc).2.2.2]
  | (path, some query, none) =>
    simp only [withTail, extend, Option.map_some, Option.map_none, if_true]
    rw [percentEncode_slashed fun c hc => (hall c hc).2.2.1]
  | (path, none, none) =>
    have hstay : ∀ other ∈ name :: names, Stays other :=
      fun other hother => stays_of_plain (hplain other hother)
    have hlong := pathAfterHost_slashed (by simp) hstay path
    have hshort := pathAfterHost_slashed (List.cons_ne_nil name [])
      (by simpa using hstay name List.mem_cons_self) path
    rw [slashed_singleton] at hshort
    simp only [withTail, hshort, hlong, Option.map_none, extend, List.append_assoc]
    rfl

end Extend

/-! ### Reading longer addresses -/

section Parse

theorem scheme?_append (cs later : List Char) :
    scheme? (cs ++ '/' :: later) =
      (scheme? cs).map fun found => (found.1, found.2 ++ '/' :: later) := by
  simp only [scheme?]
  rw [dropWhile_append_cons (by decide), takeWhile_append_cons (by decide)]
  cases cs with
  | nil => rfl
  | cons first cs =>
    cases hrest : (first :: cs).dropWhile
      fun c => c.isAlphanum || c = '+' || c = '-' || c = '.' with
    | nil => rfl
    | cons d rest =>
      by_cases hcolon : d = ':'
      · subst hcolon
        by_cases halpha : first.isAlpha = true <;> simp [halpha]
      · simp [hcolon]

theorem splitAuthority_append (cs later : List Char) : splitAuthority true (cs ++ '/' :: later) =
    ((splitAuthority true cs).1, (splitAuthority true cs).2 ++ '/' :: later) := by
  simp only [splitAuthority]
  rw [dropWhile_append_cons (by decide), takeWhile_append_cons (by decide)]

/-- Of what is behind the authority, nothing is looked at to read it. -/
theorem afterSlashes_of_authority {scheme cs other : List Char} {url : Url}
    (hsame : (splitAuthority true other).1 = (splitAuthority true cs).1)
    (hread : afterSlashes scheme true cs = .ok url) :
    url.hasAuthority = true ∧
      afterSlashes scheme true other = .ok (url.behind (splitAuthority true other).2) := by
  simp only [afterSlashes, hsame, ite_error_eq_ok, Bool.true_or, if_true] at hread ⊢
  generalize splitUserInfo (splitAuthority true cs).1 = userAndHost at hread ⊢
  generalize readUserInfo (userAndHost.1.getD []) = user at hread ⊢
  obtain ⟨-, hread⟩ := hread
  by_cases hempty : (splitHost false userAndHost.2).1.isEmpty = true
  · rw [if_pos hempty] at hread
    cases hread
  · have hsome : ¬(userAndHost.1 = some [] ∧ userAndHost.2.isEmpty = true ∧
        (!(splitAuthority true other).2.isEmpty) = true) := by
      rintro ⟨-, hnone, -⟩
      rw [List.isEmpty_iff.1 hnone] at hempty
      exact hempty rfl
    rw [if_neg hempty] at hread ⊢
    obtain ⟨host, hhost, hread⟩ := bind_eq_ok.1 hread
    obtain ⟨port, hport, hread⟩ := bind_eq_ok.1 hread
    rw [ite_error_eq_ok] at hread
    obtain ⟨hnamed, hread⟩ := hread
    cases hread
    refine ⟨rfl, hsome, ?_⟩
    rw [hhost, hport]
    exact if_neg hnamed

theorem afterSlashes_behind {scheme cs front : List Char} {url : Url}
    (hread : afterSlashes scheme true (cs ++ '/' :: front) = .ok url) :
    url.hasAuthority = true ∧ ∃ rest, url = url.behind (rest ++ '/' :: front) ∧
      ∀ later, afterSlashes scheme true (cs ++ '/' :: later) =
        .ok (url.behind (rest ++ '/' :: later)) := by
  have hlater : ∀ later, afterSlashes scheme true (cs ++ '/' :: later) =
      .ok (url.behind ((splitAuthority true cs).2 ++ '/' :: later)) := by
    intro later
    rw [(afterSlashes_of_authority (by simp only [splitAuthority_append]) hread).2,
      splitAuthority_append]
  exact ⟨(afterSlashes_of_authority rfl hread).1, _,
    Except.ok.inj (hread.symm.trans (hlater front)), hlater⟩

end Parse

/-! ### What counts of a text -/

/-- Whether a character is a blank or a control that does not count at the ends of a text. -/
def isOuter (c : Char) : Bool := c.toNat ≤ 0x20

/-- Whether a character counts inside of a text. -/
def isInner (c : Char) : Bool := c ≠ '\t' && c ≠ '\n' && c ≠ '\r'

/-- The characters that count when visible ones follow. -/
def leading (cs : List Char) : List Char := (cs.dropWhile isOuter).filter isInner

/-- Whether the last character of a text that counts when more follow is a visible one. -/
def EndsVisibly (s : String) : Prop := ∀ c ∈ (leading s.toList).getLast?, 0x20 < c.toNat

instance (s : String) : Decidable (EndsVisibly s) := Option.decidableForallMem _

section Leading

theorem isOuter_of_visible {c : Char} (hvisible : 0x20 < c.toNat) : isOuter c = false :=
  decide_eq_false (Nat.not_le.2 hvisible)

theorem isInner_of_visible {c : Char} (hvisible : 0x20 < c.toNat) : isInner c = true := by
  have hne : ∀ d : Char, d.toNat ≤ 0x20 → c ≠ d := fun d hd => (ne_of_low hd hvisible).symm
  simp [isInner, hne '\t' (by decide), hne '\n' (by decide), hne '\r' (by decide)]

variable {later : List Char} (hsome : later ≠ []) (hvisible : ∀ c ∈ later, 0x20 < c.toNat)

include hsome hvisible

theorem leading_append (cs : List Char) : leading (cs ++ later) = leading cs ++ later := by
  have hkept : later.filter isInner = later :=
    List.filter_eq_self.2 fun c hc => isInner_of_visible (hvisible c hc)
  obtain ⟨first, rest, rfl⟩ := List.exists_cons_of_ne_nil hsome
  have hfirst := isOuter_of_visible (hvisible first List.mem_cons_self)
  rw [leading, leading, dropWhile_append_cons hfirst, List.filter_append, hkept]

theorem endsVisibly_append {s : String} {cs : List Char} (hs : s.toList = cs ++ later) :
    EndsVisibly s := by
  intro c hc
  rw [hs, leading_append hsome hvisible, List.getLast?_append,
    List.getLast?_eq_some_getLast hsome, Option.some_or] at hc
  cases hc
  exact hvisible _ (List.getLast_mem hsome)

end Leading

/-- Of what counts when more follow, blanks at the end do not count when nothing does. -/
theorem exists_blanks (s : String) : ∃ blanks, leading s.toList = relevant s ++ blanks ∧
    (∀ c ∈ blanks, c.toNat ≤ 0x20) ∧ (blanks = [] ↔ EndsVisibly s) := by
  have hrelevant : relevant s =
      (dropEndWhile isOuter (s.toList.dropWhile isOuter)).filter isInner := rfl
  have hends : dropEndWhile isOuter (s.toList.dropWhile isOuter) ++
      (s.toList.dropWhile isOuter).rtakeWhile isOuter = s.toList.dropWhile isOuter :=
    List.rdropWhile_append_rtakeWhile
  have hwhole : leading s.toList = relevant s ++
      ((s.toList.dropWhile isOuter).rtakeWhile isOuter).filter isInner := by
    rw [hrelevant, ← List.filter_append, hends, leading]
  have hlow : ∀ c ∈ ((s.toList.dropWhile isOuter).rtakeWhile isOuter).filter isInner,
      c.toNat ≤ 0x20 :=
    fun c hc => of_decide_eq_true (List.mem_rtakeWhile_imp (List.mem_filter.1 hc).1 : isOuter c)
  refine ⟨_, hwhole, hlow, fun hnone => ?_, fun hvisible => ?_⟩
  · intro c hc
    rw [hwhole, hnone, List.append_nil, hrelevant] at hc
    rcases List.eq_nil_or_concat' (dropEndWhile isOuter (s.toList.dropWhile isOuter)) with
      hnil | ⟨front, last, hfront⟩
    · rw [hnil] at hc
      cases hc
    · have hlast : isOuter last = false := by
        apply getLast?_dropEndWhile_false
        rw [hfront, List.getLast?_concat]
      have hvisible := Nat.not_le.1 (of_decide_eq_false hlast)
      have hkept : [last].filter isInner = [last] := by simp [isInner_of_visible hvisible]
      rw [hfront, List.filter_append, hkept, List.getLast?_concat] at hc
      cases hc
      exact hvisible
  · by_contra hsome
    have hlast := hvisible (List.getLast _ hsome) (by
      rw [hwhole, List.getLast?_append, List.getLast?_eq_some_getLast hsome]
      rfl)
    exact absurd (hlow _ (List.getLast_mem hsome)) (Nat.not_le.2 hlast)

theorem relevant_append (front : String) {later : String} (hnonempty : later ≠ "")
    (hvisible : ∀ c ∈ later.toList, 0x20 < c.toNat) :
    relevant (front ++ later) = leading front.toList ++ later.toList := by
  have hsome : later.toList ≠ [] := fun hnil => hnonempty (String.toList_eq_nil_iff.1 hnil)
  obtain ⟨blanks, hleading, -, hblanks⟩ := exists_blanks (front ++ later)
  rw [hblanks.2 (endsVisibly_append hsome hvisible String.toList_append), List.append_nil]
    at hleading
  rw [← hleading, String.toList_append, leading_append hsome hvisible]

/-! ### Reading longer texts -/

theorem scheme_afterSlashes {scheme cs : List Char} {special : Bool} {url : Url}
    (hread : afterSlashes scheme special cs = .ok url) : url.scheme = scheme := by
  simp only [afterSlashes, ite_error_eq_ok] at hread
  obtain ⟨-, hread⟩ := hread
  split_ifs at hread
  all_goals
    obtain ⟨host, -, hport⟩ := bind_eq_ok.1 hread
    obtain ⟨port, -, hend⟩ := bind_eq_ok.1 hport
    cases (ite_error_eq_ok.1 hend).2
    rfl

theorem scheme_fileUrl {scheme cs : List Char} {url : Url}
    (hread : fileUrl scheme cs = .ok url) : url.scheme = scheme := by
  simp only [fileUrl] at hread
  split at hread
  · split_ifs at hread
    · cases hread
      rfl
    · obtain ⟨host, -, hend⟩ := bind_eq_ok.1 hread
      cases hend
      rfl
    · cases hread
      rfl
  · cases hread
    rfl

theorem scheme_otherUrl {scheme cs : List Char} {url : Url}
    (hread : otherUrl scheme cs = .ok url) : url.scheme = scheme := by
  simp only [otherUrl] at hread
  split at hread
  · exact scheme_afterSlashes hread
  · cases hread
    simp only [withTail]
    split <;> rfl

/-- An address for requests is read as the address of a scheme with a host. -/
theorem read_of_isHttp {s : String} {url : Url} (hread : parse s = .ok url)
    (hhttp : url.isHttp = true) : ∃ rest, scheme? (relevant s) = some (url.scheme, rest) ∧
      url.scheme ≠ "file".toList ∧ isSpecial url.scheme = true := by
  have hspecial : url.scheme ≠ "file".toList ∧ isSpecial url.scheme = true := by
    rw [isHttp, Bool.or_eq_true, decide_eq_true_iff, decide_eq_true_iff] at hhttp
    rcases hhttp with hscheme | hscheme <;> rw [hscheme] <;> decide
  rw [parse] at hread
  split at hread
  · cases hread
  · rename_i scheme rest hfound
    have hsame : url.scheme = scheme := by
      split_ifs at hread
      · exact scheme_fileUrl hread
      · exact scheme_afterSlashes hread
      · exact scheme_otherUrl hread
    exact ⟨rest, by rw [hsame, hfound], hspecial⟩

section Extend

variable {front short long : String} {first name : List Char} {names : List (List Char)}

theorem visible_of_mem_slashed {names : List (List Char)}
    (hplain : ∀ other ∈ names, ∀ c ∈ other, IsPlain c) {c : Char} (hc : c ∈ slashed names) :
    0x20 < c.toNat := by
  rcases mem_slashed hc with rfl | ⟨other, hother, hmem⟩
  · decide
  · have hcases := (hplain other hother c hmem).toNat_cases
    omega

theorem relevant_slashed (front : String) {later : String} {first : List Char}
    {names : List (List Char)} (hplain : ∀ other ∈ first :: names, ∀ c ∈ other, IsPlain c)
    (hlater : later.toList = slashed (first :: names)) :
    relevant (front ++ later) = leading front.toList ++ '/' :: (first ++ slashed names) := by
  have hnonempty : later ≠ "" := by
    rintro rfl
    cases hlater
  rw [relevant_append front hnonempty, hlater]
  · rfl
  · rw [hlater]
    exact fun c hc => visible_of_mem_slashed hplain hc

/-- Slashes in front of a host do not count, but those behind it do. -/
theorem dropWhile_slashes (hfirst : first ≠ []) (hplain : ∀ c ∈ first, IsPlain c)
    (cs later : List Char) :
    (cs ++ '/' :: (first ++ later)).dropWhile (fun c => c = '/' || c = '\\') =
      (cs ++ '/' :: first).dropWhile (fun c => c = '/' || c = '\\') ++ later := by
  have hsome : ((cs ++ '/' :: first).dropWhile fun c => c = '/' || c = '\\') ≠ [] := by
    rw [Ne, List.dropWhile_eq_nil_iff]
    intro hall
    have hmem := List.head_mem hfirst
    have hslash := hall _ (List.mem_append_right cs (List.mem_cons_of_mem '/' hmem))
    rw [(hplain _ hmem).not_delimiter.1] at hslash
    cases hslash
  rw [← List.cons_append, ← List.append_assoc, List.dropWhile_append, if_neg]
  simpa using hsome

/-- A longer text is the address of its beginning with the names of the rest at the end. -/
theorem parse_extend (hfirst : first ≠ [])
    (hplain : ∀ other ∈ first :: name :: names, ∀ c ∈ other, IsPlain c)
    (hshort : short.toList = slashed [first, name])
    (hlong : long.toList = slashed (first :: name :: names)) {url : Url}
    (hread : parse (front ++ short) = .ok url) (hhttp : url.isHttp = true) :
    parse (front ++ long) = .ok (url.extend names) ∧ url.OnHost := by
  rw [List.forall_mem_cons] at hplain
  have hbegin : ∀ other ∈ [first, name], ∀ c ∈ other, IsPlain c := by
    simpa using ⟨hplain.1, hplain.2 name List.mem_cons_self⟩
  -- Both texts are read alike up to the place behind the host.
  obtain ⟨rest, hscheme, hfile, hspecial⟩ := read_of_isHttp hread hhttp
  rw [parse, hscheme] at hread
  simp only [if_neg hfile, hspecial, if_true] at hread
  rw [relevant_slashed front hbegin hshort, scheme?_append] at hscheme
  obtain ⟨⟨scheme, beyond⟩, hfound, hsame⟩ := Option.map_eq_some_iff.1 hscheme
  obtain ⟨hurl, rfl⟩ := Prod.mk.inj hsame
  dsimp only at hurl
  subst hurl
  rw [dropWhile_slashes hfirst hplain.1, slashed_singleton] at hread
  obtain ⟨hauthority, tail, hurl, hlater⟩ := afterSlashes_behind hread
  constructor
  · have hall : ∀ other ∈ first :: name :: names, ∀ c ∈ other, IsPlain c :=
      List.forall_mem_cons.2 hplain
    rw [parse, relevant_slashed front hall hlong, scheme?_append, hfound]
    simp only [Option.map_some, if_neg hfile, hspecial, if_true]
    rw [dropWhile_slashes hfirst hplain.1, slashed_cons, List.cons_append, hlater]
    rw [← List.cons_append, ← slashed_cons, behind_extend hplain.2, ← hurl]
  · refine ⟨hauthority, ?_⟩
    rw [hurl]
    exact segments_pathAfterHost _ _

end Extend

end FleetConsole.Url
