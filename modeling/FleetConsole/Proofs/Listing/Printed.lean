import FleetConsole.Listing.Tracker
import FleetConsole.Proofs.Machine.Page
import FleetConsole.Proofs.Machine.Written

/-!
# Listings that were printed

A listing is printed as an indented object. Whoever reads that text as a value gets the machines
with their fields in the order of the names, and each machine can be read back from them
(`Machine.ofJson_arranged`). Whoever reads it as a page gets the machines at once (`read_page`). So
the text describes the listing and no other one (`printed_in_full`).
-/

namespace FleetConsole

open Json Json.Read

namespace Machine

variable {depth : Nat} {m : Machine}

/-- The machine that a value describes. -/
def ofJson (j : Json) : Except ReadError Machine :=
  document (Machine.read depthLimit) (compactText j)

/-- A machine as it is read from what is written for it, its fields in the order of their names. -/
def arranged (m : Machine) : Json := .object (Fields.insertAll [] m.toFields)

theorem reads_arranged (hwf : WellFormed depth m) (hint : IsIntegral m) (layout : Layout) :
    Reads (value (depth + 1)) layout m.arranged m.toJson :=
  reads_object (readsFields_self (reads_toFields hwf hint layout.inner))

theorem ofJson_arranged (hwf : WellFormed depth m) (hint : IsIntegral m)
    (hdepth : depth < depthLimit) : ofJson m.arranged = .ok m := by
  obtain ⟨inner, hinner⟩ := Nat.exists_eq_add_of_lt hdepth
  have hperm : (Fields.insertAll [] m.toFields).Perm m.toFields :=
    Fields.insertAll_perm (nodup_toFields hwf)
  rw [ofJson, hinner]
  exact document_ofList (read_fields (hwf.mono (Nat.le_add_right _ _)) hint .compact hperm [])

end Machine

namespace Listing

variable {l : Listing}

/-- The machines of a listing came from a page, and its numbers from answers of the server. -/
structure IsDecoded (l : Listing) : Prop where
  items : ∃ s total, document (Page.read depthLimit) s = .ok ⟨l.items, total⟩
  integral : ∀ m ∈ l.items, m.IsIntegral
  total : l.total < Nat.pow 2 64
  unauthorizedTotal : l.unauthorizedTotal < Nat.pow 2 64

/-- The fields of a listing whose machines are given as values. -/
def fieldsWith (l : Listing) (items : List Json) : List (String × Json) :=
  [("items", .array items), ("total", Json.ofNat l.total),
    ("unauthorized_total", Json.ofNat l.unauthorizedTotal)]

/-- A text is an object with exactly the fields of a listing, each of them once, and its items
describe the machines of the listing in their order, whether they are read as values first or as
the items of a page at once. -/
def Describes (text : String) (l : Listing) : Prop :=
  ∃ items, document (value depthLimit) text = .ok (.object (l.fieldsWith items)) ∧
    document (objectFields depthLimit) text = .ok (l.fieldsWith items) ∧
    items.mapM Machine.ofJson = .ok l.items ∧
    document (Page.read depthLimit) text = .ok ⟨l.items, l.total⟩

theorem sorted_fieldsWith (l : Listing) (items : List Json) :
    Fields.Sorted (l.fieldsWith items) := by
  have hnames : ["items", "total", "unauthorized_total"].Pairwise (· < ·) := by decide
  exact List.pairwise_map.1 hnames

/-- The machines of a listing are in order, and its numbers are such as the server can send. -/
structure IsProper (l : Listing) : Prop where
  wellFormed : ∀ m ∈ l.items, Machine.WellFormed 124 m
  integral : ∀ m ∈ l.items, m.IsIntegral
  total : l.total < Nat.pow 2 64
  unauthorizedTotal : l.unauthorizedTotal < Nat.pow 2 64

theorem IsDecoded.isProper (hl : l.IsDecoded) : l.IsProper := by
  -- The page, the list and the machine itself stand around the fields of a machine.
  obtain ⟨s, total, hread⟩ := hl.items
  obtain ⟨rest, hpage, -⟩ := document_eq_ok.1 hread
  exact ⟨Page.wellFormed_of_read hpage, hl.integral, hl.total, hl.unauthorizedTotal⟩

theorem reads_fieldsWith (hl : l.IsProper) (layout : Layout) :
    List.Forall₂ (ReadsField 126 layout) (l.fieldsWith (l.items.map Machine.arranged))
      (l.fieldsWith (l.items.map Machine.toJson)) := by
  have hitems : List.Forall₂ (Reads (value 125) layout.inner) (l.items.map Machine.arranged)
      (l.items.map Machine.toJson) := by
    rw [List.forall₂_map_left_iff, List.forall₂_map_right_iff, List.forall₂_same]
    exact fun m hm => Machine.reads_arranged (hl.wellFormed m hm) (hl.integral m hm) layout.inner
  have hnumber : ∀ n : Nat, n < Nat.pow 2 64 →
      Reads (value 126) layout (Json.ofNat n) (Json.ofNat n) :=
    fun n hn => reads_value (.int 126 (isKeptInt_of_lt hn)) (.int n) layout
  exact .cons ⟨rfl, reads_array hitems⟩ (.cons ⟨rfl, hnumber _ hl.total⟩
    (.cons ⟨rfl, hnumber _ hl.unauthorizedTotal⟩ .nil))

theorem takes_fieldsWith (hl : l.IsProper) (layout : Layout) :
    Takes (Page.readField 126) layout {} (l.fieldsWith (l.items.map Machine.toJson))
      ⟨some l.items, some l.total⟩ := by
  have hitems : List.Forall₂ (Reads (Machine.read 125) layout.inner) l.items
      (l.items.map Machine.toJson) := by
    rw [List.forall₂_map_right_iff, List.forall₂_same]
    exact fun m hm => ⟨head_object layout.inner m.toFields, fun tail _ =>
      Machine.read_written (hl.wellFormed m hm) (hl.integral m hm) layout.inner tail⟩
  have hlist : Reads (list 126 Machine.read) layout l.items
      (.array (l.items.map Machine.toJson)) := reads_list hitems
  have htotal : Reads nat64 layout l.total (Json.ofNat l.total) :=
    reads_natural layout (isKeptInt_of_lt hl.total) (Nat.le_sub_one_of_lt hl.total)
  have hfirst : Takes (Page.readField 126) layout {}
      [("items", .array (l.items.map Machine.toJson))] ⟨some l.items, none⟩ :=
    .cons (once_written hlist (ignoresSpace_list _ _) fun x =>
      (⟨some x, none⟩ : Page.Draft)) (.nil _)
  have hsecond : Takes (Page.readField 126) layout ⟨some l.items, none⟩
      [("total", Json.ofNat l.total)] ⟨some l.items, some l.total⟩ :=
    .cons (once_written htotal (ignoresSpace_natural _) fun n =>
      (⟨some l.items, some n⟩ : Page.Draft)) (.nil _)
  have hthird : Takes (Page.readField 126) layout ⟨some l.items, some l.total⟩
      [("unauthorized_total", Json.ofNat l.unauthorizedTotal)] ⟨some l.items, some l.total⟩ :=
    .cons (fun tail hends => ignored_ofNat _ l.unauthorizedTotal hends) (.nil _)
  exact (hfirst.append hsecond).append hthird

/-- What is printed for a listing is a page, with one more field that pages do not have. -/
theorem read_page (hl : l.IsProper) :
    document (Page.read depthLimit) (indentedText l.toJson) = .ok ⟨l.items, l.total⟩ := by
  have htakes := takes_fieldsWith hl (Layout.indented 0).inner
  obtain ⟨body, hbody, hmembers⟩ := members_object htakes []
  have hbrace : skipSpace (write (.indented 0) l.toJson ++ []) = '{' :: body :=
    (congrArg skipSpace hbody).trans (skipSpace_cons (by decide) body)
  apply document_ofList
  unfold Page.read
  exact (record_object hbrace).trans (object_written hbody (bind_eq_ok.2 ⟨_, hmembers, rfl⟩))

theorem describes_indentedText (hl : l.IsProper) : Describes (indentedText l.toJson) l := by
  have hfields := reads_fieldsWith hl (Layout.indented 0).inner
  refine ⟨l.items.map Machine.arranged, ?_, ?_, ?_, read_page hl⟩
  · have hread := (reads_object hfields).read [] (fun c hc => by cases hc)
    rw [(l.sorted_fieldsWith _).insertAll_eq] at hread
    exact document_ofList hread
  · exact document_ofList (objectFields_object hfields [])
  · exact mapM_map_ok fun m hm =>
      Machine.ofJson_arranged (hl.wellFormed m hm) (hl.integral m hm) (by decide)

/-- A text describes one listing at most. -/
theorem Describes.unique {text : String} {other : Listing} (hl : Describes text l)
    (hother : Describes text other) : other = l := by
  obtain ⟨items, hvalue, -, hitems, -⟩ := hl
  obtain ⟨others, hvalue', -, hothers, -⟩ := hother
  rw [hvalue] at hvalue'
  obtain ⟨rfl, htotal, hunauthorized⟩ : items = others ∧ l.total = other.total ∧
      l.unauthorizedTotal = other.unauthorizedTotal := by
    simpa [fieldsWith, Json.ofNat, Int.ofNat_inj] using hvalue'
  rw [hitems] at hothers
  cases l
  cases other
  cases hothers
  cases htotal
  cases hunauthorized
  rfl

/-- What is printed for a listing describes the listing, and no other listing is printed the same.
-/
theorem printed_in_full (hl : l.IsDecoded) :
    Describes (indentedText l.toJson) l ∧
      ∀ other : Listing, other.IsDecoded → other ≠ l →
        indentedText other.toJson ≠ indentedText l.toJson := by
  refine ⟨describes_indentedText hl.isProper, fun other hother hne htext => hne ?_⟩
  exact (describes_indentedText hl.isProper).unique (htext ▸ describes_indentedText hother.isProper)

/-- A page with a field that pages do not have, and with machines whose fields are not in order. -/
def unsortedPage : String :=
  "\x7b\"total\": 7, \"next\": [1.5], \"items\": [\x7b\"tags\": [\x7b\"b\": [], \"a\": \x7b\x7d\x7d,
    -9223372036854775808, \"\\u0000\\\"\\ud83d\\ude00\"],
    \"lastVisitedAt\": \"2016-12-31T23:59:60Z\", \"Zone\": 18446744073709551615, \"id\": 2\x7d,
    \x7b\"error\": \"\", \"id\": -1\x7d]\x7d"

/-- A listing of that page. -/
def unsorted : Listing where
  items :=
    [{ id := 2
       lastVisitedAt := some ⟨1483228799, 1000000000⟩
       extra := [("Zone", .number (.int 18446744073709551615)),
         ("tags", .array [.object [("a", .object []), ("b", .array [])],
           .number (.int (-9223372036854775808)), .text "\x00\"😀"])] },
      { id := -1, error := some "" }]
  total := 7
  unauthorizedTotal := 18446744073709551615

theorem unsorted_printed_in_full : unsorted.IsDecoded ∧
    Describes (indentedText unsorted.toJson) unsorted ∧
      ∀ other : Listing, other.IsDecoded → other ≠ unsorted →
        indentedText other.toJson ≠ indentedText unsorted.toJson := by
  have hread : document (Page.read depthLimit) unsortedPage = .ok ⟨unsorted.items, 7⟩ := by
    decide +kernel
  have hempty : Integral (.object [("a", .object []), ("b", .array [])]) :=
    .object (List.forall_mem_cons.2 ⟨.object (by simp), by simpa using .array (by simp)⟩)
  have htags : Integral (.array [.object [("a", .object []), ("b", .array [])],
      .number (.int (-9223372036854775808)), .text "\x00\"😀"]) :=
    .array (List.forall_mem_cons.2
      ⟨hempty, List.forall_mem_cons.2 ⟨.int _, List.forall_mem_singleton.2 (.text _)⟩⟩)
  have hfirst : ∀ field ∈ [("Zone", Json.number (.int 18446744073709551615)),
      ("tags", _)], Integral field.2 :=
    List.forall_mem_cons.2 ⟨.int _, List.forall_mem_singleton.2 htags⟩
  have hl : unsorted.IsDecoded :=
    { items := ⟨unsortedPage, 7, hread⟩
      integral := List.forall_mem_cons.2
        ⟨hfirst, List.forall_mem_singleton.2 fun _ hfield => absurd hfield List.not_mem_nil⟩
      total := by decide
      unauthorizedTotal := by decide }
  exact ⟨hl, printed_in_full hl⟩

end Listing

end FleetConsole
