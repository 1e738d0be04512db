import FleetConsole.Proofs.Dump.Delivery
import FleetConsole.Proofs.Server.Answer

/-!
# Dumps stay in their directory

The name of a dump comes from the server, in a field that may hold any bytes. What is left of it
after cleaning is a clean name: it names one file of a directory, and cleaning it again changes
nothing (`isClean_safeName`, `safeName_eq_self`). So a path made of a directory and a clean name has
one name more than the directory, and the file at this path is the only one that a delivery touches.
-/

namespace FleetConsole.Dump

open Storage Text

/-! ### Clean names -/

/-- A name of one file in a directory that has no blanks around it. -/
structure IsClean (name : String) : Prop extends IsFileName name where
  trimmed : Trimmed name.toList

theorem trimmed_defaultName (machine : Int) : Trimmed (defaultName machine).toList := by
  have hchars : (defaultName machine).toList =
      'm' :: ("achine-".toList ++ (intText machine).toList ++ "-dump.tar.gz".toList) := by
    rw [defaultName, String.toList_append, String.toList_append]
    rfl
  constructor
  · intro c hhead
    rw [hchars, List.head?_cons, Option.some.injEq] at hhead
    rw [← hhead]
    decide
  · intro c hlast
    have hend : "-dump.tar.gz".toList.getLast? = some 'z' := by decide
    rw [defaultName, String.toList_append, List.getLast?_append, hend, Option.some_or,
      Option.some.injEq] at hlast
    rw [← hlast]
    decide

theorem isClean_safeName (name : String) (machine : Int) : IsClean (safeName name machine) := by
  refine ⟨isFileName_safeName name machine, ?_⟩
  simp only [safeName]
  split_ifs
  · exact trimmed_defaultName machine
  · rw [String.toList_ofList]
    exact trimmed_trimChars _

/-- A clean name is kept, whatever machine the dump is of. -/
theorem safeName_eq_self {name : String} (hclean : IsClean name) (machine : Int) :
    safeName name machine = name := by
  have hbase : baseChars name.toList = name.toList := by
    rw [baseChars, splitChars_of_not_separator hclean.not_separator, List.getLast?_singleton,
      Option.getD_some, hclean.trimmed.trimChars_eq_self]
  rw [safeName, hbase, String.ofList_toList]
  exact if_neg fun hunusable => hunusable.elim hclean.nonempty fun hdots =>
    hdots.elim hclean.not_here hclean.not_above

/-! ### Where dumps land -/

/-- A delivery that put a dump into a directory under a name, at the path it returned. -/
structure Lands (dir name : String) (bytes : Bytes) (before later : Tree) (path : String) :
    Prop where
  clean : IsClean name
  /-- Cleaning the name again gives the same name. -/
  kept : ∀ machine, safeName name machine = name
  joined : path = Path.join dir name
  /-- The path leads to the directory and from there to a child of it. -/
  child : Path.ofText path = { Path.ofText dir with names := (Path.ofText dir).names ++ [name] }
  written : ∃ place, later.directory (Path.ofText dir) = .ok place ∧
    later.read? (place ++ [name]) = some bytes ∧
    ∀ other, other ≠ place ++ [name] → later.read? other = before.read? other

theorem Delivered.lands {dir path : String} {artifact : Artifact} {t later : Tree}
    (hdelivered : Delivered dir artifact t (.ok path) later) :
    Lands dir (safeName artifact.fileName artifact.machine) artifact.bytes t later path := by
  have hclean := isClean_safeName artifact.fileName artifact.machine
  cases hdelivered with
  | @stored place between hfiles hplace =>
    refine ⟨hclean, safeName_eq_self hclean, rfl, ofText_join hclean.toIsFileName dir, place, ?_⟩
    refine ⟨walk_put _ _ hplace, between.read?_put_self _ _, ?_⟩
    intro other hother
    rw [Tree.read?_put_of_ne hother, Tree.read?, hfiles]
    rfl

theorem readResponse_dump_eq_ok {id : Int} {response : Http.Response} {artifact : Artifact}
    (hread : Server.readResponse (.dump id) response = .ok artifact) :
    artifact = ⟨id, Server.offeredName id response, response.body⟩ :=
  (Except.ok.inj (Server.readResponse_eq_ok.1 hread).2.2).symm

/-- Whatever name a dump was given, and whatever a server answers, a dump that is stored is a child
of its directory. -/
theorem dumps_stay_inside (interference : Interference) (dir : String) (t : Tree) :
    (∀ artifact path later, deliver interference dir artifact t = (.ok path, later) →
      Lands dir (safeName artifact.fileName artifact.machine) artifact.bytes t later path) ∧
    ∀ id response artifact, Server.readResponse (.dump id) response = .ok artifact →
      ∀ path later, deliver interference dir artifact t = (.ok path, later) →
        Lands dir (safeName (Server.offeredName id response) id) response.body t later path := by
  have hsink : ∀ artifact path later, deliver interference dir artifact t = (.ok path, later) →
      Lands dir (safeName artifact.fileName artifact.machine) artifact.bytes t later path := by
    intro artifact path later hresult
    have hdelivered := delivered_deliver interference dir artifact t
    rw [hresult] at hdelivered
    exact hdelivered.lands
  refine ⟨hsink, ?_⟩
  intro id response artifact hread path later hresult
  rw [readResponse_dump_eq_ok hread] at hresult
  exact hsink ⟨id, Server.offeredName id response, response.body⟩ path later hresult

/-- A server that offers a dump for another directory. -/
def intrusive : Http.Response where
  status := 200
  fields := [("Content-Disposition",
    "attachment; filename=\"../..\\..\\ authorized_keys \"".toUTF8.toList)]
  body := [1, 2, 3]

theorem dump_of_intrusive_server : ∃ path later,
    deliver .none "dumps" ⟨7, Server.offeredName 7 intrusive, intrusive.body⟩ {} =
      (.ok path, later) ∧
    path = "dumps/authorized_keys" ∧
    Lands "dumps" "authorized_keys" [1, 2, 3] {} later path := by
  have hread : Server.readResponse (.dump 7) intrusive =
      .ok ⟨7, Server.offeredName 7 intrusive, intrusive.body⟩ := rfl
  have hresult : deliver .none "dumps" ⟨7, Server.offeredName 7 intrusive, intrusive.body⟩ {} =
      (.ok "dumps/authorized_keys",
        (deliver .none "dumps" ⟨7, Server.offeredName 7 intrusive, intrusive.body⟩ {}).2) :=
    Prod.ext (by decide +kernel) rfl
  have hname : safeName (Server.offeredName 7 intrusive) 7 = "authorized_keys" := by
    decide +kernel
  have hlands := (dumps_stay_inside .none "dumps" {}).2 7 intrusive _ hread _ _ hresult
  rw [hname] at hlands
  exact ⟨_, _, hresult, rfl, hlands⟩

end FleetConsole.Dump
