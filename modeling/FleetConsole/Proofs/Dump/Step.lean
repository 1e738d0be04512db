import FleetConsole.Dump.Desk
import FleetConsole.Proofs.Exchange

/-!
# The steps of the dumps

The desk of the dumps as an exchange. Its only operation sends the request for the dump of a
machine, and an answer only closes the request.
-/

namespace FleetConsole.Dump

def exchange : Exchange Desk Int Request (Except Failure Artifact) where
  number := Request.serial
  issued := Desk.issued
  pending := Desk.pending
  call desk machine := ((desk.request machine).1, [(desk.request machine).2])
  answer desk request _ := desk.settle request
  number_call _ _ := rfl
  issued_call _ _ := rfl
  pending_call _ _ := rfl
  issued_answer _ _ _ := rfl
  pending_answer _ _ _ := rfl

@[simp] theorem exchange_open? (desk : Desk) (serial : Nat) :
    exchange.open? desk serial = desk.open? serial := rfl

abbrev Event := Exchange.Event Int (Except Failure Artifact)

end FleetConsole.Dump
