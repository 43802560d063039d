import EdgeVms.Platform.Variables

/-! # The fencing token and the lease -/

namespace EdgeVms.Platform

open Process Python

variable {M : Type}

/-- `dict(items or {})` -/
def rowValues (items : Option Items) : Dict Value := (items.getD []).mapValues Value.str

/-- `int(items["epoch"]) if items else 0` -/
def epochOf (items : Option Items) : Except Error Int :=
  if (rowValues items).isEmpty then .ok 0
  else do (← Dict.item (rowValues items) "epoch").toInt

/-- The loop of `next_epoch`; `left` of its `retries` rounds are still to come. -/
def nextEpochRounds (key : Key) (retries : Nat) : Nat → Program M (Int × Nat)
  | 0 => throw (.python (.runtimeError
      ("could not issue an epoch for " ++ key.path ++ " after " ++ toString retries ++ " conflicts")))
  | left + 1 => do
    let (items, index) ← Program.get key
    let current ← Program.value (epochOf items)
    tryCatch
      (do
        let newIndex ← Program.put key [("epoch", .int (current + 1))] (some index)
        return (current + 1, newIndex))
      fun error => match error with
        | .conflict .vmsplatform _ => nextEpochRounds key retries left
        | error => throw error

def nextEpoch (key : Key) : Program M (Int × Nat) := nextEpochRounds key 200 200

def currentEpoch (key : Key) : Program M Int := do
  let (items, _) ← Program.get key
  Program.value (epochOf items)

structure Lease where
  key : Key
  epoch : Int
  ttl : ℚ
  margin : ℚ
  lastRenewal : ℚ
  fenced : Bool
  conflicts : Nat

namespace Lease

def mayWrite (lease : Lease) : Program M Bool := do
  if lease.fenced then return false
  let now ← Program.clock
  return now - lease.lastRenewal < lease.ttl - lease.margin

/-- `renew`, with the lease as it leaves it. -/
def renew (lease : Lease) : Program M (Bool × Lease) := do
  if lease.fenced then return (false, lease)
  -- Any exception of the store means that it is unreachable: keep going until TTL - margin.
  let live ← tryCatch (some <$> currentEpoch lease.key) fun _ => return none
  match live with
  | none => return (← lease.mayWrite, lease)
  | some live =>
    if live ≠ lease.epoch then
      return (false, { lease with fenced := true, conflicts := lease.conflicts + 1 })
    let now ← Program.clock
    return (true, { lease with lastRenewal := now })

end Lease

end EdgeVms.Platform
