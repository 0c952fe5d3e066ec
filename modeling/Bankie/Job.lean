import Bankie.Service

/-!
The outbox job.
A tick fetches the unprocessed rows, takes the Redis lock, settles the rows one by one and
releases the lock. Settling a row is two separate commits: the ledger command that the
payload spells out, and then the mark of the transaction as completed.
-/
namespace Bankie

open Program

def lockKey : String := "outbox_lock"

/-- Seconds. -/
def lockTimeout : ℕ := 10 * 60

def acquireLock (key lockValue : String) (timeout : ℕ) : Code (Option String) := do
  let result : Bool ← callUnwrap (.setNx key lockValue)
  match result with
  | true => do
    callUnwrap (.expire key timeout)
    return some lockValue
  | false => return none

/-- A key that is gone replies nil, which is no `String`: the unwrap panics. -/
def releaseLock (key lockValue : String) : Code Unit := do
  let current : Option String ← callUnwrap (.get key)
  match current with
  | none => Prog.lift (.panic "Response was of incompatible type")
  | some currentLockValue =>
    if currentLockValue = lockValue then callUnwrap (.del key) else pure ()

/-- `Context::context` on an option. -/
def context {α : Type} (message : String) : Option α → Outcome α
  | some a => .ok a
  | none => .err message

def payloadKey (eventType : String) : Outcome String :=
  if eventType = "LedgerCommand::Credit" then .ok "Credit"
  else if eventType = "LedgerCommand::Debit" then .ok "DebitRelease"
  else .panic ("Unknown event type: " ++ eventType)

/-- What `process_event` reads from a row before it executes anything: the aggregate id,
the command, and the transaction to complete. -/
def parseEvent (event : Outbox) : Outcome (String × LedgerCommand × Uuid) := do
  let key ← payloadKey event.eventType
  let payload := event.payload
  let idStr ← context "Missing 'id' field" ((payload.get key).get "id").asStr
  let id ← context "Invalid 'id' format" (Uuid.parseStr idStr)
  let accountIdStr ← context "Missing 'account_id' field" ((payload.get key).get "account_id").asStr
  let accountId ← context "Invalid 'account_id' format" (Uuid.parseStr accountIdStr)
  let transactionIdStr ←
    context "Missing 'transaction_id' field" ((payload.get key).get "transaction_id").asStr
  let transactionId ← context "Invalid 'transaction_id' format" (Uuid.parseStr transactionIdStr)
  let amountStr ←
    context "Missing 'amount' field" (((payload.get key).get "amount").get "amount").asStr
  let amount ← context "Invalid 'amount' format" (Decimal.fromStr amountStr)
  let currencyStr ←
    context "Missing 'currency' field" (((payload.get key).get "amount").get "currency").asStr
  let currency := Currency.ofString currencyStr
  let amount := Money.new amount currency
  let command ←
    if event.eventType = "LedgerCommand::Credit" then
      .ok (LedgerCommand.credit id accountId transactionId amount)
    else if event.eventType = "LedgerCommand::Debit" then
      .ok (LedgerCommand.debitRelease id accountId transactionId amount)
    else .panic ("Unknown event type: " ++ event.eventType)
  return (idStr, command, transactionId)

/-- The execute of `process_event`, and the transaction id that it returns. -/
def executeParsed (parsed : String × LedgerCommand × Uuid) : Code Uuid := do
  (executeLedger parsed.1 parsed.2.1).mapErr (fun e => "Failed to write ledger: " ++ e)
  return parsed.2.2

def processEvent (event : Outbox) : Code Uuid := do
  let parsed ← Prog.lift (parseEvent event)
  executeParsed parsed

/-- The body of the loop after a row: complete its transaction, or log the error. -/
def completeEvent : Except String Uuid → Code Unit
  | .ok transactionId => do
    let _ ← (call (.completeTransaction transactionId)).attempt
    return ()
  | .error _ => return ()

def processEvents : List Outbox → Code Unit
  | [] => return ()
  | event :: events => do
    let processed ← (processEvent event).attempt
    completeEvent processed
    processEvents events

/-- From the lock on: the rows are those that were fetched before it. -/
def processLocked (lockValue : String) (events : List Outbox) : Code Unit := do
  let lock ← acquireLock lockKey lockValue lockTimeout
  let identifier ← Prog.lift (Outcome.unwrap "called Option::unwrap() on a None value" lock)
  processEvents events
  releaseLock lockKey identifier

/-- One tick of the job. -/
def ledgerJob (lockValue : String) : Code Unit := do
  let fetched : Except String (List Outbox) ← (call .getUnprocessedOutbox).attempt
  match fetched with
  | .ok events => processLocked lockValue events
  | .error _ => return ()

end Bankie
