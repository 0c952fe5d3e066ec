import Bankie.Represents

/-!
The points where a worker can stand, as programs.
A point is the program that is left of the code of the worker: the call that it makes
next, and for each reply the program of the point that it reaches with it.
-/
namespace Bankie

open Program Transition

section Points

/-- The rest of an execute: commit the events of the handler, and log an error. -/
def finish (account : Uuid) (sequence : ℕ) (p : Code (List BankAccountEvent)) : Code Unit :=
  (p.bind (commitEvents account.toString sequence)).rescue (fun _ => pure ())

def afterWrite (order : Order) (ledgerId : String) (transactionId : Uuid) :
    Code (List BankAccountEvent) :=
  match order.action with
  | .deposit => return []
  | .withdraw => do
    let ledgerId ← Prog.lift (Store.parseUnwrap ledgerId)
    BankAccountLogic.debitHold order.account ledgerId transactionId order.amount
    return []

/-- The write of an order on the account with these texts. -/
def writeOrder (d : Draws) (order : Order) (id ledgerId house : String) : Code Uuid := do
  let accountId ← Prog.lift (Store.parseUnwrap id)
  (BankAccountLogic.createTransactionWithJournal
    (Helper.transactionOf d accountId order.amount order.action) ledgerId
    (Helper.journalEntryOf d)
    (Helper.journalLinesOf d house ledgerId order.amount order.action)).mapErr
    (fun _ => "transaction update failed")

def Opening.event (opening : Opening) (now : String) : BankAccountEvent :=
  .accountOpened opening.accountType opening.kind opening.currency opening.userId
    (Helper.createBaseEvent now opening.id)

def validated (opening : Opening) (next : Code (List BankAccountEvent)) :
    Code (List BankAccountEvent) := do
  (do
    let valid : Bool ← (do
      let valid : Bool ← call (.validateBankAccountExists opening.userId opening.currency
        opening.kind)
      if valid = false then Prog.fail "Account duplicated" else pure true : Code Bool)
    if valid = false then Prog.fail "validation failed" else pure () : Code Unit)
  next

def checkFunds (order : Order) (ledgerId : String) : Code Unit := do
  let view ← loadLedgerView ledgerId
  BankAccountLogic.validateLedger order.action order.amount view

/-- The rest of an order once its house account is found. -/
def orderOn (d : Draws) (order : Order) (self : BankAccount) (house : String) :
    Code (List BankAccountEvent) := do
  let transactionId ← Helper.createTransactionWithJournal d self order.amount house order.action
  afterWrite order self.ledgerId transactionId

def ConsumerPoint.prog : ConsumerPoint → Code Unit
  | .idle => .done (.ok ())
  | .dead message => .done (.panic message)
  | .load d command => processCommand d command
  | .openQuery d opening =>
    finish opening.id 0 (BankAccount.handle d default
      (.openAccount opening.id none opening.accountType opening.kind opening.userId
        opening.currency))
  | .openExists d opening => finish opening.id 0 (validated opening (return [opening.event d.now]))
  | .openCommit d opening => finish opening.id 0 (return [opening.event d.now])
  | .approveQuery d account ledger sequence =>
    finish account sequence (BankAccount.handle d default (.approveAccount account ledger))
  | .approveInit d account ledger c sequence =>
    finish account sequence do
      Helper.initLedger ledger account c
      return [.accountKycApproved ledger.toString (Helper.createBaseEvent d.now account)]
  | .approveCommit d account ledger sequence =>
    finish account sequence
      (return [.accountKycApproved ledger.toString (Helper.createBaseEvent d.now account)])
  | .house d order loaded sequence =>
    let self := BankAccount.replay (loaded.elim [] (Account.events order.account))
    finish order.account sequence do
      let houseAccount ← BankAccount.houseOf order.amount.currency
      orderOn d order self houseAccount.ledgerId
  | .checkAccount d order loaded sequence houseLedger =>
    let self := BankAccount.replay (loaded.events order.account)
    finish order.account sequence do
      let transactionId ← (do
        BankAccountLogic.validate order.account order.action order.amount
        writeOrder d order self.id self.ledgerId houseLedger : Code Uuid)
      afterWrite order self.ledgerId transactionId
  | .checkLedger d order ledger sequence houseLedger =>
    finish order.account sequence do
      let transactionId ← (do
        checkFunds order ledger.toString
        writeOrder d order order.account.toString ledger.toString houseLedger : Code Uuid)
      afterWrite order ledger.toString transactionId
  | .record d order ledger sequence houseLedger =>
    finish order.account sequence do
      let transactionId ←
        writeOrder d order order.account.toString ledger.toString houseLedger
      afterWrite order ledger.toString transactionId
  | .hold d order ledger sequence =>
    finish order.account sequence do
      BankAccountLogic.debitHold order.account ledger d.transactionId order.amount
      return []

/-- The loop over the rows, and the release of the lock after it. -/
def settling (lockValue : String) (batch : List Movement) : Code Unit := do
  processEvents (batch.map (Movement.row false))
  releaseLock lockKey lockValue

def settlingFrom (lockValue : String) (round : Code Unit) (rest : List Movement) : Code Unit := do
  (do
    round
    processEvents (rest.map (Movement.row false)) : Code Unit)
  releaseLock lockKey lockValue

def TickPoint.prog : TickPoint → Code Unit
  | .fetch lockValue => ledgerJob lockValue
  | .setNx lockValue batch => processLocked lockValue (batch.map (Movement.row false))
  | .expire lockValue batch => do
    let lock ← (do
      callUnwrap (.expire lockKey lockTimeout)
      return some lockValue : Code (Option String))
    let identifier ← Prog.lift (Outcome.unwrap "called Option::unwrap() on a None value" lock)
    processEvents (batch.map (Movement.row false))
    releaseLock lockKey identifier
  | .execute lockValue mv rest => settling lockValue (mv :: rest)
  | .complete lockValue mv rest => settlingFrom lockValue (completeEvent (.ok mv.tx)) rest
  | .get lockValue => releaseLock lockKey lockValue
  | .del _ => callUnwrap (.del lockKey)
  | .stopped result => .done result

def RequestPoint.prog : RequestPoint → Code Response
  | .init ledger account => houseAccountCreateHandler ledger account
  | .insert account => storeHouseAccount account
  | .stopped result => .done result

theorem handle_order (d : Draws) (self : BankAccount) (order : Order) :
    BankAccount.handle d self order.command = (do
      let houseAccount ← BankAccount.houseOf order.amount.currency
      orderOn d order self houseAccount.ledgerId) := by
  obtain ⟨account, action, amount⟩ := order
  cases action <;> rfl

theorem parseUnwrap_toString (u : Uuid) : Store.parseUnwrap u.toString = .ok u := by
  simp [Store.parseUnwrap, Outcome.unwrap]

theorem writeOrder_toString (d : Draws) (order : Order) (id : Uuid) (ledgerId house : String) :
    writeOrder d order id.toString ledgerId house =
      (BankAccountLogic.createTransactionWithJournal
        (Helper.transactionOf d id order.amount order.action) ledgerId
        (Helper.journalEntryOf d)
        (Helper.journalLinesOf d house ledgerId order.amount order.action)).mapErr
        (fun _ => "transaction update failed") := by
  rw [writeOrder, parseUnwrap_toString]
  rfl

/-- On an aggregate without events the parser's unwrap panics. -/
theorem orderOn_default (d : Draws) (order : Order) (house : String) :
    orderOn d order (BankAccount.replay []) house =
      .done (.panic "called Result::unwrap() on an Err value") := by
  have hparse : Store.parseUnwrap (BankAccount.replay []).id =
      .panic "called Result::unwrap() on an Err value" := by
    rw [show (BankAccount.replay []).id = "" from rfl, Store.parseUnwrap, Uuid.parseStr_empty]
    rfl
  rw [orderOn, Helper.createTransactionWithJournal, hparse]
  rfl

theorem orderOn_account (d : Draws) (order : Order) (self : BankAccount) (house : String)
    (hid : self.id = order.account.toString) :
    orderOn d order self house =
      ((BankAccountLogic.validate order.account order.action order.amount).bind
        (fun _ => writeOrder d order self.id self.ledgerId house)).bind
          (afterWrite order self.ledgerId) := by
  rw [orderOn, Helper.createTransactionWithJournal, hid, parseUnwrap_toString]
  simp only [writeOrder, parseUnwrap_toString]
  rfl

theorem afterWrite_withdraw {order : Order} (haction : order.action = .withdraw)
    (ledger transactionId : Uuid) :
    afterWrite order ledger.toString transactionId = (do
      BankAccountLogic.debitHold order.account ledger transactionId order.amount
      return []) := by
  simp only [afterWrite, haction, parseUnwrap_toString]
  rfl

theorem TickPoint.prog_loop (lockValue : String) (batch : List Movement) :
    (TickPoint.loop lockValue batch).prog = settling lockValue batch := by
  cases batch <;> rfl

theorem settling_cons (lockValue : String) (mv : Movement) (rest : List Movement) :
    settling lockValue (mv :: rest) = (do
      (do
        let processed ← (executeParsed (mv.ledger.toString,
          mv.action.settlement mv.ledger mv.account mv.tx mv.amount, mv.tx)).attempt
        completeEvent processed
        processEvents (rest.map (Movement.row false)) : Code Unit)
      releaseLock lockKey lockValue) := by
  simp only [settling, List.map_cons, processEvents, Movement.row]
  rw [processEvent_settlementRow]

end Points

section Calls

/-! The call that each point makes, and the programs that it can lead to. -/

theorem calls_load (d : Draws) (command : BankAccountCommand) :
    (ConsumerPoint.load d command).prog.Calls (.loadAccount command.id.toString)
      (fun loaded : BankAccount × ℕ =>
        finish command.id loaded.2 (BankAccount.handle d loaded.1 command))
      (fun _ => ConsumerPoint.idle.prog) :=
  ⟨_, rfl, fun _ => rfl, fun _ => rfl⟩

theorem calls_openQuery (d : Draws) (opening : Opening) :
    (ConsumerPoint.openQuery d opening).prog.Calls (.queryAccount opening.id.toString)
      (fun view : Option BankAccountView =>
        if view.isSome then ConsumerPoint.idle.prog
        else (ConsumerPoint.openExists d opening).prog)
      (fun _ => ConsumerPoint.idle.prog) :=
  ⟨_, rfl, fun view => by cases view <;> rfl, fun _ => rfl⟩

theorem calls_openExists (d : Draws) (opening : Opening) :
    (ConsumerPoint.openExists d opening).prog.Calls
      (.validateBankAccountExists opening.userId opening.currency opening.kind)
      (fun valid : Bool =>
        if valid then (ConsumerPoint.openCommit d opening).prog else ConsumerPoint.idle.prog)
      (fun _ => ConsumerPoint.idle.prog) :=
  ⟨_, rfl, fun valid => by cases valid <;> rfl, fun _ => rfl⟩

theorem calls_openCommit (d : Draws) (opening : Opening) :
    (ConsumerPoint.openCommit d opening).prog.Calls
      (.commitAccount opening.id.toString 0 [opening.event d.now])
      (fun _ => ConsumerPoint.idle.prog) (fun _ => ConsumerPoint.idle.prog) :=
  ⟨_, rfl, fun _ => rfl, fun _ => rfl⟩

theorem calls_approveQuery (d : Draws) (account ledger : Uuid) (sequence : ℕ) :
    (ConsumerPoint.approveQuery d account ledger sequence).prog.Calls
      (.queryAccount account.toString)
      (fun view : Option BankAccountView => match view with
        | none => ConsumerPoint.idle.prog
        | some view =>
          (ConsumerPoint.approveInit d account ledger view.currency sequence).prog)
      (fun _ => ConsumerPoint.idle.prog) :=
  ⟨_, rfl, fun view => by cases view <;> rfl, fun _ => rfl⟩

theorem calls_approveInit (d : Draws) (account ledger : Uuid) (c : Currency) (sequence : ℕ) :
    (ConsumerPoint.approveInit d account ledger c sequence).prog.Calls
      (.executeLedger ledger.toString (.init ledger account (Money.new .zero c)))
      (fun _ => (ConsumerPoint.approveCommit d account ledger sequence).prog)
      (fun _ => ConsumerPoint.idle.prog) :=
  ⟨_, rfl, fun _ => rfl, fun _ => rfl⟩

theorem calls_approveCommit (d : Draws) (account ledger : Uuid) (sequence : ℕ) :
    (ConsumerPoint.approveCommit d account ledger sequence).prog.Calls
      (.commitAccount account.toString sequence
        [.accountKycApproved ledger.toString (Helper.createBaseEvent d.now account)])
      (fun _ => ConsumerPoint.idle.prog) (fun _ => ConsumerPoint.idle.prog) :=
  ⟨_, rfl, fun _ => rfl, fun _ => rfl⟩

theorem calls_house_none (d : Draws) (order : Order) (sequence : ℕ) :
    (ConsumerPoint.house d order none sequence).prog.Calls
      (.getHouseAccount order.amount.currency)
      (fun _ => (ConsumerPoint.dead "called Result::unwrap() on an Err value").prog)
      (fun _ => ConsumerPoint.idle.prog) := by
  have hbody : (fun house : HouseAccount =>
      orderOn d order (BankAccount.replay []) house.ledgerId) =
      fun _ => .done (.panic "called Result::unwrap() on an Err value") :=
    funext fun house => orderOn_default d order house.ledgerId
  change (finish order.account sequence ((BankAccount.houseOf order.amount.currency).bind
    (fun house => orderOn d order (BankAccount.replay []) house.ledgerId))).Calls _ _ _
  rw [hbody]
  exact ⟨_, rfl, fun _ => rfl, fun _ => rfl⟩

theorem calls_house_some (d : Draws) (order : Order) (a : Account) (sequence : ℕ) :
    (ConsumerPoint.house d order (some a) sequence).prog.Calls
      (.getHouseAccount order.amount.currency)
      (fun house : HouseAccount =>
        (ConsumerPoint.checkAccount d order a sequence house.ledgerId).prog)
      (fun _ => ConsumerPoint.idle.prog) := by
  have hbody := funext fun house : HouseAccount => orderOn_account d order
    (BankAccount.replay (a.events order.account)) house.ledgerId (a.replay_events _).1
  change (finish order.account sequence ((BankAccount.houseOf order.amount.currency).bind
    (fun house => orderOn d order (BankAccount.replay (a.events order.account))
      house.ledgerId))).Calls _ _ _
  rw [hbody]
  exact ⟨_, rfl, fun _ => rfl, fun _ => rfl⟩

theorem calls_checkAccount (d : Draws) (order : Order) (a : Account) (sequence : ℕ)
    (house : String) :
    (ConsumerPoint.checkAccount d order a sequence house).prog.Calls
      (.queryAccount order.account.toString)
      (fun view : Option BankAccountView =>
        finish order.account sequence (do
          let transactionId ← (do
            BankAccountLogic.validateAccount order.action order.amount view
            writeOrder d order (BankAccount.replay (a.events order.account)).id
              (BankAccount.replay (a.events order.account)).ledgerId house : Code Uuid)
          afterWrite order (BankAccount.replay (a.events order.account)).ledgerId
            transactionId))
      (fun _ => ConsumerPoint.idle.prog) :=
  ⟨_, rfl, fun _ => rfl, fun _ => rfl⟩

theorem calls_checkLedger (d : Draws) (order : Order) (ledger : Uuid) (sequence : ℕ)
    (house : String) :
    (ConsumerPoint.checkLedger d order ledger sequence house).prog.Calls
      (.queryLedger ledger.toString)
      (fun view : Option LedgerView =>
        finish order.account sequence (do
          let transactionId ← (do
            BankAccountLogic.validateLedger order.action order.amount view
            writeOrder d order order.account.toString ledger.toString house : Code Uuid)
          afterWrite order ledger.toString transactionId))
      (fun _ => ConsumerPoint.idle.prog) :=
  ⟨_, rfl, fun _ => rfl, fun _ => rfl⟩

/-- The consumer reads on from the check of the funds, where the row shows them, or gives up. -/
theorem checkLedger_next (d : Draws) (order : Order) (ledger : Uuid) (sequence : ℕ)
    (house : String) (view : Option LedgerView) {p : Code Unit}
    (hp : p = finish order.account sequence (do
      let transactionId ← (do
        BankAccountLogic.validateLedger order.action order.amount view
        writeOrder d order order.account.toString ledger.toString house : Code Uuid)
      afterWrite order ledger.toString transactionId)) :
    (p = (ConsumerPoint.record d order ledger sequence house).prog ∧
        (order.action = .withdraw → ∀ v ∈ view, ¬ v.available.Lt order.amount)) ∨
      p = ConsumerPoint.idle.prog := by
  subst hp
  rcases BankAccountLogic.validateLedger_cases order.action order.amount view with
    ⟨hlets, hfunds⟩ | hstops
  · refine Or.inl ⟨?_, hfunds⟩
    rw [hlets]
    rfl
  · refine Or.inr ?_
    rw [hstops]
    rfl

theorem calls_record (d : Draws) (order : Order) (ledger : Uuid) (sequence : ℕ)
    (house : String) :
    (ConsumerPoint.record d order ledger sequence house).prog.Calls
      (.createTransactionWithJournal
        (Helper.transactionOf d order.account order.amount order.action) ledger.toString
        (Helper.journalEntryOf d)
        (Helper.journalLinesOf d house ledger.toString order.amount order.action))
      (fun transactionId : Uuid =>
        finish order.account sequence (afterWrite order ledger.toString transactionId))
      (fun _ => ConsumerPoint.idle.prog) := by
  change (finish order.account sequence ((writeOrder d order order.account.toString
    ledger.toString house).bind (afterWrite order ledger.toString))).Calls _ _ _
  rw [writeOrder_toString]
  exact ⟨_, rfl, fun _ => rfl, fun _ => rfl⟩

theorem calls_hold (d : Draws) (order : Order) (ledger : Uuid) (sequence : ℕ) :
    (ConsumerPoint.hold d order ledger sequence).prog.Calls
      (.executeLedger ledger.toString
        (.debitHold ledger order.account d.transactionId order.amount))
      (fun _ => ConsumerPoint.idle.prog) (fun _ => ConsumerPoint.idle.prog) :=
  ⟨_, rfl, fun _ => rfl, fun _ => rfl⟩

theorem calls_fetch (lockValue : String) :
    (TickPoint.fetch lockValue).prog.Calls .getUnprocessedOutbox
      (fun rows : List Outbox => processLocked lockValue rows)
      (fun _ => (TickPoint.stopped (.ok ())).prog) :=
  ⟨_, rfl, fun _ => rfl, fun _ => rfl⟩

theorem calls_setNx (lockValue : String) (batch : List Movement) :
    (TickPoint.setNx lockValue batch).prog.Calls (.setNx lockKey lockValue)
      (fun set : Bool =>
        if set then (TickPoint.expire lockValue batch).prog
        else (TickPoint.stopped (.panic "called Option::unwrap() on a None value")).prog)
      (fun e => (TickPoint.stopped (.panic e)).prog) :=
  ⟨_, rfl, fun set => by cases set <;> rfl, fun _ => rfl⟩

theorem calls_expire (lockValue : String) (batch : List Movement) :
    (TickPoint.expire lockValue batch).prog.Calls (.expire lockKey lockTimeout)
      (fun _ => settling lockValue batch) (fun e => (TickPoint.stopped (.panic e)).prog) :=
  ⟨_, rfl, fun _ => rfl, fun _ => rfl⟩

theorem calls_execute (lockValue : String) (mv : Movement) (rest : List Movement) :
    (TickPoint.execute lockValue mv rest).prog.Calls
      (.executeLedger mv.ledger.toString
        (mv.action.settlement mv.ledger mv.account mv.tx mv.amount))
      (fun _ => (TickPoint.complete lockValue mv rest).prog)
      (fun _ => settling lockValue rest) := by
  rw [TickPoint.prog, settling_cons]
  exact ⟨_, rfl, fun _ => rfl, fun _ => rfl⟩

theorem calls_complete (lockValue : String) (mv : Movement) (rest : List Movement) :
    (TickPoint.complete lockValue mv rest).prog.Calls (.completeTransaction mv.tx)
      (fun _ => settling lockValue rest) (fun _ => settling lockValue rest) :=
  ⟨_, rfl, fun _ => rfl, fun _ => rfl⟩

theorem calls_get (lockValue : String) :
    (TickPoint.get lockValue).prog.Calls (.get lockKey)
      (fun current : Option String => match current with
        | none => (TickPoint.stopped (.panic "Response was of incompatible type")).prog
        | some current =>
          if current = lockValue then (TickPoint.del lockValue).prog
          else (TickPoint.stopped (.ok ())).prog)
      (fun e => (TickPoint.stopped (.panic e)).prog) :=
  ⟨_, rfl, fun current => by cases current <;> rfl, fun _ => rfl⟩

theorem calls_del (lockValue : String) :
    (TickPoint.del lockValue).prog.Calls (.del lockKey)
      (fun _ => (TickPoint.stopped (.ok ())).prog) (fun e => (TickPoint.stopped (.panic e)).prog) :=
  ⟨_, rfl, fun _ => rfl, fun _ => rfl⟩

theorem calls_initHouse (ledger : Uuid) (account : HouseAccount) :
    (RequestPoint.init ledger account).prog.Calls
      (.executeLedger ledger.toString
        (.init ledger account.id (Money.new .zero account.currency)))
      (fun _ => (RequestPoint.insert { account with ledgerId := ledger.toString }).prog)
      (fun e => (RequestPoint.stopped (.ok (badRequest e))).prog) :=
  ⟨_, rfl, fun _ => rfl, fun _ => rfl⟩

theorem calls_insertHouse (account : HouseAccount) :
    (RequestPoint.insert account).prog.Calls (.createHouseAccount account)
      (fun _ => (RequestPoint.stopped
        (.ok ⟨201, .object [("id", .string account.id.toString)]⟩)).prog)
      (fun e => (RequestPoint.stopped (.ok (badRequest e))).prog) :=
  ⟨_, rfl, fun _ => rfl, fun _ => rfl⟩

end Calls

end Bankie
