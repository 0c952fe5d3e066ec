import Bankie.Books
import Bankie.System
import Mathlib.Tactic.Simps.Basic

/-!
The bank as an abstract machine.
Its state is accounts, books and movements under typed identifiers, together with where
each worker stands. A step reads or writes these directly; no text is parsed, no table is
searched and no fold can fail. What the service does beyond it (locks, constraints, timeouts,
checks of funds) only decides which of the steps offered here is taken.
-/
namespace Bankie

open Transition

/-- A deposit or a withdrawal that was asked for. -/
structure Order where
  account : Uuid
  action : LedgerAction
  amount : Money

def Order.command (o : Order) : BankAccountCommand :=
  match o.action with
  | .deposit => .deposit o.account o.amount
  | .withdraw => .withdrawal o.account o.amount

/-- An account that is to be opened. -/
structure Opening where
  id : Uuid
  accountType : BankAccountType
  kind : BankAccountKind
  userId : String
  currency : Currency

/-- Where the consumer stands, by the call that it makes next. The sequence is the number
of events that it has loaded. -/
inductive ConsumerPoint where
  | idle
  | dead (message : String)
  | load (d : Draws) (command : BankAccountCommand)
  | openQuery (d : Draws) (opening : Opening)
  | openExists (d : Draws) (opening : Opening)
  | openCommit (d : Draws) (opening : Opening)
  | approveQuery (d : Draws) (account ledger : Uuid) (sequence : ℕ)
  | approveInit (d : Draws) (account ledger : Uuid) (c : Currency) (sequence : ℕ)
  | approveCommit (d : Draws) (account ledger : Uuid) (sequence : ℕ)
  | house (d : Draws) (order : Order) (loaded : Option Account) (sequence : ℕ)
  | checkAccount (d : Draws) (order : Order) (loaded : Account) (sequence : ℕ) (house : String)
  | checkLedger (d : Draws) (order : Order) (ledger : Uuid) (sequence : ℕ) (house : String)
  | record (d : Draws) (order : Order) (ledger : Uuid) (sequence : ℕ) (house : String)
  | hold (d : Draws) (order : Order) (ledger : Uuid) (sequence : ℕ)

/-- Where a tick of the job stands. -/
inductive TickPoint where
  | fetch (lockValue : String)
  | setNx (lockValue : String) (batch : List Movement)
  | expire (lockValue : String) (batch : List Movement)
  | execute (lockValue : String) (mv : Movement) (rest : List Movement)
  | complete (lockValue : String) (mv : Movement) (rest : List Movement)
  | get (lockValue : String)
  | del (lockValue : String)
  | stopped (result : Program.Outcome Unit)

/-- Where a request for a house account stands. -/
inductive RequestPoint where
  | init (ledger : Uuid) (account : HouseAccount)
  | insert (account : HouseAccount)
  | stopped (result : Program.Outcome Response)

namespace ConsumerPoint

/-- The consumer has a command in its hands. -/
def Running : ConsumerPoint → Prop
  | .idle => False
  | .dead _ => False
  | _ => True

/-- The consumer has written a withdrawal and not yet held its funds. -/
def Holding : ConsumerPoint → Prop
  | .hold .. => True
  | _ => False

end ConsumerPoint

namespace TickPoint

def rows : TickPoint → List Movement
  | .setNx _ batch => batch
  | .expire _ batch => batch
  | .execute _ mv rest => mv :: rest
  | .complete _ mv rest => mv :: rest
  | _ => []

/-- The movement whose settlement is executed and not yet marked. -/
def executed : TickPoint → Option Movement
  | .complete _ mv _ => some mv
  | _ => none

/-- Outside the loop over the rows a tick can end with any call. -/
def MayStop : TickPoint → Prop
  | .execute .. => False
  | .complete .. => False
  | .stopped _ => False
  | _ => True

def loop (lockValue : String) : List Movement → TickPoint
  | [] => .get lockValue
  | mv :: rest => .execute lockValue mv rest

@[simp] theorem rows_loop (lockValue : String) (batch : List Movement) :
    (loop lockValue batch).rows = batch := by cases batch <;> rfl

end TickPoint

/-- The state of the bank. -/
structure Bank where
  accounts : Uuid → Option Account
  books : Uuid → Option Book
  movements : List Movement
  completed : List Uuid
  houses : List HouseAccount
  used : List Uuid
  submitted : List BankAccountCommand
  channel : List BankAccountCommand
  consumer : ConsumerPoint
  ticks : List TickPoint
  requests : List RequestPoint

namespace Bank

def init (houses : List HouseAccount) : Bank where
  accounts _ := none
  books _ := none
  movements := []
  completed := []
  houses := houses
  used := houses.filterMap (fun h => Uuid.parseStr h.ledgerId)
  submitted := []
  channel := []
  consumer := .idle
  ticks := []
  requests := []

def Fresh (m : Bank) (ids : List Uuid) : Prop := ids.Nodup ∧ ∀ u ∈ ids, u ∉ m.used

section Writes

@[simps]
def setAccount (id : Uuid) (a : Account) (m : Bank) : Bank :=
  { m with accounts := Function.update m.accounts id (some a) }

@[simps]
def setBook (ledger : Uuid) (b : Book) (m : Bank) : Bank :=
  { m with books := Function.update m.books ledger (some b) }

@[simps]
def setConsumer (p : ConsumerPoint) (m : Bank) : Bank := { m with consumer := p }

@[simps]
def setTick (i : ℕ) (t : TickPoint) (m : Bank) : Bank := { m with ticks := m.ticks.set i t }

@[simps]
def setRequest (i : ℕ) (r : RequestPoint) (m : Bank) : Bank :=
  { m with requests := m.requests.set i r }

@[simps]
def addMovement (mv : Movement) (m : Bank) : Bank := { m with movements := m.movements ++ [mv] }

def unprocessed (m : Bank) : List Movement :=
  (m.movements.filter (fun mv => mv.tx ∉ m.completed)).take 100

end Writes

/-- The steps of the consumer that only read. -/
inductive Advances (m : Bank) : ConsumerPoint → ConsumerPoint → Prop where
  | loadOpen (d : Draws) (parent : Option Uuid) (opening : Opening) :
      Advances m
        (.load d (.openAccount opening.id parent opening.accountType opening.kind
          opening.userId opening.currency))
        (.openQuery d opening)
  | loadApprove (d : Draws) (account ledger : Uuid) (sequence : ℕ) :
      Advances m (.load d (.approveAccount account ledger))
        (.approveQuery d account ledger sequence)
  | loadOrder (d : Draws) (order : Order) (sequence : ℕ) :
      Advances m (.load d order.command)
        (.house d order (m.accounts order.account) sequence)
  | openQuery (d : Draws) (opening : Opening) (hnew : m.accounts opening.id = none) :
      Advances m (.openQuery d opening) (.openExists d opening)
  | openExists (d : Draws) (opening : Opening) :
      Advances m (.openExists d opening) (.openCommit d opening)
  | approveQuery (d : Draws) (account ledger : Uuid) (sequence : ℕ) (a : Account)
      (ha : m.accounts account = some a) :
      Advances m (.approveQuery d account ledger sequence)
        (.approveInit d account ledger a.currency sequence)
  | houseUnopened (d : Draws) (order : Order) (sequence : ℕ) (message : String) :
      Advances m (.house d order none sequence) (.dead message)
  | house (d : Draws) (order : Order) (a : Account) (sequence : ℕ) (h : HouseAccount)
      (hh : h ∈ m.houses) :
      Advances m (.house d order (some a) sequence)
        (.checkAccount d order a sequence h.ledgerId)
  | checkAccount (d : Draws) (order : Order) (a : Account) (sequence : ℕ) (house : String)
      (ledger : Uuid) (hledger : a.ledger = some ledger)
      (hcurrency : a.currency = order.amount.currency) :
      Advances m (.checkAccount d order a sequence house)
        (.checkLedger d order ledger sequence house)
  | checkLedger (d : Draws) (order : Order) (ledger : Uuid) (sequence : ℕ) (house : String) :
      Advances m (.checkLedger d order ledger sequence house)
        (.record d order ledger sequence house)

/-- The steps of a tick that neither execute nor complete anything. -/
inductive Ticks (m : Bank) : TickPoint → TickPoint → Prop where
  | fetch (lockValue : String) : Ticks m (.fetch lockValue) (.setNx lockValue m.unprocessed)
  | locked (lockValue : String) (batch : List Movement) :
      Ticks m (.setNx lockValue batch) (.expire lockValue batch)
  | expire (lockValue : String) (batch : List Movement) :
      Ticks m (.expire lockValue batch) (TickPoint.loop lockValue batch)
  | get (lockValue : String) : Ticks m (.get lockValue) (.del lockValue)
  | stop (t : TickPoint) (result : Program.Outcome Unit) (ht : t.MayStop) :
      Ticks m t (.stopped result)

def movementOf (m : Bank) (d : Draws) (order : Order) (ledger : Uuid) (house : String) :
    Movement where
  draws := d
  account := order.account
  ledger := ledger
  houseLedger := house
  action := order.action
  amount := order.amount
  outboxId := m.movements.length + 1

/-- Where the consumer goes once a movement is written. -/
def afterRecord (d : Draws) (order : Order) (ledger : Uuid) (sequence : ℕ) : ConsumerPoint :=
  match order.action with
  | .deposit => .idle
  | .withdraw => .hold d order ledger sequence

def holdOf (d : Draws) (order : Order) (now : String) : Posting where
  kind := .hold
  transactionId := d.transactionId
  amount := order.amount.amount
  time := now

def openingAccount (opening : Opening) (now : String) : Account where
  accountType := opening.accountType
  kind := opening.kind
  currency := opening.currency
  userId := opening.userId
  openedAt := now
  approvals := []

inductive Step : Bank → Action → Bank → Prop where
  | submit {m : Bank} (fresh : Uuid) (body : BankAccountCommand) (hfresh : m.Fresh [fresh]) :
      Step m (.submit fresh body) { m with
        used := fresh :: m.used
        submitted := m.submitted ++ [extractCommand fresh body]
        channel := m.channel ++ [extractCommand fresh body] }
  | refuse {m : Bank} (fresh : Uuid) (body : BankAccountCommand) (hfresh : m.Fresh [fresh]) :
      Step m (.submit fresh body) { m with used := fresh :: m.used }
  | receive {m : Bank} (d : Draws) (command : BankAccountCommand)
      (rest : List BankAccountCommand) (hidle : m.consumer = .idle)
      (hchannel : m.channel = command :: rest) (hfresh : m.Fresh d.ids) :
      Step m (.receive d) { m with
        used := d.ids ++ m.used
        channel := rest
        consumer := .load d command }
  | advance {m : Bank} (o : Oracle) (p : ConsumerPoint) (hp : m.Advances m.consumer p) :
      Step m (.consumer o) (m.setConsumer p)
  | giveUp {m : Bank} (o : Oracle) (hrunning : m.consumer.Running)
      (hhold : m.consumer.Holding → o.fail ≠ none) :
      Step m (.consumer o) (m.setConsumer .idle)
  | openAccount {m : Bank} (o : Oracle) (d : Draws) (opening : Opening)
      (hp : m.consumer = .openCommit d opening) :
      Step m (.consumer o)
        ((m.setAccount opening.id (openingAccount opening d.now)).setConsumer .idle)
  | initLedger {m : Bank} (o : Oracle) (d : Draws) (account ledger : Uuid) (c : Currency)
      (sequence : ℕ) (hp : m.consumer = .approveInit d account ledger c sequence) :
      Step m (.consumer o)
        ((m.setBook ledger ⟨.customer, account, c, o.now, []⟩).setConsumer
          (.approveCommit d account ledger sequence))
  | approve {m : Bank} (o : Oracle) (d : Draws) (account ledger : Uuid) (sequence : ℕ)
      (a : Account) (hok : o.fail = none)
      (hp : m.consumer = .approveCommit d account ledger sequence)
      (ha : m.accounts account = some a) :
      Step m (.consumer o)
        ((m.setAccount account (a.approve ledger d.now)).setConsumer .idle)
  | record {m : Bank} (o : Oracle) (d : Draws) (order : Order) (ledger : Uuid) (sequence : ℕ)
      (house : String) (hp : m.consumer = .record d order ledger sequence house) :
      Step m (.consumer o)
        ((m.addMovement (m.movementOf d order ledger house)).setConsumer
          (afterRecord d order ledger sequence))
  | hold {m : Bank} (o : Oracle) (d : Draws) (order : Order) (ledger : Uuid) (sequence : ℕ)
      (b : Book) (hp : m.consumer = .hold d order ledger sequence)
      (hb : m.books ledger = some b) :
      Step m (.consumer o)
        ((m.setBook ledger (b.post (holdOf d order o.now))).setConsumer .idle)
  | startTick {m : Bank} (lockValue : Uuid) (hfresh : m.Fresh [lockValue]) :
      Step m (.startTick lockValue) { m with
        used := lockValue :: m.used
        ticks := m.ticks ++ [.fetch lockValue.toString] }
  | tick {m : Bank} (i : ℕ) (o : Oracle) (t t' : TickPoint) (hi : m.ticks[i]? = some t)
      (ht : m.Ticks t t') :
      Step m (.tick i o) (m.setTick i t')
  | execute {m : Bank} (i : ℕ) (o : Oracle) (lockValue : String) (mv : Movement)
      (rest : List Movement) (b : Book) (hok : o.fail = none)
      (hi : m.ticks[i]? = some (.execute lockValue mv rest))
      (hb : m.books mv.ledger = some b) :
      Step m (.tick i o)
        ((m.setBook mv.ledger (b.post (mv.settlement o.now))).setTick i
          (.complete lockValue mv rest))
  | executeFails {m : Bank} (i : ℕ) (o : Oracle) (lockValue : String) (mv : Movement)
      (rest : List Movement) (hi : m.ticks[i]? = some (.execute lockValue mv rest))
      (hfail : o.fail ≠ none) :
      Step m (.tick i o) (m.setTick i (TickPoint.loop lockValue rest))
  | complete {m : Bank} (i : ℕ) (o : Oracle) (lockValue : String) (mv : Movement)
      (rest : List Movement) (hi : m.ticks[i]? = some (.complete lockValue mv rest)) :
      Step m (.tick i o)
        ({ m with completed := mv.tx :: m.completed }.setTick i (TickPoint.loop lockValue rest))
  | completeFails {m : Bank} (i : ℕ) (o : Oracle) (lockValue : String) (mv : Movement)
      (rest : List Movement) (hi : m.ticks[i]? = some (.complete lockValue mv rest))
      (hfail : o.fail ≠ none) :
      Step m (.tick i o) (m.setTick i (TickPoint.loop lockValue rest))
  | startRequest {m : Bank} (id ledger : Uuid) (accountNumber : String) (body : HouseAccount)
      (hfresh : m.Fresh [id, ledger]) :
      Step m (.startRequest id ledger accountNumber body) { m with
        used := [id, ledger] ++ m.used
        requests := m.requests ++
          [.init ledger (extractHouseAccount id accountNumber body)] }
  | initHouse {m : Bank} (i : ℕ) (o : Oracle) (ledger : Uuid) (account : HouseAccount)
      (hi : m.requests[i]? = some (.init ledger account)) :
      Step m (.request i o)
        ((m.setBook ledger ⟨.house, account.id, account.currency, o.now, []⟩).setRequest i
          (.insert { account with ledgerId := ledger.toString }))
  | insertHouse {m : Bank} (i : ℕ) (o : Oracle) (account : HouseAccount)
      (result : Program.Outcome Response) (hi : m.requests[i]? = some (.insert account)) :
      Step m (.request i o)
        ({ m with houses := m.houses ++ [account] }.setRequest i (.stopped result))
  | endRequest {m : Bank} (i : ℕ) (o : Oracle) (r : RequestPoint)
      (result : Program.Outcome Response) (hi : m.requests[i]? = some r) :
      Step m (.request i o) (m.setRequest i (.stopped result))
  | expireKey {m : Bank} (key : String) : Step m (.expireKey key) m

/-- All runs of the bank from no accounts and any house accounts. -/
def machine : Machine Bank Action where
  Init m := ∃ houses, m = init houses
  Step := Step

end Bank

end Bankie
