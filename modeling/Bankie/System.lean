import Bankie.Job
import Bankie.Transition

/-!
The running service: one consumer of the command channel, any number of outbox ticks and
any number of house account requests, over shared stores. A step is one store call of one
of them, or one of them starting; nothing else is atomic. New identifiers are drawn from
those never used before.
-/
namespace Bankie

open Program Transition

structure Response where
  status : ℕ
  body : Json

def badRequest (message : String) : Response where
  status := 400
  body := .object [("code", .number 400), ("message", .string message)]

/-- The extractor draws the id and the number; the ledger is not read from the body. -/
def extractHouseAccount (id : Uuid) (accountNumber : String) (body : HouseAccount) :
    HouseAccount :=
  { body with
    id := id
    accountNumber := accountNumber
    ledgerId := "" }

/-- The end of the house account handler, once the ledger is initiated. -/
def storeHouseAccount (account : HouseAccount) : Code Response := do
  let stored : Except String Unit ← (call (.createHouseAccount account)).attempt
  match stored with
  | .error e => return badRequest e
  | .ok _ => return ⟨201, .object [("id", .string account.id.toString)]⟩

def houseAccountCreateHandler (ledgerId : Uuid) (houseAccount : HouseAccount) :
    Code Response := do
  let command : LedgerCommand :=
    .init ledgerId houseAccount.id (Money.new .zero houseAccount.currency)
  let initiated ← (executeLedger ledgerId.toString command).attempt
  match initiated with
  | .error e => return badRequest e
  | .ok _ => storeHouseAccount { houseAccount with ledgerId := ledgerId.toString }

/-- The state of the service. The identifiers drawn so far and the commands submitted so
far are kept as history. -/
structure System where
  store : Store
  used : List Uuid
  submitted : List BankAccountCommand
  channel : List BankAccountCommand
  consumer : Code Unit
  ticks : List (Code Unit)
  requests : List (Code Response)

inductive Action where
  | submit (fresh : Uuid) (body : BankAccountCommand)
  | receive (d : Draws)
  | consumer (o : Oracle)
  | startTick (lockValue : Uuid)
  | tick (i : ℕ) (o : Oracle)
  | startRequest (id ledgerId : Uuid) (accountNumber : String) (body : HouseAccount)
  | request (i : ℕ) (o : Oracle)
  | expireKey (key : String)

namespace System

/-- A service with empty event stores. The ledger ids of its house accounts are not new. -/
def init (houseAccounts : List HouseAccount) : System where
  store := Store.init houseAccounts
  used := houseAccounts.filterMap (fun h => Uuid.parseStr h.ledgerId)
  submitted := []
  channel := []
  consumer := pure ()
  ticks := []
  requests := []

def Fresh (st : System) (ids : List Uuid) : Prop := ids.Nodup ∧ ∀ u ∈ ids, u ∉ st.used

instance (st : System) (ids : List Uuid) : Decidable (st.Fresh ids) :=
  inferInstanceAs (Decidable (_ ∧ _))

/-- A request handler sends the command; the channel is closed once its consumer is gone.
That the channel hands out what it was sent, once each and in order, is assumed of it. -/
def submit (fresh : Uuid) (body : BankAccountCommand) (st : System) : Option System :=
  if st.Fresh [fresh] then
    match st.consumer with
    | .done (.panic _) => some { st with used := fresh :: st.used }
    | _ => some { st with
        used := fresh :: st.used
        submitted := st.submitted ++ [extractCommand fresh body]
        channel := st.channel ++ [extractCommand fresh body] }
  else none

/-- The consumer waits on the channel when its last command is done. -/
def receive (d : Draws) (st : System) : Option System :=
  match st.consumer, st.channel with
  | .done (.ok _), command :: rest =>
    if st.Fresh d.ids then
      some { st with
        used := d.ids ++ st.used
        channel := rest
        consumer := processCommand d command }
    else none
  | _, _ => none

def startTick (lockValue : Uuid) (st : System) : Option System :=
  if st.Fresh [lockValue] then
    some { st with
      used := lockValue :: st.used
      ticks := st.ticks ++ [ledgerJob lockValue.toString] }
  else none

def startRequest (id ledgerId : Uuid) (accountNumber : String) (body : HouseAccount)
    (st : System) : Option System :=
  if st.Fresh [id, ledgerId] then
    some { st with
      used := [id, ledgerId] ++ st.used
      requests := st.requests ++
        [houseAccountCreateHandler ledgerId (extractHouseAccount id accountNumber body)] }
  else none

def stepAt {α : Type} (i : ℕ) (o : Oracle) (ps : List (Code α)) (s : Store) :
    Option (List (Code α) × Store) :=
  match ps[i]? with
  | none => none
  | some p => (p.step exec o s).map (fun r => (ps.set i r.1, r.2))

/-- Redis drops a key whose timeout is set. -/
def expireKey (key : String) (st : System) : Option System :=
  match st.store.cache key with
  | some ⟨_, some _⟩ =>
    some { st with store := { st.store with cache := Function.update st.store.cache key none } }
  | _ => none

def step (st : System) : Action → Option System
  | .submit fresh body => st.submit fresh body
  | .receive d => st.receive d
  | .consumer o =>
    (st.consumer.step exec o st.store).map (fun r => { st with consumer := r.1, store := r.2 })
  | .startTick lockValue => st.startTick lockValue
  | .tick i o =>
    (stepAt i o st.ticks st.store).map (fun r => { st with ticks := r.1, store := r.2 })
  | .startRequest id ledgerId accountNumber body =>
    st.startRequest id ledgerId accountNumber body
  | .request i o =>
    (stepAt i o st.requests st.store).map (fun r => { st with requests := r.1, store := r.2 })
  | .expireKey key => st.expireKey key

/-- A run: some interleaving of steps, each of them enabled and passing the guard. -/
def runWhile (guard : System → Action → Bool) (st : System) (as : List Action) : Option System :=
  Machine.runWhile step guard st as

def run (st : System) (as : List Action) : Option System := st.runWhile (fun _ _ => true) as

/-- All runs from empty event stores and any house accounts. -/
def machine : Machine System Action where
  Init st := ∃ houseAccounts, st = init houseAccounts
  Step st a st' := st.step a = some st'

theorem steps_of_runWhile {guard : System → Action → Bool} {G : System → Action → Prop}
    (hG : ∀ st a, guard st a = true → G st a) {st st' : System} {as : List Action}
    (h : st.runWhile guard as = some st') : (machine.restrict G).Steps st as st' :=
  Machine.steps_of_runWhile (fun _ _ _ hstep => hstep) hG h

theorem reachable_of_runWhile {guard : System → Action → Bool} {G : System → Action → Prop}
    (hG : ∀ st a, guard st a = true → G st a) {houseAccounts : List HouseAccount}
    {st : System} {as : List Action}
    (h : (init houseAccounts).runWhile guard as = some st) :
    (machine.restrict G).Reachable st :=
  ⟨init houseAccounts, as, ⟨houseAccounts, rfl⟩, steps_of_runWhile hG h⟩

theorem steps_of_run {st st' : System} {as : List Action} (h : st.run as = some st') :
    machine.Steps st as st' :=
  Machine.steps_of_run (fun _ _ _ hstep => hstep) h

theorem reachable_of_run {houseAccounts : List HouseAccount} {st : System} {as : List Action}
    (h : (init houseAccounts).run as = some st) : machine.Reachable st :=
  ⟨init houseAccounts, as, ⟨houseAccounts, rfl⟩, steps_of_run h⟩

end System

/-! A day at the bank, for runs that are computed: a house account, one customer's account,
and orders on it. -/
namespace Scenario

def up : Oracle := ⟨none, "2024-01-01T00:00:00Z"⟩

def uid (n : ℕ) : Uuid := Uuid.ofNat n

def draws (n : ℕ) : Draws where
  transactionId := uid n
  journalEntryId := uid (n + 1)
  houseLineId := uid (n + 2)
  userLineId := uid (n + 3)
  uniqueId := n
  today := 0
  now := "2024-01-01T00:00:00Z"

def usd (n : ℤ) : Money := ⟨.ofInt n, .usd⟩

/-- A command that is sent, received and handled to its end, in this many calls. -/
def handle (fresh n calls : ℕ) (body : BankAccountCommand) : List Action :=
  .submit (uid fresh) body :: .receive (draws n) :: List.replicate calls (.consumer up)

/-- A tick that settles this many rows. -/
def tick (i fresh rows : ℕ) : List Action :=
  .startTick (uid fresh) :: List.replicate (5 + 2 * rows) (.tick i up)

/-- A house account of another type, for a bank that starts with one. -/
def fees : HouseAccount := ⟨uid 90, "active", "9876543210", "Fees", "Fee", "", .usd⟩

/-- The house account, and the approved account 10 with ledger 11. -/
def opened : List Action :=
  .startRequest (uid 1) (uid 2) "0123456789" ⟨uid 0, "active", "", "Master", "House", "", .usd⟩ ::
    List.replicate 2 (.request 0 up) ++
  handle 10 20 4 (.openAccount (uid 0) none .retail .checking "alice" .usd) ++
  handle 11 30 4 (.approveAccount (uid 10) (uid 0))

/-- A deposit of 100, written and not yet settled. -/
def deposited : List Action := opened ++ handle 12 40 5 (.deposit (uid 10) (usd 100))

/-- The deposit, settled by the first tick. -/
def funded : List Action := deposited ++ tick 0 13 1

end Scenario

end Bankie
