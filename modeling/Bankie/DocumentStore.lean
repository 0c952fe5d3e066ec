import Bankie.EventTable
import Bankie.Folds
import Bankie.Lockstep
import Bankie.Stored
import Bankie.System

/-!
The stores as documents.
The event tables hold JSON, the view tables hold JSON that two of the queries read as it is, and
the payloads of the outbox are JSON. Each call is made on these tables, in whatever order the
members of an object are kept. It is answered as the stores answer it, but for the order of the
payloads.
-/
namespace Bankie

open Program Transition EventTable

def BankAccount.aggregate : Aggregate BankAccountEvent BankAccount where
  event := BankAccountEvent.codec
  apply a e := .ok (a.apply e)
  blank := default

def Ledger.aggregate : Aggregate LedgerEvent Ledger where
  event := LedgerEvent.codec
  apply := Ledger.apply
  blank := default

/-- The tables, with documents where they are stored. -/
structure DocumentStore where
  accounts : String → List Json
  accountViews : AList fun _ : String => Json
  ledgers : String → List Json
  ledgerViews : AList fun _ : String => Json
  journalEntries : List JournalEntry
  journalLines : List JournalLine
  transactions : List Transaction
  outbox : List Outbox
  houseAccounts : List HouseAccount
  cache : String → Option CacheEntry

/-- The same row, with its payload in another order. -/
def Outbox.Stores (row row' : Outbox) : Prop :=
  ∃ payload, row.payload.Reorders payload ∧ row' = { row with payload := payload }

namespace DocumentStore

def init (houseAccounts : List HouseAccount) : DocumentStore where
  accounts _ := []
  accountViews := ∅
  ledgers _ := []
  ledgerViews := ∅
  journalEntries := []
  journalLines := []
  transactions := []
  outbox := []
  houseAccounts := houseAccounts
  cache _ := none

def views (d : DocumentStore) : ViewTables := ⟨d.accountViews, d.ledgerViews⟩

/-- The ids in `ledger_views`, which the foreign key of a line refers to. -/
def ledgerIds (d : DocumentStore) : AList fun _ : String => LedgerView where
  entries := d.ledgerViews.entries.map fun row => ⟨row.1, default⟩
  nodupKeys := by
    have hkeys : (d.ledgerViews.entries.map fun row =>
        (⟨row.1, default⟩ : Sigma fun _ : String => LedgerView)).keys = d.ledgerViews.keys := by
      rw [List.keys, List.map_map]
      rfl
    rw [List.NodupKeys, hkeys]
    exact d.ledgerViews.nodupKeys

/-- The tables that hold rows and no views, for the calls that need no more. -/
def plain (d : DocumentStore) : Store :=
  { Store.init d.houseAccounts with
    ledgerViews := d.ledgerIds
    journalEntries := d.journalEntries
    journalLines := d.journalLines
    transactions := d.transactions
    outbox := d.outbox
    cache := d.cache }

/-- What a call leaves of these tables. The column of the payloads is `jsonb`. -/
def withPlain (st : Storage) (p : Store) (d : DocumentStore) : DocumentStore :=
  { d with
    journalEntries := p.journalEntries
    journalLines := p.journalLines
    transactions := p.transactions
    outbox := p.outbox.map fun row => { row with payload := st.keep row.payload }
    houseAccounts := p.houseAccounts
    cache := p.cache }

def readView {α : Type} (c : Codec α) : Option Json → Outcome (Option α)
  | none => .ok none
  | some j => do
    let view ← read c j
    return some view

def commitAccount (st : Storage) (id : String) (sequence : ℕ) (events : List BankAccountEvent)
    (d : DocumentStore) : Outcome DocumentStore :=
  if (d.accounts id).length ≠ sequence then .err "optimistic lock error"
  else do
    let row ← readView BankAccountView.codec (d.accountViews.lookup id)
    let view := events.foldl BankAccountView.update (row.getD default)
    return { d with
      accounts := Function.update d.accounts id
        (append st BankAccount.aggregate events (d.accounts id))
      accountViews := d.accountViews.insert id (st.keep (BankAccountView.codec.encode view)) }

def executeLedger (st : Storage) (id : String) (command : LedgerCommand) (now : String)
    (d : DocumentStore) : Outcome DocumentStore := do
  let ledger ← load Ledger.aggregate (d.ledgers id)
  match ledger.handle now command with
  | .error e => .err e
  | .ok events => do
    let row ← readView LedgerView.codec (d.ledgerViews.lookup id)
    let view ← events.foldlM LedgerView.update (row.getD default)
    return { d with
      ledgers := Function.update d.ledgers id (append st Ledger.aggregate events (d.ledgers id))
      ledgerViews := d.ledgerViews.insert id (st.keep (LedgerView.codec.encode view)) }

def commitOrRollback (x : Outcome DocumentStore) (d : DocumentStore) :
    Outcome Unit × DocumentStore :=
  match x with
  | .ok d' => (.ok (), d')
  | .err e => (.err e, d)
  | .panic e => (.panic e, d)

/-- The effect of a call that the tables answer. A payload may be kept in another order by
every call. -/
def execute (st : Storage) (c : Call) (now : String) (d : DocumentStore) :
    Outcome (Reply c) × DocumentStore :=
  match c with
  | .loadAccount id =>
    (do
      let account ← load BankAccount.aggregate (d.accounts id)
      return (account, (d.accounts id).length), d)
  | .commitAccount id sequence events => commitOrRollback (d.commitAccount st id sequence events) d
  | .queryAccount viewId => (readView BankAccountView.codec (d.accountViews.lookup viewId), d)
  | .queryLedger viewId => (readView LedgerView.codec (d.ledgerViews.lookup viewId), d)
  | .executeLedger id command => commitOrRollback (d.executeLedger st id command now) d
  | .validateBankAccountExists userId currency kind =>
    (.ok (d.views.validateBankAccountExists userId currency kind), d)
  | c => ((Bankie.execute c now d.plain).1, d.withPlain st (Bankie.execute c now d.plain).2)

def exec (st : Storage) (c : Call) (o : Oracle) (d : DocumentStore) :
    Outcome (Reply c) × DocumentStore :=
  match o.fail with
  | some e => (.err e, d)
  | none => d.execute st c o.now

end DocumentStore

section Rows

/-! The calls on the tables without documents. -/

namespace Store

/-- The second store has the rows of the first. -/
structure SharesRows (s p : Store) : Prop where
  journalEntries : s.journalEntries = p.journalEntries
  journalLines : s.journalLines = p.journalLines
  transactions : s.transactions = p.transactions
  outbox : List.Forall₂ Outbox.Stores s.outbox p.outbox
  houseAccounts : s.houseAccounts = p.houseAccounts
  cache : s.cache = p.cache

def documents (s : Store) :=
  (s.accountEvents, s.accountViews, s.ledgerEvents, s.ledgerViews)

/-- The stores share their rows and the ids of their ledgers; the first has the documents that
`t` has. -/
structure Follows (t s p : Store) : Prop extends SharesRows s p where
  ledgerIds : ∀ id, (s.ledgerViews.lookup id).isNone = (p.ledgerViews.lookup id).isNone
  documents : s.documents = t.documents

namespace Follows

variable {t s p : Store}

theorem insertJournalEntry (h : t.Follows s p) (entry : JournalEntry) :
    Outcome.Related t.Follows (s.insertJournalEntry entry) (p.insertJournalEntry entry) := by
  rw [Store.insertJournalEntry, Store.insertJournalEntry, h.journalEntries]
  exact Outcome.Related.ite (Outcome.Related.err _) (Outcome.Related.ok
    { h with journalEntries := rfl })

theorem insertJournalLine (h : t.Follows s p) (line : JournalLine) :
    Outcome.Related t.Follows (s.insertJournalLine line) (p.insertJournalLine line) := by
  rw [Store.insertJournalLine, Store.insertJournalLine, h.journalLines, h.journalEntries,
    h.ledgerIds]
  refine Outcome.Related.ite (Outcome.Related.err _) <|
    Outcome.Related.ite (Outcome.Related.err _) <|
      Outcome.Related.ite (Outcome.Related.err _) <|
        Outcome.Related.ite (Outcome.Related.err _) (Outcome.Related.ok ?_)
  exact { h with journalEntries := rfl, journalLines := rfl }

theorem insertTransaction (h : t.Follows s p) (transaction : Transaction) :
    Outcome.Related t.Follows (s.insertTransaction transaction)
      (p.insertTransaction transaction) := by
  rw [Store.insertTransaction, Store.insertTransaction, h.transactions, h.journalEntries]
  refine Outcome.Related.ite (Outcome.Related.err _) <|
    Outcome.Related.ite (Outcome.Related.err _) <|
      Outcome.Related.ite (Outcome.Related.err _) <|
        Outcome.Related.ite (Outcome.Related.err _) (Outcome.Related.ok ?_)
  exact { h with journalEntries := rfl, transactions := rfl }

theorem insertOutbox (h : t.Follows s p) (transactionId : Uuid) (eventType : String)
    (payload : Json) :
    t.Follows (s.insertOutbox transactionId eventType payload)
      (p.insertOutbox transactionId eventType payload) := by
  refine { h with outbox := List.rel_append h.outbox ?_ }
  rw [h.outbox.length_eq]
  exact List.Forall₂.cons ⟨payload, Json.Reorders.refl payload, rfl⟩ List.Forall₂.nil

theorem createTransactionWithJournal (h : t.Follows s p) (transaction : Transaction)
    (ledgerId : String) (journalEntry : JournalEntry) (journalLines : List JournalLine) :
    Outcome.Related (fun a b => a.1 = b.1 ∧ t.Follows a.2 b.2)
      (s.createTransactionWithJournal transaction ledgerId journalEntry journalLines)
      (p.createTransactionWithJournal transaction ledgerId journalEntry journalLines) := by
  refine (h.insertJournalEntry journalEntry).bind fun s₁ p₁ h₁ => ?_
  refine (Outcome.Related.foldlM (fun s p line h => h.insertJournalLine _) journalLines h₁).bind
    fun s₂ p₂ h₂ => ?_
  refine (h₂.insertTransaction _).bind fun s₃ p₃ h₃ => ?_
  refine (Outcome.Related.refl (R := Eq) (fun _ => rfl) transaction.transactionType).bind ?_
  rintro transactionType _ rfl
  refine (Outcome.Related.refl (R := Eq) (fun _ => rfl) (parseUnwrap ledgerId)).bind ?_
  rintro id _ rfl
  exact Outcome.Related.ok ⟨rfl, h₃.insertOutbox _ _ _⟩

theorem createHouseAccount (h : t.Follows s p) (account : HouseAccount) :
    Outcome.Related t.Follows (s.createHouseAccount account) (p.createHouseAccount account) := by
  rw [Store.createHouseAccount, Store.createHouseAccount, h.houseAccounts]
  exact Outcome.Related.ite (Outcome.Related.err _) (Outcome.Related.ok
    { h with houseAccounts := rfl })

theorem completeTransaction (h : t.Follows s p) (transactionId : Uuid) :
    t.Follows (s.completeTransaction transactionId) (p.completeTransaction transactionId) := by
  refine { h with
    transactions := congrArg (List.map _) h.transactions
    outbox := List.forall₂_map_left_iff.mpr (List.forall₂_map_right_iff.mpr ?_) }
  refine h.outbox.imp fun row row' hrow => ?_
  obtain ⟨payload, hpayload, rfl⟩ := hrow
  refine ⟨payload, ?_, ?_⟩
  · split <;> exact hpayload
  · by_cases hid : row.transactionId = transactionId <;> simp [hid]

theorem getUnprocessedOutbox (h : t.Follows s p) :
    List.Forall₂ Outbox.Stores s.getUnprocessedOutbox p.getUnprocessedOutbox := by
  refine List.forall₂_take 100 (List.rel_filter ?_ h.outbox)
  rintro row _ ⟨payload, -, rfl⟩
  exact Iff.rfl

end Follows

end Store

end Rows

/-- Every log replays, to what its view tells. -/
structure Store.Current (s : Store) : Prop where
  accounts : ∀ id, (BankAccount.replay (s.accountEvents id)).Agrees
    ((s.accountViews.lookup id).getD default)
  ledgers : ∀ id, ∃ l, Ledger.replay (s.ledgerEvents id) = .ok l ∧
    l.Agrees ((s.ledgerViews.lookup id).getD default)

theorem Store.current_init (houseAccounts : List HouseAccount) :
    (Store.init houseAccounts).Current where
  accounts _ := ⟨rfl, rfl, rfl, rfl, rfl, rfl, rfl⟩
  ledgers _ := ⟨default, rfl, Ledger.agrees_default⟩

theorem Store.Current.updateAccount {s : Store} (hs : s.Current) {id : String}
    {log : List BankAccountEvent} {v : BankAccountView} (hv : (BankAccount.replay log).Agrees v) :
    { s with
      accountEvents := Function.update s.accountEvents id log
      accountViews := s.accountViews.insert id v }.Current := by
  refine ⟨fun id' => ?_, hs.ledgers⟩
  change (BankAccount.replay (Function.update s.accountEvents id log id')).Agrees
    (((s.accountViews.insert id v).lookup id').getD default)
  by_cases hid : id' = id
  · subst hid
    rw [Function.update_self, AList.lookup_insert]
    exact hv
  · rw [Function.update_of_ne hid, AList.lookup_insert_ne hid]
    exact hs.accounts id'

theorem Store.Current.updateLedger {s : Store} (hs : s.Current) {id : String}
    {log : List LedgerEvent} {l : Ledger} {v : LedgerView} (hl : Ledger.replay log = .ok l)
    (hv : l.Agrees v) :
    { s with
      ledgerEvents := Function.update s.ledgerEvents id log
      ledgerViews := s.ledgerViews.insert id v }.Current := by
  refine ⟨hs.accounts, fun id' => ?_⟩
  change ∃ l, Ledger.replay (Function.update s.ledgerEvents id log id') = .ok l ∧
    l.Agrees (((s.ledgerViews.insert id v).lookup id').getD default)
  by_cases hid : id' = id
  · subst hid
    rw [Function.update_self, AList.lookup_insert]
    exact ⟨l, hl, hv⟩
  · rw [Function.update_of_ne hid, AList.lookup_insert_ne hid]
    exact hs.ledgers id'

/-- Two answers to a call. Those to a fetch may differ in the order of the payloads. -/
def Alike : (c : Call) → Reply c → Reply c → Prop
  | .getUnprocessedOutbox, rows, rows' => List.Forall₂ Outbox.Stores rows rows'
  | _, a, a' => a = a'

theorem BankAccount.aggregate_foldlM (events : List BankAccountEvent) (a : BankAccount) :
    events.foldlM BankAccount.aggregate.apply a = .ok (events.foldl BankAccount.apply a) :=
  List.foldlM_pure

namespace DocumentStore

/-- The documents store what the stores hold, and the rows are the same. -/
structure Stores (d : DocumentStore) (s : Store) : Prop where
  accounts : ∀ id, EventTable.Stores BankAccount.aggregate (s.accountEvents id) (d.accounts id)
  accountViews : BankAccountView.codec.StoresTable d.accountViews s.accountViews
  ledgers : ∀ id, EventTable.Stores Ledger.aggregate (s.ledgerEvents id) (d.ledgers id)
  ledgerViews : LedgerView.codec.StoresTable d.ledgerViews s.ledgerViews
  rows : s.SharesRows d.plain

theorem stores_init (houseAccounts : List HouseAccount) :
    (init houseAccounts).Stores (Store.init houseAccounts) where
  accounts _ := List.Forall₂.nil
  accountViews := List.Forall₂.nil
  ledgers _ := List.Forall₂.nil
  ledgerViews := List.Forall₂.nil
  rows := ⟨rfl, rfl, rfl, List.Forall₂.nil, rfl, rfl⟩

theorem ledgerIds_isNone (d : DocumentStore) (id : String) :
    (d.ledgerIds.lookup id).isNone = (d.ledgerViews.lookup id).isNone := by
  have hkeys : d.ledgerIds.keys = d.ledgerViews.keys := by
    change (d.ledgerViews.entries.map _).map Sigma.fst = _
    rw [List.map_map]
    rfl
  rw [Bool.eq_iff_iff, Option.isNone_iff_eq_none, Option.isNone_iff_eq_none,
    AList.lookup_eq_none, AList.lookup_eq_none, AList.mem_keys, AList.mem_keys, hkeys]

theorem readView_stored {α : Type} {c : Codec α} {o : Option α} {o' : Option Json}
    (h : Option.Rel c.Stores o o') : readView c o' = .ok o := by
  cases h with
  | none => rfl
  | some hj =>
    rw [readView, read_stored hj]
    rfl

theorem stores_append {E A : Type} {g : Aggregate E A} {tables : String → List Json}
    {logs : String → List E} (h : ∀ id, EventTable.Stores g (logs id) (tables id)) (st : Storage)
    (id : String) (new : List E) (id' : String) :
    EventTable.Stores g (Function.update logs id (logs id ++ new) id')
      (Function.update tables id (append st g new (tables id)) id') := by
  by_cases hid : id' = id
  · subst hid
    rw [Function.update_self, Function.update_self]
    exact (h id').append st new
  · rw [Function.update_of_ne hid, Function.update_of_ne hid]
    exact h id'

namespace Stores

variable {d : DocumentStore} {s : Store}

theorem follows (h : d.Stores s) : s.Follows s d.plain where
  toSharesRows := h.rows
  ledgerIds id := by
    change _ = (d.ledgerIds.lookup id).isNone
    have hlookup := h.ledgerViews.lookup id
    rw [ledgerIds_isNone]
    generalize s.ledgerViews.lookup id = o at hlookup ⊢
    generalize d.ledgerViews.lookup id = o' at hlookup ⊢
    cases hlookup <;> rfl
  documents := rfl

/-- A call on the rows keeps the documents. -/
theorem withPlain (h : d.Stores s) (hs : s.Current) (st : Storage) {s' p : Store}
    (hp : s.Follows s' p) : (d.withPlain st p).Stores s' ∧ s'.Current := by
  have hdocuments := hp.documents
  simp only [Store.documents, Prod.mk.injEq] at hdocuments
  obtain ⟨haccounts, haccountViews, hledgers, hledgerViews⟩ := hdocuments
  refine ⟨⟨?_, ?_, ?_, ?_, { hp.toSharesRows with outbox := ?_ }⟩, ?_⟩
  · rw [haccounts]
    exact h.accounts
  · rw [haccountViews]
    exact h.accountViews
  · rw [hledgers]
    exact h.ledgers
  · rw [hledgerViews]
    exact h.ledgerViews
  · refine List.forall₂_map_right_iff.mpr (hp.outbox.imp ?_)
    rintro row _ ⟨payload, hpayload, rfl⟩
    exact ⟨_, hpayload.trans (st.keep_reorders payload), rfl⟩
  · constructor
    · rw [haccounts, haccountViews]
      exact hs.accounts
    · rw [hledgers, hledgerViews]
      exact hs.ledgers

theorem loadAccount (h : d.Stores s) (id : String) :
    load BankAccount.aggregate (d.accounts id) =
      .ok (BankAccount.replay (s.accountEvents id)) := by
  rw [(h.accounts id).load_eq]
  exact BankAccount.aggregate_foldlM _ _

theorem loadLedger (h : d.Stores s) (id : String) :
    load Ledger.aggregate (d.ledgers id) = Ledger.replay (s.ledgerEvents id) :=
  (h.ledgers id).load_eq

theorem accountLength (h : d.Stores s) (id : String) :
    (d.accounts id).length = (s.accountEvents id).length :=
  (h.accounts id).length_eq.symm

theorem commitAccount (h : d.Stores s) (hs : s.Current) (st : Storage) (id : String)
    (sequence : ℕ) (events : List BankAccountEvent) :
    Outcome.Related (fun s' d' => d'.Stores s' ∧ s'.Current) (s.commitAccount id sequence events)
      (d.commitAccount st id sequence events) := by
  rw [Store.commitAccount, DocumentStore.commitAccount, h.accountLength id]
  refine Outcome.Related.ite (Outcome.Related.err _) ?_
  rw [readView_stored (h.accountViews.lookup id), Outcome.ok_bind]
  refine Outcome.Related.ok ⟨{ h with
    accounts := stores_append h.accounts st id events
    accountViews := h.accountViews.insert id (st.keep_reorders _)
    rows := { h.rows with } }, hs.updateAccount ?_⟩
  rw [BankAccount.replay, List.foldl_append]
  exact (hs.accounts id).foldl events

theorem executeLedger (h : d.Stores s) (hs : s.Current) (st : Storage) (id : String)
    (command : LedgerCommand) (now : String) :
    Outcome.Related (fun s' d' => d'.Stores s' ∧ s'.Current) (s.executeLedger id command now)
      (d.executeLedger st id command now) := by
  obtain ⟨l, hl, hagrees⟩ := hs.ledgers id
  rw [Store.executeLedger, DocumentStore.executeLedger, h.loadLedger, hl, Outcome.ok_bind,
    Outcome.ok_bind]
  simp only [Ledger.handle]
  rcases Outcome.foldlM_together (fun l v e h => h.apply_update e) (command.events now) hagrees
    with ⟨l', v', hl', hv', hagrees'⟩ | ⟨before, e, after, l', v', heq, hl', hv', happly, hupdate⟩
  · rw [readView_stored (h.ledgerViews.lookup id), Outcome.ok_bind, hv', Outcome.ok_bind,
      Outcome.ok_bind]
    refine Outcome.Related.ok ⟨{ h with
      ledgers := stores_append h.ledgers st id _
      ledgerViews := h.ledgerViews.insert id (st.keep_reorders _)
      rows := { h.rows with } }, hs.updateLedger ?_ hagrees'⟩
    rw [Ledger.replay] at hl
    rw [Ledger.replay, List.foldlM_append, hl, Outcome.ok_bind, hl']
  · have hview : (command.events now).foldlM LedgerView.update
        ((s.ledgerViews.lookup id).getD default) = .panic mixedCurrencies := by
      rw [heq, List.foldlM_append, hv', Outcome.ok_bind, List.foldlM_cons, hupdate]
      rfl
    rw [readView_stored (h.ledgerViews.lookup id), Outcome.ok_bind, hview]
    exact Outcome.Related.panic _

theorem commitOrRollback (h : d.Stores s) (hs : s.Current) {x : Outcome Store}
    {y : Outcome DocumentStore}
    (hxy : Outcome.Related (fun s' d' => d'.Stores s' ∧ s'.Current) x y) :
    Outcome.Related (fun a b => a = b) (Bankie.commitOrRollback x s).1
        (DocumentStore.commitOrRollback y d).1 ∧
      (DocumentStore.commitOrRollback y d).2.Stores (Bankie.commitOrRollback x s).2 ∧
        (Bankie.commitOrRollback x s).2.Current := by
  cases hxy with
  | ok h' => exact ⟨Outcome.Related.ok rfl, h'⟩
  | err e => exact ⟨Outcome.Related.err e, h, hs⟩
  | panic e => exact ⟨Outcome.Related.panic e, h, hs⟩

theorem commitRows (h : d.Stores s) (hs : s.Current) (st : Storage) {x y : Outcome Store}
    (hxy : Outcome.Related s.Follows x y) :
    Outcome.Related (fun a b => a = b) (Bankie.commitOrRollback x s).1
        (Bankie.commitOrRollback y d.plain).1 ∧
      (d.withPlain st (Bankie.commitOrRollback y d.plain).2).Stores
          (Bankie.commitOrRollback x s).2 ∧
        (Bankie.commitOrRollback x s).2.Current := by
  cases hxy with
  | ok h' => exact ⟨Outcome.Related.ok rfl, h.withPlain hs st h'⟩
  | err e => exact ⟨Outcome.Related.err e, h.withPlain hs st h.follows⟩
  | panic e => exact ⟨Outcome.Related.panic e, h.withPlain hs st h.follows⟩

/-- The documents answer as the store does, and go on storing what the store holds. -/
theorem execute (h : d.Stores s) (hs : s.Current) (st : Storage) (c : Call) (now : String) :
    Outcome.Related (Alike c) (Bankie.execute c now s).1 (d.execute st c now).1 ∧
      (d.execute st c now).2.Stores (Bankie.execute c now s).2 ∧
        (Bankie.execute c now s).2.Current := by
  have hplain := h.follows
  cases c with
  | loadAccount id =>
    refine ⟨?_, h, hs⟩
    rw [Bankie.execute, DocumentStore.execute, h.loadAccount, h.accountLength]
    exact Outcome.Related.ok rfl
  | commitAccount id sequence events =>
    exact h.commitOrRollback hs (h.commitAccount hs st id sequence events)
  | queryAccount viewId =>
    refine ⟨?_, h, hs⟩
    rw [Bankie.execute, DocumentStore.execute, readView_stored (h.accountViews.lookup viewId)]
    exact Outcome.Related.ok rfl
  | queryLedger viewId =>
    refine ⟨?_, h, hs⟩
    rw [Bankie.execute, DocumentStore.execute, readView_stored (h.ledgerViews.lookup viewId)]
    exact Outcome.Related.ok rfl
  | executeLedger id command =>
    exact h.commitOrRollback hs (h.executeLedger hs st id command now)
  | validateBankAccountExists userId currency kind =>
    refine ⟨?_, h, hs⟩
    rw [Bankie.execute, DocumentStore.execute,
      ViewTables.validateBankAccountExists_stored ⟨h.accountViews, h.ledgerViews⟩]
    exact Outcome.Related.ok rfl
  | getHouseAccount currency =>
    refine ⟨?_, h.withPlain hs st hplain⟩
    change Outcome.Related _ (s.getHouseAccount currency) (d.plain.getHouseAccount currency)
    rw [Store.getHouseAccount, Store.getHouseAccount, hplain.houseAccounts]
    exact Outcome.Related.refl (fun _ => rfl) _
  | createTransactionWithJournal transaction ledgerId journalEntry journalLines =>
    have hwrite := hplain.createTransactionWithJournal transaction ledgerId journalEntry
      journalLines
    simp only [Bankie.execute, DocumentStore.execute]
    generalize s.createTransactionWithJournal transaction ledgerId journalEntry journalLines = x
      at hwrite ⊢
    generalize d.plain.createTransactionWithJournal transaction ledgerId journalEntry
      journalLines = y at hwrite ⊢
    cases hwrite with
    | ok h' => exact ⟨Outcome.Related.ok h'.1, h.withPlain hs st h'.2⟩
    | err e => exact ⟨Outcome.Related.err e, h.withPlain hs st hplain⟩
    | panic e => exact ⟨Outcome.Related.panic e, h.withPlain hs st hplain⟩
  | createHouseAccount account =>
    exact h.commitRows hs st (hplain.createHouseAccount account)
  | getUnprocessedOutbox =>
    exact ⟨Outcome.Related.ok hplain.getUnprocessedOutbox, h.withPlain hs st hplain⟩
  | completeTransaction transactionId =>
    exact ⟨Outcome.Related.ok rfl, h.withPlain hs st (hplain.completeTransaction transactionId)⟩
  | setNx key value =>
    simp only [Bankie.execute, DocumentStore.execute, hplain.cache]
    split
    · exact ⟨Outcome.Related.ok rfl, h.withPlain hs st hplain⟩
    · exact ⟨Outcome.Related.ok rfl, h.withPlain hs st { hplain with cache := rfl }⟩
  | expire key seconds =>
    simp only [Bankie.execute, DocumentStore.execute, hplain.cache]
    exact ⟨Outcome.Related.ok rfl, h.withPlain hs st { hplain with cache := rfl }⟩
  | get key =>
    simp only [Bankie.execute, DocumentStore.execute, hplain.cache]
    exact ⟨Outcome.Related.ok rfl, h.withPlain hs st hplain⟩
  | del key =>
    simp only [Bankie.execute, DocumentStore.execute, hplain.cache]
    exact ⟨Outcome.Related.ok rfl, h.withPlain hs st { hplain with cache := rfl }⟩

theorem exec (h : d.Stores s) (hs : s.Current) (st : Storage) (c : Call) (o : Oracle) :
    Outcome.Related (Alike c) (Bankie.exec c o s).1 (d.exec st c o).1 ∧
      (d.exec st c o).2.Stores (Bankie.exec c o s).2 ∧ (Bankie.exec c o s).2.Current := by
  unfold Bankie.exec DocumentStore.exec
  cases o.fail with
  | some e => exact ⟨Outcome.Related.err e, h, hs⟩
  | none => exact h.execute hs st c o.now

end Stores

end DocumentStore

end Bankie
