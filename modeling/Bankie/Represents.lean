import Bankie.Wellformed

/-!
How the stores show the bank.
Logs and view rows are found under printed identifiers, the tables list the movements in
order, and every worker runs the program of the point where it stands. Each call of the
service, made in such a store, answers from the bank and leaves a store that shows the
bank after the step.
-/
namespace Bankie

open Program Transition

/-- A function of identifiers as a function of texts, by the printed form. -/
def byKey {β : Type} (f : Uuid → β) (other : β) (key : String) : β :=
  match Uuid.parseStr key with
  | some u => if u.toString = key then f u else other
  | none => other

@[simp] theorem byKey_toString {β : Type} (f : Uuid → β) (other : β) (u : Uuid) :
    byKey f other u.toString = f u := by simp [byKey]

theorem byKey_update {β : Type} (f : Uuid → β) (other x : β) (u : Uuid) :
    byKey (Function.update f u x) other = Function.update (byKey f other) u.toString x := by
  funext key
  by_cases hkey : key = u.toString
  · subst hkey
    simp
  · rw [Function.update_of_ne hkey]
    unfold byKey
    split
    · rename_i v hv
      split
      · rename_i hvkey
        have hne : v ≠ u := by
          rintro rfl
          exact hkey hvkey.symm
        rw [Function.update_of_ne hne]
      · rfl
    · rfl

theorem byKey_ne_other {β : Type} {f : Uuid → β} {other : β} {key : String}
    (h : byKey f other key ≠ other) : ∃ u, key = u.toString ∧ byKey f other key = f u := by
  unfold byKey at h ⊢
  split at h
  · rename_i u hu
    split at h
    · rename_i hkey
      exact ⟨u, hkey.symm, by simp [hkey]⟩
    · exact absurd rfl h
  · exact absurd rfl h

/-- A text is a printed identifier, or it finds nothing. -/
theorem byKey_cases (key : String) : (∃ u : Uuid, key = u.toString) ∨
    ∀ {β : Type} (f : Uuid → β) (other : β), byKey f other key = other := by
  by_cases hkey : ∃ u : Uuid, key = u.toString
  · exact Or.inl hkey
  · refine Or.inr fun f other => ?_
    by_contra hne
    obtain ⟨u, hu, -⟩ := byKey_ne_other hne
    exact hkey ⟨u, hu⟩

namespace Bank

def accountLog (m : Bank) (u : Uuid) : List BankAccountEvent :=
  (m.accounts u).elim [] (Account.events u)

def accountView (m : Bank) (u : Uuid) : Option BankAccountView :=
  (m.accounts u).map (fun a => BankAccountView.project (a.events u))

def ledgerLog (m : Bank) (u : Uuid) : List LedgerEvent := (m.books u).elim [] (Book.events u)

def ledgerView (m : Bank) (u : Uuid) : Option LedgerView := (m.books u).map (Book.view u)

end Bank

/-- The store shows the accounts, books, movements and house accounts of the bank. -/
structure Represents (s : Store) (m : Bank) : Prop where
  accountEvents : s.accountEvents = byKey m.accountLog []
  accountViews : (fun key => s.accountViews.lookup key) = byKey m.accountView none
  ledgerEvents : s.ledgerEvents = byKey m.ledgerLog []
  ledgerViews : (fun key => s.ledgerViews.lookup key) = byKey m.ledgerView none
  journalEntries : s.journalEntries = m.movements.map Movement.entry
  journalLines : s.journalLines = m.movements.flatMap Movement.lines
  transactions : s.transactions =
    m.movements.map (fun mv => mv.transaction (decide (mv.tx ∈ m.completed)))
  outbox : s.outbox = m.movements.map (fun mv => mv.row (decide (mv.tx ∈ m.completed)))
  houses : s.houseAccounts = m.houses

namespace Represents

variable {s s' : Store} {m m' : Bank}

theorem accountEvents_at (h : Represents s m) (u : Uuid) :
    s.accountEvents u.toString = m.accountLog u := by
  rw [h.accountEvents, byKey_toString]

theorem accountViews_at (h : Represents s m) (u : Uuid) :
    s.accountViews.lookup u.toString = m.accountView u := by
  rw [← byKey_toString m.accountView none u, ← h.accountViews]

theorem ledgerEvents_at (h : Represents s m) (u : Uuid) :
    s.ledgerEvents u.toString = m.ledgerLog u := by
  rw [h.ledgerEvents, byKey_toString]

theorem ledgerViews_at (h : Represents s m) (u : Uuid) :
    s.ledgerViews.lookup u.toString = m.ledgerView u := by
  rw [← byKey_toString m.ledgerView none u, ← h.ledgerViews]

/-- Where a worker stands does not show in the store. -/
theorem of_same (h : Represents s m) (haccounts : m'.accounts = m.accounts)
    (hbooks : m'.books = m.books) (hmovements : m'.movements = m.movements)
    (hcompleted : m'.completed = m.completed) (hhouses : m'.houses = m.houses) :
    Represents s m' := by
  have haccountLog : m'.accountLog = m.accountLog := by
    funext u
    rw [Bank.accountLog, Bank.accountLog, haccounts]
  have haccountView : m'.accountView = m.accountView := by
    funext u
    rw [Bank.accountView, Bank.accountView, haccounts]
  have hledgerLog : m'.ledgerLog = m.ledgerLog := by
    funext u
    rw [Bank.ledgerLog, Bank.ledgerLog, hbooks]
  have hledgerView : m'.ledgerView = m.ledgerView := by
    funext u
    rw [Bank.ledgerView, Bank.ledgerView, hbooks]
  refine ⟨?_, ?_, ?_, ?_, ?_, ?_, ?_, ?_, ?_⟩
  · rw [haccountLog, h.accountEvents]
  · rw [haccountView, h.accountViews]
  · rw [hledgerLog, h.ledgerEvents]
  · rw [hledgerView, h.ledgerViews]
  · rw [hmovements, h.journalEntries]
  · rw [hmovements, h.journalLines]
  · rw [hmovements, hcompleted, h.transactions]
  · rw [hmovements, hcompleted, h.outbox]
  · rw [hhouses, h.houses]

theorem setCache (h : Represents s m) (cache : String → Option CacheEntry) :
    Represents { s with cache := cache } m :=
  ⟨h.accountEvents, h.accountViews, h.ledgerEvents, h.ledgerViews, h.journalEntries,
    h.journalLines, h.transactions, h.outbox, h.houses⟩

theorem setAccount (h : Represents s m) (id : Uuid) (a : Account) :
    Represents { s with
      accountEvents := Function.update s.accountEvents id.toString (a.events id)
      accountViews := s.accountViews.insert id.toString
        (BankAccountView.project (a.events id)) } (m.setAccount id a) := by
  refine ⟨?_, ?_, h.ledgerEvents, h.ledgerViews, h.journalEntries, h.journalLines,
    h.transactions, h.outbox, h.houses⟩
  · have hlog : (m.setAccount id a).accountLog =
        Function.update m.accountLog id (a.events id) := by
      funext u
      by_cases hu : u = id
      · subst hu
        simp [Bank.accountLog]
      · simp [Bank.accountLog, Function.update_of_ne hu]
    rw [hlog, byKey_update, ← h.accountEvents]
  · have hview : (m.setAccount id a).accountView =
        Function.update m.accountView id (some (BankAccountView.project (a.events id))) := by
      funext u
      by_cases hu : u = id
      · subst hu
        simp [Bank.accountView]
      · simp [Bank.accountView, Function.update_of_ne hu]
    rw [hview, byKey_update, ← h.accountViews]
    funext key
    by_cases hkey : key = id.toString
    · subst hkey
      simp
    · simp [Function.update_of_ne hkey, AList.lookup_insert_ne hkey]

theorem setBook (h : Represents s m) (ledger : Uuid) (b : Book) :
    Represents { s with
      ledgerEvents := Function.update s.ledgerEvents ledger.toString (b.events ledger)
      ledgerViews := s.ledgerViews.insert ledger.toString (b.view ledger) }
      (m.setBook ledger b) := by
  refine ⟨h.accountEvents, h.accountViews, ?_, ?_, h.journalEntries, h.journalLines,
    h.transactions, h.outbox, h.houses⟩
  · have hlog : (m.setBook ledger b).ledgerLog =
        Function.update m.ledgerLog ledger (b.events ledger) := by
      funext u
      by_cases hu : u = ledger
      · subst hu
        simp [Bank.ledgerLog]
      · simp [Bank.ledgerLog, Function.update_of_ne hu]
    rw [hlog, byKey_update, ← h.ledgerEvents]
  · have hview : (m.setBook ledger b).ledgerView =
        Function.update m.ledgerView ledger (some (b.view ledger)) := by
      funext u
      by_cases hu : u = ledger
      · subst hu
        simp [Bank.ledgerView]
      · simp [Bank.ledgerView, Function.update_of_ne hu]
    rw [hview, byKey_update, ← h.ledgerViews]
    funext key
    by_cases hkey : key = ledger.toString
    · subst hkey
      simp
    · simp [Function.update_of_ne hkey, AList.lookup_insert_ne hkey]

section Calls

theorem commitAccount (h : Represents s m) {id : Uuid} {sequence : ℕ}
    {events : List BankAccountEvent} {a : Account} (ha : a.events id = m.accountLog id ++ events)
    (hcommit : s.commitAccount id.toString sequence events = .ok s') :
    Represents s' (m.setAccount id a) := by
  unfold Store.commitAccount at hcommit
  split at hcommit
  · cases hcommit
  · have hview : events.foldl BankAccountView.update
        ((s.accountViews.lookup id.toString).getD default) =
        BankAccountView.project (a.events id) := by
      rw [h.accountViews_at, ha, BankAccountView.project, List.foldl_append]
      congr 1
      rw [Bank.accountView, Bank.accountLog]
      cases m.accounts id with
      | none => simp
      | some a => simp [BankAccountView.project]
    have hlog : s.accountEvents id.toString ++ events = a.events id := by
      rw [h.accountEvents_at, ha]
    simp only [Outcome.ok.injEq, hview, hlog] at hcommit
    rw [← hcommit]
    exact h.setAccount id a

theorem executeInit (h : Represents s m) {ledger : Uuid} (hnew : m.books ledger = none)
    (now : String) (b : Book) (hopen : b.openedAt = now) (hpost : b.postings = []) :
    ∃ s', s.executeLedger ledger.toString (b.opening ledger) now = .ok s' ∧
      Represents s' (m.setBook ledger b) := by
  have hlog : s.ledgerEvents ledger.toString = [] := by
    rw [h.ledgerEvents_at, Bank.ledgerLog, hnew]
    rfl
  have hlookup : s.ledgerViews.lookup ledger.toString = none := by
    rw [h.ledgerViews_at, Bank.ledgerView, hnew]
    rfl
  have hevents : (b.opening ledger).events now = b.events ledger := by
    simp [Book.events, hopen, hpost]
  refine ⟨_, Store.executeLedger_eq_ok.mpr ⟨default, b.view ledger, ?_, ?_, ?_⟩,
    h.setBook ledger b⟩
  · rw [hlog]
    rfl
  · rw [hevents, hlookup]
    exact b.project_view ledger
  · rw [hlog, hevents, List.nil_append]

theorem executePosting (h : Represents s m) {ledger : Uuid} {b : Book}
    (hb : m.books ledger = some b) (p : Posting) :
    ∃ s', s.executeLedger ledger.toString (p.command ledger b.owner b.currency) p.time = .ok s' ∧
      Represents s' (m.setBook ledger (b.post p)) := by
  have hlog : s.ledgerEvents ledger.toString = b.events ledger := by
    rw [h.ledgerEvents_at, Bank.ledgerLog, hb]
    rfl
  have hlookup : s.ledgerViews.lookup ledger.toString = some (b.view ledger) := by
    rw [h.ledgerViews_at, Bank.ledgerView, hb]
    rfl
  obtain ⟨l, hl, -⟩ := b.replay_events ledger
  have hevents : b.events ledger ++ (p.command ledger b.owner b.currency).events p.time =
      (b.post p).events ledger := (b.events_post ledger p).symm
  have hview : ((p.command ledger b.owner b.currency).events p.time).foldlM LedgerView.update
      (b.view ledger) = .ok ((b.post p).view ledger) := by
    have hproject := (b.post p).project_view ledger
    rw [LedgerView.project, ← hevents, List.foldlM_append] at hproject
    change (LedgerView.project _ >>= _) = _ at hproject
    rwa [b.project_view, Outcome.ok_bind] at hproject
  refine ⟨_, Store.executeLedger_eq_ok.mpr ⟨l, (b.post p).view ledger, ?_, ?_, ?_⟩,
    h.setBook ledger (b.post p)⟩
  · rw [hlog]
    exact hl
  · rw [hlookup]
    exact hview
  · rw [hlog, hevents]

/-- The write of a movement appends the rows of that movement. -/
theorem createTransactionWithJournal (h : Represents s m) {d : Draws} {order : Order}
    {ledger : Uuid} {house : String} {id : Uuid}
    (hnew : d.transactionId ∉ m.completed)
    (hwrite : s.createTransactionWithJournal
      (Helper.transactionOf d order.account order.amount order.action) ledger.toString
      (Helper.journalEntryOf d)
      (Helper.journalLinesOf d house ledger.toString order.amount order.action) = .ok (id, s')) :
    id = d.transactionId ∧ Represents s' (m.addMovement (m.movementOf d order ledger house)) := by
  obtain ⟨hid, rfl⟩ := Store.createTransactionWithJournal_ok hwrite
  have htx : (m.movementOf d order ledger house).tx ∉ m.completed := hnew
  refine ⟨hid, h.accountEvents, h.accountViews, h.ledgerEvents, h.ledgerViews, ?_, ?_, ?_, ?_,
    h.houses⟩
  · simp [h.journalEntries, Movement.entry, Bank.movementOf]
  · simp [h.journalLines, Movement.lines, Movement.entry, Bank.movementOf]
  · simp only [h.transactions, Bank.addMovement_movements, Bank.addMovement_completed,
      List.map_append, List.map_cons, List.map_nil, htx, decide_false]
    rfl
  · simp only [h.outbox, Bank.addMovement_movements, Bank.addMovement_completed,
      List.map_append, List.map_cons, List.map_nil, htx, decide_false, List.length_map]
    rfl

/-- The rows that a tick fetches are those of the movements not completed. -/
theorem getUnprocessedOutbox (h : Represents s m) :
    s.getUnprocessedOutbox = m.unprocessed.map (Movement.row false) := by
  have hfilter : (m.movements.map (fun mv => mv.row (decide (mv.tx ∈ m.completed)))).filter
      (fun row => row.processed = false) =
      (m.movements.filter (fun mv => mv.tx ∉ m.completed)).map (Movement.row false) := by
    induction m.movements with
    | nil => rfl
    | cons mv mvs ih =>
      by_cases hmv : mv.tx ∈ m.completed
      · simpa [hmv, Movement.row, settlementRow] using ih
      · simpa [hmv, Movement.row, settlementRow] using ih
  rw [Store.getUnprocessedOutbox, h.outbox, hfilter, Bank.unprocessed, List.map_take]

theorem completeTransaction (h : Represents s m) (tx : Uuid) :
    Represents (s.completeTransaction tx) { m with completed := tx :: m.completed } := by
  refine ⟨h.accountEvents, h.accountViews, h.ledgerEvents, h.ledgerViews, h.journalEntries,
    h.journalLines, ?_, ?_, h.houses⟩
  · simp only [Store.completeTransaction, h.transactions, List.map_map]
    refine List.map_congr_left fun mv _ => ?_
    by_cases htx : mv.tx = tx
    · subst htx
      simp only [Function.comp_apply, Movement.transaction_id, if_true, List.mem_cons_self,
        decide_true]
      rfl
    · simp [htx]
  · simp only [Store.completeTransaction, h.outbox, List.map_map]
    refine List.map_congr_left fun mv _ => ?_
    by_cases htx : mv.tx = tx
    · simp [Movement.row, settlementRow, htx]
    · simp [Movement.row, settlementRow, htx]

end Calls

end Represents

end Bankie
