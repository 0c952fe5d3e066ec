import Bankie.RoundedFolds
import Bankie.Traces

/-!
Ledger, journal and outbox reconcile.
Once no command is half done, the balances that the log of a customer's ledger comes to are sums
over its outbox rows, executed or not, and when all of them are executed also over its journal
lines. The line of the house never counts: no house account names the ledger of a customer.
Two things break it. A sum that needs more digits than a decimal has is rounded, and the stored
row may have lost an update.
-/
namespace Bankie

open Program Transition

section HouseLedgers

/-- The ledger of the house account that the consumer has found. -/
def ConsumerPoint.houseLedger : ConsumerPoint → Option String
  | .checkAccount _ _ _ _ text => some text
  | .checkLedger _ _ _ _ text => some text
  | .record _ _ _ _ text => some text
  | _ => none

namespace Bank

variable {m m' : Bank}

/-- The text names no book of a customer, and none that is still to be opened. -/
def NoCustomer (m : Bank) (text : String) : Prop :=
  ∀ ledger : Uuid, text = ledger.toString → ledger ∈ m.used ∧ ledger ∉ m.claimed ∧
    ∀ b, m.books ledger = some b → b.holder = .house

/-- No house account names the ledger of a customer. -/
structure HouseOnly (m : Bank) : Prop where
  houses : ∀ h ∈ m.houses, m.NoCustomer h.ledgerId
  requests : ∀ account, .insert account ∈ m.requests → m.NoCustomer account.ledgerId
  consumer : ∀ house ∈ m.consumer.houseLedger, m.NoCustomer house
  movements : ∀ mv ∈ m.movements, m.NoCustomer mv.houseLedger

theorem houseOnly_init (houses : List HouseAccount) : (init houses).HouseOnly where
  houses h hh ledger hledger := by
    refine ⟨List.mem_filterMap.mpr ⟨h, hh, ?_⟩, List.not_mem_nil, fun b hb => by cases hb⟩
    rw [hledger, Uuid.parseStr_toString]
  requests _ hr := absurd hr List.not_mem_nil
  consumer _ hhouse := by cases hhouse
  movements _ hmv := absurd hmv List.not_mem_nil

theorem NoCustomer.step {text : String} (ht : m.NoCustomer text) {a : Action}
    (h : m.Step a m') : m'.NoCustomer text := by
  intro ledger hledger
  obtain ⟨hused, hclaim, hhouse⟩ := ht ledger hledger
  refine ⟨h.used ledger hused, fun hclaim' => ?_, fun b' hb' => ?_⟩
  · rcases h.claimed ledger hclaim' with hold | hnew
    · exact hclaim hold
    · exact hnew hused
  · rcases h.books ledger with hsame | ⟨o, d, account, c, sequence, -, hp, -⟩ |
      ⟨i, o, account, -, -, hnew⟩ | ⟨b, p, hb, hpost, -⟩
    · exact hhouse b' (hsame ▸ hb')
    · exact absurd (by simp [claimed, hp, ConsumerPoint.claims]) hclaim
    · obtain rfl := Option.some.inj (hnew.symm.trans hb')
      rfl
    · obtain rfl := Option.some.inj (hpost.symm.trans hb')
      exact hhouse b hb

/-- A house account is stored by the request that opened its ledger. -/
theorem Step.houses {a : Action} (h : m.Step a m') :
    ∀ account ∈ m'.houses, account ∈ m.houses ∨ .insert account ∈ m.requests := by
  intro account haccount
  cases h with
  | insertHouse i o account' result hi =>
    rcases List.mem_append.mp haccount with hold | hnew
    · exact Or.inl hold
    · rw [List.mem_singleton.mp hnew]
      exact Or.inr (List.mem_of_getElem? hi)
  | _ => exact Or.inl haccount

/-- A request is about to store a house account once it has opened its ledger. -/
theorem Step.inserts {a : Action} (h : m.Step a m') (account : HouseAccount)
    (haccount : .insert account ∈ m'.requests) :
    .insert account ∈ m.requests ∨
      ∃ (i : ℕ) (ledger : Uuid) (account' : HouseAccount),
        m.requests[i]? = some (.init ledger account') ∧
        account.ledgerId = ledger.toString ∧ (m'.books ledger).isSome ∧
          ∀ b, m'.books ledger = some b → b.holder = .house := by
  cases h with
  | startRequest id ledger accountNumber body hfresh =>
    rcases List.mem_append.mp haccount with hold | hnew
    · exact Or.inl hold
    · cases List.mem_singleton.mp hnew
  | initHouse i o ledger account' hi =>
    rcases List.mem_or_eq_of_mem_set haccount with hold | hnew
    · exact Or.inl hold
    · refine Or.inr ⟨i, ledger, account', hi, ?_, ?_, ?_⟩
      · rw [RequestPoint.insert.inj hnew]
      · simp
      · intro b hb
        rw [setRequest_books, setBook_books, Function.update_self] at hb
        rw [← Option.some.inj hb]
  | insertHouse i o account' result hi =>
    rcases List.mem_or_eq_of_mem_set haccount with hold | hnew
    · exact Or.inl hold
    · cases hnew
  | endRequest i o r result hi =>
    rcases List.mem_or_eq_of_mem_set haccount with hold | hnew
    · exact Or.inl hold
    · cases hnew
  | _ => exact Or.inl haccount

theorem Advances.houseLedger {p q : ConsumerPoint} (h : m.Advances p q) :
    ∀ house ∈ q.houseLedger, house ∈ p.houseLedger ∨ ∃ h ∈ m.houses, house = h.ledgerId := by
  intro house hhouse
  cases h with
  | house d order a sequence account haccount =>
    exact Or.inr ⟨account, haccount, (Option.some.inj hhouse).symm⟩
  | checkAccount => exact Or.inl hhouse
  | checkLedger => exact Or.inl hhouse
  | _ => cases hhouse

theorem Step.houseLedger {a : Action} (h : m.Step a m') :
    ∀ house ∈ m'.consumer.houseLedger,
      house ∈ m.consumer.houseLedger ∨ ∃ h ∈ m.houses, house = h.ledgerId := by
  intro house hhouse
  cases h with
  | advance o p hp => exact hp.houseLedger house hhouse
  | record o d order ledger sequence house' hp =>
    rw [setConsumer_consumer, afterRecord] at hhouse
    cases haction : order.action <;> rw [haction] at hhouse <;> cases hhouse
  | receive => cases hhouse
  | giveUp => cases hhouse
  | openAccount => cases hhouse
  | initLedger => cases hhouse
  | approve => cases hhouse
  | hold => cases hhouse
  | _ => exact Or.inl hhouse

theorem HouseOnly.step (hm : m.HouseOnly) (hwf : m.WF) {a : Action} (h : m.Step a m') :
    m'.HouseOnly where
  houses account haccount := by
    rcases h.houses account haccount with hold | hinsert
    · exact (hm.houses account hold).step h
    · exact (hm.requests account hinsert).step h
  requests account haccount := by
    rcases h.inserts account haccount with hold | ⟨i, ledger, account', hi, htext, hsome, hhouse⟩
    · exact (hm.requests account hold).step h
    · intro ledger' hledger
      obtain rfl := Uuid.toString_inj.mp (htext.symm.trans hledger)
      have hclaim : ledger ∈ m.claimed := List.mem_append_right _ (List.mem_flatMap.mpr
        ⟨_, List.mem_of_getElem? hi, List.mem_singleton_self ledger⟩)
      refine ⟨h.used _ (hwf.claimed_new ledger hclaim).1, fun hclaim' => ?_, hhouse⟩
      rw [((hwf.step h).claimed_new ledger hclaim').2.2] at hsome
      cases hsome
  consumer house hhouse := by
    rcases h.houseLedger house hhouse with hold | ⟨account, haccount, rfl⟩
    · exact (hm.consumer house hold).step h
    · exact (hm.houses account haccount).step h
  movements mv hmv := by
    rcases h.movements with hsame | ⟨o, d, order, ledger, sequence, house, -, hp, rfl⟩
    · exact (hm.movements mv (hsame ▸ hmv)).step h
    · rcases List.mem_append.mp hmv with hold | hnew
      · exact (hm.movements mv hold).step h
      · rw [List.mem_singleton.mp hnew]
        exact (hm.consumer house (by rw [hp]; rfl)).step h

theorem houseOnly_invariant : machine.Invariant (fun m => (m.WF ∧ m.Numbered) ∧ m.HouseOnly) := by
  refine wf_invariant.strengthen ?_ (fun _ _ _ hm hh h => hh.step hm.1 h)
  rintro m ⟨houses, rfl⟩
  exact houseOnly_init houses

end Bank

end HouseLedgers

section Rows

def Outbox.commandOn (ledgerId : String) (row : Outbox) : Option LedgerCommand :=
  match parseEvent row with
  | .ok (id, command, _) => if id = ledgerId then some command else none
  | _ => none

namespace LedgerCommand

def credited : LedgerCommand → ℚ
  | .credit _ _ _ amount => amount.amount.toRat
  | _ => 0

def debited : LedgerCommand → ℚ
  | .debitRelease _ _ _ amount => amount.amount.toRat
  | _ => 0

/-- The event that the execution of a row leaves last. -/
def endedBy : LedgerCommand → LedgerEvent → Bool
  | .credit _ _ transactionId _ => LedgerEvent.Releases "credit_release" transactionId.toString
  | .debitRelease _ _ transactionId _ =>
    LedgerEvent.Releases "debit_release" transactionId.toString
  | _ => fun _ => false

end LedgerCommand

namespace Store

def rowsOf (s : Store) (ledgerId : String) : List LedgerCommand :=
  s.outbox.filterMap (Outbox.commandOn ledgerId)

def executed (s : Store) (ledgerId : String) (command : LedgerCommand) : Bool :=
  (s.ledgerEvents ledgerId).any command.endedBy

def linesOf (s : Store) (ledgerId : String) : List JournalLine :=
  s.journalLines.filter (fun line => line.ledgerId = ledgerId)

def CustomerLedger (s : Store) (ledgerId : String) : Prop :=
  ∃ account, s.LedgerOf account ledgerId ∧ s.accountEvents account.toString ≠ []

end Store

def Movement.command (mv : Movement) : LedgerCommand :=
  mv.action.settlement mv.ledger mv.account mv.tx mv.amount

theorem commandOn_row (processed : Bool) (ledger : Uuid) (mv : Movement) :
    (mv.row processed).commandOn ledger.toString =
      if mv.ledger = ledger then some mv.command else none := by
  simp only [Outbox.commandOn, Movement.row, parseEvent_settlementRow, Uuid.toString_inj]
  rfl

theorem Represents.sum_rowsOf {s : Store} {m : Bank} (h : Represents s m) (ledger : Uuid)
    (g : LedgerCommand → ℚ) :
    ((s.rowsOf ledger.toString).map g).sum =
      (m.movements.map (fun mv => if mv.ledger = ledger then g mv.command else 0)).sum := by
  rw [Store.rowsOf, sum_map_filterMap, h.outbox, List.map_map]
  congr 1
  refine List.map_congr_left fun mv _ => ?_
  rw [Function.comp_apply, commandOn_row]
  split <;> rfl

theorem sum_lines_movement {ledger : Uuid} {mv : Movement}
    (hhouse : mv.houseLedger ≠ ledger.toString) :
    ((mv.lines.filter (fun line => line.ledgerId = ledger.toString)).map
        (fun line => line.creditAmount.toRat - line.debitAmount.toRat)).sum =
      if mv.ledger = ledger then mv.command.credited - mv.command.debited else 0 := by
  obtain ⟨d, account, ledger', house, action, amount, n⟩ := mv
  by_cases hl : ledger' = ledger
  · subst hl
    cases action <;> simp [Movement.lines, Helper.journalLinesOf, Movement.command,
      LedgerAction.settlement, LedgerCommand.credited, LedgerCommand.debited, hhouse]
  · have hne : ledger'.toString ≠ ledger.toString := fun heq => hl (Uuid.toString_inj.mp heq)
    cases action <;> simp [Movement.lines, Helper.journalLinesOf, hhouse, hl, hne]

theorem Represents.sum_linesOf {s : Store} {m : Bank} (h : Represents s m) {ledger : Uuid}
    (hhouse : ∀ mv ∈ m.movements, mv.houseLedger ≠ ledger.toString) :
    ((s.linesOf ledger.toString).map
        (fun line => line.creditAmount.toRat - line.debitAmount.toRat)).sum =
      (m.movements.map (fun mv => if mv.ledger = ledger then
        mv.command.credited - mv.command.debited else 0)).sum := by
  rw [Store.linesOf, h.journalLines]
  generalize m.movements = mvs at hhouse ⊢
  induction mvs with
  | nil => rfl
  | cons mv mvs ih =>
    rw [List.flatMap_cons, List.filter_append, List.map_append, List.sum_append,
      sum_lines_movement (hhouse mv List.mem_cons_self),
      ih (fun mv' hmv' => hhouse mv' (List.mem_cons_of_mem _ hmv')), List.map_cons, List.sum_cons]

/-- Of the postings only the settlement of a movement ends its command. -/
theorem Posting.any_endedBy (p : Posting) (ledger account : Uuid) (c : Currency) (mv : Movement) :
    (p.events ledger account c).any mv.command.endedBy = true ↔
      p.kind = (mv.settlement p.time).kind ∧ p.transactionId = mv.tx := by
  obtain ⟨kind, tx, amount, time⟩ := p
  obtain ⟨d, account', ledger', house, action, amount', n⟩ := mv
  cases action <;> cases kind <;> simp [events, command, LedgerCommand.events, Movement.command,
    LedgerAction.settlement, LedgerCommand.endedBy, LedgerEvent.Releases, Movement.settlement,
    Uuid.toString_inj]

namespace Bank

variable {m : Bank}

theorem any_endedBy (hnum : m.Numbered) (htraced : m.Traced) {mv : Movement}
    (hmv : mv ∈ m.movements) {b : Book} (hb : m.books mv.ledger = some b) :
    (b.events mv.ledger).any mv.command.endedBy = decide (mv.tx ∈ b.settled) := by
  have hopening : ((b.opening mv.ledger).events b.openedAt).any mv.command.endedBy = false := by
    cases haction : mv.action <;>
      simp [Book.opening, LedgerCommand.events, Movement.command, haction,
        LedgerAction.settlement, LedgerCommand.endedBy, LedgerEvent.Releases]
  rw [Book.events, List.any_append, hopening, Bool.false_or, Bool.eq_iff_iff, decide_eq_true_eq,
    List.any_flatMap, List.any_eq_true, Book.settled, List.mem_map]
  constructor
  · rintro ⟨p, hp, hended⟩
    obtain ⟨hkind, htx⟩ := (p.any_endedBy mv.ledger b.owner b.currency mv).mp hended
    refine ⟨p, List.mem_filter.mpr ⟨hp, ?_⟩, htx⟩
    rw [hkind]
    exact decide_eq_true (mv.settlement_kind p.time)
  · rintro ⟨p, hp, htx⟩
    obtain ⟨hp, hkind⟩ := List.mem_filter.mp hp
    obtain ⟨mv', hmv', -, hmakes⟩ := htraced.postings mv.ledger b hb p hp
    obtain rfl := hnum.movement_eq hmv' hmv (hmakes.transactionId.symm.trans htx)
    refine ⟨p, hp, (p.any_endedBy mv'.ledger b.owner b.currency mv').mpr ⟨?_, htx⟩⟩
    exact congrArg Posting.kind (hmakes.settlement (of_decide_eq_true hkind))

/-- Every movement on a book counts in full, once its funds are held. -/
theorem shares_of_held {ledger : Uuid} {b : Book} {mv : Movement} (hl : mv.ledger = ledger)
    (hheld : mv.action = .withdraw → mv.tx ∈ b.held) :
    mv.availableShare ledger b =
        (if mv.tx ∈ b.settled then mv.command.credited else 0) - mv.command.debited ∧
      mv.pendingShare ledger b = if mv.tx ∈ b.settled then 0 else mv.command.debited := by
  rw [Movement.availableShare, Movement.pendingShare, if_pos hl, if_pos hl]
  cases haction : mv.action with
  | deposit =>
    simp [Movement.command, haction, LedgerAction.settlement, LedgerCommand.credited,
      LedgerCommand.debited]
  | withdraw =>
    by_cases hsettled : mv.tx ∈ b.settled <;>
      simp [Movement.command, haction, LedgerAction.settlement, LedgerCommand.credited,
        LedgerCommand.debited, hheld haction, hsettled]

theorem HeldFor.mem_held {mv : Movement} (h : m.HeldFor mv) {b : Book}
    (hb : m.books mv.ledger = some b) : mv.tx ∈ b.held := by
  obtain ⟨b', hb', p, hp, hkind, htx, -⟩ := h
  obtain rfl := Option.some.inj (hb.symm.trans hb')
  exact List.mem_map.mpr ⟨p, List.mem_filter.mpr ⟨hp, decide_eq_true hkind⟩, htx⟩

end Bank

theorem ConsumerPoint.not_holding_of_stopped {p : ConsumerPoint} (h : p.prog.Stopped) :
    ¬ p.Holding := by
  intro hh
  cases p with
  | hold d order ledger sequence =>
    obtain ⟨k, hk, -⟩ := calls_hold d order ledger sequence
    rw [hk] at h
    exact h
  | _ => exact hh

end Rows

/-- The balances of a ledger as sums over its outbox rows and its journal lines. -/
structure Store.Reconciles (s : Store) (ledgerId : String) (v : LedgerView) : Prop where
  available : v.available.amount.toRat =
    ((s.rowsOf ledgerId).map fun row => if s.executed ledgerId row then row.credited else 0).sum -
      ((s.rowsOf ledgerId).map LedgerCommand.debited).sum
  pending : v.pending.amount.toRat =
    ((s.rowsOf ledgerId).map fun row => if s.executed ledgerId row then 0 else row.debited).sum
  current : v.current.amount.toRat = v.available.amount.toRat + v.pending.amount.toRat
  executed : (∀ row ∈ s.rowsOf ledgerId, s.executed ledgerId row = true) →
    v.pending.amount.toRat = 0 ∧ v.current.amount.toRat = v.available.amount.toRat ∧
      v.available.amount.toRat = ((s.linesOf ledgerId).map
        (fun line => line.creditAmount.toRat - line.debitAmount.toRat)).sum

namespace Represents

variable {s : Store} {m : Bank}

theorem exists_view (h : Represents s m) {key : String} {v : LedgerView}
    (hv : s.ledgerViews.lookup key = some v) :
    ∃ ledger b, key = ledger.toString ∧ m.books ledger = some b ∧ v = b.view ledger := by
  have hkey : byKey m.ledgerView none key = some v := by
    rw [← h.ledgerViews]
    exact hv
  obtain ⟨ledger, rfl, hview⟩ := byKey_ne_other (by rw [hkey]; exact Option.some_ne_none v)
  obtain ⟨b, hb, hbv⟩ := Option.map_eq_some_iff.mp (hview.symm.trans hkey)
  exact ⟨ledger, b, rfl, hb, hbv.symm⟩

theorem executed_command (h : Represents s m) (hnum : m.Numbered) (htraced : m.Traced)
    {mv : Movement} (hmv : mv ∈ m.movements) {b : Book} (hb : m.books mv.ledger = some b) :
    s.executed mv.ledger.toString mv.command = decide (mv.tx ∈ b.settled) := by
  rw [Store.executed, h.ledgerEvents_at, Bank.ledgerLog, hb]
  exact Bank.any_endedBy hnum htraced hmv hb

/-- Where all rows of a ledger have been executed, its book has settled its movements. -/
theorem settled_of_executed (h : Represents s m) (hnum : m.Numbered) (htraced : m.Traced)
    {ledger : Uuid} {b : Book} (hb : m.books ledger = some b)
    (hall : ∀ command ∈ s.rowsOf ledger.toString,
      s.executed ledger.toString command = true) {mv : Movement} (hmv : mv ∈ m.movements)
    (hl : mv.ledger = ledger) : mv.tx ∈ b.settled := by
  subst hl
  have hrow : mv.command ∈ s.rowsOf mv.ledger.toString := by
    refine List.mem_filterMap.mpr ⟨_, h.outbox ▸ List.mem_map_of_mem hmv, ?_⟩
    rw [commandOn_row, if_pos rfl]
  exact of_decide_eq_true
    ((h.executed_command hnum htraced hmv hb).symm.trans (hall _ hrow))

theorem reconciles_of_held (h : Represents s m) (hm : m.Settled) (htraced : m.Traced)
    {ledger : Uuid} {b : Book} (hb : m.books ledger = some b)
    (hhouse : ∀ mv ∈ m.movements, mv.houseLedger ≠ ledger.toString)
    (hheld : ∀ mv ∈ m.movements, mv.action = .withdraw → m.HeldFor mv) :
    s.Reconciles ledger.toString (b.view ledger) := by
  obtain ⟨⟨-, -, havailable, hpending⟩, -, hcurrent⟩ := b.view_holds ledger
  have hexecuted : ∀ mv ∈ m.movements, mv.ledger = ledger →
      s.executed ledger.toString mv.command = decide (mv.tx ∈ b.settled) := by
    rintro mv hmv rfl
    exact h.executed_command hm.numbered htraced hmv hb
  have hshares : ∀ mv ∈ m.movements, mv.ledger = ledger →
      mv.availableShare ledger b =
          (if mv.tx ∈ b.settled then mv.command.credited else 0) - mv.command.debited ∧
        mv.pendingShare ledger b = if mv.tx ∈ b.settled then 0 else mv.command.debited := by
    intro mv hmv hl
    exact Bank.shares_of_held hl fun haction =>
      (hheld mv hmv haction).mem_held (hl.symm ▸ hb)
  have hother : ∀ mv : Movement, mv.ledger ≠ ledger →
      mv.availableShare ledger b = 0 ∧ mv.pendingShare ledger b = 0 := fun mv hl =>
    ⟨if_neg hl, if_neg hl⟩
  refine ⟨?_, ?_, ?_, fun hall => ?_⟩
  · rw [h.sum_rowsOf, h.sum_rowsOf, havailable, hm.balanced.available ledger b hb,
      eq_sub_iff_add_eq, ← List.sum_map_add]
    congr 1
    refine List.map_congr_left fun mv hmv => ?_
    by_cases hl : mv.ledger = ledger
    · simp [hl, hexecuted mv hmv hl, (hshares mv hmv hl).1]
    · simp [hl, (hother mv hl).1]
  · rw [h.sum_rowsOf, hpending, hm.balanced.pending ledger b hb]
    congr 1
    refine List.map_congr_left fun mv hmv => ?_
    by_cases hl : mv.ledger = ledger
    · simp [hl, hexecuted mv hmv hl, (hshares mv hmv hl).2]
    · simp [hl, (hother mv hl).2]
  · rw [havailable, hpending, hcurrent]
  · have hsettled : ∀ mv ∈ m.movements, mv.ledger = ledger → mv.tx ∈ b.settled :=
      fun mv hmv hl => h.settled_of_executed hm.numbered htraced hb hall hmv hl
    have hzero : b.pending = 0 := by
      rw [hm.balanced.pending ledger b hb]
      refine List.sum_eq_zero fun x hx => ?_
      obtain ⟨mv, hmv, rfl⟩ := List.mem_map.mp hx
      by_cases hl : mv.ledger = ledger
      · rw [(hshares mv hmv hl).2, if_pos (hsettled mv hmv hl)]
      · exact (hother mv hl).2
    refine ⟨hpending.trans hzero, ?_, ?_⟩
    · rw [hcurrent, havailable, hzero, add_zero]
    · rw [h.sum_linesOf hhouse, havailable, hm.balanced.available ledger b hb]
      congr 1
      refine List.map_congr_left fun mv hmv => ?_
      by_cases hl : mv.ledger = ledger
      · rw [(hshares mv hmv hl).1, if_pos (hsettled mv hmv hl), if_pos hl]
      · rw [(hother mv hl).1, if_neg hl]

end Represents

theorem Store.Reconciles.of_shows {s : Store} {ledgerId : String} {v v' : LedgerView}
    (h : s.Reconciles ledgerId v) (hshows : v'.Shows v) : s.Reconciles ledgerId v' := by
  obtain ⟨⟨-, ha⟩, ⟨-, hp⟩, ⟨-, hc⟩⟩ := hshows
  exact ⟨by rw [ha, h.available], by rw [hp, h.pending], by rw [hc, ha, hp, h.current],
    fun hall => by rw [ha, hp, hc]; exact h.executed hall⟩

/-- The exact balances of a customer's ledger reconcile in a quiet run. -/
theorem Models.balances_reconcile {st : System} {m : Bank} (h : Models st m)
    (hreach : (Bank.machine.restrict Bank.Quiet).Reachable m) (hstopped : st.consumer.Stopped)
    {ledgerId : String} (hcustomer : st.store.CustomerLedger ledgerId) :
    ∃ v, LedgerView.project (st.store.ledgerEvents ledgerId) = .ok v ∧
      st.store.Reconciles ledgerId v := by
  have hsettled := Bank.settled_invariant.reachable hreach
  obtain ⟨-, htraced⟩ := Bank.traced_invariant.reachable hreach.unrestrict
  obtain ⟨-, hhouseOnly⟩ := Bank.houseOnly_invariant.reachable hreach.unrestrict
  obtain ⟨-, howned⟩ := Bank.owned_invariant.reachable hreach.unrestrict
  obtain ⟨account, ⟨amount, e, rest, hlog, hparent⟩, haccount⟩ := hcustomer
  obtain ⟨ledger, b, rfl, hb, hevents⟩ := h.store.exists_book (hlog ▸ List.cons_ne_nil _ _)
  have howner : b.owner = account := by
    rw [hevents] at hlog
    exact b.owner_eq hlog hparent
  have hholder : b.holder = .customer := by
    by_contra hhouse
    have hby := howned.books ledger b hb
    unfold Bank.OwnedBy at hby
    split at hby
    · exact hhouse ‹_›
    · apply haccount
      rw [← howner, h.store.accountEvents_at, Bank.accountLog, hby.no_account]
      rfl
  refine ⟨b.view ledger, by rw [hevents, b.project_view], ?_⟩
  refine h.store.reconciles_of_held hsettled htraced hb (fun mv hmv htext => ?_)
    (fun mv hmv haction => hsettled.holdsAll.heldFor ?_ hmv haction)
  · cases hholder.symm.trans ((hhouseOnly.movements mv hmv ledger htext).2.2 b hb)
  · apply ConsumerPoint.not_holding_of_stopped
    rw [← h.consumer]
    exact hstopped

/-- In a quiet run, once the consumer has no command in its hands, the balances that the log of
a customer's ledger comes to reconcile if no addition in them rounds; and so do those of the
stored row, once executes that read it in order have come to that log. -/
theorem reconciles (A : Addition) {st : System}
    (h : (System.lagging.restrict System.Quiet).Reachable st) (hstopped : st.consumer.Stopped)
    {ledgerId : String} (hcustomer : st.store.CustomerLedger ledgerId)
    (hexact : NoneRounds (st.store.ledgerEvents ledgerId)) :
    (∃ v, LedgerView.projectWith A (st.store.ledgerEvents ledgerId) = .ok v ∧
      st.store.Reconciles ledgerId v) ∧
      ∀ executes : Projection.State LedgerEvent LedgerView (String × LedgerCommand),
        ((Projection.machine (ledgerAggregateWith A)).restrict
          Projection.State.InOrder).Reachable executes →
        executes.table.log = st.store.ledgerEvents ledgerId →
        (∀ x ∈ executes.executes, x.Succeeded) →
          ∃ v, executes.table.row = some v ∧ st.store.Reconciles ledgerId v := by
  obtain ⟨m, hreach, hmodels, -⟩ := quiet_refinement.reachable h
  obtain ⟨v, hv, hreconciles⟩ := hmodels.balances_reconcile hreach hstopped hcustomer
  obtain ⟨⟨v', hv', hshows⟩, -⟩ := hexact.folds A hv
  refine ⟨⟨v', hv', hreconciles.of_shows hshows⟩, fun executes hexecutes hlog hsucceeded => ?_⟩
  obtain ⟨row, hrow, hproject⟩ := Projection.current_of_succeeded hexecutes hsucceeded
  rw [hlog] at hproject
  obtain rfl : v' = row := Outcome.ok.inj (hv'.symm.trans hproject)
  exact ⟨v', hrow, hreconciles.of_shows hshows⟩

/-- A withdrawal of 30 from the deposit, held and not yet settled. -/
def Scenario.spent : List Action :=
  Scenario.funded ++ Scenario.handle 14 50 6 (.withdrawal (Scenario.uid 10) (Scenario.usd 30))

theorem Scenario.quiet_reachable {as : List Action} {st : System}
    (h : (System.init []).runWhile (fun st a => decide (st.Quiet a)) as = some st) :
    (System.lagging.restrict System.Quiet).Reachable st :=
  System.reachable_lagging_restrict
    (System.reachable_of_runWhile (fun _ _ hg => of_decide_eq_true hg) h)

/-- The executes of a ledger from its row after this many events. -/
def Scenario.rowAfter (A : Addition) (s : Store) (ledgerId : String) (n : ℕ) :
    Projection.State LedgerEvent LedgerView (String × LedgerCommand) where
  table :=
    { log := (s.ledgerEvents ledgerId).take n
      row := (LedgerView.projectWith A ((s.ledgerEvents ledgerId).take n)).toOption }
  executes := []

theorem Store.customerLedger_of_head {s : Store} {account : Uuid} {ledgerId : String}
    {amount : Money} {e : BaseEvent}
    (hhead : (s.ledgerEvents ledgerId).head? = some (.ledgerInitiated amount e))
    (hparent : e.parentId = account.toString) (haccount : s.accountEvents account.toString ≠ []) :
    s.CustomerLedger ledgerId := by
  obtain ⟨rest, hlog⟩ := List.head?_eq_some_iff.mp hhead
  exact ⟨account, ⟨amount, e, rest, hlog, hparent⟩, haccount⟩

theorem Scenario.rowAfter_init {A : Addition} {s : Store} {ledgerId : String} {n : ℕ}
    (h : (Scenario.rowAfter A s ledgerId n).table.row ≠ none) :
    (Projection.machine (ledgerAggregateWith A)).Init (Scenario.rowAfter A s ledgerId n) := by
  obtain ⟨v, hv⟩ := Option.ne_none_iff_exists'.mp h
  exact ⟨⟨v, hv, Outcome.toOption_eq_some hv⟩, rfl⟩

def Scenario.held : List (Projection.Move (String × LedgerCommand)) :=
  .start (up.now, .debitHold (uid 11) (uid 10) (uid 50) (usd 30)) ::
    List.replicate 4 (.step 0)

theorem reconciles_spent : ∃ (st : System) (v row : LedgerView),
    LedgerView.projectWith .rounded (st.store.ledgerEvents (Scenario.uid 11).toString) = .ok v ∧
      (v.available, v.pending) = (Scenario.usd 70, Scenario.usd 30) ∧
      st.store.Reconciles (Scenario.uid 11).toString v ∧
      (row.available, row.pending) = (Scenario.usd 70, Scenario.usd 30) ∧
      st.store.Reconciles (Scenario.uid 11).toString row := by
  have hrun : (((System.init []).runWhile (fun st a => decide (st.Quiet a))
      Scenario.spent).bind fun st =>
        (Machine.runWhile (Projection.State.next (ledgerAggregateWith .rounded))
          (fun st a => decide (st.InOrder a))
          (Scenario.rowAfter .rounded st.store (Scenario.uid 11).toString 3)
          Scenario.held).map fun executes => decide
            ((st.consumer.Stopped ∧ st.store.accountEvents (Scenario.uid 10).toString ≠ [] ∧
              (st.store.ledgerEvents (Scenario.uid 11).toString).head? =
                some (.ledgerInitiated ⟨.zero, .usd⟩
                  (ledgerBaseEvent Scenario.up.now (Scenario.uid 11) (Scenario.uid 10))) ∧
              FitsEach (st.store.ledgerEvents (Scenario.uid 11).toString) ∧
              (LedgerView.projectWith .rounded
                (st.store.ledgerEvents (Scenario.uid 11).toString)).toOption.map
                  (fun v => (v.available, v.pending)) =
                some (Scenario.usd 70, Scenario.usd 30)) ∧
            (Scenario.rowAfter .rounded st.store (Scenario.uid 11).toString 3).table.row ≠ none ∧
              executes.table.log = st.store.ledgerEvents (Scenario.uid 11).toString ∧
              (∀ x ∈ executes.executes, x.Succeeded) ∧
              executes.table.row.map (fun v => (v.available, v.pending)) =
                some (Scenario.usd 70, Scenario.usd 30))) = some true := by
    decide +kernel
  obtain ⟨st, hst, hrest⟩ := Option.bind_eq_some_iff.mp hrun
  obtain ⟨executes, hexecutes, hfacts⟩ := Option.map_eq_some_iff.mp hrest
  obtain ⟨⟨hstopped, haccount, hhead, hfits, hview⟩, hstart, hend, hsucceeded, hrow⟩ :=
    of_decide_eq_true hfacts
  obtain ⟨⟨v, hv, hreconciles⟩, hrows⟩ := reconciles .rounded (Scenario.quiet_reachable hst)
    hstopped (Store.customerLedger_of_head hhead rfl haccount) hfits.noneRounds
  obtain ⟨row, hstored, hreconciles'⟩ := hrows executes
    ⟨_, _, Scenario.rowAfter_init hstart, Machine.steps_of_runWhile (fun _ _ _ hstep => hstep)
      (fun _ _ hg => of_decide_eq_true hg) hexecutes⟩ hend hsucceeded
  rw [hv] at hview
  rw [hstored] at hrow
  exact ⟨st, v, row, hv, Option.some.inj hview, hreconciles, Option.some.inj hrow, hreconciles'⟩

/-- Withdrawals of 100 and of 5e-28 from deposits of 200, all of them settled. -/
def Scenario.dust : List Action :=
  funded ++ handle 14 50 5 (.deposit (uid 10) (usd 100)) ++ tick 1 15 1 ++
    handle 16 60 6 (.withdrawal (uid 10) (usd 100)) ++
    handle 17 70 6 (.withdrawal (uid 10) ⟨⟨5, 28⟩, .usd⟩) ++ tick 2 18 2

/-- A withdrawal of 30 is held while a tick that has fetched a deposit of 50 credits it. -/
def Scenario.raced : List Action :=
  funded ++ handle 14 50 5 (.deposit (uid 10) (usd 50)) ++ [.startTick (uid 15), .tick 1 up] ++
    handle 16 60 6 (.withdrawal (uid 10) (usd 30)) ++ List.replicate 6 (.tick 1 up)

/-- The hold and the credit, both of which read the row before either writes it. -/
def Scenario.racedRow : List (Projection.Move (String × LedgerCommand)) :=
  [.start (up.now, .debitHold (uid 11) (uid 10) (uid 60) (usd 30)),
    .start (up.now, .credit (uid 11) (uid 10) (uid 50) (usd 50))] ++
  [0, 0, 1, 1, 0, 1, 0, 1].map Projection.Move.step

/-- The small withdrawal is lost in the pending balance of 100 that it is added to, and its
release leaves a balance below zero. -/
theorem Scenario.dust_unreconciled :
    ∃ st ledgerId v, (System.lagging.restrict System.Quiet).Reachable st ∧
      st.consumer.Stopped ∧ st.store.CustomerLedger ledgerId ∧
      LedgerView.projectWith .rounded (st.store.ledgerEvents ledgerId) = .ok v ∧
      v.pending.amount < .zero ∧ ¬ st.store.Reconciles ledgerId v := by
  have hrun : (((System.init []).runWhile (fun st a => decide (st.Quiet a))
      Scenario.dust).map fun st => decide
        (st.consumer.Stopped ∧ st.store.accountEvents (Scenario.uid 10).toString ≠ [] ∧
          (st.store.ledgerEvents (Scenario.uid 11).toString).head? =
            some (.ledgerInitiated ⟨.zero, .usd⟩
              (ledgerBaseEvent Scenario.up.now (Scenario.uid 11) (Scenario.uid 10))) ∧
          (∀ row ∈ st.store.rowsOf (Scenario.uid 11).toString,
            st.store.executed (Scenario.uid 11).toString row = true) ∧
          ∃ v ∈ (LedgerView.projectWith .rounded
              (st.store.ledgerEvents (Scenario.uid 11).toString)).toOption,
            v.pending.amount = ⟨-5, 28⟩)) = some true := by decide +kernel
  obtain ⟨st, hst, hfacts⟩ := Option.map_eq_some_iff.mp hrun
  obtain ⟨hstopped, haccount, hhead, hexecuted, v, hv, hpending⟩ := of_decide_eq_true hfacts
  refine ⟨st, _, v, Scenario.quiet_reachable hst, hstopped,
    Store.customerLedger_of_head hhead rfl haccount, Outcome.toOption_eq_some hv, ?_,
    fun hreconciles => ?_⟩
  · rw [hpending]
    decide
  · have hzero := (hreconciles.executed hexecuted).1
    rw [hpending] at hzero
    norm_num [Decimal.toRat] at hzero

/-- The row that is written last has lost the hold. -/
theorem Scenario.raced_unreconciled :
    ∃ st ledgerId row, (System.lagging.restrict System.Quiet).Reachable st ∧
      st.consumer.Stopped ∧ st.store.CustomerLedger ledgerId ∧
      (∃ executes, (Projection.machine (ledgerAggregateWith .rounded)).Reachable executes ∧
        executes.table.log = st.store.ledgerEvents ledgerId ∧
        (∀ x ∈ executes.executes, x.Succeeded) ∧ executes.table.row = some row) ∧
      ¬ st.store.Reconciles ledgerId row := by
  have hrun : (((System.init []).runWhile (fun st a => decide (st.Quiet a))
      Scenario.raced).bind fun st =>
        (Machine.runWhile (Projection.State.next (ledgerAggregateWith .rounded))
          (fun _ _ => true)
          (Scenario.rowAfter .rounded st.store (Scenario.uid 11).toString 3)
          Scenario.racedRow).map fun executes => decide
            ((st.consumer.Stopped ∧ st.store.accountEvents (Scenario.uid 10).toString ≠ [] ∧
              (st.store.ledgerEvents (Scenario.uid 11).toString).head? =
                some (.ledgerInitiated ⟨.zero, .usd⟩
                  (ledgerBaseEvent Scenario.up.now (Scenario.uid 11) (Scenario.uid 10)))) ∧
            ((Scenario.rowAfter .rounded st.store (Scenario.uid 11).toString 3).table.row ≠ none ∧
              executes.table.log = st.store.ledgerEvents (Scenario.uid 11).toString ∧
              (∀ x ∈ executes.executes, x.Succeeded) ∧
              ∃ row ∈ executes.table.row, row.available.amount.toRat ≠
                ((st.store.rowsOf (Scenario.uid 11).toString).map fun command =>
                  if st.store.executed (Scenario.uid 11).toString command then
                    command.credited else 0).sum -
                ((st.store.rowsOf (Scenario.uid 11).toString).map
                  LedgerCommand.debited).sum))) = some true := by decide +kernel
  obtain ⟨st, hst, hrest⟩ := Option.bind_eq_some_iff.mp hrun
  obtain ⟨executes, hexecutes, hfacts⟩ := Option.map_eq_some_iff.mp hrest
  obtain ⟨⟨hstopped, haccount, hhead⟩, hstart, hend, hsucceeded, row, hrow, havailable⟩ :=
    of_decide_eq_true hfacts
  have hreach : (Projection.machine (ledgerAggregateWith .rounded)).Reachable executes :=
    ⟨_, _, Scenario.rowAfter_init hstart,
      Machine.steps_of_run (fun _ _ _ hstep => hstep) hexecutes⟩
  exact ⟨st, _, row, Scenario.quiet_reachable hst, hstopped,
    Store.customerLedger_of_head hhead rfl haccount,
    ⟨executes, hreach, hend, hsucceeded, hrow⟩,
    fun hreconciles => havailable hreconciles.available⟩

theorem not_reconciles :
    (∃ st ledgerId v, (System.lagging.restrict System.Quiet).Reachable st ∧
      st.consumer.Stopped ∧ st.store.CustomerLedger ledgerId ∧
      LedgerView.projectWith .rounded (st.store.ledgerEvents ledgerId) = .ok v ∧
      v.pending.amount < .zero ∧ ¬ st.store.Reconciles ledgerId v) ∧
    ∃ st ledgerId row, (System.lagging.restrict System.Quiet).Reachable st ∧
      st.consumer.Stopped ∧ st.store.CustomerLedger ledgerId ∧
      (∃ executes, (Projection.machine (ledgerAggregateWith .rounded)).Reachable executes ∧
        executes.table.log = st.store.ledgerEvents ledgerId ∧
        (∀ x ∈ executes.executes, x.Succeeded) ∧ executes.table.row = some row) ∧
      ¬ st.store.Reconciles ledgerId row :=
  ⟨Scenario.dust_unreconciled, Scenario.raced_unreconciled⟩

end Bankie
