import Bankie.Audit
import Bankie.Handlers
import Bankie.Refinement

/-!
The statement of an account, read page by page.
A client asks for the transactions of an account, newest first, with an offset and a limit,
while the service writes new ones. What it sees of each is an amount as a text.
-/
namespace Bankie

open Program Transition Growing

/-- The transactions of an account, oldest first. -/
def Store.transactionsOf (s : Store) (account : Uuid) : List Transaction :=
  s.transactions.filter fun t => t.bankAccountId = account

/-- A client reads one page after the other, in the states of a run, and stops at the first
page that is not full. -/
structure ReadsPages (accountId : String) (limit : ℕ) (states : ℕ → System)
    (pages : ℕ → List TransactionWithMoney) (last : ℕ) : Prop where
  runs : ∀ n < last, ∃ as, System.machine.Steps (states n) as (states (n + 1))
  answers : ∀ n ≤ last, ∃ o, transactionQueryHandler accountId (n * limit : ℕ) limit o
    (states n).store = .ok (.ok (pages n))
  short : (pages last).length < limit

/-- An entry of the statement shows this row. -/
def TransactionWithMoney.Shows (e : TransactionWithMoney) (t : Transaction) : Prop :=
  e = t.fetched.intoTransactionWithMoney

section Queries

variable {s : Store} {account : Uuid} {accountId : String} {offset limit : ℕ} {o : Oracle}
  {entries : List TransactionWithMoney}

theorem transactionQueryHandler_up (hid : Uuid.parseStr accountId = some account)
    (offset limit : ℕ) (ho : o.fail = none) (s : Store) :
    transactionQueryHandler accountId offset limit o s =
      .ok (.ok ((page offset limit (s.transactionsOf account)).map
        fun t => t.fetched.intoTransactionWithMoney)) := by
  have hnonneg : ∀ n : ℕ, ¬ (n : ℤ) < 0 := fun n => by omega
  rw [transactionQueryHandler, Store.getTransactions, Store.parseUnwrap, hid, Outcome.unwrap,
    Outcome.ok_bind, if_neg (hnonneg offset), if_neg (hnonneg limit), Int.toNat_natCast,
    Int.toNat_natCast, fetch, ho, Outcome.ok_bind, List.map_map]
  rfl

theorem transactionQueryHandler_ok (hid : Uuid.parseStr accountId = some account)
    (h : transactionQueryHandler accountId offset limit o s = .ok (.ok entries)) :
    entries = (page offset limit (s.transactionsOf account)).map
      fun t => t.fetched.intoTransactionWithMoney := by
  cases ho : o.fail with
  | none =>
    rw [transactionQueryHandler_up hid offset limit ho] at h
    exact (Except.ok.inj (Outcome.ok.inj h)).symm
  | some e =>
    rw [transactionQueryHandler, Store.getTransactions, Store.parseUnwrap, hid, Outcome.unwrap,
      Outcome.ok_bind, fetch, ho] at h
    cases h

theorem mem_entries (hid : Uuid.parseStr accountId = some account)
    (h : transactionQueryHandler accountId offset limit o s = .ok (.ok entries))
    {e : TransactionWithMoney} (he : e ∈ entries) :
    ∃ t ∈ s.transactions, t.bankAccountId = account ∧ e.Shows t := by
  rw [transactionQueryHandler_ok hid h] at he
  obtain ⟨t, ht, rfl⟩ := List.mem_map.mp he
  obtain ⟨hmem, haccount⟩ := List.mem_filter.mp (mem_of_mem_page ht)
  exact ⟨t, hmem, of_decide_eq_true haccount, rfl⟩

end Queries

theorem Transaction.Completes.bankAccountId {t t' : Transaction} (h : t.Completes t') :
    t'.bankAccountId = t.bankAccountId := by
  rcases h with rfl | rfl <;> rfl

theorem System.transactionsOf_kept {st st' : System} {as : List Action}
    (h : machine.Steps st as st') (account : Uuid) :
    Kept Transaction.Completes (st.store.transactionsOf account)
      (st'.store.transactionsOf account) := by
  refine (run_keeps_records h).transactions.filter fun t t' ht => ?_
  rw [ht.bankAccountId]

/-- The statement misses nothing and invents nothing: every transaction of the account that
was there when the client began is on one of the pages, as it was or completed in the meantime,
whatever else was written between them; and every entry shows a row of the account. -/
theorem statement_complete {account : Uuid} {accountId : String}
    (hid : Uuid.parseStr accountId = some account) {limit last : ℕ} {states : ℕ → System}
    {pages : ℕ → List TransactionWithMoney} (h : ReadsPages accountId limit states pages last) :
    (∀ t ∈ (states 0).store.transactions, t.bankAccountId = account →
      ∃ n ≤ last, ∃ e ∈ pages n, ∃ t', t.Completes t' ∧ e.Shows t') ∧
    ∀ n ≤ last, ∀ e ∈ pages n,
      ∃ t ∈ (states n).store.transactions, t.bankAccountId = account ∧ e.Shows t := by
  have hpages : ∀ n ≤ last, pages n = (page (n * limit) limit
      ((states n).store.transactionsOf account)).map
        fun t => t.fetched.intoTransactionWithMoney := by
    intro n hn
    obtain ⟨o, ho⟩ := h.answers n hn
    exact transactionQueryHandler_ok hid ho
  constructor
  · intro t ht haccount
    have hshort := h.short
    rw [hpages last (Nat.le_refl last), List.length_map] at hshort
    have hkept : ∀ n < last, Kept Transaction.Completes
        ((states n).store.transactionsOf account)
        ((states (n + 1)).store.transactionsOf account) := by
      intro n hn
      obtain ⟨as, hrun⟩ := h.runs n hn
      exact System.transactionsOf_kept hrun account
    have hmem : t ∈ (states 0).store.transactionsOf account :=
      List.mem_filter.mpr ⟨ht, decide_eq_true haccount⟩
    obtain ⟨n, hn, t', ht', hcompletes⟩ := pages_complete Transaction.Completes.refl
      Transaction.Completes.trans (fun n => (states n).store.transactionsOf account) hkept hshort
      hmem
    refine ⟨n, hn, t'.fetched.intoTransactionWithMoney, ?_, t', hcompletes, rfl⟩
    rw [hpages n hn]
    exact List.mem_map_of_mem ht'
  · intro n hn e he
    obtain ⟨o, ho⟩ := h.answers n hn
    exact mem_entries hid ho he

/-- A second deposit between two pages moves the first one to the next page. -/
def Scenario.depositedTwice : List Action := handle 13 50 5 (.deposit (uid 10) (usd 50))

theorem statement_complete_deposited : ∃ states pages,
    ReadsPages (Scenario.uid 10).toString 1 states pages 2 ∧
      ∀ t ∈ (states 0).store.transactions, t.bankAccountId = Scenario.uid 10 →
        ∃ n ≤ 2, ∃ e ∈ pages n, ∃ t', t.Completes t' ∧ e.Shows t' := by
  have hrun : (((System.init []).run Scenario.deposited).bind fun st =>
      (st.run Scenario.depositedTwice).map fun st' =>
        (page 2 1 (st'.store.transactionsOf (Scenario.uid 10))).length) = some 0 := by
    decide +kernel
  obtain ⟨st, -, hrest⟩ := Option.bind_eq_some_iff.mp hrun
  obtain ⟨st', hst', hlength⟩ := Option.map_eq_some_iff.mp hrest
  let states : ℕ → System := fun n => if n = 0 then st else st'
  let pages : ℕ → List TransactionWithMoney := fun n =>
    (page (n * 1) 1 ((states n).store.transactionsOf (Scenario.uid 10))).map
      fun t => t.fetched.intoTransactionWithMoney
  have hreads : ReadsPages (Scenario.uid 10).toString 1 states pages 2 := by
    refine ⟨fun n hn => ?_, fun n hn => ⟨Scenario.up, ?_⟩, ?_⟩
    · have hcases : n = 0 ∨ n = 1 := by omega
      rcases hcases with rfl | rfl
      · exact ⟨_, System.steps_of_run hst'⟩
      · exact ⟨[], Machine.Steps.nil st'⟩
    · exact transactionQueryHandler_up (Uuid.parseStr_toString _) (n * 1) 1 rfl _
    · rw [List.length_map]
      exact hlength.trans_lt Nat.zero_lt_one
  exact ⟨states, pages, hreads, (statement_complete (Uuid.parseStr_toString _) hreads).1⟩

/-- In one reachable state the pages, put together, list each transaction of the account once
and newest first. -/
theorem statement_exact {st : System} (h : System.machine.Reachable st) {account : Uuid}
    {accountId : String} (hid : Uuid.parseStr accountId = some account) {limit k : ℕ}
    {pages : ℕ → List TransactionWithMoney}
    (hpages : ∀ n < k, ∃ o, transactionQueryHandler accountId (n * limit : ℕ) limit o
      st.store = .ok (.ok (pages n)))
    (hall : (st.store.transactionsOf account).length ≤ k * limit) :
    (List.range k).flatMap pages =
        ((st.store.transactionsOf account).reverse.map
          fun t => t.fetched.intoTransactionWithMoney) ∧
      (((List.range k).flatMap pages).map TransactionWithMoney.id).Nodup := by
  have hlist : (List.range k).flatMap pages =
      (st.store.transactionsOf account).reverse.map
        fun t => t.fetched.intoTransactionWithMoney := by
    have heach : (List.range k).flatMap pages = (List.range k).flatMap fun n =>
        (page (n * limit) limit (st.store.transactionsOf account)).map
          fun t => t.fetched.intoTransactionWithMoney := by
      refine List.flatMap_congr fun n hn => ?_
      obtain ⟨o, ho⟩ := hpages n (List.mem_range.mp hn)
      exact transactionQueryHandler_ok hid ho
    rw [heach, ← List.map_flatMap, flatMap_page, List.take_of_length_le (by simpa using hall)]
  refine ⟨hlist, ?_⟩
  obtain ⟨m, -, hmodels, -, hnum⟩ := refinement.reachable h
  have hids : (st.store.transactions.map Transaction.id).Nodup := by
    rw [hmodels.store.transactions, List.map_map]
    exact hnum.tx_nodup
  have hshown : (fun t : Transaction => t.fetched.intoTransactionWithMoney.id) =
      Transaction.id := rfl
  rw [hlist, List.map_map, Function.comp_def, hshown, List.map_reverse, List.nodup_reverse]
  exact hids.sublist (List.filter_sublist.map _)

/-- Two deposits on two pages, the later one first. -/
theorem statement_exact_deposited : ∃ pages : ℕ → List TransactionWithMoney,
    ((List.range 2).map fun n => (pages n).map TransactionWithMoney.amount) =
        [["50.00"], ["100.00"]] ∧
      ((List.range 2).flatMap pages).map TransactionWithMoney.amount = ["50.00", "100.00"] ∧
      (((List.range 2).flatMap pages).map TransactionWithMoney.id).Nodup := by
  have hrun : (((System.init []).run (Scenario.deposited ++ Scenario.depositedTwice)).map fun st =>
      ((st.store.transactionsOf (Scenario.uid 10)).length,
        (st.store.transactionsOf (Scenario.uid 10)).reverse.map fun t =>
          t.fetched.intoTransactionWithMoney.amount,
        (List.range 2).map fun n => (page (n * 1) 1
          (st.store.transactionsOf (Scenario.uid 10))).map fun t =>
            t.fetched.intoTransactionWithMoney.amount)) =
      some (2, ["50.00", "100.00"], [["50.00"], ["100.00"]]) := by decide +kernel
  obtain ⟨st, hst, hfacts⟩ := Option.map_eq_some_iff.mp hrun
  simp only [Prod.mk.injEq] at hfacts
  obtain ⟨hlength, hamounts, hshown⟩ := hfacts
  let pages : ℕ → List TransactionWithMoney := fun n =>
    (page (n * 1) 1 (st.store.transactionsOf (Scenario.uid 10))).map
      fun t => t.fetched.intoTransactionWithMoney
  have hpages : ∀ n < 2, ∃ o, transactionQueryHandler (Scenario.uid 10).toString (n * 1 : ℕ)
      (1 : ℕ) o st.store = .ok (.ok (pages n)) := fun n _ =>
    ⟨Scenario.up, transactionQueryHandler_up (Uuid.parseStr_toString _) (n * 1) 1 rfl _⟩
  obtain ⟨hlist, hnodup⟩ := statement_exact (System.reachable_of_run hst)
    (Uuid.parseStr_toString (Scenario.uid 10)) hpages (by rw [hlength])
  refine ⟨pages, ?_, ?_, hnodup⟩
  · simpa only [pages, List.map_map, Function.comp_def] using hshown
  · rw [hlist, List.map_map]
    exact hamounts

/-- The amount of an entry, in a reachable state: the currency is that of the row, the text
has its fractional digits and names the stored amount up to less than one unit of its last
digit, and never more than it. In dollars it names the stored amount. -/
theorem listed_amount {st : System} (h : System.machine.Reachable st) {account : Uuid}
    {accountId : String} (hid : Uuid.parseStr accountId = some account) {offset limit : ℕ}
    {o : Oracle} {entries : List TransactionWithMoney}
    (hanswer : transactionQueryHandler accountId offset limit o st.store = .ok (.ok entries)) :
    ∀ e ∈ entries, ∃ t ∈ st.store.transactions, t.bankAccountId = account ∧ e.id = t.id ∧
      ∃ (c : Currency) (v : Decimal), t.currency = c.toString ∧ e.currency = c.toString ∧
        Decimal.fromStr e.amount = some v ∧ v.scale = c.precision ∧
        |v.toRat| ≤ |t.stored| ∧ |t.stored - v.toRat| < 1 / 10 ^ c.precision ∧
        (c = .usd → v.toRat = t.stored) := by
  obtain ⟨m, -, hmodels, -, -⟩ := refinement.reachable h
  intro e he
  obtain ⟨t, ht, haccount, rfl⟩ := mem_entries hid hanswer he
  obtain ⟨c, hc⟩ : ∃ c : Currency, t.currency = c.toString := by
    rw [hmodels.store.transactions] at ht
    obtain ⟨mv, -, rfl⟩ := List.mem_map.mp ht
    exact ⟨mv.amount.currency, rfl⟩
  have htext : t.fetched.intoTransactionWithMoney.amount =
      (t.amount.round 2).display c.precision := by
    rw [Transaction.intoTransactionWithMoney, Transaction.fetched, hc, Currency.ofString_toString]
    rfl
  refine ⟨t, ht, haccount, rfl, c, (t.amount.round 2).cut c.precision, hc, hc, ?_, ?_, ?_, ?_, ?_⟩
  · rw [htext, Decimal.fromStr_display]
  · exact Decimal.cut_scale _ _
  · exact Decimal.abs_cut_le _ _
  · exact Decimal.abs_sub_cut_lt _ _
  · rintro rfl
    obtain ⟨n, hn⟩ := Decimal.exists_int_round 2 t.amount
    exact Decimal.cut_toRat_of_multiple hn

theorem listed_amount_deposited : ∃ (st : System) (e : TransactionWithMoney),
    st.store.transactions.length = 1 ∧ ∃ (c : Currency) (v : Decimal),
      Decimal.fromStr e.amount = some v ∧ v.scale = c.precision := by
  have hrun : (((System.init []).run Scenario.deposited).map fun st =>
      (st.store.transactions.length,
        (page 0 1 (st.store.transactionsOf (Scenario.uid 10))).length)) = some (1, 1) := by
    decide +kernel
  obtain ⟨st, hst, hlengths⟩ := Option.map_eq_some_iff.mp hrun
  obtain ⟨hlength, hpage⟩ := Prod.mk.inj hlengths
  obtain ⟨t, ht⟩ := List.length_eq_one_iff.mp hpage
  obtain ⟨_, -, -, -, c, v, -, -, hv, hscale, -⟩ := listed_amount (System.reachable_of_run hst)
    (Uuid.parseStr_toString (Scenario.uid 10))
    (transactionQueryHandler_up (Uuid.parseStr_toString _) 0 1 (o := Scenario.up) rfl _)
    _ (List.mem_map_of_mem (ht ▸ List.mem_singleton_self t))
  exact ⟨st, _, hlength, c, v, hv, hscale⟩

end Bankie
