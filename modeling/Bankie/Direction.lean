import Bankie.Handling

/-!
In which direction an order moves money.
Nothing on the way of an order looks at the sign of its amount. An order of a negative amount
is refused only where something else refuses it; wherever it is accepted, a withdrawal pays
in and a deposit takes out.
-/
namespace Bankie

open Program Transition

namespace Store

/-- What the job makes of an outbox row. -/
def credited (s : Store) (row : Outbox) (os : ℕ → Oracle) : Store :=
  ((processEvent row).run exec os s).2

end Store

section Balances

variable {s s' : Store} {m : Bank} {ledger : Uuid} {b : Book} {p : Posting}

theorem Represents.credited (h : Represents s m) {mv : Movement}
    (hserves : m.Serves mv.ledger mv.account mv.amount.currency) (processed : Bool)
    (os : ℕ → Oracle) :
    s.credited (mv.row processed) os = s ∨
      ∃ b now, m.books mv.ledger = some b ∧ Represents (s.credited (mv.row processed) os)
        (m.setBook mv.ledger (b.post (mv.settlement now))) := by
  obtain ⟨b, hb, -, howner, hcurrency⟩ := hserves
  have hwp : (processEvent (mv.row processed)).wp exec (fun _ => True) (fun _ s' => s' = s ∨
      ∃ b now, m.books mv.ledger = some b ∧
        Represents s' (m.setBook mv.ledger (b.post (mv.settlement now)))) s := by
    rw [Movement.row, processEvent_settlementRow]
    refine Prog.wp_bind (Prog.wp_mapErr (wp_call (fun _ e => Or.inl rfl) fun now => ?_))
    obtain ⟨s', hs', hstore⟩ := Models.execute_posting h hb howner hcurrency (mv.settlement now)
    rw [mv.settlement_command now] at hs'
    change execute (.executeLedger mv.ledger.toString
      (mv.action.settlement mv.ledger mv.account mv.tx mv.amount)) now s = (.ok (), s') at hs'
    rw [hs']
    exact Or.inr ⟨b, now, hb, hstore⟩
  exact Prog.wp_run hwp fun _ => trivial

end Balances

section Orders

variable {s s' : Store} {m : Bank} {d : Draws} {order : Order} {ledger : Uuid}

theorem Store.Writes.movement (h : Represents s m) (hnew : d.transactionId ∉ m.completed)
    (hwrite : s.Writes d order ledger s') :
    ∃ house, Represents s' (m.addMovement (m.movementOf d order ledger house)) ∧
      s'.ledgerViews = s.ledgerViews ∧
      s'.outbox = s.outbox ++ [(m.movementOf d order ledger house).row false] := by
  obtain ⟨house, hwrite⟩ := hwrite
  obtain ⟨-, hstore⟩ := h.createTransactionWithJournal hnew hwrite
  obtain ⟨-, rfl⟩ := Store.createTransactionWithJournal_ok hwrite
  have hlength : s.outbox.length = m.movements.length := by
    rw [h.outbox, List.length_map]
  refine ⟨house, hstore, rfl, ?_⟩
  rw [Movement.row, Bank.movementOf, ← hlength]
  rfl

/-- A deposit touches no balance until the job credits it. -/
theorem Handled.ledgerViews {O : Oracle → Prop} {r : Outcome Unit}
    (hr : Handled O s d order ledger r s') (haction : order.action = .deposit)
    (h : Represents s m) (hnew : d.transactionId ∉ m.completed) :
    s'.ledgerViews = s.ledgerViews := by
  cases hr with
  | refused e hfails => rfl
  | deposited _ _ haccepts hwrite =>
    obtain ⟨house, -, hviews, -⟩ := hwrite.movement h hnew
    exact hviews
  | unheld e _ hfail hwithdraw => cases haction.symm.trans hwithdraw
  | withdrawn s₁ _ now hwithdraw => cases haction.symm.trans hwithdraw

theorem Handled.row {O : Oracle → Prop} {r : Outcome Unit}
    (hr : Handled O s d order ledger r s') (haction : order.action = .deposit)
    (h : Represents s m) (hnew : d.transactionId ∉ m.completed) {row : Outbox}
    (hrow : s'.outbox = s.outbox ++ [row]) :
    ∃ house, Represents s' (m.addMovement (m.movementOf d order ledger house)) ∧
      row = (m.movementOf d order ledger house).row false := by
  cases hr with
  | refused e hfails =>
    have hlength := congrArg List.length hrow
    simp at hlength
  | deposited _ _ haccepts hwrite =>
    obtain ⟨house, hstore, -, hadded⟩ := hwrite.movement h hnew
    refine ⟨house, hstore, ?_⟩
    rw [hadded] at hrow
    exact (List.singleton_inj.mp (List.append_cancel_left hrow)).symm
  | unheld e _ hfail hwithdraw => cases haction.symm.trans hwithdraw
  | withdrawn s₁ _ now hwithdraw => cases haction.symm.trans hwithdraw

end Orders

/-- What the abstract bank knows of an approved account that gets an order. -/
structure Bank.Takes (m : Bank) (s : Store) (d : Draws) (order : Order) (a : Account)
    (ledger : Uuid) : Prop where
  store : Represents s m
  wf : m.WF
  numbered : m.Numbered
  fresh : m.Fresh d.ids
  account : m.accounts order.account = some a
  ledger : a.ledger = some ledger

namespace Bank.Takes

variable {m : Bank} {s : Store} {d : Draws} {order : Order} {a : Account} {ledger : Uuid}

theorem serves (h : m.Takes s d order a ledger) (haccepts : s.Accepts d order) :
    m.Serves ledger order.account order.amount.currency := by
  obtain ⟨v, hv, -, hcurrency, -⟩ := h.store.approved_view h.account h.ledger
  obtain ⟨v', hv', hamount, -⟩ := haccepts.passes
  obtain rfl := Option.some.inj (hv.symm.trans hv')
  obtain ⟨p, hp, rfl⟩ := Option.map_eq_some_iff.mp h.ledger
  rw [← hamount, hcurrency]
  exact h.wf.approvals _ a h.account p (List.mem_of_getLast? hp)

end Bank.Takes

end Bankie
