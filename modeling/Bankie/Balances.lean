import Bankie.AtMostOnce

/-!
Balances as sums over movements.
A deposit counts once it is settled; a withdrawal counts against the available balance
once it is held, and as pending until it is settled. Where every row is applied at most
once, the balances of a book are the sums of what its movements count.
-/
namespace Bankie

open Program Transition

/-- The transactions whose funds a book holds, or has held. -/
def Book.held (b : Book) : List Uuid :=
  (b.postings.filter (fun p => p.kind = .hold)).map Posting.transactionId

theorem Book.held_post (p : Posting) (b : Book) :
    (b.post p).held = b.held ++ if p.kind = .hold then [p.transactionId] else [] := by
  by_cases hk : p.kind = .hold <;> simp [Book.held, Book.post, hk]

namespace Movement

def availableShare (ledger : Uuid) (b : Book) (mv : Movement) : ℚ :=
  if mv.ledger = ledger then
    match mv.action with
    | .deposit => if mv.tx ∈ b.settled then mv.amount.amount.toRat else 0
    | .withdraw => if mv.tx ∈ b.held then -mv.amount.amount.toRat else 0
  else 0

def pendingShare (ledger : Uuid) (b : Book) (mv : Movement) : ℚ :=
  if mv.ledger = ledger then
    match mv.action with
    | .deposit => 0
    | .withdraw => (if mv.tx ∈ b.held then mv.amount.amount.toRat else 0) -
        (if mv.tx ∈ b.settled then mv.amount.amount.toRat else 0)
  else 0

variable {ledger : Uuid} {b b' : Book} {mv : Movement}

theorem share_unknown (hsettled : mv.tx ∉ b.settled) (hheld : mv.tx ∉ b.held) :
    mv.availableShare ledger b = 0 ∧ mv.pendingShare ledger b = 0 := by
  unfold availableShare pendingShare
  cases mv.action <;> simp [hsettled, hheld]

theorem share_other (hsettled : mv.tx ∈ b'.settled ↔ mv.tx ∈ b.settled)
    (hheld : mv.tx ∈ b'.held ↔ mv.tx ∈ b.held) :
    mv.availableShare ledger b' = mv.availableShare ledger b ∧
      mv.pendingShare ledger b' = mv.pendingShare ledger b := by
  unfold availableShare pendingShare
  cases mv.action <;> simp [hsettled, hheld]

/-- Holding the funds of a withdrawal counts it. -/
theorem share_hold (hledger : mv.ledger = ledger) (haction : mv.action = .withdraw)
    (hnew : mv.tx ∉ b.held) {p : Posting} (hkind : p.kind = .hold) (htx : p.transactionId = mv.tx)
    (hamount : p.amount = mv.amount.amount) :
    mv.availableShare ledger (b.post p) - mv.availableShare ledger b = p.available ∧
      mv.pendingShare ledger (b.post p) - mv.pendingShare ledger b = p.pending := by
  have hheld : mv.tx ∈ (b.post p).held := by simp [Book.held_post, hkind, htx]
  have hsettled : (b.post p).settled = b.settled := by simp [Book.settled_post, hkind]
  rw [availableShare, availableShare, pendingShare, pendingShare, Posting.available,
    Posting.pending]
  simp [hledger, haction, hheld, hnew, hsettled, hkind, hamount]

/-- Settling a movement counts a deposit, and ends what is pending of a withdrawal. -/
theorem share_settle (hledger : mv.ledger = ledger) (hnew : mv.tx ∉ b.settled) (now : String) :
    mv.availableShare ledger (b.post (mv.settlement now)) - mv.availableShare ledger b =
        (mv.settlement now).available ∧
      mv.pendingShare ledger (b.post (mv.settlement now)) - mv.pendingShare ledger b =
        (mv.settlement now).pending := by
  have hsettled : mv.tx ∈ (b.post (mv.settlement now)).settled := by
    rw [Book.settled_post, if_neg (mv.settlement_kind now)]
    exact List.mem_append_right _ (List.mem_singleton_self _)
  have hheld : (b.post (mv.settlement now)).held = b.held := by
    rw [Book.held_post, if_neg (mv.settlement_kind now), List.append_nil]
  rw [availableShare, availableShare, pendingShare, pendingShare]
  cases haction : mv.action with
  | deposit =>
    have hav : (mv.settlement now).available = mv.amount.amount.toRat := by
      simp [settlement, Posting.available, haction]
    have hpe : (mv.settlement now).pending = 0 := by
      simp [settlement, Posting.pending, haction]
    rw [hav, hpe]
    simp [hledger, hsettled, hnew]
  | withdraw =>
    have hav : (mv.settlement now).available = 0 := by
      simp [settlement, Posting.available, haction]
    have hpe : (mv.settlement now).pending = -mv.amount.amount.toRat := by
      simp [settlement, Posting.pending, haction]
    rw [hav, hpe]
    simp [hledger, hsettled, hnew, hheld]

end Movement

namespace Bank

variable {m m' : Bank}

/-- The movement whose funds the consumer is about to hold. -/
def Holds (m : Bank) (p : ConsumerPoint) (mv : Movement) : Prop :=
  ∃ d order ledger sequence, p = .hold d order ledger sequence ∧ mv ∈ m.movements ∧
    mv.tx = d.transactionId ∧ mv.ledger = ledger ∧ mv.action = .withdraw ∧
    mv.amount = order.amount

structure Balanced (m : Bank) : Prop where
  available : ∀ ledger b, m.books ledger = some b →
    b.available = (m.movements.map (Movement.availableShare ledger b)).sum
  pending : ∀ ledger b, m.books ledger = some b →
    b.pending = (m.movements.map (Movement.pendingShare ledger b)).sum
  known : ∀ ledger b, m.books ledger = some b → ∀ tx, tx ∈ b.settled ∨ tx ∈ b.held →
    ∃ mv ∈ m.movements, mv.tx = tx
  holding : m.consumer.Holding → ∃ mv, m.Holds m.consumer mv ∧
    ∀ ledger b, m.books ledger = some b → mv.tx ∉ b.held

theorem balanced_init (houses : List HouseAccount) : (init houses).Balanced where
  available _ _ hb := by cases hb
  pending _ _ hb := by cases hb
  known _ _ hb := by cases hb
  holding hh := hh.elim

theorem Step.movements {a : Action} (h : m.Step a m') :
    m'.movements = m.movements ∨
      ∃ o d order ledger sequence house, a = .consumer o ∧
        m.consumer = .record d order ledger sequence house ∧
        m' = (m.addMovement (m.movementOf d order ledger house)).setConsumer
          (afterRecord d order ledger sequence) := by
  cases h with
  | record o d order ledger sequence house hp =>
    exact Or.inr ⟨o, d, order, ledger, sequence, house, rfl, hp, rfl⟩
  | _ => exact Or.inl rfl

theorem sum_shares_nil (m : Bank) (ledger : Uuid) {b : Book} (hb : b.postings = []) :
    b.available = (m.movements.map (Movement.availableShare ledger b)).sum ∧
      b.pending = (m.movements.map (Movement.pendingShare ledger b)).sum := by
  have hshare : ∀ mv : Movement, mv.availableShare ledger b = 0 ∧ mv.pendingShare ledger b = 0 :=
    fun mv => Movement.share_unknown (by simp [Book.settled, hb]) (by simp [Book.held, hb])
  refine ⟨?_, ?_⟩
  · rw [List.map_congr_left fun mv _ => (hshare mv).1]
    simp [Book.available, hb]
  · rw [List.map_congr_left fun mv _ => (hshare mv).2]
    simp [Book.pending, hb]

/-- The sums over the movements follow a posting for one of them. -/
theorem sum_shares_post (hnum : m.Numbered) {ledger : Uuid} {b : Book} {p : Posting}
    {mv : Movement} (hmv : mv ∈ m.movements) (htx : p.transactionId = mv.tx)
    (hb : b.available = (m.movements.map (Movement.availableShare ledger b)).sum ∧
      b.pending = (m.movements.map (Movement.pendingShare ledger b)).sum)
    (hshare : mv.availableShare ledger (b.post p) - mv.availableShare ledger b = p.available ∧
      mv.pendingShare ledger (b.post p) - mv.pendingShare ledger b = p.pending) :
    (b.post p).available = (m.movements.map (Movement.availableShare ledger (b.post p))).sum ∧
      (b.post p).pending = (m.movements.map (Movement.pendingShare ledger (b.post p))).sum := by
  have hother : ∀ mv' : Movement, mv'.tx ≠ mv.tx →
      mv'.availableShare ledger (b.post p) = mv'.availableShare ledger b ∧
        mv'.pendingShare ledger (b.post p) = mv'.pendingShare ledger b := by
    intro mv' hne
    apply Movement.share_other
    · rw [Book.settled_post]
      split <;> simp [htx, hne]
    · rw [Book.held_post]
      split <;> simp [htx, hne]
  refine ⟨?_, ?_⟩
  · rw [sum_map_update Movement.tx hnum.tx_nodup hmv fun mv' _ hne => (hother mv' hne).1,
      hshare.1, Book.available_post, hb.1]
  · rw [sum_map_update Movement.tx hnum.tx_nodup hmv fun mv' _ hne => (hother mv' hne).2,
      hshare.2, Book.pending_post, hb.2]

/-- Only the write of a withdrawal leads to a hold. -/
theorem withdraw_of_holding {d : Draws} {order : Order} {ledger : Uuid} {sequence : ℕ}
    (hh : (afterRecord d order ledger sequence).Holding) : order.action = .withdraw := by
  cases haction : order.action with
  | deposit =>
    rw [afterRecord, haction] at hh
    exact hh.elim
  | withdraw => rfl

theorem holds_record (m : Bank) {d : Draws} {order : Order} {ledger : Uuid} {sequence : ℕ}
    {house : String} (haction : order.action = .withdraw) :
    ((m.addMovement (m.movementOf d order ledger house)).setConsumer
      (afterRecord d order ledger sequence)).Holds (afterRecord d order ledger sequence)
        (m.movementOf d order ledger house) := by
  refine ⟨d, order, ledger, sequence, ?_, ?_, rfl, rfl, haction, rfl⟩
  · rw [afterRecord, haction]
  · exact List.mem_append_right _ (List.mem_singleton_self _)

/-- The sums over the movements are kept when a movement is written. -/
theorem Balanced.record (hm : m.Balanced) (hnum : m.Numbered) {d : Draws} {order : Order}
    {ledger : Uuid} {sequence : ℕ} {house : String}
    (hp : m.consumer = .record d order ledger sequence house) :
    ((m.addMovement (m.movementOf d order ledger house)).setConsumer
      (afterRecord d order ledger sequence)).Balanced := by
  have hnew : ∀ u b, m.books u = some b → d.transactionId ∉ b.settled ∧
      d.transactionId ∉ b.held := by
    intro u b hb
    have hdrawn := (hnum.drawn d (by simp [hp, ConsumerPoint.drawn])).2
    refine ⟨fun hin => ?_, fun hin => ?_⟩
    · obtain ⟨mv, hmv, htx⟩ := hm.known u b hb _ (Or.inl hin)
      exact hdrawn mv hmv htx
    · obtain ⟨mv, hmv, htx⟩ := hm.known u b hb _ (Or.inr hin)
      exact hdrawn mv hmv htx
  have hshare : ∀ u b, m.books u = some b →
      (m.movementOf d order ledger house).availableShare u b = 0 ∧
        (m.movementOf d order ledger house).pendingShare u b = 0 :=
    fun u b hb => Movement.share_unknown (hnew u b hb).1 (hnew u b hb).2
  refine ⟨fun u b hb => ?_, fun u b hb => ?_, fun u b hb tx htx => ?_, fun hh => ?_⟩
  · simp [(hshare u b hb).1, hm.available u b hb]
  · simp [(hshare u b hb).2, hm.pending u b hb]
  · obtain ⟨mv, hmv, rfl⟩ := hm.known u b hb tx htx
    exact ⟨mv, List.mem_append_left _ hmv, rfl⟩
  · exact ⟨_, m.holds_record (withdraw_of_holding hh), fun u b hb => (hnew u b hb).2⟩

theorem Advances.not_holding {p q : ConsumerPoint} (h : m.Advances p q) : ¬ q.Holding := by
  cases h <;> exact id

theorem Balanced.books_step (hm : m.Balanced) (hwf : m.WF) (hnum : m.Numbered) (honce : m.Once)
    {a : Action} (hguard : m.SettlesOpenRow a) (h : m.Step a m') (ledger : Uuid) (b' : Book)
    (hb' : m'.books ledger = some b') :
    (b'.available = (m.movements.map (Movement.availableShare ledger b')).sum ∧
      b'.pending = (m.movements.map (Movement.pendingShare ledger b')).sum) ∧
      ∀ tx, tx ∈ b'.settled ∨ tx ∈ b'.held → ∃ mv ∈ m.movements, mv.tx = tx := by
  rcases h.book_cases hb' with hb | hempty | ⟨b, p, hb, rfl, hposts⟩
  · exact ⟨⟨hm.available ledger b' hb, hm.pending ledger b' hb⟩, hm.known ledger b' hb⟩
  · exact ⟨m.sum_shares_nil ledger hempty, by simp [Book.settled, Book.held, hempty]⟩
  · -- either way the posting is for one movement that it was not yet posted for
    obtain ⟨mv, hmv, htx, hshare⟩ : ∃ mv ∈ m.movements, p.transactionId = mv.tx ∧
        (mv.availableShare ledger (b.post p) - mv.availableShare ledger b = p.available ∧
          mv.pendingShare ledger (b.post p) - mv.pendingShare ledger b = p.pending) := by
      cases hposts with
      | hold o d order ledger sequence hp =>
        obtain ⟨mv, ⟨d', order', ledger', sequence', heq, hmv, htx, hledger, haction, hamount⟩,
          hfree⟩ := hm.holding (by rw [hp]; trivial)
        rw [hp] at heq
        obtain ⟨rfl, rfl, rfl, rfl⟩ := ConsumerPoint.hold.inj heq
        exact ⟨mv, hmv, htx.symm, Movement.share_hold hledger haction (hfree _ b hb) rfl htx.symm
          (by rw [hamount]; rfl)⟩
      | settle i o lockValue mv rest hok hi =>
        exact ⟨mv, hwf.rows _ (List.mem_of_getElem? hi) mv List.mem_cons_self, rfl,
          Movement.share_settle rfl (honce.not_settled hguard hok hi hb) o.now⟩
    refine ⟨sum_shares_post hnum hmv htx ⟨hm.available ledger b hb, hm.pending ledger b hb⟩ hshare,
      fun tx htx' => ?_⟩
    rw [Book.settled_post, Book.held_post] at htx'
    have hcase : (tx ∈ b.settled ∨ tx ∈ b.held) ∨ tx = p.transactionId := by
      split at htx' <;> simp at htx' <;> tauto
    rcases hcase with hold | rfl
    · exact hm.known ledger b hb tx hold
    · exact ⟨mv, hmv, htx.symm⟩

/-- The consumer is at a hold because it was there before, or because it wrote the movement. -/
theorem Step.holding {a : Action} (h : m.Step a m') (hh : m'.consumer.Holding) :
    (m'.consumer = m.consumer ∧ ∀ o, a ≠ .consumer o) ∨ m'.movements ≠ m.movements := by
  cases h with
  | advance o p hp => exact absurd hh hp.not_holding
  | giveUp => exact hh.elim
  | openAccount => exact hh.elim
  | initLedger => exact hh.elim
  | approve => exact hh.elim
  | record => exact Or.inr (by simp)
  | hold => exact hh.elim
  | receive => exact hh.elim
  | _ => exact Or.inl ⟨rfl, fun o ho => by cases ho⟩

theorem Balanced.holding_step (hm : m.Balanced) {a : Action} (h : m.Step a m')
    (hmovements : m'.movements = m.movements) (hh : m'.consumer.Holding) :
    ∃ mv, m'.Holds m'.consumer mv ∧ ∀ ledger b, m'.books ledger = some b → mv.tx ∉ b.held := by
  rcases h.holding hh with ⟨hconsumer, hother⟩ | hne
  · rw [hconsumer] at hh ⊢
    obtain ⟨mv, hholds, hfree⟩ := hm.holding hh
    refine ⟨mv, ?_, fun ledger b' hb' => ?_⟩
    · unfold Holds
      rw [hmovements]
      exact hholds
    · rcases h.book_cases hb' with hb | hempty | ⟨b, p, hb, rfl, hposts⟩
      · exact hfree ledger b' hb
      · simp [Book.held, hempty]
      · cases hposts with
        | hold o => exact absurd rfl (hother o)
        | settle i o lockValue mv' rest hok hi =>
          rw [Book.held_post, if_neg (mv'.settlement_kind o.now), List.append_nil]
          exact hfree _ b hb
  · exact absurd hmovements hne

theorem Balanced.step (hm : m.Balanced) (hwf : m.WF) (hnum : m.Numbered) (honce : m.Once)
    {a : Action} (hguard : m.SettlesOpenRow a) (h : m.Step a m') : m'.Balanced := by
  rcases h.movements with hmovements | ⟨o, d, order, ledger, sequence, house, -, hp, rfl⟩
  · have hbooks := hm.books_step hwf hnum honce hguard h
    refine ⟨?_, ?_, ?_, hm.holding_step h hmovements⟩
    · rw [hmovements]
      exact fun ledger b hb => (hbooks ledger b hb).1.1
    · rw [hmovements]
      exact fun ledger b hb => (hbooks ledger b hb).1.2
    · rw [hmovements]
      exact fun ledger b hb => (hbooks ledger b hb).2
  · exact hm.record hnum hp

end Bank

end Bankie
