import Bankie.Refinement

/-!
Whose books they are.
Work only ever creates identifiers that it has claimed, and claims only new ones. So an
identifier that was drawn for a house account never becomes an account, a ledger that a
house account names never becomes a customer's, and the book of a customer is in the
currency of the account that owns it.
-/
namespace Bankie

open Program Transition

namespace Bank

variable {m m' : Bank}

theorem Step.claimed {a : Action} (h : m.Step a m') :
    ∀ u ∈ m'.claimed, u ∈ m.claimed ∨ u ∉ m.used := by
  intro u hu
  have hset : ∀ (i : ℕ) (r : RequestPoint), r.claims = [] →
      u ∈ m.consumer.claims ++ m.channel.flatMap BankAccountCommand.claims ++
        (m.requests.set i r).flatMap RequestPoint.claims → u ∈ m.claimed := by
    intro i r hr hmem
    rcases List.mem_append.mp hmem with hleft | hright
    · exact List.mem_append_left _ hleft
    · obtain ⟨r', hr', hur⟩ := List.mem_flatMap.mp hright
      rcases List.mem_or_eq_of_mem_set hr' with hold | rfl
      · exact List.mem_append_right _ (List.mem_flatMap.mpr ⟨r', hold, hur⟩)
      · simp [hr] at hur
  cases h with
  | submit fresh body hfresh =>
    simp only [Bank.claimed, List.flatMap_append, List.flatMap_cons, List.flatMap_nil,
      List.append_nil, List.mem_append] at hu ⊢
    rcases hu with (hu | hu | hu) | hu
    · exact Or.inl (Or.inl (Or.inl hu))
    · exact Or.inl (Or.inl (Or.inr hu))
    · exact Or.inr (hfresh.2 u ((claims_extractCommand fresh body).subset hu))
    · exact Or.inl (Or.inr hu)
  | refuse => exact Or.inl hu
  | receive d command rest hidle hchannel hfresh =>
    refine Or.inl ?_
    simpa [Bank.claimed, hidle, hchannel, ConsumerPoint.claims] using hu
  | advance o p hp => exact Or.inl ((claimed_setConsumer p hp.claims).subset hu)
  | giveUp =>
    exact Or.inl ((claimed_setConsumer (m := m) .idle (List.nil_sublist _)).subset hu)
  | openAccount =>
    exact Or.inl ((claimed_setConsumer (m := m) .idle (List.nil_sublist _)).subset hu)
  | initLedger o d account ledger c sequence =>
    exact Or.inl ((claimed_setConsumer (m := m) (.approveCommit d account ledger sequence)
      (List.nil_sublist _)).subset hu)
  | approve =>
    exact Or.inl ((claimed_setConsumer (m := m) .idle (List.nil_sublist _)).subset hu)
  | record o d order ledger sequence house hp =>
    refine Or.inl ((claimed_setConsumer (m := m) (afterRecord d order ledger sequence)
      ?_).subset hu)
    rw [afterRecord_claims]
    exact List.nil_sublist _
  | hold =>
    exact Or.inl ((claimed_setConsumer (m := m) .idle (List.nil_sublist _)).subset hu)
  | startRequest id ledger accountNumber body hfresh =>
    simp only [Bank.claimed, List.flatMap_append, List.flatMap_cons, List.flatMap_nil,
      RequestPoint.claims, List.append_nil, List.mem_append, List.mem_singleton] at hu ⊢
    rcases hu with hu | hu | rfl
    · exact Or.inl (Or.inl hu)
    · exact Or.inl (Or.inr hu)
    · exact Or.inr (hfresh.2 u (by simp))
  | initHouse i => exact Or.inl (hset i _ rfl hu)
  | insertHouse i => exact Or.inl (hset i _ rfl hu)
  | endRequest i => exact Or.inl (hset i _ rfl hu)
  | _ => exact Or.inl hu

theorem Step.used {a : Action} (h : m.Step a m') : ∀ u ∈ m.used, u ∈ m'.used := by
  intro u hu
  cases h with
  | submit => exact List.mem_cons_of_mem _ hu
  | refuse => exact List.mem_cons_of_mem _ hu
  | receive => exact List.mem_append_right _ hu
  | startTick => exact List.mem_cons_of_mem _ hu
  | startRequest => exact List.mem_append_right _ hu
  | _ => exact hu

theorem Step.submitted {a : Action} (h : m.Step a m') :
    ∀ command ∈ m.submitted, command ∈ m'.submitted := by
  intro command hcommand
  cases h with
  | submit => exact List.mem_append_left _ hcommand
  | _ => exact hcommand

/-- Accounts are kept, with their currency, and only a claimed identifier becomes one. -/
theorem Step.accounts (hwf : m.WF) {a : Action} (h : m.Step a m') (u : Uuid) :
    (∀ x, m.accounts u = some x → ∃ x', m'.accounts u = some x' ∧ x'.currency = x.currency) ∧
      (m.accounts u = none → u ∉ m.claimed → m'.accounts u = none) := by
  cases h with
  | openAccount o d opening hp =>
    by_cases hu : u = opening.id
    · subst hu
      refine ⟨fun x hx => ?_, fun _ hclaim => ?_⟩
      · have hnew := (hwf.claimed_new opening.id (by simp [Bank.claimed, hp,
          ConsumerPoint.claims])).2.1
        cases hx.symm.trans hnew
      · exact absurd (by simp [Bank.claimed, hp, ConsumerPoint.claims]) hclaim
    · rw [setConsumer_accounts, setAccount_accounts, Function.update_of_ne hu]
      exact ⟨fun x hx => ⟨x, hx, rfl⟩, fun hnone _ => hnone⟩
  | approve o d account ledger sequence x hok hp hx =>
    by_cases hu : u = account
    · subst hu
      simp [hx, Account.approve]
    · rw [setConsumer_accounts, setAccount_accounts, Function.update_of_ne hu]
      exact ⟨fun x hx => ⟨x, hx, rfl⟩, fun hnone _ => hnone⟩
  | _ => exact ⟨fun x hx => ⟨x, hx, rfl⟩, fun hnone _ => hnone⟩

/-- Drawn for something that is neither an account nor going to be one. -/
structure Reserved (m : Bank) (u : Uuid) : Prop where
  used : u ∈ m.used
  unclaimed : u ∉ m.claimed
  no_account : m.accounts u = none

theorem Reserved.step {u : Uuid} (hu : m.Reserved u) (hwf : m.WF) {a : Action} (h : m.Step a m') :
    m'.Reserved u where
  used := h.used u hu.used
  unclaimed hclaim := by
    rcases h.claimed u hclaim with hold | hnew
    · exact hu.unclaimed hold
    · exact hnew hu.used
  no_account := (h.accounts hwf u).2 hu.no_account hu.unclaimed

/-- The owner of a book: an account in its currency, or an identifier of no account. -/
def OwnedBy (m : Bank) (b : Book) : Prop :=
  match b.holder with
  | .customer => ∃ a, m.accounts b.owner = some a ∧ a.currency = b.currency
  | .house => m.Reserved b.owner

structure Owned (m : Bank) : Prop where
  books : ∀ ledger b, m.books ledger = some b → m.OwnedBy b
  requests : ∀ ledger account, .init ledger account ∈ m.requests → m.Reserved account.id

theorem OwnedBy.step {b b' : Book} (hb : m.OwnedBy b) (hholder : b'.holder = b.holder)
    (howner : b'.owner = b.owner) (hcurrency : b'.currency = b.currency) (hwf : m.WF)
    {a : Action} (h : m.Step a m') : m'.OwnedBy b' := by
  unfold OwnedBy at hb ⊢
  rw [hholder, howner, hcurrency]
  split at hb
  · obtain ⟨x, hx, hc⟩ := hb
    obtain ⟨x', hx', hc'⟩ := (h.accounts hwf b.owner).1 x hx
    exact ⟨x', hx', hc'.trans hc⟩
  · exact hb.step hwf h

/-- Who posts what: the consumer holds funds, and a tick settles a movement. -/
inductive Posts (m : Bank) : Action → Uuid → Posting → Prop where
  | hold (o : Oracle) (d : Draws) (order : Order) (ledger : Uuid) (sequence : ℕ)
      (hp : m.consumer = .hold d order ledger sequence) :
      Posts m (.consumer o) ledger (holdOf d order o.now)
  | settle (i : ℕ) (o : Oracle) (lockValue : String) (mv : Movement) (rest : List Movement)
      (hok : o.fail = none) (hi : m.ticks[i]? = some (.execute lockValue mv rest)) :
      Posts m (.tick i o) mv.ledger (mv.settlement o.now)

/-- What a step does to a book: it keeps it, opens it, or posts to it. -/
theorem Step.books {a : Action} (h : m.Step a m') (ledger : Uuid) :
    m'.books ledger = m.books ledger ∨
      (∃ o d account c sequence, a = .consumer o ∧
        m.consumer = .approveInit d account ledger c sequence ∧
        m'.books ledger = some ⟨.customer, account, c, o.now, []⟩) ∨
      (∃ i o account, a = .request i o ∧ m.requests[i]? = some (.init ledger account) ∧
        m'.books ledger = some ⟨.house, account.id, account.currency, o.now, []⟩) ∨
      ∃ b p, m.books ledger = some b ∧ m'.books ledger = some (b.post p) ∧
        m.Posts a ledger p := by
  cases h with
  | initLedger o d account ledger' c sequence hp =>
    by_cases hl : ledger = ledger'
    · subst hl
      exact Or.inr (Or.inl ⟨o, d, account, c, sequence, rfl, hp, by simp⟩)
    · exact Or.inl (by simp [Function.update_of_ne hl])
  | hold o d order ledger' sequence b hp hb =>
    by_cases hl : ledger = ledger'
    · subst hl
      exact Or.inr (Or.inr (Or.inr ⟨b, holdOf d order o.now, hb, by simp,
        Posts.hold o d order ledger sequence hp⟩))
    · exact Or.inl (by simp [Function.update_of_ne hl])
  | execute i o lockValue mv rest b hok hi hb =>
    by_cases hl : ledger = mv.ledger
    · subst hl
      exact Or.inr (Or.inr (Or.inr ⟨b, mv.settlement o.now, hb, by simp,
        Posts.settle i o lockValue mv rest hok hi⟩))
    · exact Or.inl (by simp [Function.update_of_ne hl])
  | initHouse i o ledger' account hi =>
    by_cases hl : ledger = ledger'
    · subst hl
      exact Or.inr (Or.inr (Or.inl ⟨i, o, account, rfl, hi, by simp⟩))
    · exact Or.inl (by simp [Function.update_of_ne hl])
  | _ => exact Or.inl rfl

theorem Step.book_cases {a : Action} (h : m.Step a m') {ledger : Uuid} {b' : Book}
    (hb' : m'.books ledger = some b') :
    m.books ledger = some b' ∨ b'.postings = [] ∨
      ∃ b p, m.books ledger = some b ∧ b' = b.post p ∧ m.Posts a ledger p := by
  rcases h.books ledger with hsame | ⟨o, d, account, c, sequence, -, -, hnew⟩ |
    ⟨i, o, account, -, -, hnew⟩ | ⟨b, p, hb, hpost, hposts⟩
  · exact Or.inl (hsame ▸ hb')
  · obtain rfl := Option.some.inj (hnew.symm.trans hb')
    exact Or.inr (Or.inl rfl)
  · obtain rfl := Option.some.inj (hnew.symm.trans hb')
    exact Or.inr (Or.inl rfl)
  · exact Or.inr (Or.inr ⟨b, p, hb, (Option.some.inj (hpost.symm.trans hb')).symm, hposts⟩)

/-- A book stays, for no ledger is opened twice. -/
theorem Step.book_kept {a : Action} (h : m.Step a m') (hwf : m.WF) {ledger : Uuid} {b : Book}
    (hb : m.books ledger = some b) :
    m'.books ledger = some b ∨ ∃ p, m'.books ledger = some (b.post p) ∧ m.Posts a ledger p := by
  have hclaim : ledger ∉ m.claimed := fun hin => by
    cases hb.symm.trans (hwf.claimed_new ledger hin).2.2
  rcases h.books ledger with hsame | ⟨o, d, account, c, sequence, -, hp, -⟩ |
    ⟨i, o, account, -, hi, -⟩ | ⟨b', p, hb', hpost, hposts⟩
  · exact Or.inl (hsame.trans hb)
  · exact (hclaim (by simp [Bank.claimed, hp, ConsumerPoint.claims])).elim
  · exact absurd (List.mem_append_right _ (List.mem_flatMap.mpr
      ⟨_, List.mem_of_getElem? hi, List.mem_singleton_self _⟩)) hclaim
  · obtain rfl := Option.some.inj (hb.symm.trans hb')
    exact Or.inr ⟨p, hpost, hposts⟩

theorem owned_init (houses : List HouseAccount) : (init houses).Owned where
  books _ _ hb := by cases hb
  requests _ _ hr := absurd hr List.not_mem_nil

theorem Step.requests {a : Action} (h : m.Step a m') {ledger : Uuid} {account : HouseAccount}
    (hr : .init ledger account ∈ m'.requests) :
    .init ledger account ∈ m.requests ∨
      (m.Fresh [account.id, ledger] ∧ m'.used = [account.id, ledger] ++ m.used ∧
        m'.claimed.Perm (ledger :: m.claimed) ∧ m'.accounts = m.accounts) := by
  have hset : ∀ (i : ℕ) (r : RequestPoint), r.claims = [] →
      .init ledger account ∈ m.requests.set i r → .init ledger account ∈ m.requests := by
    intro i r hclaims hmem
    rcases List.mem_or_eq_of_mem_set hmem with hold | rfl
    · exact hold
    · cases hclaims
  cases h with
  | startRequest id ledger' accountNumber body hfresh =>
    rcases List.mem_append.mp hr with hold | hnew
    · exact Or.inl hold
    · obtain ⟨rfl, rfl⟩ : ledger = ledger' ∧
          account = extractHouseAccount id accountNumber body := by
        simpa using hnew
      refine Or.inr ⟨hfresh, rfl, ?_, rfl⟩
      simp only [Bank.claimed, List.flatMap_append, List.flatMap_cons, List.flatMap_nil,
        RequestPoint.claims, List.append_nil]
      rw [← List.append_assoc]
      exact List.perm_append_comm
  | initHouse i => exact Or.inl (hset i _ rfl hr)
  | insertHouse i => exact Or.inl (hset i _ rfl hr)
  | endRequest i => exact Or.inl (hset i _ rfl hr)
  | _ => exact Or.inl hr

theorem Owned.step (hm : m.Owned) (hwf : m.WF) {a : Action} (h : m.Step a m') : m'.Owned := by
  refine ⟨?_, ?_⟩
  · intro ledger b' hb'
    rcases h.books ledger with hsame | ⟨o, d, account, c, sequence, -, hp, hnew⟩ |
      ⟨i, o, account, -, hi, hnew⟩ | ⟨b, p, hb, hpost, -⟩
    · exact (hm.books ledger b' (hsame ▸ hb')).step rfl rfl rfl hwf h
    · obtain rfl := Option.some.inj (hnew.symm.trans hb')
      have hknows := hwf.consumer
      rw [hp] at hknows
      obtain ⟨x, hx, rfl⟩ := hknows
      obtain ⟨x', hx', hc⟩ := (h.accounts hwf account).1 x hx
      exact ⟨x', hx', hc⟩
    · obtain rfl := Option.some.inj (hnew.symm.trans hb')
      exact (hm.requests ledger account (List.mem_of_getElem? hi)).step hwf h
    · obtain rfl := Option.some.inj (hpost.symm.trans hb')
      exact (hm.books ledger b hb).step rfl rfl rfl hwf h
  · intro ledger account hr
    rcases h.requests hr with hold | ⟨hfresh, hused, hclaimed, haccounts⟩
    · exact (hm.requests ledger account hold).step hwf h
    · have hid : account.id ∉ m.used := hfresh.2 _ List.mem_cons_self
      refine ⟨by rw [hused]; exact List.mem_cons_self, fun hclaim => ?_, ?_⟩
      · rcases List.mem_cons.mp (hclaimed.mem_iff.mp hclaim) with heq | hold
        · have hnodup := hfresh.1
          rw [heq] at hnodup
          simp at hnodup
        · exact hid (hwf.claimed_new _ hold).1
      · rw [haccounts]
        by_contra hne
        obtain ⟨x, hx⟩ := Option.ne_none_iff_exists'.mp hne
        exact hid (hwf.accounts_used _ x hx)

theorem owned_invariant : machine.Invariant (fun m => (m.WF ∧ m.Numbered) ∧ m.Owned) := by
  refine wf_invariant.strengthen ?_ (fun _ _ _ hm ho h => ho.step hm.1 h)
  rintro m ⟨houses, rfl⟩
  exact owned_init houses

end Bank

end Bankie
