import Bankie.Bank
import Bankie.Lists

/-!
What holds in every state of the bank.
An identifier that some pending work is going to create is claimed by that work alone and
not in use yet. Whatever names a customer's ledger (an approval, a movement, a worker)
names a book that was opened for that customer in that currency.
-/
namespace Bankie

open Transition

/-- The identifiers that handling a command creates. -/
def BankAccountCommand.claims : BankAccountCommand → List Uuid
  | .openAccount id .. => [id]
  | .approveAccount _ ledgerId => [ledgerId]
  | .deposit .. => []
  | .withdrawal .. => []

def ConsumerPoint.claims : ConsumerPoint → List Uuid
  | .load _ command => command.claims
  | .openQuery _ opening => [opening.id]
  | .openExists _ opening => [opening.id]
  | .openCommit _ opening => [opening.id]
  | .approveQuery _ _ ledger _ => [ledger]
  | .approveInit _ _ ledger _ _ => [ledger]
  | _ => []

def RequestPoint.claims : RequestPoint → List Uuid
  | .init ledger _ => [ledger]
  | _ => []

/-- What a command draws, until a movement is written with it. -/
def ConsumerPoint.drawn : ConsumerPoint → Option Draws
  | .load d _ => some d
  | .openQuery d _ => some d
  | .openExists d _ => some d
  | .openCommit d _ => some d
  | .approveQuery d .. => some d
  | .approveInit d .. => some d
  | .approveCommit d .. => some d
  | .house d .. => some d
  | .checkAccount d .. => some d
  | .checkLedger d .. => some d
  | .record d .. => some d
  | _ => none

namespace Bank

theorem afterRecord_claims (d : Draws) (order : Order) (ledger : Uuid) (sequence : ℕ) :
    (afterRecord d order ledger sequence).claims = [] := by
  rw [afterRecord]
  cases order.action <;> rfl

theorem afterRecord_drawn (d : Draws) (order : Order) (ledger : Uuid) (sequence : ℕ) :
    (afterRecord d order ledger sequence).drawn = none := by
  rw [afterRecord]
  cases order.action <;> rfl

/-- The identifiers that pending work is going to create. -/
def claimed (m : Bank) : List Uuid :=
  m.consumer.claims ++ m.channel.flatMap BankAccountCommand.claims ++
    m.requests.flatMap RequestPoint.claims

/-- The ledger is a book opened for this account in this currency. -/
def Serves (m : Bank) (ledger account : Uuid) (c : Currency) : Prop :=
  ∃ b, m.books ledger = some b ∧ b.holder = .customer ∧ b.owner = account ∧ b.currency = c

/-- What the consumer knows where it stands. -/
def Knows (m : Bank) : ConsumerPoint → Prop
  | .approveInit _ account _ c _ => ∃ a, m.accounts account = some a ∧ a.currency = c
  | .approveCommit _ account ledger _ =>
    ∃ a, m.accounts account = some a ∧ m.Serves ledger account a.currency
  | .house _ order loaded _ => m.accounts order.account = loaded
  | .checkAccount _ order loaded _ _ => m.accounts order.account = some loaded
  | .checkLedger _ order ledger _ _ => m.Serves ledger order.account order.amount.currency
  | .record _ order ledger _ _ => m.Serves ledger order.account order.amount.currency
  | .hold _ order ledger _ =>
    order.action = .withdraw ∧ m.Serves ledger order.account order.amount.currency
  | _ => True

structure WF (m : Bank) : Prop where
  claimed_nodup : m.claimed.Nodup
  claimed_new : ∀ u ∈ m.claimed, u ∈ m.used ∧ m.accounts u = none ∧ m.books u = none
  accounts_used : ∀ u a, m.accounts u = some a → u ∈ m.used
  books_used : ∀ u b, m.books u = some b → u ∈ m.used
  approvals : ∀ u a, m.accounts u = some a → ∀ p ∈ a.approvals, m.Serves p.1 u a.currency
  movements : ∀ mv ∈ m.movements, m.Serves mv.ledger mv.account mv.amount.currency
  rows : ∀ t ∈ m.ticks, ∀ mv ∈ t.rows, mv ∈ m.movements
  consumer : m.Knows m.consumer

/-- Books are kept: an opened book stays open, with its owner and its currency. -/
def Keeps (m m' : Bank) : Prop :=
  ∀ ledger b, m.books ledger = some b → ∃ b', m'.books ledger = some b' ∧
    b'.holder = b.holder ∧ b'.owner = b.owner ∧ b'.currency = b.currency

theorem Serves.keep {m m' : Bank} (hkeep : m.Keeps m') {ledger account : Uuid} {c : Currency}
    (h : m.Serves ledger account c) : m'.Serves ledger account c := by
  obtain ⟨b, hb, hholder, howner, hcurrency⟩ := h
  obtain ⟨b', hb', h₁, h₂, h₃⟩ := hkeep ledger b hb
  exact ⟨b', hb', h₁.trans hholder, h₂.trans howner, h₃.trans hcurrency⟩

theorem keeps_of_books_eq {m m' : Bank} (h : m'.books = m.books) : m.Keeps m' := by
  intro ledger b hb
  exact ⟨b, by rw [h]; exact hb, rfl, rfl, rfl⟩

theorem keeps_setBook_new {m : Bank} {ledger : Uuid} (hnew : m.books ledger = none) (b : Book) :
    m.Keeps (m.setBook ledger b) := by
  intro u b' hb'
  have hne : u ≠ ledger := by
    rintro rfl
    simp [hnew] at hb'
  exact ⟨b', by simpa [setBook, Function.update_of_ne hne] using hb', rfl, rfl, rfl⟩

theorem keeps_post {m : Bank} {ledger : Uuid} {b : Book} (hb : m.books ledger = some b)
    (p : Posting) : m.Keeps (m.setBook ledger (b.post p)) := by
  intro u b' hb'
  by_cases hu : u = ledger
  · subst hu
    obtain rfl : b = b' := by simpa [hb] using hb'
    exact ⟨b.post p, by simp [setBook], rfl, rfl, rfl⟩
  · exact ⟨b', by simpa [setBook, Function.update_of_ne hu] using hb', rfl, rfl, rfl⟩

theorem Advances.knows {m : Bank} (hm : m.WF) {p : ConsumerPoint} (h : m.Advances m.consumer p) :
    m.Knows p := by
  have hknows := hm.consumer
  generalize hq : m.consumer = q at h hknows
  cases h with
  | loadOpen => trivial
  | loadApprove => trivial
  | loadOrder => rfl
  | openQuery => trivial
  | openExists => trivial
  | approveQuery d account ledger sequence a ha => exact ⟨a, ha, rfl⟩
  | houseUnopened => trivial
  | house d order a sequence h hh => exact hknows
  | checkAccount d order a sequence house ledger hledger hcurrency =>
    obtain ⟨p, hp, rfl⟩ := Option.map_eq_some_iff.mp hledger
    have hserves := hm.approvals _ a hknows p (List.mem_of_getLast? hp)
    rw [hcurrency] at hserves
    exact hserves
  | checkLedger => exact hknows

theorem Advances.claims {m : Bank} {p q : ConsumerPoint} (h : m.Advances p q) :
    q.claims.Sublist p.claims := by
  cases h with
  | loadOpen => exact List.Sublist.refl _
  | loadApprove => exact List.Sublist.refl _
  | loadOrder => exact List.nil_sublist _
  | openQuery => exact List.Sublist.refl _
  | openExists => exact List.Sublist.refl _
  | approveQuery => exact List.Sublist.refl _
  | houseUnopened => exact List.Sublist.refl _
  | house => exact List.Sublist.refl _
  | checkAccount => exact List.Sublist.refl _
  | checkLedger => exact List.Sublist.refl _

/-- A step of a tick that executes nothing holds no row but those it held or fetched. -/
theorem Ticks.rows {m : Bank} {t t' : TickPoint} (h : m.Ticks t t') :
    ∀ mv ∈ t'.rows, mv ∈ t.rows ∨ mv ∈ m.unprocessed := by
  intro mv hmv
  cases h with
  | fetch => exact Or.inr hmv
  | locked => exact Or.inl hmv
  | expire lockValue batch =>
    rw [TickPoint.rows_loop] at hmv
    exact Or.inl hmv
  | get => exact absurd hmv List.not_mem_nil
  | stop => exact absurd hmv List.not_mem_nil

theorem mem_of_mem_unprocessed {m : Bank} {mv : Movement} (h : mv ∈ m.unprocessed) :
    mv ∈ m.movements := (List.mem_filter.mp (List.mem_of_mem_take h)).1

section Preservation

variable {m m' : Bank}

theorem WF.of_same (hm : m.WF) (haccounts : m'.accounts = m.accounts)
    (hbooks : m'.books = m.books) (hused : ∀ u ∈ m.used, u ∈ m'.used)
    (hnodup : m'.claimed.Nodup)
    (hclaimed : ∀ u ∈ m'.claimed, u ∈ m.claimed ∨ u ∉ m.used ∧ u ∈ m'.used)
    (hmovements : ∀ mv ∈ m'.movements,
      mv ∈ m.movements ∨ m.Serves mv.ledger mv.account mv.amount.currency)
    (hrows : ∀ t ∈ m'.ticks, ∀ mv ∈ t.rows, mv ∈ m'.movements)
    (hconsumer : m'.Knows m'.consumer) : m'.WF := by
  have hkeep : m.Keeps m' := keeps_of_books_eq hbooks
  refine ⟨hnodup, ?_, ?_, ?_, ?_, ?_, hrows, hconsumer⟩
  · intro u hu
    rw [haccounts, hbooks]
    rcases hclaimed u hu with hold | ⟨hnew, hused'⟩
    · obtain ⟨h₁, h₂, h₃⟩ := hm.claimed_new u hold
      exact ⟨hused u h₁, h₂, h₃⟩
    · refine ⟨hused', ?_, ?_⟩
      · by_contra hne
        obtain ⟨a, ha⟩ := Option.ne_none_iff_exists'.mp hne
        exact hnew (hm.accounts_used u a ha)
      · by_contra hne
        obtain ⟨b, hb⟩ := Option.ne_none_iff_exists'.mp hne
        exact hnew (hm.books_used u b hb)
  · intro u a ha
    rw [haccounts] at ha
    exact hused u (hm.accounts_used u a ha)
  · intro u b hb
    rw [hbooks] at hb
    exact hused u (hm.books_used u b hb)
  · intro u a ha p hp
    rw [haccounts] at ha
    exact (hm.approvals u a ha p hp).keep hkeep
  · intro mv hmv
    rcases hmovements mv hmv with hold | hnew
    · exact (hm.movements mv hold).keep hkeep
    · exact hnew.keep hkeep

theorem Knows.keep (hkeep : m.Keeps m') (haccounts : m'.accounts = m.accounts)
    {p : ConsumerPoint} (h : m.Knows p) : m'.Knows p := by
  cases p with
  | approveInit => simpa [Knows, haccounts] using h
  | approveCommit =>
    obtain ⟨a, ha, hserves⟩ := h
    exact ⟨a, by rw [haccounts]; exact ha, hserves.keep hkeep⟩
  | house => simpa [Knows, haccounts] using h
  | checkAccount => simpa [Knows, haccounts] using h
  | checkLedger => exact Serves.keep hkeep h
  | record => exact Serves.keep hkeep h
  | hold => exact ⟨h.1, Serves.keep hkeep h.2⟩
  | _ => trivial

theorem claimed_setConsumer (p : ConsumerPoint) (hp : p.claims.Sublist m.consumer.claims) :
    (m.setConsumer p).claimed.Sublist m.claimed := by
  simp only [claimed, setConsumer]
  exact (hp.append_right _).append_right _

theorem claimed_setRequest {i : ℕ} {r : RequestPoint} (hi : m.requests[i]? = some r)
    (result : Program.Outcome Response) :
    (m.setRequest i (.stopped result)).claimed.Sublist m.claimed := by
  obtain ⟨as, bs, hl, hset⟩ := exists_split hi
  simp only [claimed, setRequest]
  rw [hset, hl, List.flatMap_append, List.flatMap_append, List.flatMap_cons]
  refine List.Sublist.append_left ?_ _
  refine List.Sublist.append_left ?_ _
  exact List.sublist_append_right _ _

theorem WF.setConsumer (hm : m.WF) {p : ConsumerPoint}
    (hp : p.claims.Sublist m.consumer.claims) (hknows : m.Knows p) :
    (m.setConsumer p).WF :=
  hm.of_same rfl rfl (fun _ hu => hu) (hm.claimed_nodup.sublist (claimed_setConsumer p hp))
    (fun _ hu => Or.inl ((claimed_setConsumer p hp).subset hu)) (fun _ hmv => Or.inl hmv)
    hm.rows (hknows.keep (keeps_of_books_eq rfl) rfl)

theorem WF.setTick (hm : m.WF) (i : ℕ) {t : TickPoint} (ht : ∀ mv ∈ t.rows, mv ∈ m.movements) :
    (m.setTick i t).WF := by
  refine hm.of_same rfl rfl (fun _ hu => hu) hm.claimed_nodup (fun _ hu => Or.inl hu)
    (fun _ hmv => Or.inl hmv) ?_ (hm.consumer.keep (keeps_of_books_eq rfl) rfl)
  intro t' ht' mv hmv
  rcases List.mem_or_eq_of_mem_set ht' with hold | rfl
  · exact hm.rows t' hold mv hmv
  · exact ht mv hmv

theorem WF.post (hm : m.WF) {ledger : Uuid} {b : Book} (hb : m.books ledger = some b)
    (p : Posting) : (m.setBook ledger (b.post p)).WF := by
  have hkeep := keeps_post hb p
  refine ⟨hm.claimed_nodup, ?_, hm.accounts_used, ?_, ?_, ?_, hm.rows,
    hm.consumer.keep hkeep rfl⟩
  · intro u hu
    obtain ⟨h₁, h₂, h₃⟩ := hm.claimed_new u hu
    have hne : u ≠ ledger := by
      rintro rfl
      simp [hb] at h₃
    exact ⟨h₁, h₂, by simpa [setBook, Function.update_of_ne hne] using h₃⟩
  · intro u b' hb'
    by_cases hu : u = ledger
    · subst hu
      exact hm.books_used u b hb
    · exact hm.books_used u b' (by simpa [setBook, Function.update_of_ne hu] using hb')
  · intro u a ha p' hp'
    exact (hm.approvals u a ha p' hp').keep hkeep
  · intro mv hmv
    exact (hm.movements mv hmv).keep hkeep

theorem WF.openBook (hm : m.WF) (ledger : Uuid) {b : Book} {m' : Bank}
    (hclaim : ledger ∈ m.claimed) (hnodup : m'.claimed.Nodup)
    (hclaimed : ∀ u ∈ m'.claimed, u ∈ m.claimed ∧ u ≠ ledger)
    (haccounts : m'.accounts = m.accounts)
    (hbooks : m'.books = Function.update m.books ledger (some b))
    (hused : m'.used = m.used) (hmovements : m'.movements = m.movements)
    (hticks : m'.ticks = m.ticks) (hconsumer : m'.Knows m'.consumer) : m'.WF := by
  obtain ⟨hin, -, hnew⟩ := hm.claimed_new ledger hclaim
  have hkeep : m.Keeps m' := by
    intro u b' hb'
    obtain ⟨b'', h⟩ := keeps_setBook_new hnew b u b' hb'
    exact ⟨b'', by rw [hbooks]; exact h.1, h.2⟩
  refine ⟨hnodup, ?_, ?_, ?_, ?_, ?_, ?_, hconsumer⟩
  · intro u hu
    obtain ⟨hold, hne⟩ := hclaimed u hu
    rw [haccounts, hbooks, hused, Function.update_of_ne hne]
    exact hm.claimed_new u hold
  · intro u a ha
    rw [haccounts] at ha
    exact hused ▸ hm.accounts_used u a ha
  · intro u b' hb'
    rw [hused]
    by_cases hu : u = ledger
    · exact hu ▸ hin
    · rw [hbooks, Function.update_of_ne hu] at hb'
      exact hm.books_used u b' hb'
  · intro u a ha p hp
    rw [haccounts] at ha
    exact (hm.approvals u a ha p hp).keep hkeep
  · intro mv hmv
    rw [hmovements] at hmv
    exact (hm.movements mv hmv).keep hkeep
  · rw [hticks, hmovements]
    exact hm.rows

theorem WF.claim (hm : m.WF) {ids : List Uuid} (hfresh : m.Fresh ids)
    (haccounts : m'.accounts = m.accounts) (hbooks : m'.books = m.books)
    (hused : m'.used = ids ++ m.used) (new : List Uuid) (hnew : new.Sublist ids)
    (hclaimed : m'.claimed.Perm (new ++ m.claimed))
    (hmovements : m'.movements = m.movements)
    (hrows : ∀ t ∈ m'.ticks, t ∈ m.ticks ∨ t.rows = [])
    (hconsumer : m'.Knows m'.consumer) : m'.WF := by
  refine hm.of_same haccounts hbooks ?_ ?_ ?_ ?_ ?_ hconsumer
  · intro u hu
    rw [hused]
    exact List.mem_append_right _ hu
  · rw [hclaimed.nodup_iff, List.nodup_append]
    refine ⟨hfresh.1.sublist hnew, hm.claimed_nodup, ?_⟩
    rintro u hu v hv rfl
    exact hfresh.2 u (hnew.subset hu) (hm.claimed_new u hv).1
  · intro u hu
    rcases List.mem_append.mp (hclaimed.mem_iff.mp hu) with hin | hold
    · refine Or.inr ⟨hfresh.2 u (hnew.subset hin), ?_⟩
      rw [hused]
      exact List.mem_append_left _ (hnew.subset hin)
    · exact Or.inl hold
  · intro mv hmv
    rw [hmovements] at hmv
    exact Or.inl hmv
  · intro t ht mv hmv
    rw [hmovements]
    rcases hrows t ht with hold | hnil
    · exact hm.rows t hold mv hmv
    · simp [hnil] at hmv

/-- The identifiers that a command creates once the extractor is through with it. -/
theorem claims_extractCommand (fresh : Uuid) (body : BankAccountCommand) :
    (extractCommand fresh body).claims.Sublist [fresh] := by
  cases body with
  | openAccount => exact List.Sublist.refl _
  | approveAccount => exact List.Sublist.refl _
  | deposit => exact List.nil_sublist _
  | withdrawal => exact List.nil_sublist _

theorem WF.openAccount (hm : m.WF) {d : Draws} {opening : Opening}
    (hp : m.consumer = .openCommit d opening) :
    ((m.setAccount opening.id (openingAccount opening d.now)).setConsumer .idle).WF := by
  have hclaim : opening.id ∈ m.claimed := by simp [claimed, hp, ConsumerPoint.claims]
  have hsub : ((m.setAccount opening.id (openingAccount opening d.now)).setConsumer
      .idle).claimed.Sublist m.claimed :=
    claimed_setConsumer ConsumerPoint.idle (List.nil_sublist _)
  have hrest : opening.id ∉ ((m.setAccount opening.id
      (openingAccount opening d.now)).setConsumer .idle).claimed := by
    have hnodup := hm.claimed_nodup
    simp only [claimed, hp, ConsumerPoint.claims, List.append_assoc] at hnodup
    simpa [claimed, setConsumer, setAccount, ConsumerPoint.claims] using
      (List.nodup_cons.mp hnodup).1
  have hne : ∀ u, u ≠ opening.id → ((m.setAccount opening.id
      (openingAccount opening d.now)).setConsumer .idle).accounts u = m.accounts u :=
    fun u hu => Function.update_of_ne hu _ _
  refine ⟨hm.claimed_nodup.sublist hsub, ?_, ?_, hm.books_used, ?_, hm.movements, hm.rows,
    trivial⟩
  · intro u hu
    obtain ⟨h₁, h₂, h₃⟩ := hm.claimed_new u (hsub.subset hu)
    exact ⟨h₁, (hne u (fun h => hrest (h ▸ hu))).trans h₂, h₃⟩
  · intro u a ha
    by_cases hu : u = opening.id
    · exact hu ▸ (hm.claimed_new opening.id hclaim).1
    · exact hm.accounts_used u a ((hne u hu).symm.trans ha)
  · intro u a ha p hap
    by_cases hu : u = opening.id
    · subst hu
      obtain rfl : openingAccount opening d.now = a := by
        simpa using ha
      exact absurd hap List.not_mem_nil
    · exact hm.approvals u a ((hne u hu).symm.trans ha) p hap

theorem WF.approve (hm : m.WF) {d : Draws} {account ledger : Uuid} {sequence : ℕ} {a : Account}
    (hp : m.consumer = .approveCommit d account ledger sequence)
    (ha : m.accounts account = some a) :
    ((m.setAccount account (a.approve ledger d.now)).setConsumer .idle).WF := by
  have hknows := hm.consumer
  rw [hp] at hknows
  obtain ⟨a', ha', hserves⟩ := hknows
  obtain rfl : a = a' := by simpa [ha] using ha'
  have hsub : ((m.setAccount account (a.approve ledger d.now)).setConsumer
      .idle).claimed.Sublist m.claimed :=
    claimed_setConsumer ConsumerPoint.idle (List.nil_sublist _)
  have hne : ∀ u, u ≠ account → ((m.setAccount account
      (a.approve ledger d.now)).setConsumer .idle).accounts u = m.accounts u :=
    fun u hu => Function.update_of_ne hu _ _
  refine ⟨hm.claimed_nodup.sublist hsub, ?_, ?_, hm.books_used, ?_, hm.movements, hm.rows,
    trivial⟩
  · intro u hu
    obtain ⟨h₁, h₂, h₃⟩ := hm.claimed_new u (hsub.subset hu)
    have hua : u ≠ account := by
      rintro rfl
      simp [ha] at h₂
    exact ⟨h₁, (hne u hua).trans h₂, h₃⟩
  · intro u a' hua'
    by_cases hu : u = account
    · exact hu ▸ hm.accounts_used account a ha
    · exact hm.accounts_used u a' ((hne u hu).symm.trans hua')
  · intro u a' hua' p hap
    by_cases hu : u = account
    · subst hu
      obtain rfl : a.approve ledger d.now = a' := by simpa using hua'
      rcases List.mem_append.mp hap with hold | hnew
      · exact hm.approvals u a ha p hold
      · rw [List.mem_singleton.mp hnew]
        exact hserves
    · exact hm.approvals u a' ((hne u hu).symm.trans hua') p hap

theorem WF.initLedger (hm : m.WF) (o : Oracle) {d : Draws} {account ledger : Uuid} {c : Currency}
    {sequence : ℕ} (hp : m.consumer = .approveInit d account ledger c sequence) :
    ((m.setBook ledger ⟨.customer, account, c, o.now, []⟩).setConsumer
      (.approveCommit d account ledger sequence)).WF := by
  have hknows := hm.consumer
  rw [hp] at hknows
  obtain ⟨a, ha, rfl⟩ := hknows
  have hnodup := hm.claimed_nodup
  simp only [claimed, hp, ConsumerPoint.claims, List.cons_append, List.nil_append,
    List.nodup_cons] at hnodup
  refine hm.openBook ledger ?_ ?_ ?_ rfl rfl rfl rfl rfl ?_
  · simp [claimed, hp, ConsumerPoint.claims]
  · simpa [claimed, setConsumer, setBook, ConsumerPoint.claims] using hnodup.2
  · intro u hu
    have hrest : u ∈ m.channel.flatMap BankAccountCommand.claims ++
        m.requests.flatMap RequestPoint.claims := hu
    refine ⟨?_, ?_⟩
    · rw [claimed, List.append_assoc]
      exact List.mem_append_right _ hrest
    · rintro rfl
      exact hnodup.1 hrest
  · exact ⟨a, ha, _, Function.update_self _ _ _, rfl, rfl, rfl⟩

theorem WF.initHouse (hm : m.WF) {i : ℕ} (o : Oracle) {ledger : Uuid} {account : HouseAccount}
    (hi : m.requests[i]? = some (.init ledger account)) :
    ((m.setBook ledger ⟨.house, account.id, account.currency, o.now, []⟩).setRequest i
      (.insert { account with ledgerId := ledger.toString })).WF := by
  obtain ⟨as, bs, hl, hset⟩ := exists_split hi
  have hclaimed : m.claimed.Perm (ledger :: (m.consumer.claims ++
      m.channel.flatMap BankAccountCommand.claims ++
        (as.flatMap RequestPoint.claims ++ bs.flatMap RequestPoint.claims))) := by
    rw [claimed, hl, List.flatMap_append, List.flatMap_cons]
    exact (List.perm_middle.append_left _).trans List.perm_middle
  have hafter : ((m.setBook ledger ⟨.house, account.id, account.currency, o.now, []⟩).setRequest i
      (.insert { account with ledgerId := ledger.toString })).claimed =
      m.consumer.claims ++ m.channel.flatMap BankAccountCommand.claims ++
        (as.flatMap RequestPoint.claims ++ bs.flatMap RequestPoint.claims) := by
    simp only [claimed, setRequest, setBook]
    rw [hset, List.flatMap_append, List.flatMap_cons]
    rfl
  have hnodup := hclaimed.nodup_iff.mp hm.claimed_nodup
  rw [List.nodup_cons] at hnodup
  have hkeep : m.Keeps (m.setBook ledger ⟨.house, account.id, account.currency, o.now, []⟩) :=
    keeps_setBook_new (hm.claimed_new ledger (hclaimed.mem_iff.mpr List.mem_cons_self)).2.2 _
  refine hm.openBook ledger (hclaimed.mem_iff.mpr List.mem_cons_self) ?_ ?_ rfl rfl
    rfl rfl rfl (Knows.keep hkeep rfl hm.consumer)
  · rw [hafter]
    exact hnodup.2
  · intro u hu
    rw [hafter] at hu
    exact ⟨hclaimed.mem_iff.mpr (List.mem_cons_of_mem _ hu), fun h => hnodup.1 (h ▸ hu)⟩

theorem WF.record (hm : m.WF) {d : Draws} {order : Order} {ledger : Uuid} {sequence : ℕ}
    {house : String} (hp : m.consumer = .record d order ledger sequence house) :
    ((m.addMovement (m.movementOf d order ledger house)).setConsumer
      (afterRecord d order ledger sequence)).WF := by
  have hknows := hm.consumer
  rw [hp] at hknows
  have hsub : ((m.addMovement (m.movementOf d order ledger house)).setConsumer
      (afterRecord d order ledger sequence)).claimed.Sublist m.claimed :=
    claimed_setConsumer (m := m) _ (by rw [afterRecord_claims]; exact List.nil_sublist _)
  refine hm.of_same rfl rfl (fun _ hu => hu) (hm.claimed_nodup.sublist hsub)
    (fun _ hu => Or.inl (hsub.subset hu)) ?_ ?_ ?_
  · intro mv hmv
    rcases List.mem_append.mp hmv with hold | hnew
    · exact Or.inl hold
    · rw [List.mem_singleton.mp hnew]
      exact Or.inr hknows
  · intro t ht mv hmv
    exact List.mem_append_left _ (hm.rows t ht mv hmv)
  · change Knows _ (afterRecord d order ledger sequence)
    rw [afterRecord]
    cases haction : order.action with
    | deposit => trivial
    | withdraw => exact ⟨haction, hknows⟩

theorem wf_init (houses : List HouseAccount) : (init houses).WF where
  claimed_nodup := List.nodup_nil
  claimed_new _ hu := absurd hu List.not_mem_nil
  accounts_used _ _ ha := by cases ha
  books_used _ _ hb := by cases hb
  approvals _ _ ha := by cases ha
  movements _ hmv := absurd hmv List.not_mem_nil
  rows _ ht := absurd ht List.not_mem_nil
  consumer := trivial

theorem WF.step (hm : m.WF) {a : Action} (h : m.Step a m') : m'.WF := by
  cases h with
  | submit fresh body hfresh =>
    refine hm.claim hfresh rfl rfl rfl _ (claims_extractCommand fresh body) ?_ rfl
      (fun t ht => Or.inl ht) (hm.consumer.keep (keeps_of_books_eq rfl) rfl)
    simp only [claimed, List.flatMap_append, List.flatMap_cons, List.flatMap_nil,
      List.append_nil]
    rw [← List.append_assoc, List.append_assoc _ _ (m.requests.flatMap RequestPoint.claims)]
    exact List.perm_append_comm_assoc _ _ _
  | refuse fresh body hfresh =>
    exact hm.claim hfresh rfl rfl rfl [] (List.nil_sublist _) (List.Perm.refl _) rfl
      (fun t ht => Or.inl ht) (hm.consumer.keep (keeps_of_books_eq rfl) rfl)
  | receive d command rest hidle hchannel hfresh =>
    refine hm.claim hfresh rfl rfl rfl [] (List.nil_sublist _) ?_ rfl (fun t ht => Or.inl ht)
      trivial
    simp [claimed, hidle, hchannel, ConsumerPoint.claims]
  | advance o p hp => exact hm.setConsumer hp.claims (hp.knows hm)
  | giveUp o hrunning hhold =>
    exact hm.setConsumer (p := .idle) (List.nil_sublist _) trivial
  | openAccount o d opening hp => exact hm.openAccount hp
  | initLedger o d account ledger c sequence hp => exact hm.initLedger o hp
  | approve o d account ledger sequence a hok hp ha => exact hm.approve hp ha
  | record o d order ledger sequence house hp => exact hm.record hp
  | hold o d order ledger sequence b hp hb =>
    exact (hm.post hb _).setConsumer (p := .idle) (List.nil_sublist _) trivial
  | startTick lockValue hfresh =>
    refine hm.claim hfresh rfl rfl rfl [] (List.nil_sublist _) (List.Perm.refl _) rfl ?_
      (hm.consumer.keep (keeps_of_books_eq rfl) rfl)
    intro t ht
    rcases List.mem_append.mp ht with hold | hnew
    · exact Or.inl hold
    · rw [List.mem_singleton.mp hnew]
      exact Or.inr rfl
  | tick i o t t' hi ht =>
    refine hm.setTick i (fun mv hmv => ?_)
    rcases ht.rows mv hmv with hold | hnew
    · exact hm.rows t (List.mem_of_getElem? hi) mv hold
    · exact mem_of_mem_unprocessed hnew
  | execute i o lockValue mv rest b hok hi hb =>
    exact (hm.post hb _).setTick i (fun mv' hmv' =>
      hm.rows _ (List.mem_of_getElem? hi) mv' hmv')
  | executeFails i o lockValue mv rest hi hfail =>
    refine hm.setTick i (fun mv' hmv' => ?_)
    rw [TickPoint.rows_loop] at hmv'
    exact hm.rows _ (List.mem_of_getElem? hi) mv' (List.mem_cons_of_mem _ hmv')
  | complete i o lockValue mv rest hi =>
    have hsame : ({ m with completed := mv.tx :: m.completed } : Bank).WF :=
      ⟨hm.claimed_nodup, hm.claimed_new, hm.accounts_used, hm.books_used, hm.approvals,
        hm.movements, hm.rows, hm.consumer.keep (keeps_of_books_eq rfl) rfl⟩
    refine hsame.setTick i (fun mv' hmv' => ?_)
    rw [TickPoint.rows_loop] at hmv'
    exact hm.rows _ (List.mem_of_getElem? hi) mv' (List.mem_cons_of_mem _ hmv')
  | completeFails i o lockValue mv rest hi hfail =>
    refine hm.setTick i (fun mv' hmv' => ?_)
    rw [TickPoint.rows_loop] at hmv'
    exact hm.rows _ (List.mem_of_getElem? hi) mv' (List.mem_cons_of_mem _ hmv')
  | startRequest id ledger accountNumber body hfresh =>
    refine hm.claim hfresh rfl rfl rfl [ledger] ?_ ?_ rfl (fun t ht => Or.inl ht)
      (hm.consumer.keep (keeps_of_books_eq rfl) rfl)
    · exact List.sublist_cons_self _ _
    · simp only [claimed, List.flatMap_append, List.flatMap_cons, List.flatMap_nil,
        RequestPoint.claims, List.append_nil]
      rw [← List.append_assoc]
      exact List.perm_append_comm
  | initHouse i o ledger account hi => exact hm.initHouse o hi
  | insertHouse i o account result hi =>
    have hsub := claimed_setRequest hi result
    exact hm.of_same rfl rfl (fun _ hu => hu) (hm.claimed_nodup.sublist hsub)
      (fun _ hu => Or.inl (hsub.subset hu)) (fun _ hmv => Or.inl hmv) hm.rows
      (hm.consumer.keep (keeps_of_books_eq rfl) rfl)
  | endRequest i o r result hi =>
    have hsub := claimed_setRequest hi result
    exact hm.of_same rfl rfl (fun _ hu => hu) (hm.claimed_nodup.sublist hsub)
      (fun _ hu => Or.inl (hsub.subset hu)) (fun _ hmv => Or.inl hmv) hm.rows
      (hm.consumer.keep (keeps_of_books_eq rfl) rfl)
  | expireKey => exact hm

end Preservation

/-- Transaction ids are drawn once: the consumer's is on no movement before it writes one. -/
structure Numbered (m : Bank) : Prop where
  tx_nodup : (m.movements.map Movement.tx).Nodup
  ids_used : ∀ mv ∈ m.movements, ∀ u ∈ mv.draws.ids, u ∈ m.used
  drawn : ∀ d ∈ m.consumer.drawn, (∀ u ∈ d.ids, u ∈ m.used) ∧
    ∀ mv ∈ m.movements, mv.tx ≠ d.transactionId
  completed : ∀ tx ∈ m.completed, ∃ mv ∈ m.movements, mv.tx = tx

theorem numbered_init (houses : List HouseAccount) : (init houses).Numbered where
  tx_nodup := List.nodup_nil
  ids_used _ hmv := absurd hmv List.not_mem_nil
  drawn _ hd := by cases hd
  completed _ htx := absurd htx List.not_mem_nil

section Numbers

variable {m m' : Bank}

theorem Numbered.tx_used (hm : m.Numbered) : ∀ mv ∈ m.movements, mv.tx ∈ m.used :=
  fun mv hmv => hm.ids_used mv hmv mv.tx List.mem_cons_self

theorem Numbered.of_same (hm : m.Numbered) (hmovements : m'.movements = m.movements)
    (hcompleted : m'.completed = m.completed) (hused : ∀ u ∈ m.used, u ∈ m'.used)
    (hdrawn : ∀ d ∈ m'.consumer.drawn, d ∈ m.consumer.drawn ∨
      d.transactionId ∉ m.used ∧ ∀ u ∈ d.ids, u ∈ m'.used) : m'.Numbered := by
  refine ⟨?_, ?_, ?_, ?_⟩
  · rw [hmovements]
    exact hm.tx_nodup
  · intro mv hmv u hu
    rw [hmovements] at hmv
    exact hused u (hm.ids_used mv hmv u hu)
  · intro d hd
    rw [hmovements]
    rcases hdrawn d hd with hold | ⟨hnew, hin⟩
    · exact ⟨fun u hu => hused u ((hm.drawn d hold).1 u hu), (hm.drawn d hold).2⟩
    · exact ⟨hin, fun mv hmv heq => hnew (heq ▸ hm.tx_used mv hmv)⟩
  · rw [hmovements, hcompleted]
    exact hm.completed

theorem Advances.drawn {p q : ConsumerPoint} (h : m.Advances p q) :
    ∀ d ∈ q.drawn, d ∈ p.drawn := by
  intro d hd
  cases h with
  | houseUnopened => cases hd
  | _ => exact hd

theorem Numbered.record (hm : m.Numbered) {d : Draws} {order : Order} {ledger : Uuid}
    {sequence : ℕ} {house : String} (hp : m.consumer = .record d order ledger sequence house) :
    ((m.addMovement (m.movementOf d order ledger house)).setConsumer
      (afterRecord d order ledger sequence)).Numbered := by
  obtain ⟨hin, hnew⟩ := hm.drawn d (by simp [hp, ConsumerPoint.drawn])
  refine ⟨?_, ?_, ?_, ?_⟩
  · simp only [setConsumer_movements, addMovement_movements, List.map_append, List.map_cons,
      List.map_nil]
    rw [List.nodup_append]
    refine ⟨hm.tx_nodup, List.nodup_singleton _, ?_⟩
    intro u hu v hv
    obtain ⟨mv, hmv, rfl⟩ := List.mem_map.mp hu
    rw [List.mem_singleton.mp hv]
    exact hnew mv hmv
  · intro mv hmv u hu
    rcases List.mem_append.mp hmv with hold | hlast
    · exact hm.ids_used mv hold u hu
    · rw [List.mem_singleton.mp hlast] at hu
      exact hin u hu
  · intro d' hd'
    rw [setConsumer_consumer, afterRecord_drawn] at hd'
    cases hd'
  · intro tx htx
    obtain ⟨mv, hmv, rfl⟩ := hm.completed tx htx
    exact ⟨mv, List.mem_append_left _ hmv, rfl⟩

theorem Numbered.step (hm : m.Numbered) (hwf : m.WF) {a : Action} (h : m.Step a m') :
    m'.Numbered := by
  cases h with
  | submit =>
    exact hm.of_same rfl rfl (fun _ hu => List.mem_cons_of_mem _ hu)
      (fun _ hd => Or.inl hd)
  | refuse =>
    exact hm.of_same rfl rfl (fun _ hu => List.mem_cons_of_mem _ hu)
      (fun _ hd => Or.inl hd)
  | receive d command rest hidle hchannel hfresh =>
    refine hm.of_same rfl rfl (fun _ hu => List.mem_append_right _ hu) (fun d' hd' => ?_)
    obtain rfl : d = d' := by simpa [ConsumerPoint.drawn] using hd'
    have hid : d.transactionId ∈ d.ids := List.mem_cons_self
    exact Or.inr ⟨hfresh.2 _ hid, fun u hu => List.mem_append_left _ hu⟩
  | advance o p hp =>
    exact hm.of_same rfl rfl (fun _ hu => hu) (fun d hd => Or.inl (hp.drawn d hd))
  | giveUp => exact hm.of_same rfl rfl (fun _ hu => hu) (fun _ hd => by cases hd)
  | openAccount => exact hm.of_same rfl rfl (fun _ hu => hu) (fun _ hd => by cases hd)
  | initLedger o d account ledger c sequence hp =>
    refine hm.of_same rfl rfl (fun _ hu => hu) (fun d' hd' => Or.inl ?_)
    rw [hp]
    exact hd'
  | approve => exact hm.of_same rfl rfl (fun _ hu => hu) (fun _ hd => by cases hd)
  | record o d order ledger sequence house hp => exact hm.record hp
  | hold => exact hm.of_same rfl rfl (fun _ hu => hu) (fun _ hd => by cases hd)
  | startTick =>
    exact hm.of_same rfl rfl (fun _ hu => List.mem_cons_of_mem _ hu)
      (fun _ hd => Or.inl hd)
  | tick => exact hm.of_same rfl rfl (fun _ hu => hu) (fun _ hd => Or.inl hd)
  | execute => exact hm.of_same rfl rfl (fun _ hu => hu) (fun _ hd => Or.inl hd)
  | executeFails => exact hm.of_same rfl rfl (fun _ hu => hu) (fun _ hd => Or.inl hd)
  | complete i o lockValue mv rest hi =>
    refine ⟨hm.tx_nodup, hm.ids_used, hm.drawn, ?_⟩
    intro tx htx
    rcases List.mem_cons.mp htx with rfl | hold
    · exact ⟨mv, hwf.rows _ (List.mem_of_getElem? hi) mv List.mem_cons_self, rfl⟩
    · exact hm.completed tx hold
  | completeFails => exact hm.of_same rfl rfl (fun _ hu => hu) (fun _ hd => Or.inl hd)
  | startRequest =>
    exact hm.of_same rfl rfl (fun _ hu => List.mem_append_right _ hu)
      (fun _ hd => Or.inl hd)
  | initHouse => exact hm.of_same rfl rfl (fun _ hu => hu) (fun _ hd => Or.inl hd)
  | insertHouse => exact hm.of_same rfl rfl (fun _ hu => hu) (fun _ hd => Or.inl hd)
  | endRequest => exact hm.of_same rfl rfl (fun _ hu => hu) (fun _ hd => Or.inl hd)
  | expireKey => exact hm

end Numbers

theorem wf_invariant : machine.Invariant (fun m => m.WF ∧ m.Numbered) := by
  have hwf : machine.Invariant WF := by
    refine ⟨?_, fun _ _ _ hm h => hm.step h⟩
    rintro m ⟨houses, rfl⟩
    exact wf_init houses
  refine hwf.strengthen ?_ (fun _ _ _ hm hn h => hn.step hm h)
  rintro m ⟨houses, rfl⟩
  exact numbered_init houses

end Bank

end Bankie
