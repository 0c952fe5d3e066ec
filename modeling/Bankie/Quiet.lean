import Bankie.Balances
import Bankie.Lagging

/-!
Quiet runs: no call fails, and a tick starts only when the ticks before it have stopped.
In such a run the rows that the one live tick holds are open and distinct, so every row
is applied at most once; and every withdrawal that is written is held, unless the consumer
is just about to.
-/
namespace Bankie

open Program Transition

/-- No call fails, and ticks do not overlap. -/
def System.Quiet (st : System) : Action → Prop
  | .consumer o => o.fail = none
  | .tick _ o => o.fail = none
  | .request _ o => o.fail = none
  | .startTick _ => ∀ p ∈ st.ticks, p.Stopped
  | _ => True

instance (st : System) (a : Action) : Decidable (st.Quiet a) :=
  match a with
  | .consumer o => inferInstanceAs (Decidable (o.fail = none))
  | .tick _ o => inferInstanceAs (Decidable (o.fail = none))
  | .request _ o => inferInstanceAs (Decidable (o.fail = none))
  | .startTick _ => inferInstanceAs (Decidable (∀ p ∈ st.ticks, p.Stopped))
  | .submit .. => .isTrue trivial
  | .receive _ => .isTrue trivial
  | .startRequest .. => .isTrue trivial
  | .expireKey _ => .isTrue trivial

def TickPoint.Ended : TickPoint → Prop
  | .stopped _ => True
  | _ => False

theorem TickPoint.ended_of_stopped {t : TickPoint} (h : t.prog.Stopped) : t.Ended := by
  have hcalls : ∀ {c : Call} {next : Reply c → Code Unit} {failed : String → Code Unit},
      t.prog.Calls c next failed → t.Ended := by
    intro c next failed hc
    obtain ⟨k, hk, -⟩ := hc
    rw [hk] at h
    exact h.elim
  cases t with
  | fetch lockValue => exact hcalls (calls_fetch lockValue)
  | setNx lockValue batch => exact hcalls (calls_setNx lockValue batch)
  | expire lockValue batch => exact hcalls (calls_expire lockValue batch)
  | execute lockValue mv rest => exact hcalls (calls_execute lockValue mv rest)
  | complete lockValue mv rest => exact hcalls (calls_complete lockValue mv rest)
  | get lockValue => exact hcalls (calls_get lockValue)
  | del lockValue => exact hcalls (calls_del lockValue)
  | stopped result => trivial

namespace Bank

variable {m m' : Bank}

def Quiet (m : Bank) : Action → Prop
  | .consumer o => o.fail = none
  | .tick _ o => o.fail = none
  | .request _ o => o.fail = none
  | .startTick _ => ∀ t ∈ m.ticks, t.Ended
  | _ => True

/-- At most one tick is live, and the rows that it holds are open and distinct. -/
structure Steady (m : Bank) : Prop where
  live : ∀ (i j : ℕ) (t t' : TickPoint), m.ticks[i]? = some t → m.ticks[j]? = some t' →
    ¬ t.Ended → ¬ t'.Ended → i = j
  rows : ∀ t ∈ m.ticks, (t.rows.map Movement.tx).Nodup ∧ ∀ mv ∈ t.rows, mv.tx ∉ m.completed

theorem steady_init (houses : List HouseAccount) : (init houses).Steady where
  live _ _ _ _ hi := by cases hi
  rows _ ht := absurd ht List.not_mem_nil

/-- A quiet step of a steady bank executes only open rows. -/
theorem Steady.settlesOpenRow (hm : m.Steady) {a : Action} (hquiet : m.Quiet a) :
    m.SettlesOpenRow a := by
  cases a with
  | tick i o =>
    intro t ht
    refine ⟨fun lockValue mv rest heq _ => ⟨?_, ?_⟩, fun _ => hquiet⟩
    · exact (hm.rows t (List.mem_of_getElem? ht)).2 mv (heq ▸ List.mem_cons_self)
    · intro t' ht' mv' hmv' _
      obtain ⟨j, hj⟩ := List.mem_iff_getElem?.mp ht'
      have hlive' : ¬ t'.Ended := by
        cases t' with
        | stopped => cases hmv'
        | _ => exact id
      have hij := hm.live i j t t' ht hj (heq ▸ id) hlive'
      rw [← hij, Option.mem_def.mp ht] at hj
      rw [← Option.some.inj hj, heq] at hmv'
      cases hmv'
  | _ => trivial

theorem Steady.setTick (hm : m.Steady) {i : ℕ} {t t' : TickPoint} (hi : m.ticks[i]? = some t)
    (hlive : ¬ t.Ended) (hticks : m'.ticks = m.ticks.set i t')
    (hrows : (t'.rows.map Movement.tx).Nodup ∧ ∀ mv ∈ t'.rows, mv.tx ∉ m'.completed) :
    m'.Steady := by
  have hcases : ∀ j q, m'.ticks[j]? = some q →
      (j = i ∧ q = t') ∨ (j ≠ i ∧ m.ticks[j]? = some q) := by
    intro j q hj
    rw [hticks] at hj
    by_cases hji : j = i
    · subst hji
      rw [List.getElem?_set_self (List.getElem?_eq_some_iff.mp hi).1] at hj
      exact Or.inl ⟨rfl, (Option.some.inj hj).symm⟩
    · rw [List.getElem?_set_ne (Ne.symm hji)] at hj
      exact Or.inr ⟨hji, hj⟩
  refine ⟨fun j k q q' hj hk hq hq' => ?_, fun q hq => ?_⟩
  · rcases hcases j q hj with ⟨rfl, -⟩ | ⟨-, hj'⟩
    · rcases hcases k q' hk with ⟨rfl, -⟩ | ⟨-, hk'⟩
      · rfl
      · exact hm.live j k t q' hi hk' hlive hq'
    · rcases hcases k q' hk with ⟨rfl, -⟩ | ⟨-, hk'⟩
      · exact hm.live j k q t hj' hi hq hlive
      · exact hm.live j k q q' hj' hk' hq hq'
  · obtain ⟨j, hj⟩ := List.mem_iff_getElem?.mp hq
    rcases hcases j q hj with ⟨rfl, rfl⟩ | ⟨hji, hj'⟩
    · exact hrows
    · -- every other tick has ended and holds no row
      have hended : q.Ended := by
        by_contra hq'
        exact hji (hm.live j i q t hj' hi hq' hlive)
      cases q with
      | stopped => exact ⟨List.nodup_nil, fun _ hmv => absurd hmv List.not_mem_nil⟩
      | _ => exact hended.elim

theorem unprocessed_rows (hnum : m.Numbered) :
    (m.unprocessed.map Movement.tx).Nodup ∧ ∀ mv ∈ m.unprocessed, mv.tx ∉ m.completed := by
  refine ⟨?_, fun mv hmv => ?_⟩
  · exact hnum.tx_nodup.sublist
      (((List.take_sublist _ _).trans List.filter_sublist).map Movement.tx)
  · simpa using (List.mem_filter.mp (List.mem_of_mem_take hmv)).2

theorem Ticks.not_ended {t t' : TickPoint} (h : m.Ticks t t') : ¬ t.Ended := by
  cases h with
  | stop _ _ ht =>
    cases t with
    | stopped => exact ht.elim
    | _ => exact id
  | _ => exact id

theorem Steady.step (hm : m.Steady) (hnum : m.Numbered) {a : Action} (hquiet : m.Quiet a)
    (h : m.Step a m') : m'.Steady := by
  cases h with
  | startTick lockValue hfresh =>
    refine ⟨fun i j t t' hi hj ht ht' => ?_, fun t ht => ?_⟩
    · have hlast : ∀ k q, (m.ticks ++ [.fetch lockValue.toString])[k]? = some q → ¬ q.Ended →
          k = m.ticks.length := by
        intro k q hk hq
        rcases Nat.lt_or_ge k m.ticks.length with hlt | hge
        · rw [List.getElem?_append_left hlt] at hk
          exact absurd (hquiet q (List.mem_of_getElem? hk)) hq
        · have hlen := (List.getElem?_eq_some_iff.mp hk).1
          simp at hlen
          omega
      rw [hlast i t hi ht, hlast j t' hj ht']
    · rcases List.mem_append.mp ht with hold | hnew
      · exact hm.rows t hold
      · rw [List.mem_singleton.mp hnew]
        exact ⟨List.nodup_nil, fun _ hmv => absurd hmv List.not_mem_nil⟩
  | tick i o t t' hi ht =>
    refine hm.setTick hi ht.not_ended rfl ?_
    have hrows := hm.rows t (List.mem_of_getElem? hi)
    cases ht with
    | fetch => exact unprocessed_rows hnum
    | locked => exact hrows
    | expire lockValue batch =>
      rw [TickPoint.rows_loop]
      exact hrows
    | get => exact ⟨List.nodup_nil, fun _ hmv => absurd hmv List.not_mem_nil⟩
    | stop => exact ⟨List.nodup_nil, fun _ hmv => absurd hmv List.not_mem_nil⟩
  | execute i o lockValue mv rest b hok hi hb =>
    exact hm.setTick hi id rfl (hm.rows (.execute lockValue mv rest) (List.mem_of_getElem? hi))
  | executeFails i o lockValue mv rest hi hfail => exact absurd hquiet hfail
  | complete i o lockValue mv rest hi =>
    obtain ⟨hnodup, hopen⟩ := hm.rows _ (List.mem_of_getElem? hi)
    simp only [TickPoint.rows, List.map_cons, List.nodup_cons] at hnodup
    refine hm.setTick hi id rfl ?_
    rw [TickPoint.rows_loop]
    refine ⟨hnodup.2, fun mv' hmv' hin => ?_⟩
    rcases List.mem_cons.mp hin with heq | hold
    · exact hnodup.1 (heq ▸ List.mem_map_of_mem hmv')
    · exact hopen mv' (List.mem_cons_of_mem _ hmv') hold
  | completeFails i o lockValue mv rest hi hfail => exact absurd hquiet hfail
  | _ => exact ⟨hm.live, hm.rows⟩

/-- A hold of the movement's amount for its transaction is in its book. -/
def HeldFor (m : Bank) (mv : Movement) : Prop :=
  ∃ b, m.books mv.ledger = some b ∧ ∃ p ∈ b.postings, p.kind = .hold ∧
    p.transactionId = mv.tx ∧ p.amount = mv.amount.amount

/-- Every withdrawal that is written is held, or is next to be. -/
def HoldsAll (m : Bank) : Prop :=
  ∀ mv ∈ m.movements, mv.action = .withdraw → m.HeldFor mv ∨ m.Holds m.consumer mv

theorem HeldFor.step (hwf : m.WF) {mv : Movement} (hheld : m.HeldFor mv) {a : Action}
    (h : m.Step a m') : m'.HeldFor mv := by
  obtain ⟨b, hb, p, hp, hfor⟩ := hheld
  rcases h.book_kept hwf hb with hkept | ⟨q, hpost, -⟩
  · exact ⟨b, hkept, p, hp, hfor⟩
  · exact ⟨_, hpost, p, List.mem_append_left _ hp, hfor⟩

theorem HoldsAll.heldFor (hm : m.HoldsAll) (hh : ¬ m.consumer.Holding) {mv : Movement}
    (hmv : mv ∈ m.movements) (haction : mv.action = .withdraw) : m.HeldFor mv := by
  rcases hm mv hmv haction with hheld | ⟨d, order, ledger, sequence, heq, -⟩
  · exact hheld
  · exact absurd (by rw [heq]; trivial) hh

theorem HoldsAll.step (hm : m.HoldsAll) (hwf : m.WF) {a : Action} (hquiet : m.Quiet a)
    (h : m.Step a m') : m'.HoldsAll := by
  intro mv hmv haction
  by_cases hconsumer : ∃ o, a = .consumer o
  · obtain ⟨o, rfl⟩ := hconsumer
    by_cases hh : m.consumer.Holding
    · -- the hold is executed, for no call fails
      cases h with
      | hold _ d order ledger sequence b hp hb =>
        rcases hm mv hmv haction with hheld | ⟨d', order', ledger', sequence', heq, -, htx,
            hledger, -, hamount⟩
        · exact Or.inl (hheld.step hwf (Step.hold o d order ledger sequence b hp hb))
        · rw [hp] at heq
          obtain ⟨rfl, rfl, rfl, rfl⟩ := ConsumerPoint.hold.inj heq
          subst hledger
          refine Or.inl ⟨_, Function.update_self _ _ _, holdOf d order o.now,
            List.mem_append_right _ (List.mem_singleton_self _), rfl, htx.symm, ?_⟩
          rw [hamount]
          rfl
      | giveUp _ hrunning hhold => exact absurd hquiet (hhold hh)
      | advance _ p hp =>
        generalize m.consumer = q at hp hh
        cases hp <;> exact hh.elim
      | openAccount _ d opening hp =>
        rw [hp] at hh
        exact hh.elim
      | initLedger _ d account ledger c sequence hp =>
        rw [hp] at hh
        exact hh.elim
      | approve _ d account ledger sequence a hok hp ha =>
        rw [hp] at hh
        exact hh.elim
      | record _ d order ledger sequence house hp =>
        rw [hp] at hh
        exact hh.elim
    · rcases h.movements with hsame | ⟨o', d, order, ledger, sequence, house, -, hp, rfl⟩
      · exact Or.inl ((hm.heldFor hh (hsame ▸ hmv) haction).step hwf h)
      · rcases List.mem_append.mp hmv with hold | hnew
        · exact Or.inl ((hm.heldFor hh hold haction).step hwf h)
        · obtain rfl := List.mem_singleton.mp hnew
          exact Or.inr (m.holds_record haction)
  · have hsame : m'.movements = m.movements := by
      rcases h.movements with hsame | ⟨o, -, -, -, -, -, ha, -⟩
      · exact hsame
      · exact absurd ⟨o, ha⟩ hconsumer
    rcases hm mv (hsame ▸ hmv) haction with hheld | hholds
    · exact Or.inl (hheld.step hwf h)
    · refine Or.inr ?_
      unfold Holds at hholds ⊢
      obtain ⟨d, order, ledger, sequence, heq, -, hrest⟩ := hholds
      refine ⟨d, order, ledger, sequence, ?_, hmv, hrest⟩
      rw [← heq]
      cases h with
      | receive d' command rest hidle =>
        rw [hidle] at heq
        cases heq
      | advance o => exact absurd ⟨o, rfl⟩ hconsumer
      | giveUp o => exact absurd ⟨o, rfl⟩ hconsumer
      | openAccount o => exact absurd ⟨o, rfl⟩ hconsumer
      | initLedger o => exact absurd ⟨o, rfl⟩ hconsumer
      | approve o => exact absurd ⟨o, rfl⟩ hconsumer
      | record o => exact absurd ⟨o, rfl⟩ hconsumer
      | hold o => exact absurd ⟨o, rfl⟩ hconsumer
      | _ => rfl

/-- What holds of every state of a quiet run. -/
structure Settled (m : Bank) : Prop where
  wf : m.WF
  numbered : m.Numbered
  steady : m.Steady
  once : m.Once
  balanced : m.Balanced
  holdsAll : m.HoldsAll

theorem settled_invariant : (machine.restrict Quiet).Invariant Settled where
  init m hm := by
    obtain ⟨houses, rfl⟩ := hm
    exact ⟨wf_init houses, numbered_init houses, steady_init houses, once_init houses,
      balanced_init houses, fun _ hmv => absurd hmv List.not_mem_nil⟩
  step m a m' hm h := by
    have hguard := hm.steady.settlesOpenRow h.1
    exact ⟨hm.wf.step h.2, hm.numbered.step hm.wf h.2, hm.steady.step hm.numbered h.1 h.2,
      hm.once.step hguard h.2, hm.balanced.step hm.wf hm.numbered hm.once hguard h.2,
      hm.holdsAll.step hm.wf h.1 h.2⟩

end Bank

theorem Models.quiet {st : System} {m : Bank} (h : Models st m) {a : Action}
    (hquiet : st.Quiet a) : m.Quiet a := by
  cases a with
  | consumer o => exact hquiet
  | tick i o => exact hquiet
  | request i o => exact hquiet
  | startTick lockValue =>
    intro t ht
    apply TickPoint.ended_of_stopped
    apply hquiet
    rw [h.ticks]
    exact List.mem_map_of_mem ht
  | _ => trivial

/-- Every quiet run of the service is a quiet run of the bank, whatever rows it reads. -/
theorem quiet_refinement : Machine.Simulation (System.lagging.restrict System.Quiet)
    (Bank.machine.restrict Bank.Quiet) (fun st m => Models st m ∧ m.WF ∧ m.Numbered) :=
  lagging_refinement.restrict fun _ _ _ hrel hquiet => hrel.1.quiet hquiet

end Bankie
