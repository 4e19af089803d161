import Skyloft.Net.ArpInv

/-!
# Address resolution

Every step of `arp_lookup`, `arp_update` and `arp_age_entry` keeps the invariant of the ARP table,
and the static entries establish it.

* `ArpInv.step` — what one step preserves.
* `ArpLoaded.inv` — the table after `arp_init_late`.
* `arp_table_accounts` — the table and the packets after every interleaving of steps.
-/

namespace Skyloft

section

variable {crc : BitVec 32 → BitVec 64 → BitVec 32} {s₀ s s' : ArpSys} {e c : ℕ}
  {daddr : BitVec 32}

/-! ## The steps -/

namespace ArpInv

/-- A call moves on without the packet. -/
theorem setCall (hi : ArpInv crc s₀ s) {call : ArpCall}
    (hdaddr : ∀ old, s.call c = some old → old.daddr = call.daddr) (hnot : ¬ s.Taken c)
    (hnot' : ¬ (call.hasMbuf = true ∧ ∃ dhost, call.pc = .returned (-eInProgress) dhost))
    (hspare : ∀ e, call.pc = .unlocked (some e) → s.Spare e ∧ (s.ent e).ip = call.daddr ∧
      ∀ c' daddr m, s.call c' = some ⟨daddr, m, .unlocked (some e)⟩ → c' = c) :
    ArpInv crc s₀ (s.setCall c call) := by
  have hself := s.setCall_call_self c call
  have hother : ∀ c', c' ≠ c → (s.setCall c call).call c' = s.call c' :=
    fun c' hne => s.setCall_call_of_ne call hne
  have htaken : ∀ c', (s.setCall c call).Taken c' ↔ s.Taken c' := by
    intro c'
    by_cases hc : c' = c
    · subst hc
      exact iff_of_false (fun h => hnot' (ArpSys.taken_setCall_self.mp h)) hnot
    · exact ArpSys.taken_setCall_of_ne hc
  exact { hi with
    spare := by
      intro c' daddr m e hc'
      by_cases hc : c' = c
      · subst hc
        rw [hself, Option.some_inj] at hc'
        subst hc'
        exact ⟨(hspare e rfl).1, (hspare e rfl).2.1⟩
      · rw [hother c' hc] at hc'
        exact hi.spare c' daddr m e hc'
    spare_inj := by
      intro c₁ c₂ daddr₁ daddr₂ m₁ m₂ e h₁ h₂
      by_cases hc₁ : c₁ = c
      · by_cases hc₂ : c₂ = c
        · rw [hc₁, hc₂]
        · subst hc₁
          rw [hself, Option.some_inj] at h₁
          rw [hother c₂ hc₂] at h₂
          exact ((hspare e (by rw [h₁])).2.2 c₂ daddr₂ m₂ h₂).symm
      · rw [hother c₁ hc₁] at h₁
        by_cases hc₂ : c₂ = c
        · subst hc₂
          rw [hself, Option.some_inj] at h₂
          exact (hspare e (by rw [h₂])).2.2 c₁ daddr₁ m₁ h₁
        · rw [hother c₂ hc₂] at h₂
          exact hi.spare_inj c₁ c₂ daddr₁ daddr₂ m₁ m₂ e h₁ h₂
    toArpPlaceInv := hi.toArpPlaceInv.keep htaken fun _ => rfl
    pushed_for := by
      intro e c' hc'
      obtain ⟨old, hold, haddr⟩ := hi.pushed_for e c' hc'
      obtain ⟨new, hnew, haddr'⟩ := ArpSys.exists_call_of_setCall hdaddr hold
      exact ⟨new, hnew, haddr'.trans haddr⟩ }

/-- A request or an address in the log. -/
theorem logQuiet (hi : ArpInv crc s₀ s) {x : ArpLog}
    (hx : (∃ ip, x = .request ip) ∨ ∃ ip dhost, x = .learn ip dhost) :
    ArpInv crc s₀ { s with log := s.log ++ [x] } := by
  have hpushed : ∀ e, { s with log := s.log ++ [x] }.pushedOn e = s.pushedOn e := by
    intro e
    rw [ArpSys.pushedOn_append (s := s) rfl]
    obtain ⟨ip, rfl⟩ | ⟨ip, dhost, rfl⟩ := hx <;> simp [ArpLog.pushedOn?]
  have hsent : ∀ e, { s with log := s.log ++ [x] }.sentFrom e = s.sentFrom e := by
    intro e
    rw [ArpSys.sentFrom_append (s := s) rfl]
    obtain ⟨ip, rfl⟩ | ⟨ip, dhost, rfl⟩ := hx <;> simp [ArpLog.sentFrom?]
  have hplaces : ∀ c, { s with log := s.log ++ [x] }.places c = s.places c := by
    intro c
    rw [ArpSys.places, ArpSys.sent_append (s := s) rfl, ArpSys.freed_append (s := s) rfl]
    obtain ⟨ip, rfl⟩ | ⟨ip, dhost, rfl⟩ := hx <;>
      simp [ArpLog.sends, ArpLog.frees, ArpSys.places, ArpSys.queued, ArpSys.draining]
  have hsends : ∀ e c dhost, .send e c dhost ∉ [x] := by
    intro e c dhost hsend
    rw [List.mem_singleton] at hsend
    obtain ⟨ip, rfl⟩ | ⟨ip, dhost', rfl⟩ := hx <;> cases hsend
  exact { hi with
    toArpCallInv := hi.toArpCallInv.of_spare (fun _ _ _ _ h => h) fun c daddr m e _ h =>
      ⟨⟨h.1, h.2.1, h.2.2.1, (hpushed e).trans h.2.2.2⟩, rfl⟩
    toArpPlaceInv := hi.toArpPlaceInv.keep (fun _ => Iff.rfl) hplaces
    toArpQueueInv := hi.toArpQueueInv.keep rfl hpushed hsent (fun _ => rfl) (fun _ h => h)
      (fun _ h _ => ⟨h, rfl⟩) fun _ call h => ⟨call, h, rfl⟩
    toArpDrainInv := hi.toArpDrainInv.keep rfl rfl rfl (fun _ => rfl) hi.drain_state
      (fun u _ => hpushed _) rfl hsends }

/-- A change of entries that leaves their addresses and queues, and whether they are probed. -/
theorem setEnt (hi : ArpInv crc s₀ s) {ent' : ℕ → ArpEntry}
    (hip : ∀ e, (ent' e).ip = (s.ent e).ip) (hq : ∀ e, (ent' e).q = (s.ent e).q)
    (hprobing : ∀ e, (ent' e).state = .probing ↔ (s.ent e).state = .probing)
    (hstatic : ∀ e, s₀.Has e → ent' e = s.ent e) : ArpInv crc s₀ { s with ent := ent' } := by
  have hplaces : ∀ c, { s with ent := ent' }.places c = s.places c := by
    intro c
    simp only [ArpSys.places, ArpSys.queued, hq]
    rfl
  exact { hi with
    placed := hi.placed.congr fun e _ => by rw [hip]
    unique := fun e e' he he' heq => hi.unique e e' he he' (by rw [← hip e, ← hip e']; exact heq)
    queue := fun e he => ⟨(hi.queue e (hq e ▸ he)).1, (hprobing e).mpr (hi.queue e (hq e ▸ he)).2⟩
    static := by
      intro e he
      change s.Has e ∧ ent' e = _ ∧ (ent' e).state = _
      rw [hstatic e he]
      exact hi.static e he
    toArpCallInv := hi.toArpCallInv.of_spare (fun _ _ _ _ h => h) fun c daddr m e _ h =>
      ⟨⟨h.1, h.2.1, (hprobing e).mpr h.2.2.1, h.2.2.2⟩, hip e⟩
    toArpPlaceInv := hi.toArpPlaceInv.keep (fun _ => Iff.rfl) hplaces
    toArpQueueInv := hi.toArpQueueInv.keep rfl (fun _ => rfl) (fun _ => rfl) hip
      (fun e => (hprobing e).mp) (fun e h _ => ⟨h, hq e⟩) fun _ call h => ⟨call, h, rfl⟩
    toArpDrainInv := hi.toArpDrainInv.keep rfl rfl rfl hip
      (fun u hu hp => hi.drain_state u hu ((hprobing _).mp hp)) (fun _ _ => rfl)
      (List.append_nil _).symm fun _ _ _ => List.not_mem_nil }

theorem createEntry (hi : ArpInv crc s₀ s) (daddr : BitVec 32) (now : Usec) :
    ArpInv crc s₀ (s.createEntry daddr now) := by
  have hent : ∀ e, e < s.next → (s.createEntry daddr now).ent e = s.ent e :=
    fun e he => s.createEntry_ent_of_lt daddr now he
  have hnew : ((s.createEntry daddr now).ent s.next).q = [] := by
    simp [ArpSys.createEntry]
  have hlt : ∀ e, s.Has e → e < s.next := hi.lt_next
  have hpushed_lt : ∀ e c, c ∈ s.pushedOn e → e < s.next := by
    intro e c hc
    by_contra hge
    rw [hi.pushed_of_ge e (not_lt.mp hge)] at hc
    cases hc
  have hplaces : ∀ c, (s.createEntry daddr now).places c = s.places c := by
    intro c
    have hqueued : (s.createEntry daddr now).queued c = s.queued c := by
      change ∑ e ∈ Finset.range (s.next + 1), _ = _
      rw [Finset.sum_range_succ, hnew, List.count_nil, Nat.add_zero]
      apply Finset.sum_congr rfl
      intro e he
      rw [hent e (Finset.mem_range.mp he)]
    rw [ArpSys.places, hqueued]
    rfl
  exact { hi with
    placed := hi.placed.congr fun e he => by rw [hent e (hlt e he)]
    unique := by
      intro e e' he he'
      rw [hent e (hlt e he), hent e' (hlt e' he')]
      exact hi.unique e e' he he'
    lt_next := fun e he => Nat.lt_succ_of_lt (hlt e he)
    queue := by
      intro e he
      by_cases hn : e = s.next
      · subst hn
        exact absurd hnew he
      · have heq : (s.createEntry daddr now).ent e = s.ent e := Function.update_of_ne hn _ _
        rw [heq] at he ⊢
        exact hi.queue e he
    static := by
      intro e he
      obtain ⟨hhas, hrest⟩ := hi.static e he
      rw [hent e (hlt e hhas)]
      exact ⟨hhas, hrest⟩
    spare := by
      intro c daddr' m e hc
      obtain ⟨⟨h₁, h₂, h₃, h₄⟩, haddr⟩ := hi.spare c daddr' m e hc
      rw [ArpSys.Spare, hent e h₁]
      exact ⟨⟨Nat.lt_succ_of_lt h₁, h₂, h₃, h₄⟩, haddr⟩
    toArpPlaceInv := hi.toArpPlaceInv.keep (fun _ => Iff.rfl) hplaces
    pushed_of_ge := fun e he => hi.pushed_of_ge e (Nat.le_of_succ_le he)
    pushed := by
      intro e he
      rw [hent e (hlt e he)]
      exact hi.pushed e he
    pushed_for := by
      intro e c hc
      rw [hent e (hpushed_lt e c hc)]
      exact hi.pushed_for e c hc
    unsent := by
      intro e he
      by_cases hn : e < s.next
      · rw [hent e hn] at he
        exact hi.unsent e he
      · have horder := hi.order e
        rw [hi.pushed_of_ge e (not_lt.mp hn)] at horder
        exact List.prefix_nil.mp horder
    drain_lt := fun u hu => Nat.lt_succ_of_lt (hi.drain_lt u hu)
    drain_state := by
      intro u hu
      change ((s.createEntry daddr now).ent (s.drain u).ent).state ≠ _
      rw [hent _ (hi.drain_lt u hu)]
      exact hi.drain_state u hu
    drain_learned := by
      intro u hu
      change ArpLog.learn ((s.createEntry daddr now).ent (s.drain u).ent).ip _ ∈ _
      rw [hent _ (hi.drain_lt u hu)]
      exact hi.drain_learned u hu
    sent_learned := by
      intro e c dhost hsend
      have hmem : c ∈ s.sentFrom e := by
        apply List.mem_filterMap.mpr
        exact ⟨_, hsend, by simp [ArpLog.sentFrom?]⟩
      rw [hent e (hpushed_lt e c ((hi.order e).subset hmem))]
      exact hi.sent_learned e c dhost hsend }

theorem createEntry_spare (hi : ArpInv crc s₀ s) (daddr : BitVec 32) (now : Usec) :
    (s.createEntry daddr now).Spare s.next ∧ ((s.createEntry daddr now).ent s.next).ip = daddr := by
  refine ⟨⟨Nat.lt_succ_self _, fun h => ?_, ?_, hi.pushed_of_ge _ (le_refl _)⟩, ?_⟩
  · exact absurd (hi.lt_next _ h) (lt_irrefl _)
  · simp [ArpSys.createEntry]
  · simp [ArpSys.createEntry]

/-- A spare entry goes into the table, with an address that is not there yet.  The call that created
it no longer has it. -/
theorem insertEntry (hi : ArpInv crc s₀ s) (he : s.Spare e)
    (hcall : ∀ c daddr m, s.call c ≠ some ⟨daddr, m, .unlocked (some e)⟩)
    (hfree : ∀ e', s.Has e' → (s.ent e').ip ≠ (s.ent e).ip) :
    ArpInv crc s₀ (s.insertEntry e (hashIp crc (s.ent e).ip)) := by
  obtain ⟨hlt, hnot, hstate, hpushed⟩ := he
  have hhas : ∀ e', (s.insertEntry e (hashIp crc (s.ent e).ip)).Has e' ↔ e' = e ∨ s.Has e' :=
    fun e' => Buckets.holds_insert
  exact { hi with
    placed := hi.placed.insert e
    unique := by
      intro e₁ e₂ h₁ h₂ heq
      rcases (hhas e₁).mp h₁ with rfl | hold₁
      · rcases (hhas e₂).mp h₂ with rfl | hold₂
        · rfl
        · exact absurd heq.symm (hfree e₂ hold₂)
      · rcases (hhas e₂).mp h₂ with rfl | hold₂
        · exact absurd heq (hfree e₁ hold₁)
        · exact hi.unique e₁ e₂ hold₁ hold₂ heq
    lt_next := by
      intro e' he'
      rcases (hhas e').mp he' with rfl | he'
      · exact hlt
      · exact hi.lt_next e' he'
    queue := fun e' he' => ⟨(hhas e').mpr (.inr (hi.queue e' he').1), (hi.queue e' he').2⟩
    static := fun e' he' => ⟨(hhas e').mpr (.inr (hi.static e' he').1), (hi.static e' he').2⟩
    spare := by
      intro c daddr m e' hc
      obtain ⟨⟨h₁, h₂, h₃, h₄⟩, haddr⟩ := hi.spare c daddr m e' hc
      refine ⟨⟨h₁, fun h => ?_, h₃, h₄⟩, haddr⟩
      rcases (hhas e').mp h with rfl | h
      · exact hcall c daddr m hc
      · exact h₂ h
    pushed := by
      intro e' he' hp
      rcases (hhas e').mp he' with rfl | he'
      · exact hpushed.trans (hi.q_eq_nil fun h => hnot h.1).symm
      · exact hi.pushed e' he' hp }

/-- The packet of a call goes to the queue of an entry that is being probed. -/
theorem pushTail (hi : ArpInv crc s₀ s) {call : ArpCall} (hcall : s.call c = some call)
    (hnot : ¬ s.Taken c) (hhas : s.Has e) (hstate : (s.ent e).state = .probing)
    (hip : (s.ent e).ip = call.daddr) (hm : call.hasMbuf = true) :
    ArpInv crc s₀ ((s.enqueue c call e).setCall c
      { call with pc := .returned (-eInProgress) none }) := by
  rw [ArpSys.enqueue, if_pos hm]
  set s₁ : ArpSys := { s with
    ent := Function.update s.ent e { s.ent e with q := (s.ent e).q ++ [c] }
    log := s.log ++ [ArpLog.push e c] } with hs₁
  set s' := s₁.setCall c { call with pc := .returned (-eInProgress) none } with hs'
  have hself : s'.ent e = { s.ent e with q := (s.ent e).q ++ [c] } := Function.update_self _ _ _
  have ht : s.Touches s' e :=
    ⟨fun e' hne => Function.update_of_ne hne _ _, by rw [hself], rfl⟩
  have hlog : s'.log = s.log ++ [ArpLog.push e c] := rfl
  have hpushed : ∀ e', e' ≠ e → s'.pushedOn e' = s.pushedOn e' := by
    intro e' hne
    rw [ArpSys.pushedOn_append hlog]
    simp [ArpLog.pushedOn?, Ne.symm hne]
  have hplaces : ∀ c', s'.places c' = s.places c' + if c = c' then 1 else 0 := by
    intro c'
    have hqueued := ArpSys.queued_of_eq_off (hi.lt_next e hhas) ht.next_eq ht.ent_of_ne c'
    have hdraining : s'.draining c' = s.draining c' := rfl
    rw [hself, List.count_append, List.count_singleton] at hqueued
    rw [ArpSys.places, ArpSys.places, ArpSys.sent_append hlog, ArpSys.freed_append hlog, hdraining]
    simp only [List.countP_singleton, ArpLog.sends, ArpLog.frees, beq_iff_eq, Bool.false_eq_true,
      if_false] at hqueued ⊢
    omega
  have hdrain_ne : ∀ u, u < s.updates → (s.drain u).ent ≠ e := by
    rintro u hu rfl
    exact hi.drain_state u hu hstate
  exact {
    toArpTableInv := hi.toArpTableInv.touch ht (fun _ _ h => h) (fun _ _ h => h)
      (fun _ => ⟨hhas, by rw [hself, hstate]⟩) (hi.not_static (by rw [hstate]; decide))
    toArpCallInv := hi.toArpCallInv.touch ht (fun _ _ _ _ h => ArpSys.unlocked_of_setCall_returned h)
      (fun _ _ h => h) hhas hpushed
    toArpPlaceInv := hi.toArpPlaceInv.take hnot (ArpSys.taken_setCall_self.mpr ⟨hm, none, rfl⟩)
      (fun _ hc => ArpSys.taken_setCall_of_ne hc) hplaces
    toArpQueueInv := hi.toArpQueueInv.push ht rfl hlog (hi.lt_next e hhas) (by rw [hself])
      (by rw [hself]) (fun _ hc => ArpSys.setCall_call_of_ne _ _ hc) hcall
      (ArpSys.setCall_call_self _ _ _) rfl hip.symm
    toArpDrainInv := hi.toArpDrainInv.keep rfl rfl rfl ht.ip_eq
      (fun u hu => by rw [ht.ent_of_ne _ (hdrain_ne u hu)]; exact hi.drain_state u hu)
      (fun u hu => hpushed _ (hdrain_ne u hu)) hlog (by simp) }

/-- The end of a call that has no packet. -/
theorem takeNothing (hi : ArpInv crc s₀ s) {call : ArpCall} (hcall : s.call c = some call)
    (hnot : ¬ s.Taken c) (hm : ¬ call.hasMbuf = true) :
    ArpInv crc s₀ (s.setCall c { call with pc := .returned (-eInProgress) none }) := by
  apply hi.setCall
  · intro old hold
    rw [hcall, Option.some_inj] at hold
    rw [← hold]
  · exact hnot
  · exact fun h => hm h.1
  · intro e' he'
    cases he'

/-- **The end of `arp_lookup` with an entry that is being probed.** -/
theorem enqueue (hi : ArpInv crc s₀ s) {call : ArpCall} (hcall : s.call c = some call)
    (hnot : ¬ s.Taken c) (hhas : s.Has e) (hstate : (s.ent e).state = .probing)
    (hip : (s.ent e).ip = call.daddr) :
    ArpInv crc s₀ ((s.enqueue c call e).setCall c
      { call with pc := .returned (-eInProgress) none }) := by
  by_cases hm : call.hasMbuf = true
  · exact hi.pushTail hcall hnot hhas hstate hip hm
  · rw [ArpSys.enqueue, if_neg hm]
    exact hi.takeNothing hcall hnot hm

/-- **The end of `arp_lookup` with no entry.** -/
theorem drop (hi : ArpInv crc s₀ s) {call : ArpCall} (hcall : s.call c = some call)
    (hnot : ¬ s.Taken c) :
    ArpInv crc s₀ ((s.drop c call).setCall c { call with pc := .returned (-eInProgress) none }) := by
  by_cases hm : call.hasMbuf = true
  · rw [ArpSys.drop, if_pos hm]
    set s₁ : ArpSys := { s with log := s.log ++ [ArpLog.free c] } with hs₁
    set s' := s₁.setCall c { call with pc := .returned (-eInProgress) none } with hs'
    have hlog : s'.log = s.log ++ [ArpLog.free c] := rfl
    have hpushed : ∀ e, s'.pushedOn e = s.pushedOn e := by
      intro e
      rw [ArpSys.pushedOn_append hlog]
      simp [ArpLog.pushedOn?]
    have hsent : ∀ e, s'.sentFrom e = s.sentFrom e := by
      intro e
      rw [ArpSys.sentFrom_append hlog]
      simp [ArpLog.sentFrom?]
    have hplaces : ∀ c', s'.places c' = s.places c' + if c = c' then 1 else 0 := by
      intro c'
      have hrest : s'.queued c' = s.queued c' ∧ s'.draining c' = s.draining c' := ⟨rfl, rfl⟩
      rw [ArpSys.places, ArpSys.places, ArpSys.sent_append hlog, ArpSys.freed_append hlog, hrest.1,
        hrest.2]
      simp only [List.countP_singleton, ArpLog.sends, ArpLog.frees, Bool.false_eq_true, if_false,
        decide_eq_true_eq]
      omega
    have hdaddr : ∀ old, s₁.call c = some old →
        old.daddr = ({ call with pc := .returned (-eInProgress) none } : ArpCall).daddr := by
      intro old hold
      rw [show s₁.call c = some call from hcall, Option.some_inj] at hold
      rw [hold]
    exact { hi with
      toArpCallInv := hi.toArpCallInv.of_spare
        (fun _ _ _ _ h => ArpSys.unlocked_of_setCall_returned h) fun _ _ _ e _ h =>
        ⟨⟨h.1, h.2.1, h.2.2.1, (hpushed e).trans h.2.2.2⟩, rfl⟩
      toArpPlaceInv := hi.toArpPlaceInv.take hnot (ArpSys.taken_setCall_self.mpr ⟨hm, none, rfl⟩)
        (fun _ hc => ArpSys.taken_setCall_of_ne hc) hplaces
      toArpQueueInv := hi.toArpQueueInv.keep rfl hpushed hsent (fun _ => rfl) (fun _ h => h)
        (fun _ h _ => ⟨h, rfl⟩) fun _ _ h => ArpSys.exists_call_of_setCall hdaddr h
      toArpDrainInv := hi.toArpDrainInv.keep rfl rfl rfl (fun _ => rfl) hi.drain_state
        (fun _ _ => hpushed _) hlog (by simp) }
  · rw [ArpSys.drop, if_neg hm]
    exact hi.takeNothing hcall hnot hm

/-- **The update of an entry**, up to the release of the lock. -/
theorem learn (hi : ArpInv crc s₀ s) (hhas : s.Has e) (hstatic : (s.ent e).state ≠ .static)
    (dhost : BitVec 48) (now : Usec) : ArpInv crc s₀ (s.learn e dhost now) := by
  set s' := s.learn e dhost now with hs'
  have hself : s'.ent e = { s.ent e with eth := dhost, ts := now, state := .valid, q := [] } :=
    Function.update_self _ _ _
  have ht : s.Touches s' e := ⟨fun e' hne => Function.update_of_ne hne _ _, by rw [hself], rfl⟩
  have hlog : s'.log = s.log ++ [ArpLog.learn (s.ent e).ip dhost] := rfl
  have hdrain : s'.drain s.updates = ⟨e, dhost, (s.ent e).q⟩ := Function.update_self _ _ _
  have hdrain_of_lt : ∀ u, u < s.updates → s'.drain u = s.drain u :=
    fun u hu => Function.update_of_ne (Nat.ne_of_lt hu) _ _
  have hpushed : ∀ e', s'.pushedOn e' = s.pushedOn e' := by
    intro e'
    rw [ArpSys.pushedOn_append hlog]
    simp [ArpLog.pushedOn?]
  have hsent : ∀ e', s'.sentFrom e' = s.sentFrom e' := by
    intro e'
    rw [ArpSys.sentFrom_append hlog]
    simp [ArpLog.sentFrom?]
  have hprobing : ∀ e', (s'.ent e').state = .probing → e' ≠ e := by
    rintro e' hp rfl
    rw [hself] at hp
    cases hp
  have hplaces : ∀ c, s'.places c = s.places c := by
    intro c
    have hqueued := ArpSys.queued_of_eq_off (hi.lt_next e hhas) ht.next_eq ht.ent_of_ne c
    have hdraining : s'.draining c = s.draining c + (s.ent e).q.count c := by
      change ∑ u ∈ Finset.range (s.updates + 1), _ = _
      rw [Finset.sum_range_succ, hdrain]
      congr 1
      apply Finset.sum_congr rfl
      intro u hu
      rw [hdrain_of_lt u (Finset.mem_range.mp hu)]
    rw [hself, List.count_nil] at hqueued
    rw [ArpSys.places, ArpSys.places, ArpSys.sent_append hlog, ArpSys.freed_append hlog, hdraining]
    simp only [List.countP_singleton, ArpLog.sends, ArpLog.frees, Bool.false_eq_true, if_false]
    omega
  exact {
    toArpTableInv := hi.toArpTableInv.touch ht (fun _ _ h => h) (fun _ _ h => h)
      (fun hq => absurd (by rw [hself]) hq) (hi.not_static hstatic)
    toArpCallInv := hi.toArpCallInv.touch ht (fun _ _ _ _ h => h) (fun _ _ h => h) hhas
      fun e' _ => hpushed e'
    toArpPlaceInv := hi.toArpPlaceInv.keep (fun _ => Iff.rfl) hplaces
    toArpQueueInv := hi.toArpQueueInv.keep rfl hpushed hsent ht.ip_eq
      (fun e' hp => by rwa [ht.ent_of_ne e' (hprobing e' hp)] at hp)
      (fun e' h hp => ⟨h, by rw [ht.ent_of_ne e' (hprobing e' hp)]⟩)
      fun _ call h => ⟨call, h, rfl⟩
    toArpDrainInv := hi.toArpDrainInv.learn hi.toArpTableInv hi.toArpQueueInv hhas dhost now }

/-- **One packet of a queue that an update has taken is transmitted.** -/
theorem drainOne (hi : ArpInv crc s₀ s) {u : ℕ} (hu : u < s.updates) :
    ArpInv crc s₀ (s.drainOne u) := by
  rw [ArpSys.drainOne]
  split
  · exact hi
  · rename_i c rest hq
    set s' : ArpSys := { s with
      drain := Function.update s.drain u { s.drain u with q := rest }
      log := s.log ++ [ArpLog.send (s.drain u).ent c (s.drain u).dhost] } with hs'
    have hlog : s'.log = s.log ++ [ArpLog.send (s.drain u).ent c (s.drain u).dhost] := rfl
    have hself : s'.drain u = { s.drain u with q := rest } := Function.update_self _ _ _
    have hother : ∀ u', u' ≠ u → s'.drain u' = s.drain u' :=
      fun u' hne => Function.update_of_ne hne _ _
    have hpushed : ∀ e, s'.pushedOn e = s.pushedOn e := by
      intro e
      rw [ArpSys.pushedOn_append hlog]
      simp [ArpLog.pushedOn?]
    have hplaces : ∀ c', s'.places c' = s.places c' := by
      intro c'
      have hdraining := ArpSys.draining_of_eq_off hu (show s'.updates = s.updates from rfl) hother c'
      have hqueued : s'.queued c' = s.queued c' := rfl
      rw [hself, hq, List.count_cons] at hdraining
      rw [ArpSys.places, ArpSys.places, ArpSys.sent_append hlog, ArpSys.freed_append hlog, hqueued]
      simp only [List.countP_singleton, ArpLog.sends, ArpLog.frees, Bool.false_eq_true, if_false,
        decide_eq_true_eq, beq_iff_eq] at hdraining ⊢
      omega
    exact { hi with
      toArpCallInv := hi.toArpCallInv.of_spare (fun _ _ _ _ h => h) fun _ _ _ e _ h =>
        ⟨⟨h.1, h.2.1, h.2.2.1, (hpushed e).trans h.2.2.2⟩, rfl⟩
      toArpPlaceInv := hi.toArpPlaceInv.keep (fun _ => Iff.rfl) hplaces
      toArpQueueInv := hi.toArpQueueInv.send hu hq rfl rfl hlog hi.toArpDrainInv rfl rfl
      toArpDrainInv := hi.toArpDrainInv.send hu hq rfl rfl hlog rfl hself hother }

/-- **An entry that is given up**, with the packets that wait on it. -/
theorem deleteEntry (hi : ArpInv crc s₀ s) (hhas : s.Has e) (hstatic : (s.ent e).state ≠ .static) :
    ArpInv crc s₀ (s.deleteEntry e) := by
  set s' := s.deleteEntry e with hs'
  have hself : s'.ent e = { s.ent e with q := [] } := Function.update_self _ _ _
  have ht : s.Touches s' e := ⟨fun e' hne => Function.update_of_ne hne _ _, by rw [hself], rfl⟩
  have hlog : s'.log = s.log ++ (s.ent e).q.map .free := rfl
  have hstate : ∀ e', (s'.ent e').state = (s.ent e').state := by
    intro e'
    by_cases hne : e' = e
    · rw [hne, hself]
    · rw [ht.ent_of_ne e' hne]
  have hhas' : ∀ e', s'.Has e' ↔ e' ≠ e ∧ s.Has e' := fun e' => Buckets.holds_remove
  have htbl : ∀ i e', e' ∈ s'.tbl i → e' ∈ s.tbl i :=
    fun i e' h => (List.mem_filter.mp h).1
  have hpushed : ∀ e', s'.pushedOn e' = s.pushedOn e' := by
    intro e'
    rw [ArpSys.pushedOn_append hlog, List.filterMap_map]
    simp [Function.comp_def, ArpLog.pushedOn?]
  have hsent : ∀ e', s'.sentFrom e' = s.sentFrom e' := by
    intro e'
    rw [ArpSys.sentFrom_append hlog, List.filterMap_map]
    simp [Function.comp_def, ArpLog.sentFrom?]
  have hplaces : ∀ c, s'.places c = s.places c := by
    intro c
    have hqueued := ArpSys.queued_of_eq_off (hi.lt_next e hhas) ht.next_eq ht.ent_of_ne c
    have hdraining : s'.draining c = s.draining c := rfl
    have hsends : ((s.ent e).q.map ArpLog.free).countP (ArpLog.sends c) = 0 := by
      rw [List.countP_map]
      simp [Function.comp_def, ArpLog.sends]
    have hfrees : ((s.ent e).q.map ArpLog.free).countP (ArpLog.frees c) = (s.ent e).q.count c := by
      rw [List.countP_map]
      rfl
    rw [hself, List.count_nil] at hqueued
    rw [ArpSys.places, ArpSys.places, ArpSys.sent_append hlog, ArpSys.freed_append hlog, hdraining,
      hsends, hfrees]
    omega
  exact {
    toArpTableInv := hi.toArpTableInv.touch ht htbl (fun e' hne h => (hhas' e').mpr ⟨hne, h⟩)
      (fun hq => absurd (by rw [hself]) hq) (hi.not_static hstatic)
    toArpCallInv := hi.toArpCallInv.touch ht (fun _ _ _ _ h => h) htbl hhas fun e' _ => hpushed e'
    toArpPlaceInv := hi.toArpPlaceInv.keep (fun _ => Iff.rfl) hplaces
    toArpQueueInv := hi.toArpQueueInv.keep rfl hpushed hsent ht.ip_eq
      (fun e' hp => by rwa [hstate] at hp)
      (fun e' h _ => ⟨((hhas' e').mp h).2, by rw [ht.ent_of_ne e' ((hhas' e').mp h).1]⟩)
      fun _ call h => ⟨call, h, rfl⟩
    toArpDrainInv := hi.toArpDrainInv.keep rfl rfl rfl ht.ip_eq
      (fun u hu => by rw [hstate]; exact hi.drain_state u hu) (fun u _ => hpushed _) hlog (by simp) }

theorem lookupEntry_some (h : s.lookupEntry crc daddr = some e) : s.Has e ∧ (s.ent e).ip = daddr :=
  ⟨⟨_, List.mem_of_find?_eq_some h⟩, by simpa using List.find?_some h⟩

theorem lookupEntry_none (hi : ArpInv crc s₀ s) (h : s.lookupEntry crc daddr = none) :
    ∀ e, s.Has e → (s.ent e).ip ≠ daddr := by
  have hall := (hi.placed.find?_eq_none_iff fun e _ he => by
    rw [decide_eq_true_eq] at he
    rw [he]).mp h
  intro e he
  simpa using hall e he

theorem not_taken {call : ArpCall} (hcall : s.call c = some call)
    (hpc : ∀ ret dhost, call.pc ≠ .returned ret dhost) : ¬ s.Taken c := by
  rintro ⟨daddr, dhost, h⟩
  rw [hcall, Option.some_inj] at h
  rw [h] at hpc
  exact hpc _ _ rfl

/-- A call that has not returned moves on, with no entry of its own. -/
theorem advance (hi : ArpInv crc s₀ s) {call : ArpCall} (hcall : s.call c = some call)
    (hpc : ∀ ret dhost, call.pc ≠ .returned ret dhost) {pc : ArpPc}
    (hnot : ∀ dhost, pc ≠ .returned (-eInProgress) dhost) (hspare : ∀ e, pc ≠ .unlocked (some e)) :
    ArpInv crc s₀ (s.setCall c { call with pc := pc }) := by
  apply hi.setCall
  · intro old hold
    rw [hcall, Option.some_inj] at hold
    rw [hold]
  · exact not_taken hcall hpc
  · rintro ⟨-, dhost, h⟩
    exact hnot dhost h
  · intro e he
    exact absurd he (hspare e)

theorem arpLookupCheck (hi : ArpInv crc s₀ s) (hcall : s.call c = none) (daddr : BitVec 32)
    (hasMbuf : Bool) : ArpInv crc s₀ (s.arpLookupCheck crc c daddr hasMbuf) := by
  have hstart : ∀ pc : ArpPc, (∀ dhost, pc ≠ .returned (-eInProgress) dhost) →
      (∀ e, pc ≠ .unlocked (some e)) → ArpInv crc s₀ (s.setCall c ⟨daddr, hasMbuf, pc⟩) := by
    intro pc hnot hspare
    apply hi.setCall
    · intro old hold
      rw [hcall] at hold
      cases hold
    · rintro ⟨daddr', dhost, h⟩
      rw [hcall] at h
      cases h
    · rintro ⟨-, dhost, h⟩
      exact hnot dhost h
    · intro e he
      exact absurd he (hspare e)
  rw [ArpSys.arpLookupCheck]
  split
  · split
    · exact hstart _ (by simp [eInProgress]) (by simp)
    · exact hstart _ (by simp) (by simp)
  · exact hstart _ (by simp) (by simp)

theorem arpLookupCreate (hi : ArpInv crc s₀ s) {call : ArpCall} (hcall : s.call c = some call)
    (hpc : ∀ ret dhost, call.pc ≠ .returned ret dhost) (alloc : Bool) (now : Usec) :
    ArpInv crc s₀ (s.arpLookupCreate c call alloc now) := by
  rw [ArpSys.arpLookupCreate]
  set s₁ : ArpSys := { s with log := s.log ++ [ArpLog.request call.daddr] } with hs₁
  have h₁ : ArpInv crc s₀ s₁ := hi.logQuiet (.inl ⟨call.daddr, rfl⟩)
  have hcall₁ : s₁.call c = some call := hcall
  split
  · obtain ⟨hspare, hip⟩ := h₁.createEntry_spare call.daddr now
    apply (h₁.createEntry call.daddr now).setCall
    · intro old hold
      rw [show (s₁.createEntry call.daddr now).call c = some call from hcall, Option.some_inj] at hold
      rw [hold]
    · exact not_taken (s := s₁.createEntry call.daddr now) hcall hpc
    · rintro ⟨-, dhost, h⟩
      cases h
    · rintro e ⟨⟩
      refine ⟨hspare, hip, fun c' daddr m hc' => ?_⟩
      exact absurd (h₁.spare c' daddr m s.next hc').1.1 (lt_irrefl _)
  · exact h₁.advance hcall₁ hpc (by simp [eInProgress, eNomem]) (by simp)

theorem arpLookupLocked (hi : ArpInv crc s₀ s) {m : Bool} {newe : Option ℕ}
    (hcall : s.call c = some ⟨daddr, m, .unlocked newe⟩) :
    ArpInv crc s₀ (s.arpLookupLocked crc c ⟨daddr, m, .unlocked newe⟩ newe) := by
  have hpc : ∀ ret dhost, (⟨daddr, m, .unlocked newe⟩ : ArpCall).pc ≠ .returned ret dhost := by simp
  cases hlookup : s.lookupEntry crc daddr with
  | some e =>
      obtain ⟨hhas, hip⟩ := lookupEntry_some hlookup
      simp only [ArpSys.arpLookupLocked, hlookup]
      split
      · exact hi.advance hcall hpc (by simp [eInProgress]) (by simp)
      · rename_i hstate
        exact hi.enqueue hcall (not_taken hcall hpc) hhas (not_not.mp hstate) hip
  | none =>
      cases newe with
      | none =>
          simp only [ArpSys.arpLookupLocked, hlookup]
          exact hi.drop hcall (not_taken hcall hpc)
      | some e =>
          obtain ⟨hspare, hip⟩ := hi.spare c daddr m e hcall
          simp only [ArpSys.arpLookupLocked, hlookup]
          -- the call gives its entry to the table, and then finds it there
          set s₁ := s.setCall c ⟨daddr, m, .unlocked none⟩ with hs₁
          have h₁ : ArpInv crc s₀ s₁ := hi.advance hcall hpc (by simp) (by simp)
          have hcalls : ∀ c' daddr' m', s₁.call c' ≠ some ⟨daddr', m', .unlocked (some e)⟩ := by
            intro c' daddr' m' hc'
            by_cases hc : c' = c
            · rw [hc, hs₁, ArpSys.setCall_call_self] at hc'
              cases hc'
            · rw [hs₁, ArpSys.setCall_call_of_ne _ _ hc] at hc'
              exact hc (hi.spare_inj c' c daddr' daddr m' m e hc' hcall)
          have h₂ := h₁.insertEntry hspare hcalls fun e' he' => by
            rw [show (s₁.ent e).ip = daddr from hip]
            exact hi.lookupEntry_none hlookup e' he'
          have hcall₂ : (s₁.insertEntry e (hashIp crc (s₁.ent e).ip)).call c =
              some ⟨daddr, m, .unlocked none⟩ := ArpSys.setCall_call_self _ _ _
          have h₃ := h₂.enqueue hcall₂ (not_taken hcall₂ (by simp))
            (Buckets.holds_insert.mpr (.inl rfl)) hspare.2.2.1 hip
          rw [show (s₁.ent e).ip = daddr from hip] at h₃
          convert h₃ using 1
          cases m <;> simp [hs₁, ArpSys.setCall, ArpSys.enqueue, ArpSys.insertEntry]

theorem arpUpdate (hi : ArpInv crc s₀ s) (daddr : BitVec 32) (dhost : BitVec 48) (alloc : Bool)
    (now : Usec) : ArpInv crc s₀ (s.arpUpdate crc daddr dhost alloc now) := by
  rw [ArpSys.arpUpdate]
  split
  · rename_i hlookup
    split
    · obtain ⟨hspare, hip⟩ := hi.createEntry_spare daddr now
      set s₁ := s.createEntry daddr now with hs₁
      have h₁ : ArpInv crc s₀ s₁ := hi.createEntry daddr now
      have hcalls : ∀ c' daddr' m', s₁.call c' ≠ some ⟨daddr', m', .unlocked (some s.next)⟩ := by
        intro c' daddr' m' hc'
        exact absurd (hi.spare c' daddr' m' s.next hc').1.1 (lt_irrefl _)
      have h₂ := h₁.insertEntry hspare hcalls fun e' he' => by
        rw [hip, hs₁, s.createEntry_ent_of_lt daddr now (hi.lt_next e' he')]
        exact hi.lookupEntry_none hlookup e' he'
      rw [hip] at h₂
      exact h₂.learn (Buckets.holds_insert.mpr (.inl rfl)) (by
        rw [show (s₁.insertEntry s.next (hashIp crc daddr)).ent s.next = s₁.ent s.next from rfl,
          hspare.2.2.1]
        decide) dhost now
    · exact hi
  · rename_i e hlookup
    split
    · exact hi
    · rename_i hstatic
      exact hi.learn (lookupEntry_some hlookup).1 hstatic dhost now

theorem retry (hi : ArpInv crc s₀ s) {x : ArpEntry} (hip : x.ip = (s.ent e).ip)
    (hq : x.q = (s.ent e).q) (hprobing : x.state = .probing ↔ (s.ent e).state = .probing)
    (hstatic : (s.ent e).state ≠ .static) : ArpInv crc s₀ (s.retry e x) := by
  have hent : ArpInv crc s₀ { s with ent := Function.update s.ent e x } := by
    apply hi.setEnt
    all_goals intro e'
    all_goals by_cases hne : e' = e
    all_goals simp only [hne, Function.update_self, ne_eq, not_false_eq_true, Function.update_of_ne]
    · exact hip
    · exact hq
    · exact hprobing
    · exact fun h => absurd h (hi.not_static hstatic)
    · exact fun _ => trivial
  exact hent.logQuiet (.inl ⟨x.ip, rfl⟩)

theorem arpAgeEntry (hi : ArpInv crc s₀ s) (hhas : s.Has e) (us now : Usec) :
    ArpInv crc s₀ (s.arpAgeEntry us e now) := by
  rw [ArpSys.arpAgeEntry]
  by_cases hdue : us - (s.ent e).ts <
      (if (s.ent e).state = .valid then arpReprobeTime else arpRetryTime)
  · rw [if_pos hdue]
    exact hi
  · rw [if_neg hdue]
    cases hstate : (s.ent e).state with
    | probing | validButReprobing =>
        dsimp only
        split
        · exact hi.deleteEntry hhas (by simp [hstate])
        · exact hi.retry rfl rfl (by simp [hstate]) (by simp [hstate])
    | valid => exact hi.retry rfl rfl (by simp [hstate]) (by simp [hstate])
    | static => exact hi

/-- **What one step preserves.** -/
theorem step (hi : ArpInv crc s₀ s) (ev : ArpEvent) : ArpInv crc s₀ (arpStep crc s ev) := by
  cases ev with
  | check c daddr hasMbuf =>
      rw [arpStep]
      split
      · rename_i hcall
        exact hi.arpLookupCheck hcall daddr hasMbuf
      · exact hi
  | create c alloc now =>
      rw [arpStep]
      split
      · rename_i daddr hasMbuf hcall
        exact hi.arpLookupCreate hcall (by simp) alloc now
      · exact hi
  | locked c =>
      rw [arpStep]
      split
      · rename_i daddr hasMbuf newe hcall
        exact hi.arpLookupLocked hcall
      · exact hi
  | update daddr dhost alloc now => exact hi.arpUpdate daddr dhost alloc now
  | drain u =>
      rw [arpStep]
      split
      · rename_i hu
        exact hi.drainOne hu
      · exact hi
  | age i e us now =>
      rw [arpStep]
      split
      · rename_i he
        exact hi.arpAgeEntry ⟨i, he⟩ us now
      · exact hi

end ArpInv

/-! ## The static entries -/

/-- What `arp_init_late` has loaded. -/
structure ArpLoaded (crc : BitVec 32 → BitVec 64 → BitVec 32) (now : Usec)
    (statics : List (BitVec 32 × BitVec 48)) (s : ArpSys) : Prop where
  placed : Buckets.Placed (fun e => hashIp crc (s.ent e).ip) s.tbl
  unique : ∀ e e', s.Has e → s.Has e' → (s.ent e).ip = (s.ent e').ip → e = e'
  lt_next : ∀ e, s.Has e → e < s.next
  of_has : ∀ e, s.Has e → ∃ x ∈ statics, s.ent e = ⟨.static, x.1, x.2, [], now, arpRetries⟩
  has : ∀ x ∈ statics, ∃ e, s.Has e ∧ s.ent e = ⟨.static, x.1, x.2, [], now, arpRetries⟩
  queue : ∀ e, (s.ent e).q = []
  idle : s.call = (fun _ => none) ∧ s.updates = 0 ∧ s.log = []

theorem ArpLoaded.init (now : Usec) : ArpLoaded crc now [] .init := by
  constructor
  case placed => exact .empty
  case unique => exact fun e _ he => absurd he (Buckets.not_holds_empty e)
  case lt_next => exact fun e he => absurd he (Buckets.not_holds_empty e)
  case of_has => exact fun e he => absurd he (Buckets.not_holds_empty e)
  case has => exact fun x hx => absurd hx List.not_mem_nil
  case queue => exact fun _ => rfl
  case idle => exact ⟨rfl, rfl, rfl⟩

theorem ArpLoaded.loadStatic {now : Usec} {statics : List (BitVec 32 × BitVec 48)}
    (hi : ArpLoaded crc now statics s) {x : BitVec 32 × BitVec 48}
    (hx : x.1 ∉ statics.map Prod.fst) :
    ArpLoaded crc now (statics ++ [x]) (s.loadStatic crc now x) := by
  set s' := s.loadStatic crc now x with hs'
  have hself : s'.ent s.next = ⟨.static, x.1, x.2, [], now, arpRetries⟩ := by
    simp [hs', ArpSys.loadStatic, ArpSys.insertEntry, ArpSys.createEntry]
  have hother : ∀ e, e ≠ s.next → s'.ent e = s.ent e := by
    intro e hne
    simp [hs', ArpSys.loadStatic, ArpSys.insertEntry, ArpSys.createEntry, hne]
  have hhas : ∀ e, s'.Has e ↔ e = s.next ∨ s.Has e := fun e => Buckets.holds_insert
  have hne : ∀ e, s.Has e → e ≠ s.next := fun e he => Nat.ne_of_lt (hi.lt_next e he)
  have hfresh : ∀ e, s.Has e → (s.ent e).ip ≠ x.1 := by
    intro e he heq
    obtain ⟨y, hy, hent⟩ := hi.of_has e he
    rw [hent] at heq
    exact hx (heq ▸ List.mem_map_of_mem hy)
  constructor
  case placed =>
    have hold : Buckets.Placed (fun e => hashIp crc (s'.ent e).ip) s.tbl :=
      hi.placed.congr fun e he => by rw [hother e (hne e he)]
    have hnew := hold.insert s.next
    rw [hself] at hnew
    exact hnew
  case unique =>
    intro e₁ e₂ h₁ h₂ heq
    rcases (hhas e₁).mp h₁ with rfl | hold₁
    · rcases (hhas e₂).mp h₂ with rfl | hold₂
      · rfl
      · rw [hself, hother e₂ (hne e₂ hold₂)] at heq
        exact absurd heq.symm (hfresh e₂ hold₂)
    · rcases (hhas e₂).mp h₂ with rfl | hold₂
      · rw [hself, hother e₁ (hne e₁ hold₁)] at heq
        exact absurd heq (hfresh e₁ hold₁)
      · rw [hother e₁ (hne e₁ hold₁), hother e₂ (hne e₂ hold₂)] at heq
        exact hi.unique e₁ e₂ hold₁ hold₂ heq
  case lt_next =>
    intro e he
    rcases (hhas e).mp he with rfl | hold
    · exact Nat.lt_succ_self _
    · exact Nat.lt_succ_of_lt (hi.lt_next e hold)
  case of_has =>
    intro e he
    rcases (hhas e).mp he with rfl | hold
    · exact ⟨x, by simp, hself⟩
    · obtain ⟨y, hy, hent⟩ := hi.of_has e hold
      exact ⟨y, List.mem_append_left _ hy, (hother e (hne e hold)).trans hent⟩
  case has =>
    intro y hy
    rcases List.mem_append.mp hy with hold | hnew
    · obtain ⟨e, he, hent⟩ := hi.has y hold
      exact ⟨e, (hhas e).mpr (.inr he), (hother e (hne e he)).trans hent⟩
    · rw [List.mem_singleton.mp hnew]
      exact ⟨s.next, (hhas _).mpr (.inl rfl), hself⟩
  case queue =>
    intro e
    by_cases heq : e = s.next
    · rw [heq, hself]
    · rw [hother e heq, hi.queue e]
  case idle => exact hi.idle

theorem ArpLoaded.foldl {now : Usec} : ∀ {rest statics : List (BitVec 32 × BitVec 48)} {s : ArpSys},
    ArpLoaded crc now statics s → ((statics ++ rest).map Prod.fst).Nodup →
      ArpLoaded crc now (statics ++ rest) (rest.foldl (fun s x => s.loadStatic crc now x) s) := by
  intro rest
  induction rest with
  | nil =>
      intro statics s hi _
      rw [List.append_nil]
      exact hi
  | cons x rest ih =>
      intro statics s hi hnodup
      have hx : x.1 ∉ statics.map Prod.fst := by
        intro hmem
        rw [List.map_append, List.map_cons, List.nodup_append] at hnodup
        exact hnodup.2.2 _ hmem _ List.mem_cons_self rfl
      rw [List.append_cons] at hnodup ⊢
      exact ih (hi.loadStatic hx) hnodup

theorem arpInitLate_loaded {statics : List (BitVec 32 × BitVec 48)} {now : Usec}
    (hnodup : (statics.map Prod.fst).Nodup) :
    ArpLoaded crc now statics (arpInitLate crc statics now) := by
  have hinit : ArpLoaded crc now [] .init := .init now
  exact hinit.foldl hnodup

theorem ArpLoaded.inv {now : Usec} {statics : List (BitVec 32 × BitVec 48)}
    (hi : ArpLoaded crc now statics s) : ArpInv crc s s := by
  obtain ⟨hcall, hupdates, hlog⟩ := hi.idle
  have hnone : ∀ c call, s.call c ≠ some call := by
    intro c call h
    rw [hcall] at h
    cases h
  have hpushed : ∀ e, s.pushedOn e = [] := fun e => by rw [ArpSys.pushedOn, hlog]; rfl
  have hsent : ∀ e, s.sentFrom e = [] := fun e => by rw [ArpSys.sentFrom, hlog]; rfl
  have hno : ∀ u, ¬ u < s.updates := fun u hu => absurd (hupdates ▸ hu) (Nat.not_lt_zero u)
  constructor
  case toArpTableInv =>
    refine ⟨hi.placed, hi.unique, hi.lt_next, fun e he => absurd (hi.queue e) he, fun e he => ?_⟩
    obtain ⟨x, -, hent⟩ := hi.of_has e he
    exact ⟨he, rfl, by rw [hent]⟩
  case toArpCallInv =>
    exact ⟨fun c _ _ _ h => absurd h (hnone c _), fun c _ _ _ _ _ _ h => absurd h (hnone c _)⟩
  case toArpPlaceInv =>
    constructor
    · rintro c ⟨_, _, h⟩
      exact absurd h (hnone c _)
    · intro c _
      simp [ArpSys.places, ArpSys.queued, ArpSys.draining, ArpSys.sent, ArpSys.freed, hi.queue,
        hupdates, hlog]
  case toArpQueueInv =>
    refine ⟨fun e _ => hpushed e, fun e _ _ => ?_, fun e c hc => ?_, fun e _ => hsent e, fun e => ?_⟩
    · rw [hpushed, hi.queue]
    · rw [hpushed] at hc
      cases hc
    · rw [hpushed, hsent]
  case toArpDrainInv =>
    refine ⟨fun u hu => absurd hu (hno u), fun u hu => absurd hu (hno u),
      fun u _ hu => absurd hu (hno u), fun u hu => absurd hu (hno u), fun u hu => absurd hu (hno u),
      fun e c dhost hsend => ?_⟩
    rw [hlog] at hsend
    cases hsend

end

/-- **The ARP table.**  Let the static entries have distinct addresses.  Then after every interleaving
of the steps of `arp_lookup`, `arp_update` and `arp_age_entry`:

* an address has at most one entry, packets wait only on entries that are being probed, and the
  static entries are there as they were loaded;
* a packet for which `arp_lookup` returned `-EINPROGRESS` is in exactly one place (on the queue of
  an entry, with an update that is transmitting the queue it took, transmitted, or freed), and any
  other packet that was passed is in none of them;
* packets are transmitted from an entry in the order in which they were put on its queue, with none
  left out, to an address that an update has learned for the one they were looked up for. -/
theorem arp_table_accounts (crc : BitVec 32 → BitVec 64 → BitVec 32)
    {statics : List (BitVec 32 × BitVec 48)} (hnodup : (statics.map Prod.fst).Nodup) (now : Usec)
    (es : List ArpEvent) (s : ArpSys)
    (hs : s = es.foldl (arpStep crc) (arpInitLate crc statics now)) :
    (∀ e e', s.Has e → s.Has e' → (s.ent e).ip = (s.ent e').ip → e = e') ∧
    (∀ e, (s.ent e).q ≠ [] → s.Has e ∧ (s.ent e).state = .probing) ∧
    (∀ e, (arpInitLate crc statics now).Has e →
      s.Has e ∧ s.ent e = (arpInitLate crc statics now).ent e) ∧
    (∀ x ∈ statics, ∃ e, s.Has e ∧ s.ent e = ⟨.static, x.1, x.2, [], now, arpRetries⟩) ∧
    (∀ c, (s.Taken c → s.queued c + s.draining c + s.sent c + s.freed c = 1) ∧
      (¬ s.Taken c → s.queued c + s.draining c + s.sent c + s.freed c = 0)) ∧
    (∀ e, s.sentFrom e <+: s.pushedOn e) ∧
    ∀ e c dhost, .send e c dhost ∈ s.log →
      ∃ call, s.call c = some call ∧ .learn call.daddr dhost ∈ s.log := by
  have hload : ArpLoaded crc now statics (arpInitLate crc statics now) := arpInitLate_loaded hnodup
  have hi : ArpInv crc (arpInitLate crc statics now) s := by
    rw [hs]
    exact List.foldlRecOn es (arpStep crc) hload.inv fun t ht ev _ => ht.step ev
  refine ⟨hi.unique, hi.queue, fun e he => ⟨(hi.static e he).1, (hi.static e he).2.1⟩, ?_,
    fun c => ⟨hi.taken c, hi.notTaken c⟩, hi.order, ?_⟩
  · intro x hx
    obtain ⟨e, he, hent⟩ := hload.has x hx
    exact ⟨e, (hi.static e he).1, (hi.static e he).2.1.trans hent⟩
  · intro e c dhost hsend
    have hmem : c ∈ s.sentFrom e := List.mem_filterMap.mpr ⟨_, hsend, by simp [ArpLog.sentFrom?]⟩
    obtain ⟨call, hcall, haddr⟩ := hi.pushed_for e c ((hi.order e).subset hmem)
    refine ⟨call, hcall, ?_⟩
    rw [haddr]
    exact hi.sent_learned e c dhost hsend

/-- A packet waits for the address of host 2 behind a static entry, and is transmitted when the
address is learned. -/
def arpResolved : List ArpEvent :=
  [.check 0 2 true, .create 0 true 0, .locked 0, .update 2 7 true 5, .drain 0]

theorem arp_table_accounts_resolved :
    let s := arpResolved.foldl (arpStep fun _ _ => 0) (arpInitLate (fun _ _ => 0) [(1, 9)] 0)
    s.sent 0 = 1 ∧ s.queued 0 + s.draining 0 + s.sent 0 + s.freed 0 = 1 := by
  have hall := @arp_table_accounts (fun _ _ => 0) [(1, 9)] (by decide) 0 arpResolved _ rfl
  exact ⟨by decide, (hall.2.2.2.2.1 0).1 ⟨2, none, by decide⟩⟩

end Skyloft
