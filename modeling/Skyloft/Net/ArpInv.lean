import Skyloft.Lib.Ledger
import Skyloft.Net.Arp

/-!
# Packets that wait for an address

What holds of the ARP table whenever its lock is free.  An address has one entry, packets wait only
on an entry that is being probed, and a static entry stays as it is.  Every packet that
`arp_lookup` took over is in one place: on the queue of an entry, with an update that transmits the
queue it took, transmitted or freed.

The invariant has five parts, each with the lemmas by which it is kept: the table, the entries that
lookups have created, the places of the packets, the queues, and the updates that transmit.

* `ArpSys.places` — in how many places a packet is.
* `ArpInv` — the invariant.
-/

namespace Skyloft

open Ledger

/-! ## Where packets are -/

def ArpLog.sends (c : ℕ) : ArpLog → Bool
  | .send _ c' _ => c' = c
  | _ => false

def ArpLog.frees (c : ℕ) : ArpLog → Bool
  | .free c' => c' = c
  | _ => false

def ArpLog.pushedOn? (e : ℕ) : ArpLog → Option ℕ
  | .push e' c => if e' = e then some c else none
  | _ => none

def ArpLog.sentFrom? (e : ℕ) : ArpLog → Option ℕ
  | .send e' c _ => if e' = e then some c else none
  | _ => none

namespace ArpSys

/-- The entry is in the table. -/
def Has (s : ArpSys) (e : ℕ) : Prop := Buckets.Holds s.tbl e

/-- The packets that were put on the queue of an entry, in order, and those that were transmitted
from there. -/
def pushedOn (s : ArpSys) (e : ℕ) : List ℕ := s.log.filterMap (ArpLog.pushedOn? e)
def sentFrom (s : ArpSys) (e : ℕ) : List ℕ := s.log.filterMap (ArpLog.sentFrom? e)

/-- How often a packet is on the queues of the entries, with the updates that transmit, transmitted,
and freed. -/
def queued (s : ArpSys) (c : ℕ) : ℕ := ∑ e ∈ Finset.range s.next, (s.ent e).q.count c
def draining (s : ArpSys) (c : ℕ) : ℕ := ∑ u ∈ Finset.range s.updates, (s.drain u).q.count c
def sent (s : ArpSys) (c : ℕ) : ℕ := s.log.countP (ArpLog.sends c)
def freed (s : ArpSys) (c : ℕ) : ℕ := s.log.countP (ArpLog.frees c)

def places (s : ArpSys) (c : ℕ) : ℕ := s.queued c + s.draining c + s.sent c + s.freed c

/-- `arp_lookup` took over the packet: it returned `-EINPROGRESS`. -/
def Taken (s : ArpSys) (c : ℕ) : Prop :=
  ∃ daddr dhost, s.call c = some ⟨daddr, true, .returned (-eInProgress) dhost⟩

theorem setCall_call_self (s : ArpSys) (c : ℕ) (call : ArpCall) :
    (s.setCall c call).call c = some call := Function.update_self _ _ _

theorem setCall_call_of_ne (s : ArpSys) {c c' : ℕ} (call : ArpCall) (hne : c' ≠ c) :
    (s.setCall c call).call c' = s.call c' := Function.update_of_ne hne _ _

theorem taken_setCall_self {s : ArpSys} {c : ℕ} {call : ArpCall} :
    (s.setCall c call).Taken c ↔
      call.hasMbuf = true ∧ ∃ dhost, call.pc = .returned (-eInProgress) dhost := by
  rw [Taken, setCall_call_self]
  constructor
  · rintro ⟨daddr, dhost, h⟩
    cases h
    exact ⟨rfl, dhost, rfl⟩
  · obtain ⟨daddr, hasMbuf, pc⟩ := call
    rintro ⟨rfl, dhost, rfl⟩
    exact ⟨daddr, dhost, rfl⟩

theorem taken_setCall_of_ne {s : ArpSys} {c c' : ℕ} {call : ArpCall} (hne : c' ≠ c) :
    (s.setCall c call).Taken c' ↔ s.Taken c' := by
  rw [Taken, Taken, setCall_call_of_ne s call hne]

/-- A call that has returned has no entry of its own. -/
theorem unlocked_of_setCall_returned {s : ArpSys} {c c' : ℕ} {call : ArpCall} {ret : ℤ}
    {dhost : Option (BitVec 48)} {daddr : BitVec 32} {m : Bool} {newe : Option ℕ}
    (h : (s.setCall c { call with pc := .returned ret dhost }).call c' =
      some ⟨daddr, m, .unlocked newe⟩) : s.call c' = some ⟨daddr, m, .unlocked newe⟩ := by
  by_cases hc : c' = c
  · rw [hc, setCall_call_self] at h
    cases h
  · rw [setCall_call_of_ne _ _ hc] at h
    exact h

theorem exists_call_of_setCall {s : ArpSys} {c : ℕ} {call : ArpCall}
    (hdaddr : ∀ old, s.call c = some old → old.daddr = call.daddr) {c' : ℕ} {old : ArpCall}
    (h : s.call c' = some old) :
    ∃ call', (s.setCall c call).call c' = some call' ∧ call'.daddr = old.daddr := by
  by_cases hc : c' = c
  · subst hc
    exact ⟨call, setCall_call_self _ _ _, (hdaddr old h).symm⟩
  · exact ⟨old, (setCall_call_of_ne _ _ hc).trans h, rfl⟩

section

variable {s s' : ArpSys} {l : List ArpLog} (hlog : s'.log = s.log ++ l)
include hlog

theorem pushedOn_append (e : ℕ) :
    s'.pushedOn e = s.pushedOn e ++ l.filterMap (ArpLog.pushedOn? e) := by
  rw [pushedOn, hlog, List.filterMap_append]
  rfl

theorem sentFrom_append (e : ℕ) :
    s'.sentFrom e = s.sentFrom e ++ l.filterMap (ArpLog.sentFrom? e) := by
  rw [sentFrom, hlog, List.filterMap_append]
  rfl

theorem sent_append (c : ℕ) : s'.sent c = s.sent c + l.countP (ArpLog.sends c) := by
  rw [sent, hlog, List.countP_append]
  rfl

theorem freed_append (c : ℕ) : s'.freed c = s.freed c + l.countP (ArpLog.frees c) := by
  rw [freed, hlog, List.countP_append]
  rfl

end

/-- What the queues gain is what the one queue gains that changes. -/
theorem queued_of_eq_off {s s' : ArpSys} {e : ℕ} (he : e < s.next) (hnext : s'.next = s.next)
    (h : ∀ e', e' ≠ e → s'.ent e' = s.ent e') (c : ℕ) :
    s'.queued c + (s.ent e).q.count c = s.queued c + (s'.ent e).q.count c := by
  rw [queued, hnext]
  exact sum_add_comm_of_eq_off_mem (f := fun e' => (s.ent e').q.count c)
    (g := fun e' => (s'.ent e').q.count c) (Finset.mem_range.mpr he) fun e' hne => by rw [h e' hne]

theorem draining_of_eq_off {s s' : ArpSys} {u : ℕ} (hu : u < s.updates)
    (hupdates : s'.updates = s.updates) (h : ∀ u', u' ≠ u → s'.drain u' = s.drain u') (c : ℕ) :
    s'.draining c + (s.drain u).q.count c = s.draining c + (s'.drain u).q.count c := by
  rw [draining, hupdates]
  exact sum_add_comm_of_eq_off_mem (f := fun u' => (s.drain u').q.count c)
    (g := fun u' => (s'.drain u').q.count c) (Finset.mem_range.mpr hu)
    fun u' hne => by rw [h u' hne]

theorem createEntry_ent_of_lt (s : ArpSys) (daddr : BitVec 32) (now : Usec) {e : ℕ}
    (he : e < s.next) : (s.createEntry daddr now).ent e = s.ent e :=
  Function.update_of_ne (Nat.ne_of_lt he) _ _

/-- An entry that was created and is not yet in the table. -/
def Spare (s : ArpSys) (e : ℕ) : Prop :=
  e < s.next ∧ ¬ s.Has e ∧ (s.ent e).state = .probing ∧ s.pushedOn e = []

end ArpSys

/-! ## The invariant -/

/-- An address has one entry, packets wait only on entries that are being probed, and the entries of
`s₀`, which are static, stay. -/
structure ArpTableInv (crc : BitVec 32 → BitVec 64 → BitVec 32) (s₀ s : ArpSys) : Prop where
  placed : Buckets.Placed (fun e => hashIp crc (s.ent e).ip) s.tbl
  unique : ∀ e e', s.Has e → s.Has e' → (s.ent e).ip = (s.ent e').ip → e = e'
  lt_next : ∀ e, s.Has e → e < s.next
  queue : ∀ e, (s.ent e).q ≠ [] → s.Has e ∧ (s.ent e).state = .probing
  static : ∀ e, s₀.Has e → s.Has e ∧ s.ent e = s₀.ent e ∧ (s.ent e).state = .static

/-- The entries that lookups have created are their own. -/
structure ArpCallInv (s : ArpSys) : Prop where
  spare : ∀ c daddr m e, s.call c = some ⟨daddr, m, .unlocked (some e)⟩ →
    s.Spare e ∧ (s.ent e).ip = daddr
  spare_inj : ∀ c c' daddr daddr' m m' e, s.call c = some ⟨daddr, m, .unlocked (some e)⟩ →
    s.call c' = some ⟨daddr', m', .unlocked (some e)⟩ → c = c'

/-- A packet that was taken over is in one place, any other in none. -/
structure ArpPlaceInv (s : ArpSys) : Prop where
  taken : ∀ c, s.Taken c → s.places c = 1
  notTaken : ∀ c, ¬ s.Taken c → s.places c = 0

/-- What was put on a queue is there until the entry is resolved, and is sent from there in order. -/
structure ArpQueueInv (s : ArpSys) : Prop where
  pushed_of_ge : ∀ e, s.next ≤ e → s.pushedOn e = []
  pushed : ∀ e, s.Has e → (s.ent e).state = .probing → s.pushedOn e = (s.ent e).q
  pushed_for : ∀ e c, c ∈ s.pushedOn e →
    ∃ call, s.call c = some call ∧ call.daddr = (s.ent e).ip
  unsent : ∀ e, (s.ent e).state = .probing → s.sentFrom e = []
  order : ∀ e, s.sentFrom e <+: s.pushedOn e

/-- An update that transmits has what is left of the queue of an entry, and the address it learned. -/
structure ArpDrainInv (s : ArpSys) : Prop where
  drain_lt : ∀ u, u < s.updates → (s.drain u).ent < s.next
  drain_state : ∀ u, u < s.updates → (s.ent (s.drain u).ent).state ≠ .probing
  drain_one : ∀ u u', u < s.updates → u' < s.updates → (s.drain u).ent = (s.drain u').ent →
    (s.drain u).q ≠ [] → (s.drain u').q ≠ [] → u = u'
  drain_pushed : ∀ u, u < s.updates → (s.drain u).q ≠ [] →
    s.pushedOn (s.drain u).ent = s.sentFrom (s.drain u).ent ++ (s.drain u).q
  drain_learned : ∀ u, u < s.updates →
    .learn (s.ent (s.drain u).ent).ip (s.drain u).dhost ∈ s.log
  sent_learned : ∀ e c dhost, .send e c dhost ∈ s.log → .learn (s.ent e).ip dhost ∈ s.log

/-- What holds whenever the lock is free, after a start in `s₀`. -/
structure ArpInv (crc : BitVec 32 → BitVec 64 → BitVec 32) (s₀ s : ArpSys) : Prop extends
  ArpTableInv crc s₀ s, ArpCallInv s, ArpPlaceInv s, ArpQueueInv s, ArpDrainInv s

section

variable {crc : BitVec 32 → BitVec 64 → BitVec 32} {s₀ s s' : ArpSys} {e c : ℕ}

/-! ## One entry changes -/

/-- At most the entry `e` changes, and it keeps its address. -/
structure ArpSys.Touches (s s' : ArpSys) (e : ℕ) : Prop where
  ent_of_ne : ∀ e', e' ≠ e → s'.ent e' = s.ent e'
  ip_self : (s'.ent e).ip = (s.ent e).ip
  next_eq : s'.next = s.next

theorem ArpSys.Touches.ip_eq (h : s.Touches s' e) (e' : ℕ) : (s'.ent e').ip = (s.ent e').ip := by
  by_cases hne : e' = e
  · rw [hne, h.ip_self]
  · rw [h.ent_of_ne e' hne]

theorem ArpTableInv.not_static (hi : ArpTableInv crc s₀ s) (he : (s.ent e).state ≠ .static) :
    ¬ s₀.Has e :=
  fun h => he (hi.static e h).2.2

theorem ArpTableInv.q_eq_nil (hi : ArpTableInv crc s₀ s)
    (he : ¬ (s.Has e ∧ (s.ent e).state = .probing)) : (s.ent e).q = [] := by
  by_contra hne
  exact he (hi.queue e hne)

/-- An entry changes that is not static, and perhaps leaves the table. -/
theorem ArpTableInv.touch (hi : ArpTableInv crc s₀ s) (ht : s.Touches s' e)
    (htbl : ∀ i e', e' ∈ s'.tbl i → e' ∈ s.tbl i) (hkeep : ∀ e', e' ≠ e → s.Has e' → s'.Has e')
    (hqueue : (s'.ent e).q ≠ [] → s'.Has e ∧ (s'.ent e).state = .probing)
    (hstatic : ¬ s₀.Has e) : ArpTableInv crc s₀ s' := by
  have hhas : ∀ e', s'.Has e' → s.Has e' := fun e' ⟨i, hi⟩ => ⟨i, htbl i e' hi⟩
  constructor
  case placed =>
    intro i e' he'
    dsimp only
    rw [ht.ip_eq]
    exact hi.placed i e' (htbl i e' he')
  case unique =>
    intro e₁ e₂ h₁ h₂
    rw [ht.ip_eq, ht.ip_eq]
    exact hi.unique e₁ e₂ (hhas e₁ h₁) (hhas e₂ h₂)
  case lt_next =>
    intro e' he'
    rw [ht.next_eq]
    exact hi.lt_next e' (hhas e' he')
  case queue =>
    intro e' he'
    by_cases hne : e' = e
    · subst hne
      exact hqueue he'
    · rw [ht.ent_of_ne e' hne] at he' ⊢
      exact ⟨hkeep e' hne (hi.queue e' he').1, (hi.queue e' he').2⟩
  case static =>
    intro e' he'
    have hne : e' ≠ e := by
      rintro rfl
      exact hstatic he'
    rw [ht.ent_of_ne e' hne]
    exact ⟨hkeep e' hne (hi.static e' he').1, (hi.static e' he').2⟩

/-- Spare entries stay spare. -/
theorem ArpCallInv.of_spare (hi : ArpCallInv s)
    (hcall : ∀ c daddr m e, s'.call c = some ⟨daddr, m, .unlocked (some e)⟩ →
      s.call c = some ⟨daddr, m, .unlocked (some e)⟩)
    (hspare : ∀ c daddr m e, s.call c = some ⟨daddr, m, .unlocked (some e)⟩ → s.Spare e →
      s'.Spare e ∧ (s'.ent e).ip = (s.ent e).ip) : ArpCallInv s' := by
  constructor
  · intro c daddr m e hc
    obtain ⟨hold, haddr⟩ := hi.spare c daddr m e (hcall c daddr m e hc)
    obtain ⟨hnew, hip⟩ := hspare c daddr m e (hcall c daddr m e hc) hold
    exact ⟨hnew, hip.trans haddr⟩
  · intro c₁ c₂ daddr₁ daddr₂ m₁ m₂ e h₁ h₂
    exact hi.spare_inj c₁ c₂ daddr₁ daddr₂ m₁ m₂ e (hcall c₁ daddr₁ m₁ e h₁) (hcall c₂ daddr₂ m₂ e h₂)

/-- The spare entries are not touched. -/
theorem ArpCallInv.touch (hi : ArpCallInv s) (ht : s.Touches s' e)
    (hcall : ∀ c daddr m e, s'.call c = some ⟨daddr, m, .unlocked (some e)⟩ →
      s.call c = some ⟨daddr, m, .unlocked (some e)⟩)
    (htbl : ∀ i e', e' ∈ s'.tbl i → e' ∈ s.tbl i) (he : s.Has e)
    (hpushed : ∀ e', e' ≠ e → s'.pushedOn e' = s.pushedOn e') : ArpCallInv s' := by
  apply hi.of_spare hcall
  rintro c daddr m e' - ⟨hlt, hnot, hstate, hnone⟩
  have hne : e' ≠ e := by
    rintro rfl
    exact hnot he
  rw [ArpSys.Spare, ht.next_eq, ht.ent_of_ne e' hne, hpushed e' hne]
  exact ⟨⟨hlt, fun ⟨i, h⟩ => hnot ⟨i, htbl i e' h⟩, hstate, hnone⟩, rfl⟩

theorem ArpPlaceInv.keep (hi : ArpPlaceInv s) (htaken : ∀ c, s'.Taken c ↔ s.Taken c)
    (hplaces : ∀ c, s'.places c = s.places c) : ArpPlaceInv s' := by
  constructor
  · intro c hc
    rw [hplaces, hi.taken c ((htaken c).mp hc)]
  · intro c hc
    rw [hplaces, hi.notTaken c fun h => hc ((htaken c).mpr h)]

/-- A packet is taken over and put in one place. -/
theorem ArpPlaceInv.take (hi : ArpPlaceInv s) (hnot : ¬ s.Taken c) (hnow : s'.Taken c)
    (htaken : ∀ c', c' ≠ c → (s'.Taken c' ↔ s.Taken c'))
    (hplaces : ∀ c', s'.places c' = s.places c' + if c = c' then 1 else 0) : ArpPlaceInv s' := by
  constructor
  · intro c' hc'
    by_cases hc : c' = c
    · rw [hc, hplaces, if_pos rfl, hi.notTaken c hnot]
    · rw [hplaces, if_neg (Ne.symm hc), hi.taken c' ((htaken c' hc).mp hc')]
  · intro c' hc'
    have hc : c' ≠ c := by
      rintro rfl
      exact hc' hnow
    rw [hplaces, if_neg (Ne.symm hc), hi.notTaken c' fun h => hc' ((htaken c' hc).mpr h)]

/-- Nothing is put on the queues or sent from there. -/
theorem ArpQueueInv.keep (hi : ArpQueueInv s) (hnext : s'.next = s.next)
    (hpushed : ∀ e, s'.pushedOn e = s.pushedOn e) (hsent : ∀ e, s'.sentFrom e = s.sentFrom e)
    (hip : ∀ e, (s'.ent e).ip = (s.ent e).ip)
    (hprobing : ∀ e, (s'.ent e).state = .probing → (s.ent e).state = .probing)
    (hhas : ∀ e, s'.Has e → (s'.ent e).state = .probing → s.Has e ∧ (s'.ent e).q = (s.ent e).q)
    (hcall : ∀ c call, s.call c = some call →
      ∃ call', s'.call c = some call' ∧ call'.daddr = call.daddr) : ArpQueueInv s' := by
  constructor
  case pushed_of_ge =>
    intro e he
    rw [hpushed, hi.pushed_of_ge e (hnext ▸ he)]
  case pushed =>
    intro e he hp
    obtain ⟨hold, hq⟩ := hhas e he hp
    rw [hpushed, hq, hi.pushed e hold (hprobing e hp)]
  case pushed_for =>
    intro e c hc
    rw [hpushed] at hc
    obtain ⟨call, hold, haddr⟩ := hi.pushed_for e c hc
    obtain ⟨call', hnew, haddr'⟩ := hcall c call hold
    exact ⟨call', hnew, by rw [haddr', haddr, hip]⟩
  case unsent =>
    intro e he
    rw [hsent, hi.unsent e (hprobing e he)]
  case order =>
    intro e
    rw [hsent, hpushed]
    exact hi.order e

/-- A packet is put on the queue of an entry that is being probed. -/
theorem ArpQueueInv.push (hi : ArpQueueInv s) (ht : s.Touches s' e) (htbl : s'.tbl = s.tbl)
    (hlog : s'.log = s.log ++ [.push e c]) (hlt : e < s.next)
    (hstate : (s'.ent e).state = (s.ent e).state) (hq : (s'.ent e).q = (s.ent e).q ++ [c])
    (hother : ∀ c', c' ≠ c → s'.call c' = s.call c') {call call' : ArpCall}
    (hcall : s.call c = some call) (hcall' : s'.call c = some call')
    (haddr : call'.daddr = call.daddr) (hip : call.daddr = (s.ent e).ip) : ArpQueueInv s' := by
  have hstate' : ∀ e', (s'.ent e').state = (s.ent e').state := by
    intro e'
    by_cases hne : e' = e
    · rw [hne, hstate]
    · rw [ht.ent_of_ne e' hne]
  have hpushed : ∀ e', s'.pushedOn e' = s.pushedOn e' ++ if e = e' then [c] else [] := by
    intro e'
    rw [ArpSys.pushedOn_append hlog]
    by_cases hne : e = e' <;> simp [ArpLog.pushedOn?, hne]
  have hsent : ∀ e', s'.sentFrom e' = s.sentFrom e' := by
    intro e'
    rw [ArpSys.sentFrom_append hlog]
    simp [ArpLog.sentFrom?]
  constructor
  case pushed_of_ge =>
    intro e' he'
    rw [ht.next_eq] at he'
    rw [hpushed, if_neg (Nat.ne_of_lt (lt_of_lt_of_le hlt he')), List.append_nil,
      hi.pushed_of_ge e' he']
  case pushed =>
    intro e' he' hp
    rw [ArpSys.Has, htbl] at he'
    rw [hstate'] at hp
    rw [hpushed, hi.pushed e' he' hp]
    by_cases hne : e = e'
    · rw [if_pos hne, ← hne, hq]
    · rw [if_neg hne, List.append_nil, ht.ent_of_ne e' (Ne.symm hne)]
  case pushed_for =>
    intro e' c' hc'
    rw [ht.ip_eq]
    by_cases hc : c' = c
    · subst hc
      refine ⟨call', hcall', ?_⟩
      by_cases hne : e = e'
      · rw [← hne, haddr, hip]
      · rw [hpushed, if_neg hne, List.append_nil] at hc'
        obtain ⟨old, hold, hold'⟩ := hi.pushed_for e' c' hc'
        rw [hcall, Option.some_inj] at hold
        rw [haddr, hold, hold']
    · rw [hother c' hc]
      apply hi.pushed_for e' c'
      rw [hpushed, List.mem_append] at hc'
      rcases hc' with hold | hnew
      · exact hold
      · split at hnew
        · exact absurd (List.mem_singleton.mp hnew) hc
        · cases hnew
  case unsent =>
    intro e' he'
    rw [hstate'] at he'
    rw [hsent, hi.unsent e' he']
  case order =>
    intro e'
    rw [hsent, hpushed]
    exact (hi.order e').trans (List.prefix_append _ _)

/-- The updates that transmit go on as they were. -/
theorem ArpDrainInv.keep (hi : ArpDrainInv s) (hdrain : s'.drain = s.drain)
    (hupdates : s'.updates = s.updates) (hnext : s'.next = s.next)
    (hip : ∀ e, (s'.ent e).ip = (s.ent e).ip)
    (hstate : ∀ u, u < s.updates → (s'.ent (s.drain u).ent).state ≠ .probing)
    (hpushed : ∀ u, u < s.updates → s'.pushedOn (s.drain u).ent = s.pushedOn (s.drain u).ent)
    {l : List ArpLog} (hlog : s'.log = s.log ++ l) (hl : ∀ e c dhost, .send e c dhost ∉ l) :
    ArpDrainInv s' := by
  have hsent : ∀ e, s'.sentFrom e = s.sentFrom e := by
    intro e
    rw [ArpSys.sentFrom_append hlog, List.filterMap_eq_nil_iff.mpr, List.append_nil]
    rintro (_ | _ | _ | ⟨e', c, dhost⟩ | _) hx
    case send => exact absurd hx (hl e' c dhost)
    all_goals rfl
  constructor
  case drain_lt =>
    rw [hdrain, hupdates, hnext]
    exact hi.drain_lt
  case drain_state =>
    rw [hdrain, hupdates]
    exact hstate
  case drain_one =>
    rw [hdrain, hupdates]
    exact hi.drain_one
  case drain_pushed =>
    intro u hu hq
    rw [hupdates] at hu
    rw [hdrain] at hq ⊢
    rw [hpushed u hu, hsent]
    exact hi.drain_pushed u hu hq
  case drain_learned =>
    intro u hu
    rw [hupdates] at hu
    rw [hdrain, hip, hlog]
    exact List.mem_append_left _ (hi.drain_learned u hu)
  case sent_learned =>
    intro e c dhost hsend
    rw [hlog] at hsend ⊢
    rw [hip]
    apply List.mem_append_left
    exact hi.sent_learned e c dhost ((List.mem_append.mp hsend).resolve_right (hl e c dhost))

/-- An update takes the queue of an entry.  If there are packets on it, then the entry was being
probed, and no other update has packets of it. -/
theorem ArpDrainInv.learn (hi : ArpDrainInv s) (htable : ArpTableInv crc s₀ s)
    (hqueue : ArpQueueInv s) (hhas : s.Has e) (dhost : BitVec 48) (now : Usec) :
    ArpDrainInv (s.learn e dhost now) := by
  set s' := s.learn e dhost now with hs'
  have hlog : s'.log = s.log ++ [ArpLog.learn (s.ent e).ip dhost] := rfl
  have hself : s'.drain s.updates = ⟨e, dhost, (s.ent e).q⟩ := Function.update_self _ _ _
  have hother : ∀ u, u < s.updates → s'.drain u = s.drain u :=
    fun u hu => Function.update_of_ne (Nat.ne_of_lt hu) _ _
  have hip : ∀ e', (s'.ent e').ip = (s.ent e').ip := by
    intro e'
    by_cases hne : e' = e
    · simp [hs', ArpSys.learn, hne]
    · simp [hs', ArpSys.learn, hne]
  have hstate : ∀ e', (s'.ent e').state = .probing → (s.ent e').state = .probing ∧ e' ≠ e := by
    intro e' hp
    by_cases hne : e' = e
    · simp [hs', ArpSys.learn, hne] at hp
    · rw [hs', ArpSys.learn] at hp
      exact ⟨by simpa [hne] using hp, hne⟩
  have hpushed : ∀ e', s'.pushedOn e' = s.pushedOn e' := by
    intro e'
    rw [ArpSys.pushedOn_append hlog]
    simp [ArpLog.pushedOn?]
  have hsent : ∀ e', s'.sentFrom e' = s.sentFrom e' := by
    intro e'
    rw [ArpSys.sentFrom_append hlog]
    simp [ArpLog.sentFrom?]
  have hcases : ∀ u, u < s'.updates → u < s.updates ∨ u = s.updates :=
    fun u hu => Nat.lt_succ_iff_lt_or_eq.mp hu
  have hfirst : ∀ u, u < s.updates → (s.drain u).ent = e → (s.ent e).q = [] := by
    intro u hu he
    apply htable.q_eq_nil
    rintro ⟨-, hp⟩
    exact hi.drain_state u hu (he ▸ hp)
  constructor
  case drain_lt =>
    intro u hu
    rcases hcases u hu with hold | rfl
    · rw [hother u hold]
      exact hi.drain_lt u hold
    · rw [hself]
      exact htable.lt_next e hhas
  case drain_state =>
    intro u hu hp
    rcases hcases u hu with hold | rfl
    · rw [hother u hold] at hp
      exact hi.drain_state u hold (hstate _ hp).1
    · rw [hself] at hp
      exact (hstate _ hp).2 rfl
  case drain_one =>
    intro u u' hu hu' hent hq hq'
    rcases hcases u hu with hold | rfl
    · rcases hcases u' hu' with hold' | rfl
      · rw [hother u hold] at hent hq
        rw [hother u' hold'] at hent hq'
        exact hi.drain_one u u' hold hold' hent hq hq'
      · rw [hself] at hent hq'
        rw [hother u hold] at hent
        exact absurd (hfirst u hold hent) hq'
    · rcases hcases u' hu' with hold' | rfl
      · rw [hself] at hent hq
        rw [hother u' hold'] at hent
        exact absurd (hfirst u' hold' hent.symm) hq
      · rfl
  case drain_pushed =>
    intro u hu hq
    rw [hpushed, hsent]
    rcases hcases u hu with hold | rfl
    · rw [hother u hold] at hq ⊢
      exact hi.drain_pushed u hold hq
    · rw [hself] at hq ⊢
      have hp := (htable.queue e hq).2
      rw [hqueue.unsent e hp, List.nil_append]
      exact hqueue.pushed e hhas hp
  case drain_learned =>
    intro u hu
    rw [hip, hlog]
    rcases hcases u hu with hold | rfl
    · rw [hother u hold]
      exact List.mem_append_left _ (hi.drain_learned u hold)
    · rw [hself]
      exact List.mem_append_right _ (List.mem_singleton_self _)
  case sent_learned =>
    intro e' c dhost' hsend
    rw [hlog] at hsend ⊢
    rw [hip]
    apply List.mem_append_left
    rcases List.mem_append.mp hsend with hold | hnew
    · exact hi.sent_learned e' c dhost' hold
    · cases List.mem_singleton.mp hnew

section

-- the head of the queue that update `u` has taken is sent
variable {u : ℕ} {rest : List ℕ} (hu : u < s.updates) (hq : (s.drain u).q = c :: rest)
  (hent : s'.ent = s.ent) (hnext : s'.next = s.next)
  (hlog : s'.log = s.log ++ [.send (s.drain u).ent c (s.drain u).dhost])
include hu hq hent hnext hlog

theorem ArpQueueInv.send (hi : ArpQueueInv s) (hdrain : ArpDrainInv s) (htbl : s'.tbl = s.tbl)
    (hcall : s'.call = s.call) : ArpQueueInv s' := by
  have hpushed : ∀ e, s'.pushedOn e = s.pushedOn e := by
    intro e
    rw [ArpSys.pushedOn_append hlog]
    simp [ArpLog.pushedOn?]
  have hsent : s'.sentFrom (s.drain u).ent = s.sentFrom (s.drain u).ent ++ [c] := by
    rw [ArpSys.sentFrom_append hlog]
    simp [ArpLog.sentFrom?]
  have hsent_ne : ∀ e, e ≠ (s.drain u).ent → s'.sentFrom e = s.sentFrom e := by
    intro e hne
    rw [ArpSys.sentFrom_append hlog]
    simp [ArpLog.sentFrom?, Ne.symm hne]
  constructor
  case pushed_of_ge =>
    intro e he
    rw [hpushed, hi.pushed_of_ge e (hnext ▸ he)]
  case pushed =>
    intro e he hp
    rw [ArpSys.Has, htbl] at he
    rw [hent] at hp ⊢
    rw [hpushed, hi.pushed e he hp]
  case pushed_for =>
    intro e c' hc'
    rw [hpushed] at hc'
    rw [hent, hcall]
    exact hi.pushed_for e c' hc'
  case unsent =>
    intro e hp
    rw [hent] at hp
    have hne : e ≠ (s.drain u).ent := by
      rintro rfl
      exact hdrain.drain_state u hu hp
    rw [hsent_ne e hne, hi.unsent e hp]
  case order =>
    intro e
    rw [hpushed]
    by_cases hne : e = (s.drain u).ent
    · rw [hne, hsent, hdrain.drain_pushed u hu (by simp [hq]), hq]
      exact ⟨rest, by simp⟩
    · rw [hsent_ne e hne]
      exact hi.order e

theorem ArpDrainInv.send (hi : ArpDrainInv s) (hupdates : s'.updates = s.updates)
    (hself : s'.drain u = { s.drain u with q := rest })
    (hother : ∀ u', u' ≠ u → s'.drain u' = s.drain u') : ArpDrainInv s' := by
  have hsame : ∀ u', (s'.drain u').ent = (s.drain u').ent ∧
      (s'.drain u').dhost = (s.drain u').dhost ∧ ((s'.drain u').q ≠ [] → (s.drain u').q ≠ []) := by
    intro u'
    by_cases hne : u' = u
    · rw [hne, hself, hq]
      exact ⟨rfl, rfl, fun _ => List.cons_ne_nil _ _⟩
    · rw [hother u' hne]
      exact ⟨rfl, rfl, id⟩
  have hpushed : ∀ e, s'.pushedOn e = s.pushedOn e := by
    intro e
    rw [ArpSys.pushedOn_append hlog]
    simp [ArpLog.pushedOn?]
  constructor
  case drain_lt =>
    intro u' hu'
    rw [(hsame u').1, hnext]
    exact hi.drain_lt u' (hupdates ▸ hu')
  case drain_state =>
    intro u' hu'
    rw [(hsame u').1, hent]
    exact hi.drain_state u' (hupdates ▸ hu')
  case drain_one =>
    intro u₁ u₂ h₁ h₂ heq hq₁ hq₂
    rw [(hsame u₁).1, (hsame u₂).1] at heq
    exact hi.drain_one u₁ u₂ (hupdates ▸ h₁) (hupdates ▸ h₂) heq ((hsame u₁).2.2 hq₁)
      ((hsame u₂).2.2 hq₂)
  case drain_pushed =>
    intro u' hu' hq'
    rw [hupdates] at hu'
    rw [(hsame u').1, hpushed, hi.drain_pushed u' hu' ((hsame u').2.2 hq'),
      ArpSys.sentFrom_append hlog]
    by_cases hne : u' = u
    · rw [hne, hself, hq]
      simp [ArpLog.sentFrom?]
    · -- another update has packets, so they are of another entry
      have hent_ne : (s.drain u).ent ≠ (s.drain u').ent := by
        intro heq
        exact hne (hi.drain_one u u' hu hu' heq (by simp [hq]) ((hsame u').2.2 hq')).symm
      rw [hother u' hne]
      simp [ArpLog.sentFrom?, hent_ne]
  case drain_learned =>
    intro u' hu'
    rw [(hsame u').1, (hsame u').2.1, hent, hlog]
    exact List.mem_append_left _ (hi.drain_learned u' (hupdates ▸ hu'))
  case sent_learned =>
    intro e c' dhost hsend
    rw [hlog] at hsend ⊢
    rw [hent]
    apply List.mem_append_left
    rcases List.mem_append.mp hsend with hold | hnew
    · exact hi.sent_learned e c' dhost hold
    · cases List.mem_singleton.mp hnew
      exact hi.drain_learned u hu

end

end

end Skyloft
