import Skyloft.Lib.Run
import Skyloft.Net.Arp

/-!
# The aging of ARP entries

`arp_worker` reads the clock once and then visits all buckets with that time; it has the lock while
it is in a bucket, and lets it go in between.  Lookups and updates go on, and they stamp entries with
the time that it is then.  The age of an entry is an unsigned difference, so that of a later stamp
looks very large.

* `worldStep` — one step of the worker, or of a call.
* `ArpWorld.NotEarly` — an entry that changes in a visit has reached its age, in integers.
* `ArpWorld.DeletesLate` — an entry that is deleted was asked for often enough.
* `arp_aging_iff` — visits are not early exactly when they meet no later stamp.
-/

namespace Skyloft

open Run

/-! ## The model -/

/-- The table, the clock, and the worker: the time that it sampled, the bucket that is next, and what
is left of it when it has the lock.  `retries` counts the requests that the worker has made for an
entry since it was created or its address was learned. -/
structure ArpWorld where
  sys : ArpSys
  clock : Usec
  us : Usec
  bucket : ℕ
  todo : Option (List ℕ)
  retries : ℕ → ℕ

inductive ArpWorldEvent
  /-- The worker starts a scan. -/
  | wake (now : Usec)
  /-- It takes the lock and enters the next bucket. -/
  | lock
  /-- It visits an entry. -/
  | visit (now : Usec)
  | unlock
  /-- A step of `arp_lookup` or `arp_update`. -/
  | call (ev : ArpEvent)

def ArpEvent.reads : ArpEvent → Option Usec
  | .create _ _ now | .update _ _ _ now | .age _ _ _ now => some now
  | .check _ _ _ | .locked _ | .drain _ => none

/-- A visit of the worker, which here takes steps of its own. -/
def ArpEvent.byWorker : ArpEvent → Bool
  | .age _ _ _ _ => true
  | _ => false

/-- The step is taken with the lock. -/
def ArpEvent.locks : ArpEvent → Bool
  | .locked _ | .update _ _ _ _ | .age _ _ _ _ => true
  | .check _ _ _ | .create _ _ _ | .drain _ => false

/-- The reading of the clock that a step makes. -/
def ArpWorldEvent.reads : ArpWorldEvent → Option Usec
  | .wake now | .visit now => some now
  | .lock | .unlock => none
  | .call ev => ev.reads

def ArpLog.isRequest : ArpLog → Bool
  | .request _ => true
  | _ => false

def ArpSys.requests (s : ArpSys) : ℕ := s.log.countP ArpLog.isRequest

section

variable (crc : BitVec 32 → BitVec 64 → BitVec 32)

namespace ArpWorld

/-- A new entry was not asked for yet, and one that is valid has been answered. -/
def answered (w : ArpWorld) (s' : ArpSys) : ArpWorld :=
  { w with
    sys := s'
    retries := fun e => if w.sys.next ≤ e ∨ (s'.ent e).state = .valid then 0 else w.retries e }

/-- A visit of the entry `e` of the bucket. -/
def visited (w : ArpWorld) (e : ℕ) (now : Usec) : ArpSys :=
  arpStep crc w.sys (.age w.bucket e w.us now)

/-- A step that cannot be taken does nothing. -/
def move (w : ArpWorld) : ArpWorldEvent → ArpWorld
  | .wake now => if w.bucket = arpTableCapacity then { w with us := now, bucket := 0 } else w
  | .lock =>
      if w.bucket < arpTableCapacity ∧ w.todo = none then
        { w with todo := some (w.sys.tbl w.bucket) }
      else w
  | .visit now =>
      match w.todo with
      | some (e :: rest) =>
          let s' := w.visited crc e now
          { w with
            sys := s'
            todo := some rest
            retries := Function.update w.retries e
              (w.retries e + (s'.requests - w.sys.requests)) }
      | _ => w
  | .unlock =>
      match w.todo with
      | some [] => { w with todo := none, bucket := w.bucket + 1 }
      | _ => w
  | .call ev =>
      if ev.byWorker = true ∨ ev.locks = true ∧ w.todo ≠ none then w
      else w.answered (arpStep crc w.sys ev)

/-- The static entries are loaded, and the worker has not started a scan. -/
def init (statics : List (BitVec 32 × BitVec 48)) (start : Usec) : ArpWorld :=
  { sys := arpInitLate crc statics start, clock := start, us := start, bucket := arpTableCapacity
    todo := none, retries := fun _ => 0 }

end ArpWorld

def worldStep (w : ArpWorld) (e : ArpWorldEvent) : Except Empty ArpWorld :=
  .ok { w.move crc e with clock := e.reads.getD w.clock }

namespace ArpWorld

/-- The clock does not go back. -/
def Forward (w : ArpWorld) (e : ArpWorldEvent) : Prop := w.clock ≤ e.reads.getD w.clock

instance (w : ArpWorld) (e : ArpWorldEvent) : Decidable (w.Forward e) :=
  inferInstanceAs (Decidable (_ ≤ _))

/-- The age from which on an entry is retried. -/
def maxAge (x : ArpEntry) : Usec := if x.state = .valid then arpReprobeTime else arpRetryTime

/-- The visit retries the entry, moves it to reprobing, or deletes it. -/
def Ages (w : ArpWorld) (e : ℕ) (now : Usec) : Prop :=
  (w.visited crc e now).ent e ≠ w.sys.ent e ∨
    e ∈ w.sys.tbl w.bucket ∧ e ∉ (w.visited crc e now).tbl w.bucket

/-- An entry ages only when its time has passed since its stamp, in integers. -/
def NotEarly (w : ArpWorld) : ArpWorldEvent → Prop
  | .visit now => ∀ e rest, w.todo = some (e :: rest) → w.Ages crc e now →
      (w.sys.ent e).ts.toNat + (maxAge (w.sys.ent e)).toNat ≤ now.toNat
  | _ => True

/-- An entry is deleted only after `ARP_RETRIES` requests that were not answered. -/
def DeletesLate (w : ArpWorld) : ArpWorldEvent → Prop
  | .visit now => ∀ e rest, w.todo = some (e :: rest) → e ∈ w.sys.tbl w.bucket →
      e ∉ (w.visited crc e now).tbl w.bucket → arpRetries ≤ w.retries e
  | _ => True

/-- No entry that is not static is visited with a stamp later than the time of the scan, unless its
time has passed even so, or the stamp is so much later that its unsigned age is small again. -/
def NoLaterStamp (w : ArpWorld) : ArpWorldEvent → Prop
  | .visit now => ∀ e rest, w.todo = some (e :: rest) → e ∈ w.sys.tbl w.bucket →
      (w.sys.ent e).state ≠ .static →
        (w.sys.ent e).ts ≤ w.us ∨
        (w.sys.ent e).ts.toNat + (maxAge (w.sys.ent e)).toNat ≤ now.toNat ∨
        w.us.toNat + 2 ^ 64 < (w.sys.ent e).ts.toNat + (maxAge (w.sys.ent e)).toNat
  | _ => True

end ArpWorld

end

/-! ## One visit -/

section

variable {crc : BitVec 32 → BitVec 64 → BitVec 32} {w w' : ArpWorld} {s s' : ArpSys} {e : ℕ}
  {us now : Usec}

open ArpWorld

/-- What a visit does to an entry. -/
inductive ArpVisit (s : ArpSys) (us now : Usec) (e : ℕ) : ArpSys → Prop
  | young (hage : us - (s.ent e).ts < maxAge (s.ent e)) : ArpVisit s us now e s
  | static (hstate : (s.ent e).state = .static) : ArpVisit s us now e s
  | deleted (hage : maxAge (s.ent e) ≤ us - (s.ent e).ts)
      (hstate : (s.ent e).state = .probing ∨ (s.ent e).state = .validButReprobing)
      (htries : (s.ent e).triesLeft = 0) : ArpVisit s us now e (s.deleteEntry e)
  | retried (hage : maxAge (s.ent e) ≤ us - (s.ent e).ts)
      (hstate : (s.ent e).state = .probing ∨ (s.ent e).state = .validButReprobing)
      (htries : (s.ent e).triesLeft ≠ 0) :
      ArpVisit s us now e
        (s.retry e { s.ent e with triesLeft := (s.ent e).triesLeft - 1, ts := now })
  | reprobed (hage : maxAge (s.ent e) ≤ us - (s.ent e).ts) (hstate : (s.ent e).state = .valid) :
      ArpVisit s us now e
        (s.retry e
          { s.ent e with state := .validButReprobing, triesLeft := arpRetries, ts := now })

theorem arpVisit (s : ArpSys) (us now : Usec) (e : ℕ) :
    ArpVisit s us now e (s.arpAgeEntry us e now) := by
  rw [ArpSys.arpAgeEntry]
  by_cases hage : us - (s.ent e).ts < maxAge (s.ent e)
  · rw [if_pos (by exact hage)]
    exact .young hage
  · rw [if_neg (by exact hage)]
    have hold : maxAge (s.ent e) ≤ us - (s.ent e).ts := BitVec.not_lt.mp hage
    have hretry : (s.ent e).state = .probing ∨ (s.ent e).state = .validButReprobing →
        (s.ent e).triesLeft ≠ 0 → ArpVisit s us now e
          (s.retry e { s.ent e with triesLeft := (s.ent e).triesLeft - 1, ts := now }) :=
      fun hstate htries => .retried hold hstate htries
    cases hstate : (s.ent e).state with
    | probing =>
        dsimp only
        split
        · exact .deleted hold (.inl hstate) ‹_›
        · simpa only [hstate] using hretry (.inl hstate) ‹_›
    | validButReprobing =>
        dsimp only
        split
        · exact .deleted hold (.inr hstate) ‹_›
        · simpa only [hstate] using hretry (.inr hstate) ‹_›
    | valid => exact .reprobed hold hstate
    | static => exact .static hstate

theorem visited_of_mem (he : e ∈ w.sys.tbl w.bucket) :
    w.visited crc e now = w.sys.arpAgeEntry w.us e now := by
  rw [visited, arpStep, if_pos he]

theorem visited_of_not_mem (he : e ∉ w.sys.tbl w.bucket) : w.visited crc e now = w.sys := by
  rw [visited, arpStep, if_neg he]

theorem not_mem_deleteEntry (s : ArpSys) (e i : ℕ) : e ∉ (s.deleteEntry e).tbl i := by
  intro he
  have hne := (List.mem_filter.mp he).2
  simp at hne

theorem retry_ent_self (s : ArpSys) (e : ℕ) (x : ArpEntry) : (s.retry e x).ent e = x :=
  Function.update_self ..

/-- When an entry ages, by the unsigned difference. -/
theorem ages_iff : w.Ages crc e now ↔ e ∈ w.sys.tbl w.bucket ∧
    maxAge (w.sys.ent e) ≤ w.us - (w.sys.ent e).ts ∧ (w.sys.ent e).state ≠ .static := by
  by_cases he : e ∈ w.sys.tbl w.bucket
  · rw [Ages, visited_of_mem he]
    have hvisit := arpVisit w.sys w.us now e
    generalize w.sys.arpAgeEntry w.us e now = s' at hvisit
    cases hvisit with
    | young hage =>
        refine iff_of_false ?_ fun h => BitVec.not_lt.mpr h.2.1 hage
        rintro (h | h)
        · exact h rfl
        · exact h.2 he
    | static hstate =>
        refine iff_of_false ?_ fun h => h.2.2 hstate
        rintro (h | h)
        · exact h rfl
        · exact h.2 he
    | deleted hage hstate htries =>
        refine iff_of_true (.inr ⟨he, not_mem_deleteEntry _ _ _⟩) ⟨he, hage, ?_⟩
        rcases hstate with h | h <;> simp [h]
    | retried hage hstate htries =>
        refine iff_of_true (.inl ?_) ⟨he, hage, ?_⟩
        · rw [retry_ent_self]
          intro heq
          have hleft := congrArg ArpEntry.triesLeft heq
          dsimp only at hleft
          omega
        · rcases hstate with h | h <;> simp [h]
    | reprobed hage hstate =>
        refine iff_of_true (.inl ?_) ⟨he, hage, by simp [hstate]⟩
        rw [retry_ent_self]
        intro heq
        have hnew := congrArg ArpEntry.state heq
        rw [hstate] at hnew
        cases hnew
  · rw [Ages, visited_of_not_mem he]
    refine iff_of_false ?_ fun h => he h.1
    rintro (h | h)
    · exact h rfl
    · exact he h.1

/-- When the unsigned age is right. -/
theorem passed_of_age_iff {us now ts T : Usec} (hus : us ≤ now) :
    (T ≤ us - ts → ts.toNat + T.toNat ≤ now.toNat) ↔
      ts ≤ us ∨ ts.toNat + T.toNat ≤ now.toNat ∨ us.toNat + 2 ^ 64 < ts.toNat + T.toNat := by
  rw [BitVec.le_def] at hus
  rw [BitVec.le_def, BitVec.le_def, BitVec.toNat_sub]
  have hts := ts.isLt
  have hlt := us.isLt
  by_cases hle : ts.toNat ≤ us.toNat
  · have hsub : (2 ^ 64 - ts.toNat + us.toNat) % 2 ^ 64 = us.toNat - ts.toNat := by omega
    rw [hsub]
    exact iff_of_true (fun h => by omega) (.inl hle)
  · have hsub : (2 ^ 64 - ts.toNat + us.toNat) % 2 ^ 64 = 2 ^ 64 - (ts.toNat - us.toNat) := by
      omega
    rw [hsub]
    constructor
    · intro h
      by_cases hage : T.toNat ≤ 2 ^ 64 - (ts.toNat - us.toNat)
      · exact .inr (.inl (h hage))
      · exact .inr (.inr (by omega))
    · rintro (h | h | h) hage
      · exact absurd h hle
      · exact h
      · omega

theorem notEarly_iff {ev : ArpWorldEvent} (hus : w.us ≤ w.clock) (hclock : w.Forward ev) :
    w.NotEarly crc ev ↔ w.NoLaterStamp ev := by
  cases ev with
  | wake | lock | unlock | call => exact Iff.rfl
  | visit now =>
      have hnow : w.us ≤ now := BitVec.le_trans hus hclock
      refine forall_congr' fun e => forall_congr' fun rest => imp_congr_right fun _ => ?_
      rw [ages_iff, ← passed_of_age_iff hnow]
      exact ⟨fun h he hstate hage => h ⟨he, hage, hstate⟩, fun h hage => h hage.1 hage.2.2 hage.2.1⟩

/-- The time of the scan is not later than the clock. -/
theorem us_le_clock {ev : ArpWorldEvent} (hus : w.us ≤ w.clock) (hclock : w.Forward ev)
    (hs : worldStep crc w ev = .ok w') : w'.us ≤ w'.clock := by
  cases hs
  have hkeep : (w.move crc ev).us = w.us ∨ ∃ now, ev = .wake now ∧ (w.move crc ev).us = now := by
    cases ev with
    | wake now =>
        rw [move]
        split
        · exact .inr ⟨now, rfl, rfl⟩
        · exact .inl rfl
    | lock | visit | unlock | call =>
        left
        rw [move]
        split <;> rfl
  rcases hkeep with h | ⟨now, rfl, h⟩
  · exact h ▸ BitVec.le_trans hus hclock
  · change (w.move crc (.wake now)).us ≤ now
    rw [h]
    exact BitVec.le_refl _

/-! ## Requests -/

/-- The entry is in the table, or a lookup has created it. -/
def ArpSys.Known (s : ArpSys) (e : ℕ) : Prop :=
  Buckets.Holds s.tbl e ∨ ∃ c daddr m, s.call c = some ⟨daddr, m, .unlocked (some e)⟩

/-- What a step of a call can do to the entries. -/
structure ArpSys.CallMoves (s s' : ArpSys) : Prop where
  next_le : s.next ≤ s'.next
  known : ∀ e, s'.Known e → s.Known e ∨ s.next ≤ e ∧ e < s'.next
  old : ∀ e, e < s.next → (s'.ent e).state = .valid ∨
    (s'.ent e).state = (s.ent e).state ∧ (s'.ent e).triesLeft = (s.ent e).triesLeft
  new : ∀ e, s.next ≤ e → e < s'.next → (s'.ent e).state = .valid ∨
    (s'.ent e).state = .probing ∧ (s'.ent e).triesLeft = arpRetries

/-- The requests that were made and those that are left.  A valid entry was asked for once when it is
moved to reprobing. -/
def TriesKept (x : ArpEntry) (retries : ℕ) : Prop :=
  match x.state with
  | .probing => x.triesLeft + retries = arpRetries
  | .valid => retries = 0
  | .validButReprobing => x.triesLeft + retries = arpRetries + 1
  | .static => True

/-- The requests for the entries that were created are counted. -/
structure RetriesInv (w : ArpWorld) : Prop where
  lt_next : ∀ e, w.sys.Known e → e < w.sys.next
  tries : ∀ e, e < w.sys.next → TriesKept (w.sys.ent e) (w.retries e)

theorem RetriesInv.answered (hi : RetriesInv w) (h : w.sys.CallMoves s') :
    RetriesInv (w.answered s') where
  lt_next e he := by
    rcases h.known e he with hold | hnew
    · exact lt_of_lt_of_le (hi.lt_next e hold) h.next_le
    · exact hnew.2
  tries e he := by
    change TriesKept (s'.ent e) (if w.sys.next ≤ e ∨ (s'.ent e).state = .valid then 0 else w.retries e)
    by_cases hvalid : (s'.ent e).state = .valid
    · rw [if_pos (.inr hvalid), TriesKept, hvalid]
    · by_cases hnew : w.sys.next ≤ e
      · obtain ⟨hstate, htries⟩ := (h.new e hnew he).resolve_left hvalid
        rw [if_pos (.inl hnew), TriesKept, htries, hstate]
        rfl
      · obtain ⟨hstate, htries⟩ := (h.old e (by omega)).resolve_left hvalid
        rw [if_neg (by tauto), TriesKept, hstate, htries]
        exact hi.tries e (by omega)

theorem ArpSys.callMoves_refl (s : ArpSys) : s.CallMoves s where
  next_le := le_refl _
  known _ he := .inl he
  old _ _ := .inr ⟨rfl, rfl⟩
  new _ hge hlt := absurd hlt (not_lt.mpr hge)

/-- The rest of a step leaves the states of the entries. -/
theorem ArpSys.CallMoves.keep {s'' : ArpSys} (h : s.CallMoves s') (hnext : s''.next = s'.next)
    (hknown : ∀ e, s''.Known e → s'.Known e)
    (hent : ∀ e, (s''.ent e).state = (s'.ent e).state ∧
      (s''.ent e).triesLeft = (s'.ent e).triesLeft) : s.CallMoves s'' where
  next_le := hnext ▸ h.next_le
  known e he := hnext ▸ h.known e (hknown e he)
  old e he := by
    rw [(hent e).1, (hent e).2]
    exact h.old e he
  new e hge hlt := by
    rw [(hent e).1, (hent e).2]
    exact h.new e hge (hnext ▸ hlt)

theorem ArpSys.known_setCall {c : ℕ} {call : ArpCall} (h : (s.setCall c call).Known e) :
    s.Known e ∨ call.pc = .unlocked (some e) := by
  rcases h with htbl | ⟨c', daddr, m, hcall⟩
  · exact .inl (.inl htbl)
  · change Function.update s.call c (some call) c' = _ at hcall
    by_cases hc : c' = c
    · rw [hc, Function.update_self, Option.some_inj] at hcall
      exact .inr (by rw [hcall])
    · rw [Function.update_of_ne hc] at hcall
      exact .inl (.inr ⟨c', daddr, m, hcall⟩)

theorem ArpSys.CallMoves.setCall {c : ℕ} {call : ArpCall} (h : s.CallMoves s')
    (hpc : ∀ e, call.pc = .unlocked (some e) → s.Known e ∨ s.next ≤ e ∧ e < s'.next) :
    s.CallMoves (s'.setCall c call) where
  next_le := h.next_le
  known e he := (ArpSys.known_setCall he).elim (h.known e) (hpc e)
  old := h.old
  new := h.new

theorem ArpSys.CallMoves.enqueue (h : s.CallMoves s') (c : ℕ) (call : ArpCall) (e : ℕ) :
    s.CallMoves (s'.enqueue c call e) := by
  rw [ArpSys.enqueue]
  split
  · refine h.keep rfl (fun _ he => he) fun e' => ?_
    by_cases he : e' = e
    · rw [he]
      simp
    · simp [he]
  · exact h

theorem ArpSys.CallMoves.drop (h : s.CallMoves s') (c : ℕ) (call : ArpCall) :
    s.CallMoves (s'.drop c call) := by
  rw [ArpSys.drop]
  split
  · exact h.keep rfl (fun _ he => he) fun _ => ⟨rfl, rfl⟩
  · exact h

theorem ArpSys.CallMoves.createEntry (h : s.CallMoves s') (hnext : s'.next = s.next)
    (daddr : BitVec 32) (now : Usec) : s.CallMoves (s'.createEntry daddr now) where
  next_le := Nat.le_succ_of_le h.next_le
  known e he := (h.known e he).imp_right fun hnew => ⟨hnew.1, Nat.lt_succ_of_lt hnew.2⟩
  old e he := by
    have hne : e ≠ s'.next := by omega
    rw [ArpSys.createEntry]
    simpa [hne] using h.old e he
  new e hge hlt := by
    have heq : e = s'.next := by
      have hlt' : e < s'.next + 1 := hlt
      omega
    right
    rw [heq, ArpSys.createEntry]
    simp

theorem ArpSys.known_insertEntry {e' i : ℕ} (h : (s.insertEntry e i).Known e') :
    e' = e ∨ s.Known e' := by
  rcases h with htbl | hcall
  · exact (Buckets.holds_insert.mp htbl).imp_right .inl
  · exact .inr (.inr hcall)

theorem ArpSys.CallMoves.insertEntry {i : ℕ} (h : s.CallMoves s')
    (he : s.Known e ∨ s.next ≤ e ∧ e < s'.next) : s.CallMoves (s'.insertEntry e i) where
  next_le := h.next_le
  known e' he' := by
    rcases ArpSys.known_insertEntry he' with rfl | hold
    · exact he
    · exact h.known e' hold
  old := h.old
  new := h.new

theorem ArpSys.CallMoves.learn (h : s.CallMoves s') (e : ℕ) (dhost : BitVec 48) (now : Usec) :
    s.CallMoves (s'.learn e dhost now) where
  next_le := h.next_le
  known := h.known
  old e' he' := by
    by_cases heq : e' = e
    · left
      rw [heq, ArpSys.learn]
      simp
    · rw [ArpSys.learn]
      simpa [heq] using h.old e' he'
  new e' hge hlt := by
    by_cases heq : e' = e
    · left
      rw [heq, ArpSys.learn]
      simp
    · rw [ArpSys.learn]
      simpa [heq] using h.new e' hge hlt

/-- **What a step of a call can do.** -/
theorem ArpSys.callMoves_step {ev : ArpEvent} (hev : ev.byWorker = false) :
    s.CallMoves (arpStep crc s ev) := by
  cases ev with
  | check c daddr hasMbuf =>
      rw [arpStep]
      split
      · rw [arpLookupCheck]
        split
        · split
          · exact s.callMoves_refl.setCall nofun
          · exact s.callMoves_refl.setCall nofun
        · exact s.callMoves_refl.setCall nofun
      · exact s.callMoves_refl
  | create c alloc now =>
      rw [arpStep]
      split
      · rename_i daddr hasMbuf hcall
        have hlog : s.CallMoves { s with log := s.log ++ [.request daddr] } :=
          s.callMoves_refl.keep rfl (fun _ he => he) fun _ => ⟨rfl, rfl⟩
        rw [arpLookupCreate]
        dsimp only
        split
        · refine (hlog.createEntry rfl daddr now).setCall ?_
          intro e he
          cases he
          exact .inr ⟨le_refl _, Nat.lt_succ_self _⟩
        · exact hlog.setCall nofun
      · exact s.callMoves_refl
  | locked c =>
      rw [arpStep]
      split
      · rename_i daddr hasMbuf newe hcall
        cases hlookup : s.lookupEntry crc daddr with
        | some e =>
            simp only [arpLookupLocked, hlookup]
            split
            · exact s.callMoves_refl.setCall nofun
            · exact (s.callMoves_refl.enqueue c _ e).setCall nofun
        | none =>
            cases newe with
            | none =>
                simp only [arpLookupLocked, hlookup]
                exact (s.callMoves_refl.drop c _).setCall nofun
            | some e =>
                have hknown : s.Known e := .inr ⟨c, daddr, hasMbuf, hcall⟩
                simp only [arpLookupLocked, hlookup]
                exact ((s.callMoves_refl.insertEntry (.inl hknown)).enqueue c _ e).setCall nofun
      · exact s.callMoves_refl
  | update daddr dhost alloc now =>
      rw [arpStep, arpUpdate]
      split
      · split
        · refine ((s.callMoves_refl.createEntry rfl daddr now).insertEntry (.inr ?_)).learn _ dhost
            now
          exact ⟨le_refl _, Nat.lt_succ_self _⟩
        · exact s.callMoves_refl
      · split
        · exact s.callMoves_refl
        · exact s.callMoves_refl.learn _ dhost now
  | drain u =>
      rw [arpStep]
      split
      · rw [drainOne]
        split
        · exact s.callMoves_refl
        · exact s.callMoves_refl.keep rfl (fun _ he => he) fun _ => ⟨rfl, rfl⟩
      · exact s.callMoves_refl
  | age => cases hev

@[simp] theorem ArpSys.requests_deleteEntry (s : ArpSys) (e : ℕ) :
    (s.deleteEntry e).requests = s.requests := by
  have hfree : ((s.ent e).q.map ArpLog.free).countP ArpLog.isRequest = 0 := by
    rw [List.countP_eq_zero]
    intro x hx
    obtain ⟨c, -, rfl⟩ := List.mem_map.mp hx
    exact Bool.false_ne_true
  rw [requests, deleteEntry, List.countP_append, hfree, Nat.add_zero, requests]

@[simp] theorem ArpSys.requests_retry (s : ArpSys) (e : ℕ) (x : ArpEntry) :
    (s.retry e x).requests = s.requests + 1 := by
  rw [requests, retry, List.countP_append]
  rfl

theorem ArpSys.known_deleteEntry {e' : ℕ} (h : (s.deleteEntry e).Known e') : s.Known e' :=
  h.imp_left fun htbl => (Buckets.holds_remove.mp htbl).2

/-- One visit, with the requests it makes. -/
theorem RetriesInv.visit (hi : RetriesInv w) (he : w.sys.Known e)
    (hvisit : ArpVisit w.sys w.us now e s') (todo : Option (List ℕ)) :
    RetriesInv { w with
      sys := s'
      todo := todo
      retries := Function.update w.retries e (w.retries e + (s'.requests - w.sys.requests)) } := by
  have hlt := hi.lt_next e he
  have hold := hi.tries e hlt
  -- only this entry changes
  have hother : ∀ x : ArpEntry, TriesKept x (w.retries e + (s'.requests - w.sys.requests)) →
      ∀ e', e' < w.sys.next → TriesKept (Function.update w.sys.ent e x e')
        (Function.update w.retries e (w.retries e + (s'.requests - w.sys.requests)) e') := by
    intro x hx e' he'
    by_cases heq : e' = e
    · rw [heq, Function.update_self, Function.update_self]
      exact hx
    · rw [Function.update_of_ne heq, Function.update_of_ne heq]
      exact hi.tries e' he'
  cases hvisit with
  | young | static =>
      refine ⟨hi.lt_next, fun e' he' => ?_⟩
      have hsame := hother (w.sys.ent e) (by simpa using hold) e' he'
      rwa [Function.update_eq_self] at hsame
  | deleted hage hstate htries =>
      refine ⟨fun e' he' => hi.lt_next e' (ArpSys.known_deleteEntry he'), hother _ ?_⟩
      rw [ArpSys.requests_deleteEntry, Nat.sub_self, Nat.add_zero]
      exact hold
  | retried hage hstate htries =>
      refine ⟨hi.lt_next, hother _ ?_⟩
      rw [ArpSys.requests_retry, TriesKept]
      rw [TriesKept] at hold
      rcases hstate with h | h <;> rw [h] at hold ⊢ <;> dsimp only at hold ⊢ <;> omega
  | reprobed hage hstate =>
      refine ⟨hi.lt_next, hother _ ?_⟩
      rw [TriesKept, hstate] at hold
      rw [ArpSys.requests_retry, TriesKept, hold]
      dsimp only
      omega

theorem RetriesInv.step {ev : ArpWorldEvent} (hi : RetriesInv w)
    (hs : worldStep crc w ev = .ok w') : RetriesInv w' := by
  cases hs
  suffices h : RetriesInv (w.move crc ev) from ⟨h.lt_next, h.tries⟩
  cases ev with
  | wake | lock | unlock =>
      rw [move]
      split
      · exact ⟨hi.lt_next, hi.tries⟩
      · exact hi
  | visit now =>
      rw [move]
      split
      · rename_i e rest htodo
        by_cases he : e ∈ w.sys.tbl w.bucket
        · rw [visited_of_mem he]
          exact hi.visit (.inl ⟨_, he⟩) (arpVisit w.sys w.us now e) _
        · rw [visited_of_not_mem he]
          dsimp only
          rw [Nat.sub_self, Nat.add_zero, Function.update_eq_self]
          exact ⟨hi.lt_next, hi.tries⟩
      · exact hi
  | call ev =>
      rw [move]
      split
      · exact hi
      · rename_i hnot
        exact hi.answered (ArpSys.callMoves_step (by simpa using fun h => hnot (.inl h)))

/-- An entry that is deleted has no tries left, so it was asked for often enough. -/
theorem RetriesInv.deletesLate (hi : RetriesInv w) (ev : ArpWorldEvent) : w.DeletesLate crc ev := by
  cases ev with
  | wake | lock | unlock | call => trivial
  | visit now =>
      intro e rest _ he hdel
      rw [visited_of_mem he] at hdel
      have htries := hi.tries e (hi.lt_next e (.inl ⟨_, he⟩))
      have hvisit := arpVisit w.sys w.us now e
      generalize w.sys.arpAgeEntry w.us e now = s' at hvisit hdel
      cases hvisit with
      | young | static | retried | reprobed => exact absurd he hdel
      | deleted hage hstate hnone =>
          rw [TriesKept, hnone] at htries
          rcases hstate with h | h <;> rw [h] at htries <;> dsimp only at htries <;> omega

/-- All entries are static and in the table. -/
structure ArpSys.AllStatic (s : ArpSys) : Prop where
  call : s.call = fun _ => none
  lt_next : ∀ e, Buckets.Holds s.tbl e → e < s.next
  state : ∀ e, e < s.next → (s.ent e).state = .static

theorem ArpSys.allStatic_init : ArpSys.init.AllStatic where
  call := rfl
  lt_next e he := absurd he (Buckets.not_holds_empty e)
  state e he := absurd he (Nat.not_lt_zero e)

theorem ArpSys.AllStatic.loadStatic (hi : s.AllStatic) (start : Usec)
    (x : BitVec 32 × BitVec 48) : (s.loadStatic crc start x).AllStatic where
  call := hi.call
  lt_next e he := by
    change e < s.next + 1
    rcases Buckets.holds_insert.mp he with rfl | hold
    · exact Nat.lt_succ_self _
    · exact Nat.lt_succ_of_lt (hi.lt_next e hold)
  state e he := by
    by_cases heq : e = s.next
    · simp [heq, ArpSys.loadStatic, ArpSys.insertEntry, ArpSys.createEntry]
    · have hlt : e < s.next := by
        have hlt' : e < s.next + 1 := he
        omega
      simpa [heq, ArpSys.loadStatic, ArpSys.insertEntry, ArpSys.createEntry] using hi.state e hlt

theorem allStatic_arpInitLate (statics : List (BitVec 32 × BitVec 48)) (start : Usec) :
    (arpInitLate crc statics start).AllStatic :=
  List.foldlRecOn (motive := ArpSys.AllStatic) statics _ ArpSys.allStatic_init
    fun _ hs x _ => hs.loadStatic start x

theorem retriesInv_init (statics : List (BitVec 32 × BitVec 48)) (start : Usec) :
    RetriesInv (.init crc statics start) := by
  have hload : (arpInitLate crc statics start).AllStatic := allStatic_arpInitLate statics start
  constructor
  · rintro e (htbl | ⟨c, daddr, m, hc⟩)
    · exact hload.lt_next e htbl
    · have hnone := congrFun hload.call c
      cases hnone.symm.trans hc
  · intro e he
    have hst : ((ArpWorld.init crc statics start).sys.ent e).state = .static := hload.state e he
    rw [TriesKept, hst]
    trivial

/-- **ARP aging.**  While the clock goes forward, an entry is retried, moved to reprobing or deleted
by the worker only when its time has passed, in every visit of a run, exactly when no visit meets an
entry that is not static with a stamp later than the time that the worker sampled for the scan.  An
entry is always deleted only after `ARP_RETRIES` requests that were not answered. -/
theorem arp_aging_iff (crc : BitVec 32 → BitVec 64 → BitVec 32)
    (statics : List (BitVec 32 × BitVec 48)) (start : Usec) (es : List ArpWorldEvent)
    (hclock : Along (worldStep crc) Forward (.init crc statics start) es) :
    (Along (worldStep crc) (fun w ev => w.NotEarly crc ev ∧ w.DeletesLate crc ev)
        (.init crc statics start) es ↔
      Along (worldStep crc) NoLaterStamp (.init crc statics start) es) ∧
    Along (worldStep crc) (DeletesLate crc) (.init crc statics start) es := by
  have hinit : (ArpWorld.init crc statics start).us ≤ (ArpWorld.init crc statics start).clock ∧
      RetriesInv (.init crc statics start) :=
    ⟨BitVec.le_refl _, retriesInv_init statics start⟩
  have hkeep : ∀ (w : ArpWorld) ev w', w.us ≤ w.clock ∧ RetriesInv w → w.Forward ev →
      worldStep crc w ev = .ok w' → w'.us ≤ w'.clock ∧ RetriesInv w' :=
    fun w ev w' hi hf hs => ⟨us_le_clock hi.1 hf hs, hi.2.step hs⟩
  refine ⟨⟨fun h => ?_, fun h => ?_⟩, ?_⟩
  · exact Along.imp (fun w ev w' hi hg => hkeep w ev w' hi hg.1)
      (fun w ev hi hg => (notEarly_iff hi.1 hg.1).mp hg.2.1) hinit (hclock.and h)
  · exact Along.imp (fun w ev w' hi hg => hkeep w ev w' hi hg.1)
      (fun w ev hi hg => ⟨(notEarly_iff hi.1 hg.1).mpr hg.2, hi.2.deletesLate ev⟩) hinit
      (hclock.and h)
  · exact Along.imp hkeep (fun w ev hi _ => hi.2.deletesLate ev) hinit hclock

end

/-- The worker wakes up, and the address of host 10 is learned before it comes to the bucket. -/
def updateDuringScan : List ArpWorldEvent :=
  [.wake 5, .call (.update 10 42 true 6), .lock]

theorem arp_aging_iff_updateDuringScan :
    (Along (worldStep fun _ _ => 0)
        (fun w ev => w.NotEarly (fun _ _ => 0) ev ∧ w.DeletesLate (fun _ _ => 0) ev)
        (.init (fun _ _ => 0) [(1, 9)] 0) (updateDuringScan ++ [.visit 7000000]) ↔
      Along (worldStep fun _ _ => 0) ArpWorld.NoLaterStamp
        (.init (fun _ _ => 0) [(1, 9)] 0) (updateDuringScan ++ [.visit 7000000])) ∧
    Along (worldStep fun _ _ => 0) (ArpWorld.DeletesLate fun _ _ => 0)
      (.init (fun _ _ => 0) [(1, 9)] 0) (updateDuringScan ++ [.visit 7000000]) :=
  arp_aging_iff _ _ _ _ (by decide)

/-- An address is learned at the time 6 and reprobed at the time 7, by a scan of the time 5. -/
theorem reprobed_at_once :
    Along (worldStep fun _ _ => 0) ArpWorld.Forward (.init (fun _ _ => 0) [] 0)
      (updateDuringScan ++ [.visit 7]) ∧
    ∃ w, exec (worldStep fun _ _ => 0) (.init (fun _ _ => 0) [] 0) updateDuringScan = .ok w ∧
      w.todo = some [0] ∧ (w.sys.ent 0).state = .valid ∧ (w.sys.ent 0).ts = 6 ∧
      ((w.visited (fun _ _ => 0) 0 7).ent 0).state = .validButReprobing ∧
      ¬ w.NotEarly (fun _ _ => 0) (.visit 7) := by
  refine ⟨by decide, _, exec_final (by decide), by decide, by decide,
    by decide, by decide, ?_⟩
  intro h
  exact absurd (h 0 [] (by decide) (.inl (by decide))) (by decide)

end Skyloft
