import Skyloft.Net.System
import Mathlib.Data.List.Perm.Basic

/-!
# Listener queues

The listening side of `tcp.c`: `tcp_queue_recv` takes a slot of the backlog, creates
the connection without the lock and queues it in a second section; `tcp_accept` takes
connections out; `tcp_qclose` destroys those that are left, without the lock.

* `ListenSys`, `listenStep` — a queue with the calls that are on their way, step by
  step between two lock operations.
* `Documented` — the rules for callers that `tcp_qclose` states.
* `ListenInv` — where each connection is, and who has the slots of the backlog.
* `connections_handed_over` — every connection is accepted once or destroyed once, if
  no `tcp_queue_recv` is on its way when `tcp_qclose` starts on the queue.
-/

namespace Skyloft

open Run

/-- The connections of a queue, in the order of their creation. -/
abbrev ConnId := ℕ

/-- A `tcp_queue_recv` that has taken a slot. -/
inductive Recv
  /-- Before `tcp_rx_listener`. -/
  | reserved (f : Frame)
  /-- `tcp_rx_listener` created a connection. -/
  | created (c : ConnId)
  /-- `tcp_rx_listener` created none. -/
  | refused

/-- The connection that a `tcp_queue_recv` is about to queue. -/
def Recv.conn : Recv → Option ConnId
  | .created c => some c
  | _ => none

/-- How far `tcp_qclose` is. -/
inductive QueuePhase
  | live
  /-- The queue is marked as shut down. -/
  | closing
  /-- The loop over the queued connections, before the one it has read. -/
  | draining (next : Option ConnId)
  /-- The queue was handed to `rcu_free`. -/
  | freed
  deriving DecidableEq

/-- The `BUG_ON`s of a queue, and what ends the program otherwise. -/
inductive QueueFault
  | listener (f : Fault)
  /-- `__tcp_qshutdown`: the queue was shut down before. -/
  | shutdown
  /-- `tcp_qclose`: tasks sleep on the queue. -/
  | waiters
  /-- `list_del_from`: the connection is not in the queue. -/
  | unlinked

/-- A listening queue with the calls on their way and the history of its
connections. -/
structure ListenSys where
  backlog : ℤ
  shutdown : Bool
  conns : List ConnId
  /-- The tasks that sleep in `tcp_accept`. -/
  wq : List Tid
  /-- The tasks in `tcp_accept` that were woken and have not run yet. -/
  woken : List Tid
  /-- A `tcp_qshutdown` has yet to wake the sleepers. -/
  releasing : Bool
  recvs : List Recv
  phase : QueuePhase
  /-- The connections created so far. -/
  made : List Conn
  /-- The calls of `tcp_accept` that returned, `none` being `-EPIPE`. -/
  returned : List (Tid × Option ConnId)
  /-- The connections that `tcp_qclose` destroyed. -/
  destroyed : List ConnId

inductive ListenEvent
  /-- A frame is dispatched to the queue. -/
  | recv (f : Frame)
  /-- The `i`-th `tcp_queue_recv` on its way runs `tcp_rx_listener`. -/
  | listen (i : ℕ) (iss : Seq) (io : Io)
  /-- The `i`-th `tcp_queue_recv` on its way runs its last section. -/
  | queue (i : ℕ)
  | accept (t : Tid)
  /-- A woken task goes on in `tcp_accept`. -/
  | resume (t : Tid)
  | qshutdown
  /-- The second half of `tcp_qshutdown`. -/
  | release
  | qclose
  /-- `tcp_qclose` starts on the queued connections. -/
  | drainStart
  /-- One turn of its loop. -/
  | drain

/-! ## Operations -/

/-- The first section of `tcp_queue_recv`. -/
def queueReserve (s : ListenSys) (f : Frame) : ListenSys :=
  if s.backlog = 0 ∨ s.shutdown then s
  else { s with backlog := s.backlog - 1, recvs := s.recvs ++ [.reserved f] }

/-- `tcp_rx_listener`, called by the `i`-th `tcp_queue_recv` on its way. -/
def queueListen (s : ListenSys) (i : ℕ) (iss : Seq) (io : Io) : Except QueueFault ListenSys :=
  match s.recvs[i]? with
  | some (.reserved f) =>
      match tcpRxListener iss f io with
      | .ok (some c) =>
          .ok { s with
            made := s.made ++ [c]
            recvs := s.recvs.eraseIdx i ++ [.created s.made.length] }
      | .ok none => .ok { s with recvs := s.recvs.eraseIdx i ++ [.refused] }
      | .error e => .error (.listener e)
  | _ => .ok s

/-- The last section of `tcp_queue_recv`: the connection is queued and a task woken,
or the slot is given back. -/
def queueFinish (s : ListenSys) (i : ℕ) : ListenSys :=
  match s.recvs[i]? with
  | some (.created c) =>
      { s with
        conns := s.conns ++ [c]
        wq := s.wq.tail
        woken := s.woken ++ s.wq.head?.toList
        recvs := s.recvs.eraseIdx i }
  | some .refused => { s with backlog := s.backlog + 1, recvs := s.recvs.eraseIdx i }
  | _ => s

/-- The loop of `tcp_accept`, from a locked queue to the next unlock. -/
def acceptLoop (s : ListenSys) (t : Tid) : ListenSys :=
  match s.conns with
  | [] =>
      if s.shutdown then { s with returned := s.returned ++ [(t, none)] }
      else { s with wq := s.wq ++ [t] }
  | c :: conns =>
      { s with
        backlog := s.backlog + 1
        conns := conns
        returned := s.returned ++ [(t, some c)] }

/-- `__tcp_qshutdown`. -/
def qshutdownMark (s : ListenSys) : Except QueueFault ListenSys :=
  if s.shutdown then .error .shutdown else .ok { s with shutdown := true }

/-- `tcp_qclose` up to its loop. -/
def qcloseMark (s : ListenSys) : Except QueueFault ListenSys := do
  let s ← if s.shutdown then .ok s else qshutdownMark s
  return { s with phase := .closing }

/-- The connection after `c` in the queue. -/
def connAfter (c : ConnId) (conns : List ConnId) : Option ConnId :=
  (conns.dropWhile (· ≠ c)).tail.head?

/-- One turn of the loop of `tcp_qclose`; the next connection is read before this one
is destroyed. -/
def qcloseDrain (s : ListenSys) : Except QueueFault ListenSys :=
  match s.phase with
  | .draining none => .ok { s with phase := .freed }
  | .draining (some c) =>
      if c ∈ s.conns then
        .ok { s with
          conns := s.conns.erase c
          destroyed := s.destroyed ++ [c]
          phase := .draining (connAfter c s.conns) }
      else .error .unlinked
  | _ => .ok s

/-- One event. -/
def listenStep (s : ListenSys) : ListenEvent → Except QueueFault ListenSys
  | .recv f => .ok (queueReserve s f)
  | .listen i iss io => queueListen s i iss io
  | .queue i => .ok (queueFinish s i)
  | .accept t => .ok (if t ∈ s.wq ∨ t ∈ s.woken then s else acceptLoop s t)
  | .resume t =>
      .ok (if t ∈ s.woken then acceptLoop { s with woken := s.woken.erase t } t else s)
  | .qshutdown => do
      let s ← qshutdownMark s
      return { s with releasing := true }
  | .release =>
      .ok (if s.releasing then
        { s with wq := [], woken := s.woken ++ s.wq, releasing := false } else s)
  | .qclose => if s.phase = .live then qcloseMark s else .ok s
  | .drainStart =>
      if s.phase = .closing then
        if s.wq ≠ [] then .error .waiters
        else .ok { s with phase := .draining s.conns.head? }
      else .ok s
  | .drain => qcloseDrain s

/-- A queue as `tcp_listen` creates it. -/
def ListenSys.start (backlog : ℤ) : ListenSys :=
  { backlog := backlog, shutdown := false, conns := [], wq := [], woken := [], releasing := false
    recvs := [], phase := .live, made := [], returned := [], destroyed := [] }

/-! ## Where the connections are -/

/-- The connections that a `tcp_queue_recv` is about to queue. -/
def ListenSys.inFlight (s : ListenSys) : List ConnId := s.recvs.filterMap Recv.conn

/-- The connections that `tcp_accept` returned. -/
def ListenSys.handed (s : ListenSys) : List ConnId := s.returned.filterMap Prod.snd

/-- In how many places a connection is: on its way to the queue, queued, returned by
`tcp_accept` or destroyed by `tcp_qclose`, each as often as it was. -/
def ListenSys.placed (s : ListenSys) (c : ConnId) : ℕ :=
  s.inFlight.count c + s.conns.count c + s.handed.count c + s.destroyed.count c

/-- The rules for callers at `tcp_qclose`: it is the last call on the queue, and no task
is inside another one. -/
def Documented (s : ListenSys) : ListenEvent → Prop
  | .accept _ | .qshutdown => s.phase = .live
  | .qclose => s.phase = .live ∧ s.wq = [] ∧ s.woken = []
  | _ => True

instance (s : ListenSys) : (e : ListenEvent) → Decidable (Documented s e)
  | .accept _ | .qshutdown => inferInstanceAs (Decidable (_ = _))
  | .qclose => inferInstanceAs (Decidable (_ ∧ _ ∧ _))
  | .recv _ | .listen _ _ _ | .queue _ | .resume _ | .release | .drainStart | .drain =>
      .isTrue trivial

/-- The guard: when `tcp_qclose` starts on the queue, no `tcp_queue_recv` has a slot. -/
def NoneReserved (s : ListenSys) : ListenEvent → Prop
  | .drainStart => s.recvs = []
  | _ => True

instance (s : ListenSys) : (e : ListenEvent) → Decidable (NoneReserved s e)
  | .drainStart => decidable_of_iff (s.recvs.isEmpty = true) List.isEmpty_iff
  | .accept _ | .qshutdown | .qclose | .recv _ | .listen _ _ _ | .queue _ | .resume _
  | .release | .drain => .isTrue trivial

/-- What holds of a queue in every state of every guarded run. -/
structure ListenInv (b : ℤ) (s : ListenSys) : Prop where
  places : ∀ c : ℕ, s.placed c = if c < s.made.length then 1 else 0
  slots : s.backlog + s.conns.length + s.recvs.length + s.destroyed.length = b
  starts : ∀ c ∈ s.made, (Sys.ofConn c).Start
  calls : s.phase ≠ .live → s.shutdown ∧ s.wq = [] ∧ s.woken = []
  untouched : s.phase = .live ∨ s.phase = .closing → s.destroyed = []
  drained : ∀ next, s.phase = .draining next → s.recvs = [] ∧ next = s.conns.head?
  freed : s.phase = .freed → s.recvs = [] ∧ s.conns = []

theorem ListenSys.placed_eq (s : ListenSys) (c : ConnId) : s.placed c =
    (s.recvs.filterMap Recv.conn).count c + s.conns.count c +
      (s.returned.filterMap Prod.snd).count c + s.destroyed.count c := rfl

/-- A `tcp_queue_recv` and the rest of them. -/
theorem count_eraseIdx {l : List Recv} {i : ℕ} {r : Recv} (h : l[i]? = some r) (c : ConnId) :
    (l.filterMap Recv.conn).count c =
      r.conn.toList.count c + ((l.eraseIdx i).filterMap Recv.conn).count c := by
  obtain ⟨hi, rfl⟩ := List.getElem?_eq_some_iff.mp h
  have hperm := (List.getElem_cons_eraseIdx_perm hi).filterMap Recv.conn
  rw [← hperm.count_eq c, List.filterMap_cons]
  cases l[i].conn <;> simp [List.count_cons, Nat.add_comm]

theorem length_eraseIdx_add_one {l : List Recv} {i : ℕ} {r : Recv} (h : l[i]? = some r) :
    (l.eraseIdx i).length + 1 = l.length := by
  obtain ⟨hi, -⟩ := List.getElem?_eq_some_iff.mp h
  rw [List.length_eraseIdx_of_lt hi]
  omega

/-- The queue loop reads the connection that follows. -/
theorem connAfter_cons (c : ConnId) (conns : List ConnId) :
    connAfter c (c :: conns) = conns.head? := by
  simp [connAfter]

namespace ListenInv

variable {b : ℤ} {s s' : ListenSys} {e : ListenEvent}

/-- A `tcp_queue_recv` takes a slot while the queue is open. -/
theorem queueReserve (h : ListenInv b s) (f : Frame) : ListenInv b (queueReserve s f) := by
  rw [Skyloft.queueReserve]
  split
  · exact h
  · rename_i hopen
    simp only [not_or, Bool.not_eq_true] at hopen
    have hlive : s.phase = .live := by
      by_contra hne
      simp [(h.calls hne).1] at hopen
    refine ⟨fun c => ?_, ?_, h.starts, h.calls, h.untouched, ?_, ?_⟩
    · rw [← h.places c]
      simp [ListenSys.placed_eq, List.filterMap_cons, Recv.conn]
    · have := h.slots
      simp
      omega
    · simp [hlive]
    · simp [hlive]

/-- A created connection is on its way to the queue. -/
theorem queueListen {i : ℕ} {iss : Seq} {io : Io} (h : ListenInv b s)
    (hs : queueListen s i iss io = .ok s') : ListenInv b s' := by
  rw [Skyloft.queueListen] at hs
  split at hs
  · rename_i f hr
    have hlen := length_eraseIdx_add_one hr
    have hslots := h.slots
    have hrecvs : s.recvs ≠ [] := by
      rintro hnil
      simp [hnil] at hr
    have hcount : ∀ c, (s.recvs.filterMap Recv.conn).count c =
        ((s.recvs.eraseIdx i).filterMap Recv.conn).count c := by
      intro c
      simpa [Recv.conn] using count_eraseIdx hr c
    split at hs
    · rename_i c hc
      cases hs
      refine ⟨fun (d : ℕ) => ?_, ?_, ?_, h.calls, h.untouched, ?_, ?_⟩
      · have hd := h.places d
        rw [ListenSys.placed_eq, hcount] at hd
        have hone : ([Recv.created s.made.length].filterMap Recv.conn).count d =
            if d = s.made.length then 1 else 0 := by
          by_cases hd : d = s.made.length
          · simp [Recv.conn, hd]
          · simp [Recv.conn, hd, Ne.symm hd]
        simp only [ListenSys.placed_eq, List.filterMap_append, List.count_append, hone,
          List.length_append, List.length_singleton]
        by_cases hlt : d < s.made.length
        · rw [if_pos hlt] at hd
          rw [if_neg (by omega), if_pos (by omega)]
          omega
        · rw [if_neg hlt] at hd
          by_cases heq : d = s.made.length
          · rw [if_pos heq, if_pos (by omega)]
            omega
          · rw [if_neg heq, if_neg (by omega)]
            omega
      · simp only [List.length_append, List.length_singleton]
        omega
      · simp only [List.mem_append, List.mem_singleton]
        rintro d (hd | rfl)
        · exact h.starts d hd
        · exact .listen hc
      · exact fun next hn => absurd (h.drained next hn).1 hrecvs
      · exact fun hf => absurd (h.freed hf).1 hrecvs
    · cases hs
      refine ⟨fun d => ?_, ?_, h.starts, h.calls, h.untouched, ?_, ?_⟩
      · have hd := h.places d
        rw [ListenSys.placed_eq, hcount] at hd
        simpa [ListenSys.placed_eq, List.filterMap_cons, Recv.conn] using hd
      · simp only [List.length_append, List.length_singleton]
        omega
      · exact fun next hn => absurd (h.drained next hn).1 hrecvs
      · exact fun hf => absurd (h.freed hf).1 hrecvs
    · cases hs
  · cases hs
    exact h

/-- The connection moves to the queue, or the slot goes back. -/
theorem queueFinish (h : ListenInv b s) (i : ℕ) : ListenInv b (queueFinish s i) := by
  rw [Skyloft.queueFinish]
  have hrecvs : ∀ {r}, s.recvs[i]? = some r → s.recvs ≠ [] := by
    intro r hr hnil
    simp [hnil] at hr
  have hslots := h.slots
  split
  · rename_i c hr
    have hlen := length_eraseIdx_add_one hr
    refine ⟨fun d => ?_, ?_, h.starts, fun hne => ?_, h.untouched, ?_, ?_⟩
    · have hd := h.places d
      rw [ListenSys.placed_eq, count_eraseIdx hr d] at hd
      rw [← hd, ListenSys.placed_eq]
      simp [Recv.conn]
      omega
    · simp only [List.length_append, List.length_singleton]
      omega
    · obtain ⟨hsd, hwq, hwoken⟩ := h.calls hne
      simp [hsd, hwq, hwoken]
    · exact fun next hn => absurd (h.drained next hn).1 (hrecvs hr)
    · exact fun hf => absurd (h.freed hf).1 (hrecvs hr)
  · rename_i hr
    have hlen := length_eraseIdx_add_one hr
    refine ⟨fun d => ?_, ?_, h.starts, h.calls, h.untouched, ?_, ?_⟩
    · have hd := h.places d
      rw [ListenSys.placed_eq, count_eraseIdx hr d] at hd
      simpa [ListenSys.placed_eq, Recv.conn] using hd
    · dsimp only
      omega
    · exact fun next hn => absurd (h.drained next hn).1 (hrecvs hr)
    · exact fun hf => absurd (h.freed hf).1 (hrecvs hr)
  · exact h

/-- `tcp_accept` takes the oldest connection, while `tcp_qclose` was not called. -/
theorem acceptLoop (h : ListenInv b s) (hlive : s.phase = .live) (t : Tid) :
    ListenInv b (acceptLoop s t) := by
  rw [Skyloft.acceptLoop]
  have hslots := h.slots
  split
  · rename_i hnil
    split
    · refine ⟨fun c => ?_, h.slots, h.starts, h.calls, h.untouched, h.drained, h.freed⟩
      rw [← h.places c]
      simp [ListenSys.placed_eq]
    · exact ⟨h.places, h.slots, h.starts, by simp [hlive], h.untouched, h.drained, h.freed⟩
  · rename_i c conns hconns
    refine ⟨fun d => ?_, ?_, h.starts, h.calls, h.untouched, by simp [hlive], by simp [hlive]⟩
    · rw [← h.places d]
      simp [ListenSys.placed_eq, hconns, List.count_cons]
      omega
    · rw [hconns, List.length_cons] at hslots
      push_cast at hslots
      dsimp only
      omega

/-- One turn of the loop of `tcp_qclose`. -/
theorem qcloseDrain (h : ListenInv b s) (hs : qcloseDrain s = .ok s') : ListenInv b s' := by
  rw [Skyloft.qcloseDrain] at hs
  have hslots := h.slots
  split at hs
  · rename_i hp
    cases hs
    obtain ⟨hrecvs, hnext⟩ := h.drained none hp
    have hconns : s.conns = [] := List.head?_eq_none_iff.mp hnext.symm
    refine ⟨h.places, h.slots, h.starts, fun _ => h.calls (by simp [hp]), by simp, by simp, ?_⟩
    exact fun _ => ⟨hrecvs, hconns⟩
  · rename_i c hp
    obtain ⟨hrecvs, hnext⟩ := h.drained _ hp
    obtain ⟨conns, hconns⟩ := List.head?_eq_some_iff.mp hnext.symm
    split at hs
    · cases hs
      refine ⟨fun d => ?_, ?_, h.starts, fun _ => h.calls (by simp [hp]), by simp, ?_, by simp⟩
      · rw [← h.places d]
        simp [ListenSys.placed_eq, hconns, List.count_cons]
        omega
      · rw [hconns, List.length_cons] at hslots
        simp [hconns]
        omega
      · rintro next hn
        cases hn
        exact ⟨hrecvs, by simp [hconns, connAfter_cons]⟩
    · cases hs
  · cases hs
    exact h

/-- **A guarded step** keeps the invariant. -/
theorem step (h : ListenInv b s) (hdoc : Documented s e) (hg : NoneReserved s e)
    (hs : listenStep s e = .ok s') : ListenInv b s' := by
  cases e with
  | recv f =>
      cases hs
      exact h.queueReserve f
  | listen i iss io => exact h.queueListen hs
  | queue i =>
      cases hs
      exact h.queueFinish i
  | accept t =>
      cases hs
      split
      · exact h
      · exact h.acceptLoop hdoc t
  | resume t =>
      cases hs
      split
      · rename_i ht
        have hlive : s.phase = .live := by
          by_contra hne
          simp [(h.calls hne).2.2] at ht
        have h' : ListenInv b { s with woken := s.woken.erase t } :=
          ⟨h.places, h.slots, h.starts, by simp [hlive], h.untouched, h.drained, h.freed⟩
        exact h'.acceptLoop hlive t
      · exact h
  | qshutdown =>
      have hlive : s.phase = .live := hdoc
      obtain ⟨s₁, h₁, hs⟩ := bind_eq_ok.mp hs
      cases hs
      rw [qshutdownMark] at h₁
      split at h₁
      · cases h₁
      · cases h₁
        exact ⟨h.places, h.slots, h.starts, by simp [hlive], h.untouched, h.drained, h.freed⟩
  | release =>
      cases hs
      split
      · refine ⟨h.places, h.slots, h.starts, fun hne => ?_, h.untouched, h.drained, h.freed⟩
        obtain ⟨hsd, hwq, hwoken⟩ := h.calls hne
        simp [hsd, hwq, hwoken]
      · exact h
  | qclose =>
      obtain ⟨hlive, hwq, hwoken⟩ := hdoc
      rw [listenStep, if_pos hlive, qcloseMark] at hs
      have hs' : s' = { s with shutdown := true, phase := .closing } := by
        by_cases hsd : s.shutdown
        · rw [if_pos hsd] at hs
          cases hs
          rw [← hsd]
        · rw [if_neg hsd, qshutdownMark, if_neg hsd] at hs
          cases hs
          rfl
      subst hs'
      refine ⟨h.places, h.slots, h.starts, fun _ => ⟨rfl, hwq, hwoken⟩, fun _ => ?_, ?_, ?_⟩
      · exact h.untouched (.inl hlive)
      · simp
      · simp
  | drainStart =>
      rw [listenStep] at hs
      split at hs
      · rename_i hp
        split at hs
        · cases hs
        · cases hs
          have hcalls := h.calls (by simp [hp])
          refine ⟨h.places, h.slots, h.starts, fun _ => hcalls, by simp, fun next hn => ?_, by simp⟩
          cases hn
          exact ⟨hg, rfl⟩
      · cases hs
        exact h
  | drain => exact h.qcloseDrain hs

theorem start (b : ℤ) : ListenInv b (.start b) := by
  constructor <;> simp [ListenSys.start, ListenSys.placed_eq]

end ListenInv

/-- **A listener hands over every connection.**  In every state of every run that keeps
to the rules of `tcp_qclose` and in which no `tcp_queue_recv` has a slot when
`tcp_qclose` starts on the queue, each connection is in one place; once the queue is
freed it was returned by one `tcp_accept` or destroyed by `tcp_qclose`, once; and the
slots add up as long as `tcp_qclose` has destroyed nothing. -/
theorem connections_handed_over {b : ℤ} {s : ListenSys} {es : List ListenEvent}
    (hg : Along listenStep (fun s e => Documented s e ∧ NoneReserved s e) (.start b) es)
    (h : exec listenStep (.start b) es = .ok s) :
    (∀ c < s.made.length,
      s.inFlight.count c + s.conns.count c + s.handed.count c + s.destroyed.count c = 1) ∧
    (s.phase = .freed → ∀ c < s.made.length, s.handed.count c + s.destroyed.count c = 1) ∧
    (s.backlog + s.conns.length + s.recvs.length = b ↔ s.destroyed = []) := by
  have hinv : ListenInv b s :=
    exec_invariant (fun _ _ _ hi hge hs => hi.step hge.1 hge.2 hs) (.start b) hg h
  have hplaces : ∀ c < s.made.length,
      s.inFlight.count c + s.conns.count c + s.handed.count c + s.destroyed.count c = 1 :=
    fun c hc => (hinv.places c).trans (if_pos hc)
  refine ⟨hplaces, fun hf c hc => ?_, ?_⟩
  · obtain ⟨hrecvs, hconns⟩ := hinv.freed hf
    simpa [ListenSys.inFlight, hrecvs, hconns] using hplaces c hc
  · have hslots := hinv.slots
    rw [← List.length_eq_zero_iff]
    omega

/-- A connection is accepted, a second one is left to `tcp_qclose`. -/
theorem connections_handed_over_two : ∃ s : ListenSys,
    exec listenStep (.start 2)
      [.recv (peerFrame 0 { syn := true } []), .listen 0 0 (Io.good 0), .queue 0, .accept 7,
        .recv (peerFrame 9 { syn := true } []), .listen 0 5 (Io.good 0), .queue 0, .qclose,
        .drainStart, .drain, .drain] = .ok s ∧
    s.phase = .freed ∧ s.made.length = 2 ∧ s.handed = [0] ∧
    s.handed.count 1 + s.destroyed.count 1 = 1 :=
  have h := exec_final (by decide)
  ⟨_, h, by decide, by decide, by decide,
    (connections_handed_over (by decide) h).2.1 (by decide) 1 (by decide)⟩

/-- The queue is freed and no task is inside `tcp_accept`. -/
structure Freed (s : ListenSys) : Prop where
  phase : s.phase = .freed
  wq : s.wq = []
  woken : s.woken = []

/-- A freed queue returns and destroys nothing any more. -/
theorem Freed.step {s s' : ListenSys} {e : ListenEvent} (h : Freed s) (hdoc : Documented s e)
    (hs : listenStep s e = .ok s') :
    Freed s' ∧ s'.returned = s.returned ∧ s'.destroyed = s.destroyed := by
  have hself : Freed s ∧ s.returned = s.returned ∧ s.destroyed = s.destroyed := ⟨h, rfl, rfl⟩
  have hnotlive : s.phase ≠ .live := by simp [h.phase]
  cases e with
  | recv f =>
      cases hs
      rw [queueReserve]
      split
      · exact hself
      · exact ⟨⟨h.phase, h.wq, h.woken⟩, rfl, rfl⟩
  | listen i iss io =>
      rw [listenStep, queueListen] at hs
      split at hs
      · split at hs
        · cases hs
          exact ⟨⟨h.phase, h.wq, h.woken⟩, rfl, rfl⟩
        · cases hs
          exact ⟨⟨h.phase, h.wq, h.woken⟩, rfl, rfl⟩
        · cases hs
      · cases hs
        exact hself
  | queue i =>
      cases hs
      rw [queueFinish]
      split
      · exact ⟨⟨h.phase, by simp [h.wq], by simp [h.wq, h.woken]⟩, rfl, rfl⟩
      · exact ⟨⟨h.phase, h.wq, h.woken⟩, rfl, rfl⟩
      · exact hself
  | accept t => exact absurd hdoc hnotlive
  | resume t =>
      cases hs
      simpa [h.woken] using hself
  | qshutdown => exact absurd hdoc hnotlive
  | release =>
      cases hs
      split
      · exact ⟨⟨h.phase, rfl, by simp [h.wq, h.woken]⟩, rfl, rfl⟩
      · exact hself
  | qclose => exact absurd hdoc.1 hnotlive
  | drainStart =>
      rw [listenStep, if_neg (by simp [h.phase])] at hs
      cases hs
      exact hself
  | drain =>
      rw [listenStep, qcloseDrain, h.phase] at hs
      cases hs
      exact hself

theorem Freed.run {s s' : ListenSys} {es : List ListenEvent} (h : Freed s)
    (hdoc : Along listenStep Documented s es) (hs : exec listenStep s es = .ok s') :
    s'.returned = s.returned ∧ s'.destroyed = s.destroyed := by
  refine (exec_invariant (I := fun u => Freed u ∧ u.returned = s.returned ∧
    u.destroyed = s.destroyed) ?_ ⟨h, rfl, rfl⟩ hdoc hs).2
  rintro u e u' ⟨hu, hret, hdes⟩ hge hstep
  obtain ⟨hu', hret', hdes'⟩ := hu.step hge hstep
  exact ⟨hu', hret'.trans hret, hdes'.trans hdes⟩

/-- `tcp_qclose` runs between the reservation of a slot and the creation of the
connection. -/
def leakRun : List ListenEvent :=
  [.recv (peerFrame 0 { syn := true } []), .qclose, .drainStart, .drain, .listen 0 0 (Io.good 0),
    .queue 0]

/-- The connection is queued on a freed queue, and no documented run accepts or destroys
it. -/
theorem connection_leaked : Along listenStep Documented (.start 1) leakRun ∧ ∃ s : ListenSys,
    exec listenStep (.start 1) leakRun = .ok s ∧ s.made.length = 1 ∧
    ∀ es s', Along listenStep Documented s es → exec listenStep s es = .ok s' →
      s'.handed.count 0 + s'.destroyed.count 0 = 0 := by
  refine ⟨by decide, final listenStep (.start 1) leakRun, exec_final (by decide),
    by decide, fun es s' hdoc hs => ?_⟩
  have hfreed : Freed (final listenStep (.start 1) leakRun) :=
    ⟨by decide, by decide, by decide⟩
  obtain ⟨hret, hdes⟩ := hfreed.run hdoc hs
  rw [ListenSys.handed, hret, hdes]
  decide

end Skyloft
