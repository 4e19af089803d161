import Skyloft.Net.Shutdown

/-!
# The lifetime of a connection

A connection starts with two references, one of the application and one of its state
machine; a retransmission task takes a third.  They are dropped in `tcp_conn_fail`, by
the acknowledgement of the FIN in LAST_ACK, by the timeout of TIME_WAIT, at the end of
a retransmission task and in `tcp_close`.  A `tcp_dial` that fails and `tcp_qclose`
destroy the connection without the count.

* `Role` — the tasks that have to do with references.
* `LifeMove`, `sysStep_lifeMove` — what a step does to state, references and roles.
* `LifeSys`, `lifeStep` — a connection with who holds which reference.
* `LifeInv` — the count is the number of references that were not dropped.
* `destroyed_once` — the lifetime of a connection over all guarded runs.
-/

namespace Skyloft

open Run

/-! ## Roles -/

/-- What a task is doing, as far as the references go. -/
inductive Role
  | dial
  | shut
  | close
  | resend
  | other
  deriving DecidableEq

def Proc.role : Proc → Role
  | .dialWait => .dial
  | .shutEnter _ _ | .shutWait (.shutdown _) => .shut
  | .closeEnter | .shutWait .close => .close
  | .retransmitWait | .retransmitSend | .retransmitFinish => .resend
  | _ => .other

def Sys.roles (s : Sys) (t : Tid) : Role := (s.procs t).role

theorem Sys.roles_of_procs {s s' : Sys} {t : Tid} {p : Proc}
    (h : s'.procs = Function.update s.procs t p) : s'.roles = Function.update s.roles t p.role := by
  funext u
  by_cases hu : u = t
  · subst hu
    simp [roles, h]
  · simp [roles, h, hu]

theorem Sys.roles_of_done {s s' : Sys} {t : Tid} {r : ℤ}
    (h : s'.procs = Function.update s.procs t (.done r [])) :
    s'.roles = Function.update s.roles t .other :=
  roles_of_procs h

theorem Sys.roles_eq_of_procs {s s' : Sys} {t : Tid} {p : Proc}
    (h : s'.procs = Function.update s.procs t p) (hp : p.role = s.roles t) :
    s'.roles = s.roles := by
  rw [roles_of_procs h, hp, Function.update_eq_self]

/-- The FIN of a `tcp_close` cannot be sent, and the connection is failed for it. -/
def CloseFails (s : Sys) : Event → Prop
  | .run t io => s.roles t = .close ∧ s.queuesFin t ∧ (io.alloc 0 → io.net 0 ≠ 0)
  | _ => False

instance (s : Sys) : (e : Event) → Decidable (CloseFails s e)
  | .run _ _ => inferInstanceAs (Decidable (_ ∧ _ ∧ _))
  | .call _ _ | .rx _ _ _ | .ackOut _ | .resend _ | .timeouts _ _ _ | .txDone _ | .netErr _ _ =>
      .isFalse id

def Event.isNetErr : Event → Bool
  | .netErr _ _ => true
  | _ => false

/-- The connection is closed after a step if and only if it was before. -/
def SameClosed (st st' : TcpState) : Prop := st' = .closed ↔ st = .closed

/-! ## Moves -/

/-- What a step can do to the state and the references of a connection and to the
roles of its tasks. -/
inductive LifeMove (s : Sys) : Event → Sys → Prop
  | keep {e : Event} {s' : Sys} {st : TcpState} : e.isNetErr = false → ¬ CloseFails s e →
      s'.conn.life = { s.conn.life with state := st } → SameClosed s.conn.state st →
      s'.roles = s.roles → LifeMove s e s'
  /-- A call starts. -/
  | enter {t : Tid} {c : Call} : s.free t → LifeMove s (.call t c) (s.move s.conn t c.entry)
  /-- A `tcp_shutdown` returns. -/
  | back {t : Tid} {io : Io} {s' : Sys} {st : TcpState} : s.roles t = .shut →
      s'.conn.life = { s.conn.life with state := st } → SameClosed s.conn.state st →
      s'.roles = Function.update s.roles t .other → LifeMove s (.run t io) s'
  /-- A `tcp_dial` returns the connection. -/
  | dialled {t : Tid} {io : Io} {s' : Sys} : s.roles t = .dial → s.conn.tx.closed = false →
      s'.conn.life = s.conn.life → s'.roles = Function.update s.roles t .other →
      LifeMove s (.run t io) s'
  /-- A `tcp_dial` fails and destroys it. -/
  | dialFail {t : Tid} {io : Io} {s' : Sys} : s.roles t = .dial → s.asleep t = false →
      s.conn.tx.closed →
      s'.conn.life = { s.conn.life with destroyed := s.conn.life.destroyed + 1 } →
      s'.roles = Function.update s.roles t .other → LifeMove s (.run t io) s'
  /-- The connection fails, or its last transition drops the same reference. -/
  | fail {e : Event} {s' : Sys} : s.conn.state ≠ .closed ∨ e.isNetErr → ¬ CloseFails s e →
      s'.conn.life = s.conn.life.fail → s'.roles = s.roles → LifeMove s e s'
  /-- A retransmission task is spawned. -/
  | get {now : Usec} {t : Tid} {io : Io} {s' : Sys} : s.conn.state ≠ .closed → s.free t →
      s'.conn.life = { s.conn.life with ref := s.conn.life.ref + 1 } →
      s'.roles = Function.update s.roles t .resend → LifeMove s (.timeouts now t io) s'
  /-- It ends. -/
  | taskEnd {t : Tid} {io : Io} {s' : Sys} : s.roles t = .resend →
      s'.conn.life = s.conn.life.put → s'.roles = Function.update s.roles t .other →
      LifeMove s (.run t io) s'
  /-- A `tcp_close` returns. -/
  | close {t : Tid} {io : Io} {s' : Sys} {st : TcpState} : s.roles t = .close →
      ¬ CloseFails s (.run t io) → s'.conn.life = Life.put { s.conn.life with state := st } →
      SameClosed s.conn.state st → s'.roles = Function.update s.roles t .other →
      LifeMove s (.run t io) s'
  /-- It returns after failing the connection. -/
  | closeFail {t : Tid} {io : Io} {s' : Sys} : CloseFails s (.run t io) →
      s'.conn.life = s.conn.life.fail.put → s'.roles = Function.update s.roles t .other →
      LifeMove s (.run t io) s'

/-! ## Inversion -/

theorem LifeMove.same {s : Sys} {e : Event} {s' : Sys} (he : e.isNetErr = false)
    (hf : ¬ CloseFails s e) (hl : s'.conn.life = s.conn.life) (hr : s'.roles = s.roles) :
    LifeMove s e s' :=
  .keep he hf hl Iff.rfl hr

theorem TcpState.afterFin_eq_closed {st : TcpState} (h : st.afterFin = .closed) : st = .closed := by
  revert h
  cases st <;> decide

theorem CloseMove.ne_closed {st st' : TcpState} (h : CloseMove st st') (hst : st ≠ .lastAck) :
    st' ≠ .closed := by
  cases h with
  | finWait2 => decide
  | timeWait => decide
  | closed => exact absurd rfl hst

/-- A segment. -/
theorem RxLife.lifeMove {s s' : Sys} {c : Conn} {seg : Segment} {sndNxt n : Seq} {f : Frame}
    {io : Io} (h : RxLife s.conn seg sndNxt c) (hc : s'.conn.life = c.life)
    (hr : s'.roles = s.roles) : LifeMove s (.rx f n io) s' := by
  have hf : ¬ CloseFails s (.rx f n io) := id
  have hstate : s.conn.state = s.conn.life.state := rfl
  cases h with
  | same hl => exact .same rfl hf (hc.trans hl) hr
  | @early st hlt hle hl =>
      refine .keep rfl hf (hc.trans hl) (iff_of_false ?_ ?_) hr
      · rintro rfl
        exact absurd hle (by decide)
      · intro hcl
        rw [hcl] at hlt
        exact absurd hlt (by decide)
  | fail hne _ hl _ => exact .fail (.inl hne) hf (hc.trans hl) hr
  | @est x hx _ hmove =>
      have hx' : x = { s.conn.life with state := x.state } ∧ x.state ≠ .closed ∧
          s.conn.state ≠ .closed := by
        rcases hx with ⟨rfl, -, hne⟩ | ⟨rfl, hst⟩
        · exact ⟨rfl, hne, hne⟩
        · exact ⟨rfl, by simp, by simp [hst]⟩
      obtain ⟨hxl, hxne, hne⟩ := hx'
      have hkeep : ∀ st, c.life = { x with state := st } → st ≠ .closed →
          LifeMove s (.rx f n io) s' := by
        intro st hl hst
        have hsame : SameClosed s.conn.state st := iff_of_false hst hne
        refine .keep rfl hf ?_ hsame hr
        rw [hc, hl, hxl]
      cases hmove with
      | plain hx' =>
          rcases hx' with hx' | hx'
          · exact hkeep x.state hx' hxne
          · exact hkeep _ hx' fun hcl => hxne (TcpState.afterFin_eq_closed hcl)
      | close _ hcm hla hx' =>
          have hst := hcm.ne_closed hla
          rcases hx' with hx' | hx'
          · exact hkeep _ hx' hst
          · exact hkeep _ hx' fun hcl => hst (TcpState.afterFin_eq_closed hcl)
      | lastAck _ _ hx' =>
          refine .fail (.inl hne) hf ?_ hr
          rw [hc, hx', hxl]
          rfl

/-- The end of `tcp_shutdown` and of `tcp_close`. -/
theorem shutReturn_life {s s' : Sys} {c : Conn} {t : Tid} {k : ShutKind} {ret : ℤ} {io : Io}
    (h : shutReturn s c t k ret io = .ok s') :
    (∃ r, s'.procs = Function.update s.procs t (.done r [])) ∧
    (match k with
      | .shutdown _ => s'.conn.life = c.life
      | .close => (ret = 0 ∧ s'.conn.life = c.life.put) ∨
          (ret ≠ 0 ∧ s'.conn.life = c.life.fail.put)) := by
  cases k with
  | shutdown rd =>
      rw [shutReturn] at h
      split at h
      · cases h
        exact ⟨⟨_, rfl⟩, rfl⟩
      · cases h
        refine ⟨⟨_, rfl⟩, ?_⟩
        cases rd
        · rfl
        · exact life_tcpConnShutdownRx c
  | close =>
      rw [shutReturn] at h
      split at h
      · rename_i hret
        obtain ⟨c₁, h₁, h⟩ := bind_eq_ok.mp h
        obtain ⟨c₂, h₂, h⟩ := bind_eq_ok.mp h
        cases h
        refine ⟨⟨_, rfl⟩, .inr ⟨hret, ?_⟩⟩
        change c₂.life = _
        rw [life_tcpConnPut h₂, life_tcpConnShutdownRx, life_tcpConnFail h₁]
      · rename_i hret
        obtain ⟨c₁, h₁, h⟩ := bind_eq_ok.mp h
        cases h
        refine ⟨⟨_, rfl⟩, .inl ⟨not_not.mp hret, ?_⟩⟩
        change c₁.life = _
        rw [life_tcpConnPut h₁, life_tcpConnShutdownRx]

/-- The FIN of `tcp_conn_shutdown_tx`. -/
theorem tcpShutdownTxFin_life {c c' : Conn} {io : Io} {ret : ℤ} {warn : Bool}
    (h : tcpShutdownTxFin c io = .ok (c', ret, warn)) :
    (ret = 0 ↔ io.alloc 0 ∧ io.net 0 = 0) ∧ (ret ≠ 0 → c'.life = c.life) ∧
      ∃ st, c'.life = { c.life with state := st } ∧ SameClosed c.state st := by
  have hret := ret_tcpTxCtl c { fin := true, ack := true } io
  have hlife := life_tcpTxCtl c { fin := true, ack := true } io
  rw [tcpShutdownTxFin] at h
  generalize tcpTxCtl c { fin := true, ack := true } io = r at h hret hlife
  obtain ⟨c₁, ret₁⟩ := r
  dsimp only at h hret hlife
  have hcode : ret₁ = 0 ↔ io.alloc 0 ∧ io.net 0 = 0 := by
    rw [hret]
    by_cases ha : io.alloc 0
    · simp [ha]
    · simp [ha, eNomem]
  have hst : c₁.state = c.state := congrArg Life.state hlife
  split at h
  · cases h
    exact ⟨hcode, fun _ => hlife, c.state, hlife, Iff.rfl⟩
  · rename_i hz
    obtain ⟨c₂, h₂, h⟩ := bind_eq_ok.mp h
    cases h
    rw [not_not] at hz
    refine ⟨iff_of_true rfl (hcode.mp hz), fun hne => absurd rfl hne, ?_⟩
    change ∃ st, c₂.life = _ ∧ _
    rw [← hlife, ← hst]
    rw [shutdownTxState] at h₂
    split_ifs at h₂ with he hc
    · exact ⟨_, life_tcpConnSetState h₂, iff_of_false (by decide) (by simp [he])⟩
    · exact ⟨_, life_tcpConnSetState h₂, iff_of_false (by decide) (by simp [hc])⟩
    · cases h₂
      exact ⟨_, rfl, Iff.rfl⟩

def ShutKind.role : ShutKind → Role
  | .shutdown _ => .shut
  | .close => .close

theorem not_closeFails_of_role {s : Sys} {t : Tid} {io : Io} (h : s.roles t ≠ .close) :
    ¬ CloseFails s (.run t io) :=
  fun hf => h hf.1

theorem not_closeFails_of_queuesFin {s : Sys} {t : Tid} {io : Io} (h : s.queuesFin t = false) :
    ¬ CloseFails s (.run t io) := by
  intro hf
  have hq := hf.2.1
  simp [h] at hq

/-- What is returned after a FIN that was not needed, or that was sent. -/
theorem shutReturn_lifeMove {s s₁ s' : Sys} {c : Conn} {t : Tid} {k : ShutKind} {io : Io}
    {st : TcpState} (hprocs : s₁.procs = s.procs) (hrole : s.roles t = k.role)
    (hf : ¬ CloseFails s (.run t io)) (hl : c.life = { s.conn.life with state := st })
    (hst : SameClosed s.conn.state st) (h : shutReturn s₁ c t k 0 io = .ok s') :
    LifeMove s (.run t io) s' := by
  obtain ⟨⟨r, hp⟩, hlife⟩ := shutReturn_life h
  rw [hprocs] at hp
  have hroles := Sys.roles_of_done hp
  cases k with
  | shutdown rd => exact .back hrole (hlife.trans hl) hst hroles
  | close =>
      rcases hlife with ⟨-, hlife⟩ | ⟨hne, -⟩
      · exact .close hrole hf (hlife.trans (by rw [hl])) hst hroles
      · exact absurd rfl hne

/-- One turn of the wait loop of `tcp_conn_shutdown_tx`, and the FIN. -/
theorem runShutWait_lifeMove {s s₁ s' : Sys} {t : Tid} {k : ShutKind} {io : Io}
    (hprocs : s₁.procs = s.procs) (hc : s₁.conn = s.conn) (hrole : s.roles t = k.role)
    (hq : s.conn.tx.exclusive = false → s.queuesFin t) (h : runShutWait s₁ t k io = .ok s') :
    LifeMove s (.run t io) s' := by
  rw [runShutWait, hc] at h
  split at h
  · rename_i hex
    cases h
    have hf : ¬ CloseFails s (.run t io) := by
      intro hf
      rw [Sys.exclusive_of_queuesFin hf.2.1] at hex
      cases hex
    refine .same rfl hf rfl (Sys.roles_eq_of_procs (t := t) (p := .shutWait k) ?_ ?_)
    · rw [← hprocs]
      rfl
    · rw [hrole]
      cases k <;> rfl
  · rename_i hex
    rw [Bool.not_eq_true] at hex
    obtain ⟨⟨c, ret, warn⟩, h₁, h⟩ := bind_eq_ok.mp h
    obtain ⟨hcode, hkeep, st, hl, hst⟩ := tcpShutdownTxFin_life h₁
    dsimp only at h
    generalize hs₂ : (if warn = true then _ else _ : Sys) = s₂ at h
    have hprocs₂ : s₂.procs = s.procs := by
      rw [← hs₂]
      split <;> exact hprocs
    by_cases hret : ret = 0
    · subst hret
      refine shutReturn_lifeMove hprocs₂ hrole (fun hf => ?_) hl hst h
      obtain ⟨ha, hn⟩ := hcode.mp rfl
      exact hf.2.2 ha hn
    · obtain ⟨⟨r, hp⟩, hlife⟩ := shutReturn_life h
      rw [hprocs₂] at hp
      have hroles := Sys.roles_of_done hp
      cases k with
      | shutdown rd => exact .back hrole (hlife.trans (hkeep hret)) Iff.rfl hroles
      | close =>
          rcases hlife with ⟨hz, -⟩ | ⟨-, hlife⟩
          · exact absurd hz hret
          · refine .closeFail ⟨hrole, hq hex, fun ha hn => hret (hcode.mpr ⟨ha, hn⟩)⟩ ?_ hroles
            rw [hlife, hkeep hret]

/-- `tcp_conn_shutdown_tx` from its entry. -/
theorem runShutEnter_lifeMove {s s' : Sys} {t : Tid} {k : ShutKind} {io : Io}
    (ha : s.asleep t = false) (hp : (∃ rd, s.procs t = .shutEnter rd true ∧ k = .shutdown rd) ∨
      (s.procs t = .closeEnter ∧ k = .close)) (h : runShutEnter s t k io = .ok s') :
    LifeMove s (.run t io) s' := by
  have hrole : s.roles t = k.role := by
    rcases hp with ⟨rd, hp, rfl⟩ | ⟨hp, rfl⟩ <;> simp [Sys.roles, hp, Proc.role, ShutKind.role]
  rw [runShutEnter] at h
  split at h
  · rename_i hcl
    have hf : s.queuesFin t = false := by
      rcases hp with ⟨rd, hp, -⟩ | ⟨hp, -⟩ <;> simp [Sys.queuesFin, hp, hcl]
    exact shutReturn_lifeMove rfl hrole (not_closeFails_of_queuesFin hf) rfl Iff.rfl h
  · rename_i hcl
    rw [Bool.not_eq_true] at hcl
    refine runShutWait_lifeMove ?_ ?_ hrole (fun hex => ?_) h
    · split <;> rfl
    · split <;> rfl
    · rcases hp with ⟨rd, hp, -⟩ | ⟨hp, -⟩ <;> simp [Sys.queuesFin, hp, hcl, hex, ha]

/-- A task goes on in the same role. -/
theorem LifeMove.move {s s₁ : Sys} {t : Tid} {io : Io} {c : Conn} {p : Proc}
    (hs : s₁.procs = Function.update s.procs t p) (hc : s₁.conn = c)
    (hrole : s.roles t ≠ .close) (hp : p.role = s.roles t) (hl : c.life = s.conn.life) :
    LifeMove s (.run t io) s₁ :=
  .same rfl (not_closeFails_of_role hrole) (hc ▸ hl) (Sys.roles_eq_of_procs hs hp)

/-- A task that goes to sleep. -/
theorem LifeMove.stay {s s₁ : Sys} {t : Tid} {io : Io} {c : Conn} (hs : s₁.procs = s.procs)
    (hc : s₁.conn = c) (hrole : s.roles t ≠ .close) (hl : c.life = s.conn.life) :
    LifeMove s (.run t io) s₁ :=
  .same rfl (not_closeFails_of_role hrole) (hc ▸ hl) (by funext u; simp [Sys.roles, hs])

theorem runAbortWait_role (s : Sys) (t : Tid) (io : Io) :
    (runAbortWait s t io).conn.life = s.conn.life ∧
      ∃ p, (runAbortWait s t io).procs = Function.update s.procs t p ∧ p.role = .other := by
  rw [runAbortWait]
  split
  · exact ⟨rfl, _, rfl, rfl⟩
  · exact ⟨life_tcpTxRawRst _ _ _, _, rfl, rfl⟩

/-- A stretch of a task. -/
theorem runProc_lifeMove {s s' : Sys} {t : Tid} {io : Io} (ha : s.asleep t = false)
    (h : runProc s t io = .ok s') : LifeMove s (.run t io) s' := by
  have hrole : ∀ {p}, s.procs t = p → s.roles t = p.role := fun hp => congrArg Proc.role hp
  -- a task that stays outside `tcp_close`
  have hmove : ∀ {c : Conn} {p q : Proc}, s.procs t = q → q.role ≠ .close → c.life = s.conn.life →
      p.role = q.role → LifeMove s (.run t io) (s.move c t p) := by
    intro c p q hq hne hl hp
    exact .move rfl rfl (by rwa [hrole hq]) (hp.trans (hrole hq).symm) hl
  have hstay : ∀ {c : Conn} {q : Proc}, s.procs t = q → q.role ≠ .close →
      c.life = s.conn.life → LifeMove s (.run t io) { s with conn := c } := by
    intro c q hq hne hl
    exact .stay rfl rfl (by rwa [hrole hq]) hl
  cases runProc_step h with
  | idle hfree =>
      refine .stay rfl rfl ?_ rfl
      rw [Sys.free] at hfree
      split at hfree <;> simp_all [Sys.roles, Proc.role]
  | sleep hp hwait =>
      rcases hwait with rfl | ⟨_, rfl⟩ | ⟨_, rfl⟩ | rfl <;>
        exact hstay hp (by simp [Proc.role]) rfl
  | dialFail hp hcl => exact .dialFail (hrole hp) ha hcl rfl (Sys.roles_of_done rfl)
  | dialled hp hcl => exact .dialled (hrole hp) hcl rfl (Sys.roles_of_done rfl)
  | @readWait len hp =>
      have hr : (Proc.readWait len).role ≠ .close := by simp [Proc.role]
      rw [runReadWait, tcpReadWait]
      split_ifs
      · exact hstay hp hr rfl
      · exact hmove hp hr rfl rfl
      · dsimp only
        split <;> exact hmove hp hr (by simp) rfl
  | readCopy hp hcopy =>
      refine hmove hp (by simp [Proc.role]) (life_tcpReadCopy hcopy) ?_
      split <;> rfl
  | readFinish hp => exact hmove hp (by simp [Proc.role]) rfl rfl
  | writeClosed hp hwait =>
      rcases hwait with ⟨_, rfl⟩ | ⟨_, rfl⟩ <;> exact hmove hp (by simp [Proc.role]) rfl rfl
  | writeLock _ _ hp =>
      rcases hp with ⟨_, hp, rfl⟩ | ⟨_, hp, rfl⟩ <;> exact hmove hp (by simp [Proc.role]) rfl rfl
  | writeSend hp hsend => exact hmove hp (by simp [Proc.role]) (life_tcpTxSend hsend) rfl
  | writevEnd hp => exact hmove hp (by simp [Proc.role]) rfl rfl
  | writevSend hp _ hsend hnext =>
      rcases hnext with ⟨_, rfl⟩ | ⟨_, rfl⟩ <;>
        exact hmove hp (by simp [Proc.role]) (life_tcpTxSend hsend) rfl
  | writeFinish hp hfin =>
      have hr : s.roles t ≠ .close := by simp [hrole hp, Proc.role]
      exact .move rfl rfl hr (hrole hp).symm (life_tcpWriteFinish hfin)
  | @shutRx rd hp =>
      refine .back (hrole hp) ?_ Iff.rfl (Sys.roles_of_done rfl)
      cases rd
      · rfl
      · exact life_tcpConnShutdownRx _
  | shutEnter hp hrun => exact runShutEnter_lifeMove ha hp hrun
  | @shutWait k _ hp hrun =>
      refine runShutWait_lifeMove rfl rfl ?_ (fun hex => ?_) hrun
      · rw [hrole hp]
        cases k <;> rfl
      · simp [Sys.queuesFin, ha, hex, hp]
  | abortClosed hp => exact hmove hp (by simp [Proc.role]) rfl rfl
  | @abortEnter c hp hst hfail =>
      have hr : s.roles t ≠ .close := by simp [hrole hp, Proc.role]
      obtain ⟨hl, p, hprocs, hpr⟩ := runAbortWait_role { s with conn := c } t io
      refine .fail (.inl hst) (not_closeFails_of_role hr) (hl.trans (life_tcpConnFail hfail)) ?_
      exact Sys.roles_eq_of_procs hprocs (hpr.trans (hrole hp).symm)
  | abortWait hp =>
      have hr : s.roles t ≠ .close := by simp [hrole hp, Proc.role]
      obtain ⟨hl, p, hprocs, hpr⟩ := runAbortWait_role s t io
      exact .move hprocs rfl hr (hpr.trans (hrole hp).symm) hl
  | retransmitLock hp => exact hmove hp (by simp [Proc.role]) rfl rfl
  | retransmitClosed hp hput =>
      exact .taskEnd (hrole hp) (life_tcpConnPut hput) (Sys.roles_of_done rfl)
  | retransmitSend hp hsend =>
      exact hmove hp (by simp [Proc.role]) (life_tcpTxRetransmit hsend) rfl
  | @retransmitFinish _ c' _ hp hfin hput =>
      refine .taskEnd (hrole hp) ?_ (Sys.roles_of_done rfl)
      change c'.life = _
      rw [life_tcpConnPut hput, life_tcpWriteFinish hfin]

/-- A visit of `tcp_worker`. -/
theorem tcpHandleTimeouts_life {c c' : Conn} {now clock : Usec} {ack re : Bool}
    (h : tcpHandleTimeouts c now clock = .ok (c', ack, re)) :
    (re = false ∧ c'.life = c.life) ∨ (re = false ∧ c.state ≠ .closed ∧ c'.life = c.life.fail) ∨
      (re ∧ c.state ≠ .closed ∧ c'.life = { c.life with ref := c.life.ref + 1 }) := by
  rw [tcpHandleTimeouts] at h
  split at h
  · cases h
    exact .inl ⟨rfl, rfl⟩
  rename_i hne
  split at h
  · obtain ⟨c₁, h₁, h⟩ := bind_eq_ok.mp h
    obtain ⟨c₂, h₂, h⟩ := bind_eq_ok.mp h
    cases h
    refine .inr (.inl ⟨rfl, hne, ?_⟩)
    rw [life_tcpConnPut h₂, life_tcpConnSetState h₁]
    rfl
  · cases h
    by_cases hre : retransmitDue c now
    · refine .inr (.inr ⟨hre, hne, ?_⟩)
      rw [life_tcpTimerUpdate, if_pos hre]
      split <;> rfl
    · refine .inl ⟨by simpa using hre, ?_⟩
      rw [life_tcpTimerUpdate, if_neg hre]
      split <;> rfl

/-- **State, references and roles** in one step. -/
theorem sysStep_lifeMove {s s' : Sys} {e : Event} (h : sysStep s e = .ok s') : LifeMove s e s' := by
  cases sysStep_cases h with
  | skip hrun herr =>
      cases e with
      | run t io =>
          refine .same rfl (not_closeFails_of_queuesFin ?_) rfl rfl
          simp [Sys.queuesFin, hrun t io rfl]
      | netErr err io => exact absurd rfl (herr err io)
      | _ => exact .same rfl id rfl rfl
  | call hfree => exact .enter hfree
  | run ha hrun => exact runProc_lifeMove ha hrun
  | rx _ hrx => exact (tcpRxConn_life hrx).lifeMove rfl rfl
  | ackOut => exact .same rfl id (life_tcpTxAck _ _) rfl
  | resend _ hfin => exact .same rfl id (life_tcpTxFastRetransmitFinish hfin) rfl
  | @timeouts now t io c ack hto =>
      have hack := life_of_txFrame (txFrame_ackIf c ack io)
      rcases tcpHandleTimeouts_life hto with ⟨-, hl⟩ | ⟨-, hne, hl⟩ | ⟨hre, -, -⟩
      · exact .same rfl id (hack.trans hl) rfl
      · exact .fail (.inl hne) id (hack.trans hl) rfl
      · cases hre
  | @retransmit now t io c ack hfree hto =>
      have hack := life_of_txFrame (txFrame_ackIf c ack io)
      rcases tcpHandleTimeouts_life hto with ⟨hre, -⟩ | ⟨hre, -, -⟩ | ⟨-, hne, hl⟩
      · cases hre
      · cases hre
      · exact .get hne hfree (hack.trans hl) (Sys.roles_of_procs (p := .retransmitWait) rfl)
  | txDone => exact .same rfl id rfl rfl
  | netErr hfail => exact .fail (.inr rfl) id (life_tcpConnFail hfail) rfl

/-! ## Who holds the references -/

/-- The reference that the connection is created with. -/
inductive AppRef
  /-- Inside `tcp_dial`, by the task once it waits. -/
  | dialling (t : Option Tid)
  /-- On the queue of a listener. -/
  | queued
  /-- The application holds it. -/
  | held
  /-- The task is inside `tcp_close`. -/
  | closing (t : Tid)
  /-- `tcp_close` dropped it. -/
  | dropped
  /-- `tcp_dial` or `tcp_qclose` destroyed the connection without dropping it. -/
  | discarded
  deriving DecidableEq

/-- The application has no access to the connection any more. -/
def AppRef.gone : AppRef → Bool
  | .dropped | .discarded => true
  | _ => false

/-- What the reference contributes to the count. -/
def AppRef.count : AppRef → ℤ
  | .dropped => 0
  | _ => 1

@[simp] theorem AppRef.count_closing (t : Tid) : (AppRef.closing t).count = 1 := rfl
@[simp] theorem AppRef.count_dropped : AppRef.dropped.count = 0 := rfl

/-- A connection with the reference of the application, how often the reference of the
state machine was dropped, and the retransmission tasks that have one. -/
structure LifeSys where
  sys : Sys
  app : AppRef
  drops : ℕ
  tasks : List Tid

inductive LifeEvent
  | sys (e : Event)
  /-- `tcp_accept` returns the connection. -/
  | accept
  /-- `tcp_qclose` comes to the connection. -/
  | qclose

def Event.task : Event → Option Tid
  | .call t _ | .run t _ | .timeouts _ t _ => some t
  | _ => none

/-- The reference of the application after a step of task `t`. -/
def AppRef.after (a : AppRef) (s s' : Sys) (t : Tid) : AppRef :=
  if s'.roles t = s.roles t then a
  else
    match s.roles t, s'.roles t with
    | .close, _ => .dropped
    | .dial, _ => if s.conn.tx.closed then .discarded else .held
    | _, .close => .closing t
    | _, .dial => .dialling (some t)
    | _, _ => a

/-- The retransmission tasks after a step of task `t`. -/
def tasksAfter (ts : List Tid) (s s' : Sys) (t : Tid) : List Tid :=
  if s'.roles t = s.roles t then ts
  else if s'.roles t = .resend then ts ++ [t]
  else if s.roles t = .resend then ts.erase t
  else ts

/-- The step drops the reference of the state machine: `tcp_conn_fail` is called, or
the connection goes to CLOSED. -/
def MachineDrops (s s' : Sys) (e : Event) : Prop :=
  e.isNetErr ∨ CloseFails s e ∨ (s.conn.state ≠ .closed ∧ s'.conn.state = .closed)

instance (s s' : Sys) (e : Event) : Decidable (MachineDrops s s' e) :=
  inferInstanceAs (Decidable (_ ∨ _ ∨ _))

/-- The references after a step of the connection. -/
def LifeSys.after (l : LifeSys) (s' : Sys) (e : Event) : LifeSys where
  sys := s'
  app := e.task.elim l.app (l.app.after l.sys s')
  drops := l.drops + if MachineDrops l.sys s' e then 1 else 0
  tasks := e.task.elim l.tasks (tasksAfter l.tasks l.sys s')

/-- One event. -/
def lifeStep (l : LifeSys) : LifeEvent → Except Fault LifeSys
  | .sys e => do
      return l.after (← sysStep l.sys e) e
  | .accept => .ok (if l.app = .queued then { l with app := .held } else l)
  | .qclose =>
      .ok (if l.app = .queued then
        { l with sys := { l.sys with conn := tcpConnDestroy l.sys.conn }, app := .discarded }
      else l)

/-- A connection at the end of the first section of `tcp_dial`, or as `tcp_rx_listener`
returns it. -/
inductive LifeSys.Start : LifeSys → Prop
  | dial {iss : Seq} {io : Io} {c : Conn} : tcpDialStart iss io = .ok (c, 0) →
      LifeSys.Start ⟨Sys.ofConn c, .dialling none, 0, []⟩
  | listen {iss : Seq} {f : Frame} {io : Io} {c : Conn} : tcpRxListener iss f io = .ok (some c) →
      LifeSys.Start ⟨Sys.ofConn c, .queued, 0, []⟩

/-- The rules for callers: a call needs a connection that the application holds, and
`tcp_close` is the last one. -/
def Permitted (l : LifeSys) : LifeEvent → Prop
  | .sys (.call _ .dial) => l.app = .dialling none
  | .sys (.call _ _) => l.app = .held
  | _ => True

instance (l : LifeSys) : (e : LifeEvent) → Decidable (Permitted l e)
  | .sys (.call _ .dial) => inferInstanceAs (Decidable (_ = _))
  | .sys (.call _ (.read _)) | .sys (.call _ (.write _)) | .sys (.call _ (.writev _))
  | .sys (.call _ (.shutdown _ _)) | .sys (.call _ .close) | .sys (.call _ .abort) =>
      inferInstanceAs (Decidable (l.app = .held))
  | .sys (.run _ _) | .sys (.rx _ _ _) | .sys (.ackOut _) | .sys (.resend _)
  | .sys (.timeouts _ _ _) | .sys (.txDone _) | .sys (.netErr _ _) | .accept | .qclose =>
      .isTrue trivial

/-- The guard: no network error and no failed FIN of a `tcp_close` comes to a connection
that is CLOSED, `tcp_dial` fails while no retransmission task has a reference, and
`tcp_qclose` finds the connection CLOSED and without such a task. -/
def CountsOnce (l : LifeSys) : LifeEvent → Prop
  | .sys (.netErr _ _) => l.sys.conn.state ≠ .closed
  | .sys (.run t io) =>
      (l.sys.roles t = .dial → l.sys.asleep t = false → l.sys.conn.tx.closed → l.tasks = []) ∧
      (CloseFails l.sys (.run t io) → l.sys.conn.state ≠ .closed)
  | .qclose => l.app = .queued → l.sys.conn.state = .closed ∧ l.tasks = []
  | _ => True

instance (l : LifeSys) : (e : LifeEvent) → Decidable (CountsOnce l e)
  | .sys (.netErr _ _) => inferInstanceAs (Decidable (_ ≠ _))
  | .sys (.run _ _) => inferInstanceAs (Decidable (_ ∧ _))
  | .qclose => inferInstanceAs (Decidable (_ → _))
  | .sys (.call _ _) | .sys (.rx _ _ _) | .sys (.ackOut _) | .sys (.resend _)
  | .sys (.timeouts _ _ _) | .sys (.txDone _) | .accept => .isTrue trivial

/-- The roles of the tasks are those that the references are about. -/
structure RoleInv (app : AppRef) (roles : Tid → Role) (tasks : List Tid) : Prop where
  nodup : tasks.Nodup
  resend : ∀ t, t ∈ tasks ↔ roles t = .resend
  close : ∀ t, roles t = .close → app = .closing t
  dial : ∀ t, roles t = .dial → app = .dialling (some t)
  shut : ∀ o, app = .dialling o → ∀ t, roles t ≠ .shut

/-- What holds of the references in every state of every guarded run. -/
structure LifeInv (l : LifeSys) : Prop where
  rx : l.sys.RxInv
  dialling : l.sys.Dialling
  roles : RoleInv l.app l.sys.roles l.tasks
  failed : ∀ o, l.app = .dialling o → l.sys.conn.tx.closed → l.sys.conn.state = .closed
  ref : l.sys.conn.ref = l.app.count + (1 - l.drops) + l.tasks.length
  drops : l.drops = if l.sys.conn.state = .closed then 1 else 0
  destroyed : l.sys.conn.destroyed = 0 ∨
    (l.sys.conn.destroyed = 1 ∧ l.app.gone ∧ l.sys.conn.state = .closed ∧ l.tasks = [])

/-! ## The invariant in one step -/

/-- The send side is shut down by a failure or by a FIN. -/
theorem TxMove.closed_why {s s' : Sys} {e : Event} (h : TxMove s e s') (hcl : s'.conn.tx.closed) :
    s.conn.tx.closed ∨ s'.conn.state = .closed ∨ ∃ t io, e = .run t io ∧ s.queuesFin t := by
  cases h with
  | inert hside => exact .inl ((congrArg TxSide.closed hside).symm.trans hcl)
  | fail hst => exact .inr (.inl hst)
  | segment _ heff =>
      cases heff with
      | quiet hside | syn _ hside => exact .inl ((congrArg TxSide.closed hside).symm.trans hcl)
      | fail hst => exact .inr (.inl hst)
      | @ack x _ _ _ hx _ hside _ =>
          refine .inl (Eq.trans ?_ hcl)
          refine Eq.trans ?_ (congrArg TxSide.closed hside).symm
          rcases hx with rfl | ⟨-, rfl⟩
          · rfl
          · simp [TxSide.withWnd, TxSide.acked, Conn.txSide]
  | fin hq => exact .inr (.inr ⟨_, _, rfl, hq⟩)
  | finErr hq => exact .inr (.inr ⟨_, _, rfl, hq⟩)
  | lock | lockRetransmit | endv => exact .inl hcl
  | send _ hsend | sendv _ _ hsend => exact .inl ((tcpTxSend_sameSend hsend).closed.symm.trans hcl)
  | resend _ hre =>
      obtain ⟨txq, -, hside⟩ := txSide_tcpTxRetransmit hre
      exact .inl ((congrArg TxSide.closed hside).symm.trans hcl)
  | unlock _ _ hside =>
      refine .inl (Eq.trans ?_ hcl)
      exact (TxSide.closed_unlocked _ _).symm.trans (congrArg TxSide.closed hside).symm

theorem Sys.roles_of_queuesFin {s : Sys} {t : Tid} (h : s.queuesFin t) :
    s.roles t = .shut ∨ s.roles t = .close := by
  revert h
  simp only [queuesFin, roles]
  cases s.procs t with
  | shutWait k => cases k <;> simp [Proc.role]
  | _ => simp [Proc.role]

theorem Sys.roles_of_free {s : Sys} {t : Tid} (h : s.free t) : s.roles t = .other := by
  revert h
  simp only [free, roles]
  cases s.procs t <;> simp [Proc.role]

/-- A closed connection stays closed. -/
theorem LifeMove.closed {s s' : Sys} {e : Event} (h : LifeMove s e s')
    (hcl : s.conn.state = .closed) : s'.conn.state = .closed := by
  change s'.conn.life.state = _
  cases h with
  | keep _ _ hl hst | back _ hl hst | close _ _ hl hst =>
      rw [hl]
      exact hst.mpr hcl
  | enter => exact hcl
  | dialled _ _ hl | dialFail _ _ _ hl | get _ _ hl | taskEnd _ hl =>
      rw [hl]
      exact hcl
  | fail _ _ hl | closeFail _ hl => rw [hl]; rfl

namespace LifeSys

variable {l : LifeSys} {s' : Sys} {e : Event} {t : Tid} {r : Role}

/-- A step that changes no role. -/
theorem after_same (hr : s'.roles = l.sys.roles) :
    (l.after s' e).app = l.app ∧ (l.after s' e).tasks = l.tasks := by
  simp only [after]
  cases e.task with
  | none => exact ⟨rfl, rfl⟩
  | some t => simp [AppRef.after, tasksAfter, hr]

/-- A step that changes the role of one task. -/
theorem after_update (he : e.task = some t) (hr : s'.roles = Function.update l.sys.roles t r) :
    s'.roles t = r ∧ (l.after s' e).app = l.app.after l.sys s' t ∧
      (l.after s' e).tasks = tasksAfter l.tasks l.sys s' t := by
  simp [after, he, hr]

end LifeSys

namespace RoleInv

variable {app app' : AppRef} {roles : Tid → Role} {tasks : List Tid} {t : Tid}

/-- A task that has no reference of its own takes up role `r`. -/
theorem turn {r : Role} (h : RoleInv app roles tasks) (ht : roles t ≠ .resend) (hr : r ≠ .resend)
    (hclose : ∀ u, Function.update roles t r u = .close → app' = .closing u)
    (hdial : ∀ u, Function.update roles t r u = .dial → app' = .dialling (some u))
    (hshut : ∀ o, app' = .dialling o → ∀ u, Function.update roles t r u ≠ .shut) :
    RoleInv app' (Function.update roles t r) tasks := by
  refine ⟨h.nodup, fun u => ?_, hclose, hdial, hshut⟩
  by_cases hut : u = t
  · subst hut
    simp [h.resend u, ht, hr]
  · simp [hut, h.resend u]

/-- A call returns that leaves the reference of the application alone. -/
theorem leave (h : RoleInv app roles tasks) (ht : roles t ≠ .resend) :
    RoleInv app (Function.update roles t .other) tasks := by
  refine h.turn ht (by decide) (fun u hu => ?_) (fun u hu => ?_) fun o ho u => ?_ <;>
    by_cases hut : u = t
  · simp [hut] at hu
  · exact h.close u (by simpa [hut] using hu)
  · simp [hut] at hu
  · exact h.dial u (by simpa [hut] using hu)
  · simp [hut]
  · simpa [hut] using h.shut o ho u

/-- A call returns that had the reference of the application. -/
theorem handOff (h : RoleInv app roles tasks) (ht : roles t = .close ∨ roles t = .dial)
    (happ : ∀ o, app' ≠ .dialling o) : RoleInv app' (Function.update roles t .other) tasks := by
  -- no other task has it
  have hone : ∀ u, roles u = .close ∨ roles u = .dial → u = t := by
    intro u hu
    rcases ht with ht | ht <;> rcases hu with hu | hu
    · cases (h.close t ht).symm.trans (h.close u hu)
      rfl
    · cases (h.close t ht).symm.trans (h.dial u hu)
    · cases (h.dial t ht).symm.trans (h.close u hu)
    · cases (h.dial t ht).symm.trans (h.dial u hu)
      rfl
  have hne : roles t ≠ .resend := by rcases ht with ht | ht <;> simp [ht]
  refine h.turn hne (by decide) (fun u hu => ?_) (fun u hu => ?_) fun o ho => absurd ho (happ o) <;>
    by_cases hut : u = t
  · simp [hut] at hu
  · exact absurd (hone u (.inl (by simpa [hut] using hu))) hut
  · simp [hut] at hu
  · exact absurd (hone u (.inr (by simpa [hut] using hu))) hut

/-- A retransmission task ends. -/
theorem taskEnd (h : RoleInv app roles tasks) (ht : roles t = .resend) :
    RoleInv app (Function.update roles t .other) (tasks.erase t) := by
  refine ⟨h.nodup.erase t, fun u => ?_, fun u hu => ?_, fun u hu => ?_, fun o ho u => ?_⟩ <;>
    by_cases hut : u = t
  · subst hut
    simp [h.nodup.mem_erase_iff]
  · simp [hut, h.nodup.mem_erase_iff, h.resend u]
  · simp [hut] at hu
  · exact h.close u (by simpa [hut] using hu)
  · simp [hut] at hu
  · exact h.dial u (by simpa [hut] using hu)
  · simp [hut]
  · simpa [hut] using h.shut o ho u

/-- A retransmission task is spawned. -/
theorem spawn (h : RoleInv app roles tasks) (ht : roles t = .other) :
    RoleInv app (Function.update roles t .resend) (tasks ++ [t]) := by
  have hnot : t ∉ tasks := by simp [h.resend t, ht]
  refine ⟨?_, fun u => ?_, fun u hu => ?_, fun u hu => ?_, fun o ho u => ?_⟩
  · exact List.nodup_append.mpr ⟨h.nodup, List.nodup_singleton t, by
      intro a ha b hb
      rw [List.mem_singleton.mp hb]
      rintro rfl
      exact hnot ha⟩
  all_goals by_cases hut : u = t
  · simp [hut]
  · simp [hut, h.resend u]
  · simp [hut] at hu
  · exact h.close u (by simpa [hut] using hu)
  · simp [hut] at hu
  · exact h.dial u (by simpa [hut] using hu)
  · simp [hut]
  · simpa [hut] using h.shut o ho u

/-- The connection leaves the queue of its listener. -/
theorem dequeue (h : RoleInv .queued roles tasks) (happ : ∀ o, app' ≠ .dialling o) :
    RoleInv app' roles tasks := by
  refine ⟨h.nodup, h.resend, fun t ht => ?_, fun t ht => ?_, fun o ho => absurd ho (happ o)⟩
  · cases h.close t ht
  · cases h.dial t ht

/-- A `tcp_close` starts. -/
theorem enterClose (h : RoleInv .held roles tasks) (ht : roles t = .other) :
    RoleInv (.closing t) (Function.update roles t .close) tasks := by
  refine h.turn (by simp [ht]) (by decide) (fun u hu => ?_) (fun u hu => ?_) nofun <;>
    by_cases hut : u = t
  · rw [hut]
  · cases h.close u (by simpa [hut] using hu)
  · simp [hut] at hu
  · cases h.dial u (by simpa [hut] using hu)

/-- The task of a `tcp_dial` starts to wait. -/
theorem enterDial (h : RoleInv (.dialling none) roles tasks) (ht : roles t = .other) :
    RoleInv (.dialling (some t)) (Function.update roles t .dial) tasks := by
  refine h.turn (by simp [ht]) (by decide) (fun u hu => ?_) (fun u hu => ?_) fun o _ u => ?_ <;>
    by_cases hut : u = t
  · simp [hut] at hu
  · cases h.close u (by simpa [hut] using hu)
  · rw [hut]
  · cases h.dial u (by simpa [hut] using hu)
  · simp [hut]
  · simpa [hut] using h.shut none rfl u

/-- A `tcp_shutdown` starts. -/
theorem enterShut (h : RoleInv .held roles tasks) (ht : roles t = .other) :
    RoleInv .held (Function.update roles t .shut) tasks := by
  refine h.turn (by simp [ht]) (by decide) (fun u hu => ?_) (fun u hu => ?_) nofun <;>
    by_cases hut : u = t
  · simp [hut] at hu
  · exact h.close u (by simpa [hut] using hu)
  · simp [hut] at hu
  · exact h.dial u (by simpa [hut] using hu)

end RoleInv

namespace LifeInv

variable {l : LifeSys} {s' : Sys} {e : Event}

theorem destroyed_of_not_gone (h : LifeInv l) (hg : l.app.gone = false) :
    l.sys.conn.destroyed = 0 := by
  rcases h.destroyed with hd | ⟨-, hgone, -⟩
  · exact hd
  · simp [hg] at hgone

theorem destroyed_of_not_closed (h : LifeInv l) (hne : l.sys.conn.state ≠ .closed) :
    l.sys.conn.destroyed = 0 := by
  rcases h.destroyed with hd | ⟨-, -, hcl, -⟩
  · exact hd
  · exact absurd hcl hne

theorem count_nonneg (a : AppRef) : 0 ≤ a.count := by
  cases a <;> simp [AppRef.count]

theorem gone_of_count {a : AppRef} (h : a.count = 0) : a.gone := by
  cases a <;> first | rfl | cases h

/-- A `tcp_dial` that has not returned is told of a failure only by the state. -/
theorem failed_step (h : LifeInv l) (hs : sysStep l.sys e = .ok s') {o : Option Tid}
    (ho : l.app = .dialling o) (hcl : s'.conn.tx.closed) : s'.conn.state = .closed := by
  rcases (sysStep_txMove h.dialling.synSent hs).closed_why hcl with hcl | hst | ⟨t, io, -, hq⟩
  · exact (sysStep_lifeMove hs).closed (h.failed o ho hcl)
  · exact hst
  · rcases Sys.roles_of_queuesFin hq with hr | hr
    · exact absurd hr (h.roles.shut o ho t)
    · cases ho.symm.trans (h.roles.close t hr)

/-- A step that drops no reference of the state machine, from the roles and the count
after it. -/
theorem of_kept (h : LifeInv l) (hs : sysStep l.sys e = .ok s')
    (hnone : ¬ MachineDrops l.sys s' e) (hst : SameClosed l.sys.conn.state s'.conn.state)
    (hroles : RoleInv (l.after s' e).app s'.roles (l.after s' e).tasks)
    (happ : ∀ o, (l.after s' e).app = .dialling o → ∃ o, l.app = .dialling o)
    (href : s'.conn.ref = (l.after s' e).app.count + (1 - l.drops) + (l.after s' e).tasks.length)
    (hdes : s'.conn.destroyed = 0 ∨ (s'.conn.destroyed = 1 ∧ (l.after s' e).app.gone ∧
      s'.conn.state = .closed ∧ (l.after s' e).tasks = [])) : LifeInv (l.after s' e) := by
  have hdrops : (l.after s' e).drops = l.drops := by simp [LifeSys.after, hnone]
  refine ⟨sysStep_rxInv h.rx hs, (h.dialling.step h.rx hs).1, hroles, fun o ho hcl => ?_, ?_, ?_,
    hdes⟩
  · obtain ⟨o', ho'⟩ := happ o ho
    exact h.failed_step hs ho' hcl
  · rw [hdrops]
    exact href
  · rw [hdrops, h.drops]
    exact if_congr hst.symm rfl rfl

/-- A step that drops the reference of the state machine of an open connection. -/
theorem of_dropped (h : LifeInv l) (hs : sysStep l.sys e = .ok s') (hne : l.sys.conn.state ≠ .closed)
    (hcl : s'.conn.state = .closed)
    (hroles : RoleInv (l.after s' e).app s'.roles (l.after s' e).tasks)
    (href : s'.conn.ref = (l.after s' e).app.count + (l.after s' e).tasks.length)
    (hdes : s'.conn.destroyed = if s'.conn.ref = 0 then 1 else 0) : LifeInv (l.after s' e) := by
  have hdrops : (l.after s' e).drops = 1 := by
    have hd : MachineDrops l.sys s' e := .inr (.inr ⟨hne, hcl⟩)
    simp [LifeSys.after, hd, h.drops, hne]
  refine ⟨sysStep_rxInv h.rx hs, (h.dialling.step h.rx hs).1, hroles, fun _ _ _ => hcl, ?_, ?_, ?_⟩
  · rw [hdrops]
    exact href.trans (by simp)
  · rw [hdrops]
    exact (if_pos hcl).symm
  · by_cases hz : s'.conn.ref = 0
    · have hnn := count_nonneg (l.after s' e).app
      rw [if_pos hz] at hdes
      rw [hz] at href
      exact .inr ⟨hdes, gone_of_count (by omega), hcl, List.length_eq_zero_iff.mp (by omega)⟩
    · rw [if_neg hz] at hdes
      exact .inl hdes

theorem not_machineDrops {s s' : Sys} {e : Event} (he : e.isNetErr = false)
    (hf : ¬ CloseFails s e) (hst : SameClosed s.conn.state s'.conn.state) :
    ¬ MachineDrops s s' e := by
  rintro (hd | hd | ⟨hne, hcl⟩)
  · simp [he] at hd
  · exact hf hd
  · exact hne (hst.mp hcl)

section Moves

variable {t : Tid} {io : Io} {st : TcpState}

theorem keep (h : LifeInv l) (hs : sysStep l.sys e = .ok s') (he : e.isNetErr = false)
    (hf : ¬ CloseFails l.sys e) (hl : s'.conn.life = { l.sys.conn.life with state := st })
    (hst : SameClosed l.sys.conn.state st) (hr : s'.roles = l.sys.roles) :
    LifeInv (l.after s' e) := by
  obtain ⟨happ, htasks⟩ := LifeSys.after_same (e := e) hr
  have hst' : SameClosed l.sys.conn.state s'.conn.state := by
    rw [show s'.conn.state = st from congrArg Life.state hl]
    exact hst
  refine h.of_kept hs (not_machineDrops he hf hst') hst' ?_ ?_ ?_ ?_
  · rw [happ, htasks, hr]
    exact h.roles
  · rw [happ]
    exact fun o ho => ⟨o, ho⟩
  · rw [happ, htasks]
    exact (congrArg Life.ref hl).trans h.ref
  · rw [happ, htasks, show s'.conn.destroyed = _ from congrArg Life.destroyed hl]
    exact h.destroyed.imp_right fun hd => ⟨hd.1, hd.2.1, hst'.mpr hd.2.2.1, hd.2.2.2⟩

/-- The connection fails. -/
theorem fail (h : LifeInv l) (hs : sysStep l.sys e = .ok s') (hne : l.sys.conn.state ≠ .closed)
    (hl : s'.conn.life = l.sys.conn.life.fail) (hr : s'.roles = l.sys.roles) :
    LifeInv (l.after s' e) := by
  obtain ⟨happ, htasks⟩ := LifeSys.after_same (e := e) hr
  have href : s'.conn.ref = l.sys.conn.ref - 1 := congrArg Life.ref hl
  have hdes : s'.conn.destroyed = l.sys.conn.destroyed + if l.sys.conn.ref = 1 then 1 else 0 :=
    congrArg Life.destroyed hl
  have hold := h.ref
  simp only [h.drops, hne, if_false] at hold
  refine h.of_dropped hs hne (congrArg Life.state hl) ?_ ?_ ?_
  · rw [happ, htasks, hr]
    exact h.roles
  · rw [happ, htasks]
    omega
  · rw [hdes, h.destroyed_of_not_closed hne, Nat.zero_add]
    exact if_congr (by omega) rfl rfl

/-- A `tcp_shutdown` returns. -/
theorem back (h : LifeInv l) (hs : sysStep l.sys (.run t io) = .ok s')
    (hrole : l.sys.roles t = .shut) (hl : s'.conn.life = { l.sys.conn.life with state := st })
    (hst : SameClosed l.sys.conn.state st)
    (hr : s'.roles = Function.update l.sys.roles t .other) : LifeInv (l.after s' (.run t io)) := by
  obtain ⟨hself, happ, htasks⟩ := LifeSys.after_update (l := l) (e := .run t io) rfl hr
  have happ : (l.after s' (.run t io)).app = l.app := by
    rw [happ, AppRef.after, hself, hrole, if_neg (by decide)]
  have htasks : (l.after s' (.run t io)).tasks = l.tasks := by
    simp [htasks, tasksAfter, hself, hrole]
  have hst' : SameClosed l.sys.conn.state s'.conn.state := by
    rw [show s'.conn.state = st from congrArg Life.state hl]
    exact hst
  have hf : ¬ CloseFails l.sys (.run t io) := not_closeFails_of_role (by simp [hrole])
  refine h.of_kept hs (not_machineDrops rfl hf hst') hst' ?_ ?_ ?_ ?_
  · rw [happ, htasks, hr]
    exact h.roles.leave (by simp [hrole])
  · rw [happ]
    exact fun o ho => ⟨o, ho⟩
  · rw [happ, htasks]
    exact (congrArg Life.ref hl).trans h.ref
  · rw [happ, htasks, show s'.conn.destroyed = _ from congrArg Life.destroyed hl]
    exact h.destroyed.imp_right fun hd => ⟨hd.1, hd.2.1, hst'.mpr hd.2.2.1, hd.2.2.2⟩

/-- A `tcp_dial` returns the connection. -/
theorem dialled (h : LifeInv l) (hs : sysStep l.sys (.run t io) = .ok s')
    (hrole : l.sys.roles t = .dial) (hcl : l.sys.conn.tx.closed = false)
    (hl : s'.conn.life = l.sys.conn.life) (hr : s'.roles = Function.update l.sys.roles t .other) :
    LifeInv (l.after s' (.run t io)) := by
  obtain ⟨hself, happ, htasks⟩ := LifeSys.after_update (l := l) (e := .run t io) rfl hr
  have hdial := h.roles.dial t hrole
  have happ : (l.after s' (.run t io)).app = .held := by
    rw [happ, AppRef.after, hself, hrole, if_neg (by decide)]
    simp [hcl]
  have htasks : (l.after s' (.run t io)).tasks = l.tasks := by
    simp [htasks, tasksAfter, hself, hrole]
  have hst : SameClosed l.sys.conn.state s'.conn.state := by
    rw [show s'.conn.state = _ from congrArg Life.state hl]
    exact Iff.rfl
  have hf : ¬ CloseFails l.sys (.run t io) := not_closeFails_of_role (by simp [hrole])
  have hold := h.ref
  rw [hdial] at hold
  refine h.of_kept hs (not_machineDrops rfl hf hst) hst ?_ ?_ ?_ ?_
  · rw [happ, htasks, hr]
    exact h.roles.handOff (.inr hrole) (by simp)
  · simp [happ]
  · rw [happ, htasks]
    exact (congrArg Life.ref hl).trans hold
  · exact .inl ((congrArg Life.destroyed hl).trans (h.destroyed_of_not_gone (by rw [hdial]; rfl)))

/-- A `tcp_dial` fails, and no retransmission task is left. -/
theorem dialFail (h : LifeInv l) (hs : sysStep l.sys (.run t io) = .ok s')
    (hrole : l.sys.roles t = .dial) (hcl : l.sys.conn.tx.closed) (hnone : l.tasks = [])
    (hl : s'.conn.life = { l.sys.conn.life with destroyed := l.sys.conn.life.destroyed + 1 })
    (hr : s'.roles = Function.update l.sys.roles t .other) : LifeInv (l.after s' (.run t io)) := by
  obtain ⟨hself, happ, htasks⟩ := LifeSys.after_update (l := l) (e := .run t io) rfl hr
  have hdial := h.roles.dial t hrole
  have happ : (l.after s' (.run t io)).app = .discarded := by
    rw [happ, AppRef.after, hself, hrole, if_neg (by decide)]
    simp [hcl]
  have htasks : (l.after s' (.run t io)).tasks = l.tasks := by
    simp [htasks, tasksAfter, hself, hrole]
  have hstate : s'.conn.state = l.sys.conn.state := congrArg Life.state hl
  have hst : SameClosed l.sys.conn.state s'.conn.state := by
    rw [hstate]
    exact Iff.rfl
  have hf : ¬ CloseFails l.sys (.run t io) := not_closeFails_of_role (by simp [hrole])
  have hold := h.ref
  rw [hdial] at hold
  have hdes : s'.conn.destroyed = l.sys.conn.destroyed + 1 := congrArg Life.destroyed hl
  rw [h.destroyed_of_not_gone (by rw [hdial]; rfl)] at hdes
  refine h.of_kept hs (not_machineDrops rfl hf hst) hst ?_ ?_ ?_ ?_
  · rw [happ, htasks, hr]
    exact h.roles.handOff (.inr hrole) (by simp)
  · simp [happ]
  · rw [happ, htasks]
    exact (congrArg Life.ref hl).trans hold
  · rw [happ, htasks]
    exact .inr ⟨hdes, rfl, hstate.trans (h.failed _ hdial hcl), hnone⟩

/-- A retransmission task is spawned. -/
theorem get {now : Usec} (h : LifeInv l) (hs : sysStep l.sys (.timeouts now t io) = .ok s')
    (hne : l.sys.conn.state ≠ .closed) (hfree : l.sys.free t)
    (hl : s'.conn.life = { l.sys.conn.life with ref := l.sys.conn.life.ref + 1 })
    (hr : s'.roles = Function.update l.sys.roles t .resend) :
    LifeInv (l.after s' (.timeouts now t io)) := by
  obtain ⟨hself, happ, htasks⟩ := LifeSys.after_update (l := l) (e := .timeouts now t io) rfl hr
  have hrole := Sys.roles_of_free hfree
  have happ : (l.after s' (.timeouts now t io)).app = l.app := by
    rw [happ, AppRef.after, hself, hrole, if_neg (by decide)]
  have htasks : (l.after s' (.timeouts now t io)).tasks = l.tasks ++ [t] := by
    simp [htasks, tasksAfter, hself, hrole]
  have hst : SameClosed l.sys.conn.state s'.conn.state := by
    rw [show s'.conn.state = _ from congrArg Life.state hl]
    exact Iff.rfl
  have href : s'.conn.ref = l.sys.conn.ref + 1 := congrArg Life.ref hl
  have hold := h.ref
  refine h.of_kept hs (not_machineDrops rfl id hst) hst ?_ ?_ ?_ ?_
  · rw [happ, htasks, hr]
    exact h.roles.spawn hrole
  · rw [happ]
    exact fun o ho => ⟨o, ho⟩
  · rw [happ, htasks, List.length_append, List.length_singleton]
    omega
  · exact .inl ((congrArg Life.destroyed hl).trans (h.destroyed_of_not_closed hne))

/-- It ends. -/
theorem taskEnd (h : LifeInv l) (hs : sysStep l.sys (.run t io) = .ok s')
    (hrole : l.sys.roles t = .resend) (hl : s'.conn.life = l.sys.conn.life.put)
    (hr : s'.roles = Function.update l.sys.roles t .other) : LifeInv (l.after s' (.run t io)) := by
  obtain ⟨hself, happ, htasks⟩ := LifeSys.after_update (l := l) (e := .run t io) rfl hr
  have happ : (l.after s' (.run t io)).app = l.app := by
    rw [happ, AppRef.after, hself, hrole, if_neg (by decide)]
  have htasks : (l.after s' (.run t io)).tasks = l.tasks.erase t := by
    simp [htasks, tasksAfter, hself, hrole]
  have hmem : t ∈ l.tasks := (h.roles.resend t).mpr hrole
  have hpos := List.length_pos_of_mem hmem
  have hlen : (l.tasks.erase t).length = l.tasks.length - 1 := List.length_erase_of_mem hmem
  have hstate : s'.conn.state = l.sys.conn.state := congrArg Life.state hl
  have hst : SameClosed l.sys.conn.state s'.conn.state := by
    rw [hstate]
    exact Iff.rfl
  have hf : ¬ CloseFails l.sys (.run t io) := not_closeFails_of_role (by simp [hrole])
  have href : s'.conn.ref = l.sys.conn.ref - 1 := congrArg Life.ref hl
  have hold := h.ref
  refine h.of_kept hs (not_machineDrops rfl hf hst) hst ?_ ?_ ?_ ?_
  · rw [happ, htasks, hr]
    exact h.roles.taskEnd hrole
  · rw [happ]
    exact fun o ho => ⟨o, ho⟩
  · rw [happ, htasks, hlen]
    omega
  · have hdes : s'.conn.destroyed = l.sys.conn.destroyed + if l.sys.conn.ref = 1 then 1 else 0 :=
      congrArg Life.destroyed hl
    rcases h.destroyed with hd | ⟨-, -, -, hnil⟩
    · rw [happ, htasks, hdes, hd]
      by_cases hone : l.sys.conn.ref = 1
      · have hnn := count_nonneg l.app
        have hdrops := h.drops
        by_cases hcl : l.sys.conn.state = .closed
        · rw [if_pos hcl] at hdrops
          refine .inr ⟨by simp [hone], gone_of_count (by omega), hstate.trans hcl, ?_⟩
          exact List.length_eq_zero_iff.mp (by omega)
        · rw [if_neg hcl] at hdrops
          omega
      · simp [hone]
    · rw [hnil] at hmem
      cases hmem

/-- A `tcp_close` returns. -/
theorem close (h : LifeInv l) (hs : sysStep l.sys (.run t io) = .ok s')
    (hrole : l.sys.roles t = .close) (hf : ¬ CloseFails l.sys (.run t io))
    (hl : s'.conn.life = Life.put { l.sys.conn.life with state := st })
    (hst : SameClosed l.sys.conn.state st)
    (hr : s'.roles = Function.update l.sys.roles t .other) : LifeInv (l.after s' (.run t io)) := by
  obtain ⟨hself, happ, htasks⟩ := LifeSys.after_update (l := l) (e := .run t io) rfl hr
  have hclosing := h.roles.close t hrole
  have happ : (l.after s' (.run t io)).app = .dropped := by
    rw [happ, AppRef.after, hself, hrole, if_neg (by decide)]
  have htasks : (l.after s' (.run t io)).tasks = l.tasks := by
    simp [htasks, tasksAfter, hself, hrole]
  have hst' : SameClosed l.sys.conn.state s'.conn.state := by
    rw [show s'.conn.state = st from congrArg Life.state hl]
    exact hst
  have href : s'.conn.ref = l.sys.conn.ref - 1 := congrArg Life.ref hl
  have hold := h.ref
  rw [hclosing, AppRef.count_closing] at hold
  refine h.of_kept hs (not_machineDrops rfl hf hst') hst' ?_ ?_ ?_ ?_
  · rw [happ, htasks, hr]
    exact h.roles.handOff (.inl hrole) (by simp)
  · simp [happ]
  · rw [happ, htasks, AppRef.count_dropped]
    omega
  · have hdes : s'.conn.destroyed = l.sys.conn.destroyed + if l.sys.conn.ref = 1 then 1 else 0 :=
      congrArg Life.destroyed hl
    rw [h.destroyed_of_not_gone (by rw [hclosing]; rfl)] at hdes
    rw [happ, htasks, hdes]
    by_cases hone : l.sys.conn.ref = 1
    · have hdrops := h.drops
      by_cases hcl : l.sys.conn.state = .closed
      · rw [if_pos hcl] at hdrops
        exact .inr ⟨by simp [hone], rfl, hst'.mpr hcl, List.length_eq_zero_iff.mp (by omega)⟩
      · rw [if_neg hcl] at hdrops
        omega
    · simp [hone]

/-- A `tcp_close` fails the connection, which was open. -/
theorem closeFail (h : LifeInv l) (hs : sysStep l.sys (.run t io) = .ok s')
    (hf : CloseFails l.sys (.run t io)) (hne : l.sys.conn.state ≠ .closed)
    (hl : s'.conn.life = l.sys.conn.life.fail.put)
    (hr : s'.roles = Function.update l.sys.roles t .other) : LifeInv (l.after s' (.run t io)) := by
  obtain ⟨hself, happ, htasks⟩ := LifeSys.after_update (l := l) (e := .run t io) rfl hr
  have hrole := hf.1
  have hclosing := h.roles.close t hrole
  have happ : (l.after s' (.run t io)).app = .dropped := by
    rw [happ, AppRef.after, hself, hrole, if_neg (by decide)]
  have htasks : (l.after s' (.run t io)).tasks = l.tasks := by
    simp [htasks, tasksAfter, hself, hrole]
  have href : s'.conn.ref = l.sys.conn.ref - 1 - 1 := congrArg Life.ref hl
  have hdes : s'.conn.destroyed = l.sys.conn.destroyed + (if l.sys.conn.ref = 1 then 1 else 0) +
      if l.sys.conn.ref - 1 = 1 then 1 else 0 := congrArg Life.destroyed hl
  have hold := h.ref
  simp only [hclosing, AppRef.count_closing, h.drops, hne, if_false] at hold
  refine h.of_dropped hs hne (congrArg Life.state hl) ?_ ?_ ?_
  · rw [happ, htasks, hr]
    exact h.roles.handOff (.inl hrole) (by simp)
  · rw [happ, htasks, AppRef.count_dropped]
    omega
  · have htwo : l.sys.conn.ref ≠ 1 := by omega
    rw [hdes, h.destroyed_of_not_closed hne, if_neg htwo]
    simp only [Nat.zero_add]
    exact if_congr (by omega) rfl rfl

/-- A call starts in role `r`, the reference of the application going to `a`. -/
theorem enter {c : Call} {r : Role} {a : AppRef} (h : LifeInv l)
    (hs : sysStep l.sys (.call t c) = .ok s') (hl : s'.conn.life = l.sys.conn.life)
    (hr : s'.roles = Function.update l.sys.roles t r) (hrole : l.sys.roles t = .other)
    (hres : r ≠ .resend) (happ : l.app.after l.sys s' t = a)
    (hroles : RoleInv a (Function.update l.sys.roles t r) l.tasks)
    (ha : a.count = l.app.count ∧ l.app.gone = false ∧
      ∀ o, a = .dialling o → ∃ o, l.app = .dialling o) : LifeInv (l.after s' (.call t c)) := by
  obtain ⟨hself, happ', htasks⟩ := LifeSys.after_update (l := l) (e := .call t c) rfl hr
  rw [happ] at happ'
  have htasks : (l.after s' (.call t c)).tasks = l.tasks := by
    simp [htasks, tasksAfter, hself, hrole, hres]
  have hst : SameClosed l.sys.conn.state s'.conn.state := by
    rw [show s'.conn.state = _ from congrArg Life.state hl]
    exact Iff.rfl
  refine h.of_kept hs (not_machineDrops rfl id hst) hst ?_ ?_ ?_ ?_
  · rw [happ', htasks, hr]
    exact hroles
  · rw [happ']
    exact ha.2.2
  · rw [happ', htasks, ha.1]
    exact (congrArg Life.ref hl).trans h.ref
  · exact .inl ((congrArg Life.destroyed hl).trans (h.destroyed_of_not_gone ha.2.1))

end Moves

/-- **A guarded step of the connection** keeps the invariant. -/
theorem sys_step (h : LifeInv l) (hp : Permitted l (.sys e)) (hg : CountsOnce l (.sys e))
    (hs : sysStep l.sys e = .ok s') : LifeInv (l.after s' e) := by
  cases sysStep_lifeMove hs with
  | keep he hf hl hst hr => exact h.keep hs he hf hl hst hr
  | @enter t c hfree =>
      have hrole := Sys.roles_of_free hfree
      have hr : (l.sys.move l.sys.conn t c.entry).roles =
          Function.update l.sys.roles t c.entry.role := Sys.roles_of_procs rfl
      have hself : (l.sys.move l.sys.conn t c.entry).roles t = c.entry.role := by simp [hr]
      cases c with
      | dial =>
          have happ : l.app = .dialling none := hp
          refine h.enter hs rfl hr hrole (by decide) (a := .dialling (some t)) ?_ ?_ ?_
          · rw [AppRef.after, hself, hrole]
            rfl
          · exact RoleInv.enterDial (happ ▸ h.roles) hrole
          · exact ⟨by rw [happ]; rfl, by rw [happ]; rfl, fun _ _ => ⟨none, happ⟩⟩
      | close =>
          have happ : l.app = .held := hp
          refine h.enter hs rfl hr hrole (by decide) (a := .closing t) ?_ ?_ ?_
          · rw [AppRef.after, hself, hrole]
            rfl
          · exact RoleInv.enterClose (happ ▸ h.roles) hrole
          · exact ⟨by rw [happ]; rfl, by rw [happ]; rfl, by simp⟩
      | shutdown rd wr =>
          have happ : l.app = .held := hp
          refine h.enter hs rfl hr hrole (by simp [Call.entry, Proc.role]) (a := .held) ?_ ?_ ?_
          · rw [AppRef.after, hself, hrole, happ]
            rfl
          · exact RoleInv.enterShut (happ ▸ h.roles) hrole
          · exact ⟨by rw [happ], by rw [happ]; rfl, by simp⟩
      | _ =>
          refine h.keep hs rfl id rfl Iff.rfl ?_
          exact Sys.roles_eq_of_procs rfl hrole.symm
  | back hrole hl hst hr => exact h.back hs hrole hl hst hr
  | dialled hrole hcl hl hr => exact h.dialled hs hrole hcl hl hr
  | dialFail hrole ha hcl hl hr => exact h.dialFail hs hrole hcl (hg.1 hrole ha hcl) hl hr
  | fail hwhy _ hl hr =>
      have hne : l.sys.conn.state ≠ .closed := by
        rcases hwhy with hne | he
        · exact hne
        · cases e with
          | netErr err io => exact hg
          | _ => cases he
      exact h.fail hs hne hl hr
  | get hne hfree hl hr => exact h.get hs hne hfree hl hr
  | taskEnd hrole hl hr => exact h.taskEnd hs hrole hl hr
  | close hrole hf hl hst hr => exact h.close hs hrole hf hl hst hr
  | closeFail hf hl hr => exact h.closeFail hs hf (hg.2 hf) hl hr

theorem step {l' : LifeSys} {e : LifeEvent} (h : LifeInv l) (hp : Permitted l e)
    (hg : CountsOnce l e) (hs : lifeStep l e = .ok l') : LifeInv l' := by
  cases e with
  | sys e =>
      obtain ⟨s', hs', hl⟩ := bind_eq_ok.mp hs
      cases hl
      exact h.sys_step hp hg hs'
  | accept =>
      cases hs
      split
      · rename_i happ
        have href := h.ref
        have hdes := h.destroyed_of_not_gone (by rw [happ]; rfl)
        rw [happ] at href
        refine ⟨h.rx, h.dialling, ?_, by simp, href, h.drops, .inl hdes⟩
        exact RoleInv.dequeue (happ ▸ h.roles) (by simp)
      · exact h
  | qclose =>
      cases hs
      split
      · rename_i happ
        obtain ⟨hcl, hnil⟩ := hg happ
        have href := h.ref
        have hdes := h.destroyed_of_not_gone (by rw [happ]; rfl)
        rw [happ] at href
        refine ⟨?_, h.dialling, ?_, by simp, href, h.drops, .inr ⟨?_, rfl, hcl, hnil⟩⟩
        · exact ⟨h.rx.early, h.rx.ooo, h.rx.owner, h.rx.unique, h.rx.holder, h.rx.free,
            h.rx.stripped, h.rx.part⟩
        · exact RoleInv.dequeue (happ ▸ h.roles) (by simp)
        · simp [tcpConnDestroy, hdes]
      · exact h

/-- The state machine of a new connection takes its reference. -/
theorem opened_life {c c₁ c₂ : Conn} {st : TcpState} {now : Usec}
    (hc : c.ref = 1 ∧ c.destroyed = 0) (hctl : c₁.life = c.life)
    (h : tcpConnSetState (tcpConnGet c₁) st now = .ok c₂) : c₂.ref = 2 ∧ c₂.destroyed = 0 := by
  have hl := life_tcpConnSetState h
  have href : c₁.ref = c.ref := congrArg Life.ref hctl
  have hdes : c₁.destroyed = c.destroyed := congrArg Life.destroyed hctl
  refine ⟨(congrArg Life.ref hl).trans ?_, (congrArg Life.destroyed hl).trans (hdes.trans hc.2)⟩
  change c₁.ref + 1 = 2
  rw [href, hc.1]
  rfl

theorem start_life {s : Sys} (h : s.Start) : s.conn.ref = 2 ∧ s.conn.destroyed = 0 := by
  cases h with
  | @dial iss io c h =>
      have hctl := life_tcpTxCtl (tcpConnAlloc iss) { syn := true } io
      rw [tcpDialStart] at h
      generalize tcpTxCtl (tcpConnAlloc iss) { syn := true } io = r at h hctl
      obtain ⟨c₁, ret⟩ := r
      dsimp only at h hctl
      split at h
      · rename_i hne
        cases h
        exact absurd rfl hne
      · obtain ⟨c₂, h₂, h⟩ := bind_eq_ok.mp h
        cases h
        exact opened_life ⟨rfl, rfl⟩ hctl h₂
  | @listen iss f io c h =>
      rw [tcpRxListener] at h
      split at h
      · cases h
      split at h
      · cases h
      dsimp only at h
      generalize hc₀ : ({ tcpConnAlloc iss with rcv := _ } : Conn) = c₀ at h
      have hfresh : c₀.ref = 1 ∧ c₀.destroyed = 0 := by
        rw [← hc₀]
        exact ⟨rfl, rfl⟩
      have hctl := life_tcpTxCtl c₀ { syn := true, ack := true } io
      generalize tcpTxCtl c₀ { syn := true, ack := true } io = r at h hctl
      obtain ⟨c₁, ret⟩ := r
      dsimp only at h hctl
      split at h
      · cases h
      · obtain ⟨c₂, h₂, h⟩ := bind_eq_ok.mp h
        cases h
        exact opened_life hfresh hctl h₂

theorem of_start (h : l.Start) : LifeInv l := by
  have hfresh : ∀ {s : Sys} {a : AppRef}, s.Start → a.count = 1 → LifeInv ⟨s, a, 0, []⟩ := by
    intro s a hs ha
    obtain ⟨href, hdes⟩ := start_life hs
    obtain ⟨iss, hside, hlt, hidle⟩ := hs.txSide
    have hst : s.conn.state ≠ .closed := by
      intro hcl
      rw [hcl] at hlt
      exact absurd hlt (by decide)
    have hother : ∀ t, s.roles t = .other := by
      intro t
      rw [Sys.roles, hidle t]
      rfl
    refine ⟨hs.rxInv, hs.dialling, ?_, fun o _ hcl => ?_, ?_, ?_, .inl hdes⟩
    · constructor <;> simp [hother]
    · cases (congrArg TxSide.closed hside).symm.trans hcl
    · simp [href, ha]
    · simp [hst]
  cases h with
  | dial h => exact hfresh (.dial h) rfl
  | listen h => exact hfresh (.listen h) rfl

end LifeInv

/-- **The lifetime of a connection.**  In every state of every guarded run the reference
of the state machine was dropped at most once, the connection was destroyed at most
once, and when it was, the application, the state machine and the retransmission
tasks have no reference. -/
theorem destroyed_once {l₀ l : LifeSys} {es : List LifeEvent} (h₀ : l₀.Start)
    (hg : Along lifeStep (fun l e => Permitted l e ∧ CountsOnce l e) l₀ es)
    (h : exec lifeStep l₀ es = .ok l) :
    l.drops ≤ 1 ∧ l.sys.conn.destroyed ≤ 1 ∧
      (l.sys.conn.destroyed ≠ 0 → l.app.gone ∧ l.drops = 1 ∧ l.tasks = []) := by
  have hinv : LifeInv l :=
    exec_invariant (fun _ _ _ hi hge hs => hi.step hge.1 hge.2 hs) (.of_start h₀) hg h
  have hdrops := hinv.drops
  refine ⟨?_, ?_, fun hd => ?_⟩
  · rw [hdrops]
    split <;> omega
  · rcases hinv.destroyed with hd | ⟨hd, -⟩ <;> omega
  · rcases hinv.destroyed with hd' | ⟨-, hgone, hcl, hnil⟩
    · exact absurd hd' hd
    · rw [if_pos hcl] at hdrops
      exact ⟨hgone, hdrops, hnil⟩

/-- The connection that a listener has queued. -/
def queuedConn : LifeSys := ⟨accepted, .queued, 0, []⟩

theorem queuedConn_start : queuedConn.Start :=
  @LifeSys.Start.listen 0 (peerFrame 0 { syn := true } []) (Io.good 0) _ rfl

/-- The connection is accepted, closed and reset. -/
theorem destroyed_once_reset : ∃ l : LifeSys,
    exec lifeStep queuedConn
      [.accept, .sys (.rx (windowFrame 1000) 1 (Io.good 0)), .sys (.call 0 .close),
        .sys (.run 0 (Io.good 0)), .sys (.rx (peerFrame 1 { rst := true } []) 2 (Io.good 0))] =
      .ok l ∧
    l.sys.conn.destroyed = 1 ∧ l.app = .dropped ∧ l.drops = 1 ∧ l.tasks = [] :=
  have h := exec_final (by decide)
  have hd := (destroyed_once queuedConn_start (by decide) h).2.2 (by decide)
  ⟨_, h, by decide, by decide, hd.2⟩

/-- Two network errors come to a connection that the application holds.  The second one
drops the reference of the state machine again, and the connection is destroyed while
the application holds it. -/
theorem destroyed_while_held : queuedConn.Start ∧
    Along lifeStep Permitted queuedConn
      [.accept, .sys (.netErr 111 (Io.good 0)), .sys (.netErr 111 (Io.good 0))] ∧
    ∃ l : LifeSys, exec lifeStep queuedConn
        [.accept, .sys (.netErr 111 (Io.good 0)), .sys (.netErr 111 (Io.good 0))] = .ok l ∧
      l.drops = 2 ∧ l.sys.conn.destroyed = 1 ∧ l.app = .held :=
  ⟨queuedConn_start, by decide, _, exec_final (by decide), by decide,
    by decide, by decide⟩

end Skyloft
