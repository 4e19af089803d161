import Skyloft.Lib.Buckets
import Skyloft.Net.Conn

/-!
# The ARP table

`libos/net/arp.c`.  A packet whose link address is not known waits on the queue of an entry until
the address is learned, and then it is transmitted, or until the entry is given up, and then it is
freed.  A lookup goes through three program points: the check without the lock, the creation of an
entry when there was none, and the part under the lock, which may find another state than the check
did.  An update takes the queue of an entry under the lock and transmits it afterwards.

Entries are numbered in the order in which they are created, calls of `arp_lookup` by the caller;
the packet of a call has its number.  The log lists what is done with the packets.

* `ArpSys` — the table, the calls that are under way and the log.
* `arpStep` — one step of some call, or of the worker that ages the entries.
-/

namespace Skyloft

/-! ## The model -/

/-- `ARP_STATE_PROBING` and the other states of an entry. -/
inductive ArpState
  | probing
  | valid
  | validButReprobing
  | static
  deriving DecidableEq, Repr

/-- `struct arp_entry`, with the numbers of the packets on its queue. -/
structure ArpEntry where
  state : ArpState
  ip : BitVec 32
  eth : BitVec 48
  q : List ℕ
  ts : Usec
  triesLeft : ℕ
  deriving DecidableEq, Repr

def arpTableCapacity : ℕ := 1024
def arpRetries : ℕ := 3
def arpRetryTime : Usec := 1000000
def arpReprobeTime : Usec := 10 * 1000000

/-- Where a call of `arp_lookup` stands. -/
inductive ArpPc
  /-- The check found no entry. -/
  | missed
  /-- It goes for the lock, with the entry that it created. -/
  | unlocked (newe : Option ℕ)
  | returned (ret : ℤ) (dhost : Option (BitVec 48))
  deriving DecidableEq, Repr

/-- A call of `arp_lookup`; `hasMbuf` tells whether a packet is passed. -/
structure ArpCall where
  daddr : BitVec 32
  hasMbuf : Bool
  pc : ArpPc
  deriving DecidableEq, Repr

/-- What a call of `arp_update` has left to transmit, and the entry it was taken from. -/
structure ArpDrain where
  ent : ℕ
  dhost : BitVec 48
  q : List ℕ
  deriving DecidableEq, Repr

inductive ArpLog
  /-- `arp_send` of a request -/
  | request (ip : BitVec 32)
  /-- `arp_update` learns an address -/
  | learn (ip : BitVec 32) (dhost : BitVec 48)
  /-- `mbufq_push_tail` to the queue of entry `e` -/
  | push (e c : ℕ)
  /-- `net_tx_eth` of a packet that was on the queue of entry `e` -/
  | send (e c : ℕ) (dhost : BitVec 48)
  /-- `mbuf_free` -/
  | free (c : ℕ)
  deriving DecidableEq, Repr

structure ArpSys where
  ent : ℕ → ArpEntry
  tbl : ℕ → List ℕ
  /-- the entries created so far -/
  next : ℕ
  call : ℕ → Option ArpCall
  drain : ℕ → ArpDrain
  /-- the updates called so far -/
  updates : ℕ
  log : List ArpLog

section

-- `__mm_crc32_u64`, by which the table is hashed
variable (crc : BitVec 32 → BitVec 64 → BitVec 32)

/-- `hash_ip`. -/
def hashIp (ip : BitVec 32) : ℕ := (crc 0xD4812A53 (ip.setWidth 64)).toNat % arpTableCapacity

namespace ArpSys

/-- `lookup_entry`. -/
def lookupEntry (s : ArpSys) (daddr : BitVec 32) : Option ℕ :=
  (s.tbl (hashIp crc daddr)).find? fun e => (s.ent e).ip = daddr

/-- `create_entry`, of the entry number `s.next`.  The link address is not set. -/
def createEntry (s : ArpSys) (daddr : BitVec 32) (now : Usec) : ArpSys :=
  { s with
    ent := Function.update s.ent s.next
      { s.ent s.next with ip := daddr, state := .probing, ts := now, triesLeft := arpRetries, q := [] }
    next := s.next + 1 }

/-- `insert_entry`. -/
def insertEntry (s : ArpSys) (e idx : ℕ) : ArpSys := { s with tbl := Buckets.insert s.tbl idx e }

/-- `delete_entry`. -/
def deleteEntry (s : ArpSys) (e : ℕ) : ArpSys :=
  { s with
    ent := Function.update s.ent e { s.ent e with q := [] }
    tbl := Buckets.remove s.tbl e
    log := s.log ++ (s.ent e).q.map .free }

/-- A request for the address of an entry, with the fields it has then. -/
def retry (s : ArpSys) (e : ℕ) (x : ArpEntry) : ArpSys :=
  { s with ent := Function.update s.ent e x, log := s.log ++ [.request x.ip] }

/-- `arp_age_entry`, where `now` is the time at which the entry is stamped. -/
def arpAgeEntry (s : ArpSys) (us : Usec) (e : ℕ) (now : Usec) : ArpSys :=
  let x := s.ent e
  if us - x.ts < (if x.state = .valid then arpReprobeTime else arpRetryTime) then s
  else
    match x.state with
    | .probing | .validButReprobing =>
        if x.triesLeft = 0 then s.deleteEntry e
        else s.retry e { x with triesLeft := x.triesLeft - 1, ts := now }
    | .valid =>
        s.retry e { x with state := .validButReprobing, triesLeft := arpRetries, ts := now }
    | .static => s

/-- The end of the locked part of `arp_update`, in which the queue of the entry is taken. -/
def learn (s : ArpSys) (e : ℕ) (dhost : BitVec 48) (now : Usec) : ArpSys :=
  { s with
    ent := Function.update s.ent e { s.ent e with eth := dhost, ts := now, state := .valid, q := [] }
    drain := Function.update s.drain s.updates ⟨e, dhost, (s.ent e).q⟩
    updates := s.updates + 1
    log := s.log ++ [.learn (s.ent e).ip dhost] }

/-- `arp_update` up to the loop.  `alloc` tells whether there is memory for an entry. -/
def arpUpdate (s : ArpSys) (daddr : BitVec 32) (dhost : BitVec 48) (alloc : Bool) (now : Usec) :
    ArpSys :=
  match s.lookupEntry crc daddr with
  | none =>
      if alloc then
        ((s.createEntry daddr now).insertEntry s.next (hashIp crc daddr)).learn s.next dhost now
      else s
  | some e => if (s.ent e).state = .static then s else s.learn e dhost now

/-- One round of the loop of `arp_update`. -/
def drainOne (s : ArpSys) (u : ℕ) : ArpSys :=
  match (s.drain u).q with
  | [] => s
  | c :: rest =>
      { s with
        drain := Function.update s.drain u { s.drain u with q := rest }
        log := s.log ++ [.send (s.drain u).ent c (s.drain u).dhost] }

def setCall (s : ArpSys) (c : ℕ) (call : ArpCall) : ArpSys :=
  { s with call := Function.update s.call c (some call) }

/-- `arp_lookup`: the check without the lock. -/
def arpLookupCheck (s : ArpSys) (c : ℕ) (daddr : BitVec 32) (hasMbuf : Bool) : ArpSys :=
  match s.lookupEntry crc daddr with
  | some e =>
      if (s.ent e).state ≠ .probing then
        s.setCall c ⟨daddr, hasMbuf, .returned 0 (some (s.ent e).eth)⟩
      else s.setCall c ⟨daddr, hasMbuf, .unlocked none⟩
  | none => s.setCall c ⟨daddr, hasMbuf, .missed⟩

/-- `arp_lookup`: the creation of an entry. -/
def arpLookupCreate (s : ArpSys) (c : ℕ) (call : ArpCall) (alloc : Bool) (now : Usec) : ArpSys :=
  let s : ArpSys := { s with log := s.log ++ [.request call.daddr] }
  if alloc then
    (s.createEntry call.daddr now).setCall c { call with pc := .unlocked (some s.next) }
  else s.setCall c { call with pc := .returned (-eNomem) none }

/-- `mbufq_push_tail` of the packet, if there is one. -/
def enqueue (s : ArpSys) (c : ℕ) (call : ArpCall) (e : ℕ) : ArpSys :=
  if call.hasMbuf then
    { s with
      ent := Function.update s.ent e { s.ent e with q := (s.ent e).q ++ [c] }
      log := s.log ++ [.push e c] }
  else s

/-- `mbuf_free` of the packet, if there is one. -/
def drop (s : ArpSys) (c : ℕ) (call : ArpCall) : ArpSys :=
  if call.hasMbuf then { s with log := s.log ++ [.free c] } else s

/-- `arp_lookup`: the locked part, and the rest. -/
def arpLookupLocked (s : ArpSys) (c : ℕ) (call : ArpCall) (newe : Option ℕ) : ArpSys :=
  let inProgress := { call with pc := .returned (-eInProgress) none }
  match s.lookupEntry crc call.daddr, newe with
  | some e, _ =>
      if (s.ent e).state ≠ .probing then
        s.setCall c { call with pc := .returned 0 (some (s.ent e).eth) }
      else (s.enqueue c call e).setCall c inProgress
  | none, some e =>
      ((s.insertEntry e (hashIp crc call.daddr)).enqueue c call e).setCall c inProgress
  | none, none => (s.drop c call).setCall c inProgress

end ArpSys

/-- A step of a call, or of the worker at an entry of bucket `i`.  The call `c` of `arp_lookup` starts
with its check. -/
inductive ArpEvent
  | check (c : ℕ) (daddr : BitVec 32) (hasMbuf : Bool)
  | create (c : ℕ) (alloc : Bool) (now : Usec)
  | locked (c : ℕ)
  | update (daddr : BitVec 32) (dhost : BitVec 48) (alloc : Bool) (now : Usec)
  | drain (u : ℕ)
  | age (i e : ℕ) (us now : Usec)

/-- A step that is not the next one of its call does nothing. -/
def arpStep (s : ArpSys) : ArpEvent → ArpSys
  | .check c daddr hasMbuf =>
      match s.call c with
      | none => s.arpLookupCheck crc c daddr hasMbuf
      | some _ => s
  | .create c alloc now =>
      match s.call c with
      | some ⟨daddr, hasMbuf, .missed⟩ =>
          s.arpLookupCreate c ⟨daddr, hasMbuf, .missed⟩ alloc now
      | _ => s
  | .locked c =>
      match s.call c with
      | some ⟨daddr, hasMbuf, .unlocked newe⟩ =>
          s.arpLookupLocked crc c ⟨daddr, hasMbuf, .unlocked newe⟩ newe
      | _ => s
  | .update daddr dhost alloc now => s.arpUpdate crc daddr dhost alloc now
  | .drain u => if u < s.updates then s.drainOne u else s
  | .age i e us now => if e ∈ s.tbl i then s.arpAgeEntry us e now else s

/-- The table after `arp_init`. -/
def ArpSys.init : ArpSys :=
  { ent := fun _ => ⟨.probing, 0, 0, [], 0, 0⟩, tbl := fun _ => [], next := 0
    call := fun _ => none, drain := fun _ => ⟨0, 0, []⟩, updates := 0, log := [] }

/-- One round of the loop of `arp_init_late`. -/
def ArpSys.loadStatic (s : ArpSys) (now : Usec) (x : BitVec 32 × BitVec 48) : ArpSys :=
  let e := s.next
  let s := s.createEntry x.1 now
  { s with ent := Function.update s.ent e { s.ent e with eth := x.2, state := .static } }.insertEntry e
    (hashIp crc x.1)

/-- `arp_init_late`. -/
def arpInitLate (statics : List (BitVec 32 × BitVec 48)) (now : Usec) : ArpSys :=
  statics.foldl (fun s x => s.loadStatic crc now x) .init

end

end Skyloft
