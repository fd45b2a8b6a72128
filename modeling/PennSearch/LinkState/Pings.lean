import PennSearch.Library.Requests
import PennSearch.LinkState.OwnRoute
import PennSearch.LinkState.Datagrams

/-!
# Pings between routers

A PING command broadcasts a PING_REQ, and the router that has the pinged address
broadcasts its answer; neither is forwarded. `PingNet` puts this on top of the routing
protocol, with the clock and the audit timers: links go up and down, messages are lost,
duplicated and delivered in any order, and what else is sent draws numbers from the same
counter. The state carries a record of the pings of each router (`RequestRecord`), which no
handler reads.
-/

namespace PennSearch

open MessagePassing

/-- `Time::GetMilliSeconds`, of a time in nanoseconds. -/
def milliSecondsOf (time : ℕ) : ℕ := time / 1000000

def PingRequest.stale (r : PingRequest) (timeout now : ℕ) : Bool :=
  milliSecondsOf r.timestamp + milliSecondsOf timeout ≤ milliSecondsOf now

namespace LsNode

def resolveNodeIpAddress (n : LsNode) (nodeNumber : UInt32) : Ipv4Address :=
  match n.maps.nodeAddressMap[nodeNumber]? with
  | none => .getAny
  | some a => a

/-- What the PING command enters into the tracker. -/
def pingRequest (n : LsNode) (now : ℕ) (nodeNumber : UInt32) (pingMessage : CxxString) :
    PingRequest where
  timestamp := now
  destinationAddress := n.resolveNodeIpAddress nodeNumber
  pingMessage := pingMessage

def processPingCommand (n : LsNode) (now : ℕ) (nodeNumber : UInt32) (pingMessage : CxxString) :
    LsNode × List (LsSocket × LSMessage) :=
  let destAddress := n.resolveNodeIpAddress nodeNumber
  if destAddress ≠ .getAny then
    ({ n.nextSequenceNumber with
        pingTracker := n.pingTracker.insertIfNew n.currentSequenceNumber
          (n.pingRequest now nodeNumber pingMessage) },
      n.broadcastPacket ⟨n.currentSequenceNumber, n.maxTTL, n.mainAddress,
        .pingReq ⟨destAddress, pingMessage⟩⟩)
  else (n, [])

/-- The loop of `AuditPings` over the entries that are left: `erase (iter++)` keeps the
iterators of the others. -/
def auditLoop (timeout now : ℕ) : List (UInt32 × PingRequest) →
    Std.ExtTreeMap UInt32 PingRequest → Std.ExtTreeMap UInt32 PingRequest
  | [], tracker => tracker
  | (id, pingRequest) :: entries, tracker =>
      if pingRequest.stale timeout now then auditLoop timeout now entries (tracker.erase id)
      else auditLoop timeout now entries tracker

/-- `AuditPings`, at time `now`, but for the timer. -/
def auditPings (n : LsNode) (timeout now : ℕ) : LsNode :=
  { n with pingTracker := auditLoop timeout now n.pingTracker.toList n.pingTracker }

end LsNode

/-! ## The network -/

/-- How a ping ends: with the answer of `router`, or at an audit. -/
inductive LsPingOutcome
  | answered (router : UInt32) (time : ℕ)
  | expired (time : ℕ)
deriving DecidableEq

namespace LsNode

def numbersDrawn (n : LsNode) : ℕ :=
  if floodingFlag n.neighborTable n.currentneighborTable then 2 else 1

def pingAnswers (n : LsNode) (src : UInt32) (now : ℕ) (m : LSMessage) :
    List (UInt32 × LsPingOutcome) :=
  match m.payload with
  | .pingRsp ping =>
      if n.isOwnAddress ping.destinationAddress = true ∧ m.sequenceNumber ∈ n.pingTracker then
        [(m.sequenceNumber, .answered src now)]
      else []
  | _ => []

def pingExpiries (n : LsNode) (timeout now : ℕ) : List (UInt32 × LsPingOutcome) :=
  (n.pingTracker.toList.filter fun entry => entry.2.stale timeout now).map fun entry =>
    (entry.1, .expired now)

end LsNode

abbrev PingLog := RequestRecord UInt32 PingRequest LsPingOutcome

/-- The routers, the time, when the audit timer of each router expires, and the record of
its pings. -/
structure PingNet (w : Wiring) where
  linked : LinkedNet w
  now : ℕ
  auditAt : UInt32 → ℕ
  log : UInt32 → PingLog

/-- A step or a fault of the network, a PING command, an audit, or time passes. -/
inductive LsPingEvent
  | linked (e : FaultyEvent)
  | ping (node nodeNumber : UInt32) (pingMessage : CxxString)
  | auditPings (node : UInt32)
  | wait (time : ℕ)
deriving DecidableEq

/-- A timer runs at a member, and only packets that are there are delivered. -/
def LinkedNet.FaultyAllowed {w : Wiring} (c : LinkedNet w) : FaultyEvent → Prop
  | .linked e => c.Allowed e
  | .lose _ => True
  | .duplicate _ => True

instance {w : Wiring} (c : LinkedNet w) (e : FaultyEvent) : Decidable (c.FaultyAllowed e) :=
  match e with
  | .linked e => inferInstanceAs (Decidable (c.Allowed e))
  | .lose _ => .isTrue trivial
  | .duplicate _ => .isTrue trivial

namespace PingNet

variable {w : Wiring}

abbrev node (c : PingNet w) (u : UInt32) : LsNode := c.linked.net.node u

abbrev inFlight (c : PingNet w) : List (LsPacket UInt32) := c.linked.net.inFlight

def start (w : Wiring) (links : Links w) (maxTTL singleHop : UInt8)
    (sequenceNumber : UInt32 → UInt32) (timeout : ℕ) : PingNet w where
  linked := .start w links maxTTL singleHop sequenceNumber
  now := 0
  auditAt _ := timeout
  log _ := .none

def linkedLog (c : PingNet w) : FaultyEvent → UInt32 → PingLog
  | .linked (.router (.ndRequests u)) =>
      Function.update c.log u ((c.log u).draw (c.node u).numbersDrawn)
  | .linked (.router (.deliver k)) =>
      match c.inFlight[k]? with
      | none => c.log
      | some p =>
          Function.update c.log p.dst
            ((c.log p.dst).close ((c.node p.dst).pingAnswers p.src c.now p.msg.2))
  | _ => c.log

def turn (c : PingNet w) (u : UInt32) (n : LsNode) (sent : List (LsSocket × LSMessage)) :
    LinkedNet w :=
  { c.linked with net := c.linked.net.act u n (transmit c.linked.links.ears u sent) }

def step [CostQueue] (timeout : ℕ) (c : PingNet w) : LsPingEvent → Except LsFault (PingNet w)
  | .linked e => do
      let linked ← c.linked.faultyStep e
      return { c with linked := linked, log := c.linkedLog e }
  | .ping u nodeNumber pingMessage =>
      let n := c.node u
      let r := n.processPingCommand c.now nodeNumber pingMessage
      .ok { c with
        linked := c.turn u r.1 r.2
        log := if n.resolveNodeIpAddress nodeNumber ≠ .getAny then
            Function.update c.log u ((c.log u).openAs n.currentSequenceNumber
              (n.pingRequest c.now nodeNumber pingMessage))
          else c.log }
  | .auditPings u =>
      .ok { c with
        linked := c.turn u ((c.node u).auditPings timeout c.now) []
        auditAt := Function.update c.auditAt u (c.now + timeout)
        log := Function.update c.log u
          ((c.log u).close ((c.node u).pingExpiries timeout c.now)) }
  | .wait time => .ok { c with now := time }

/-- Members are asked to ping and run their timers, an audit runs when its timer expires,
and time does not go back. -/
def Allowed (c : PingNet w) : LsPingEvent → Prop
  | .linked e => c.linked.FaultyAllowed e
  | .ping u _ _ => u ∈ w.members
  | .auditPings u => u ∈ w.members ∧ c.now = c.auditAt u
  | .wait time => c.now ≤ time ∧ ∀ u ∈ w.members, time ≤ c.auditAt u

instance (c : PingNet w) (e : LsPingEvent) : Decidable (c.Allowed e) :=
  match e with
  | .linked e => inferInstanceAs (Decidable (c.linked.FaultyAllowed e))
  | .ping u _ _ => inferInstanceAs (Decidable (u ∈ w.members))
  | .auditPings u => inferInstanceAs (Decidable (u ∈ w.members ∧ c.now = c.auditAt u))
  | .wait time =>
      have : Decidable (∀ u ∈ w.members, time ≤ c.auditAt u) := Finset.decidableDforallFinset
      inferInstanceAs (Decidable (c.now ≤ time ∧ ∀ u ∈ w.members, time ≤ c.auditAt u))

/-- No counter of sequence numbers has come round. -/
def Numbers (c : PingNet w) : LsPingEvent → Prop
  | .linked (.linked (.router (.ndRequests u))) => (c.log u).drawn + 2 < 2 ^ 32
  | .ping u _ _ => (c.log u).drawn + 1 < 2 ^ 32
  | _ => True

instance (c : PingNet w) (e : LsPingEvent) : Decidable (c.Numbers e) :=
  match e with
  | .linked (.linked (.router (.ndRequests u))) =>
      inferInstanceAs (Decidable ((c.log u).drawn + 2 < 2 ^ 32))
  | .linked (.linked (.router (.deliver _))) => .isTrue trivial
  | .linked (.linked (.link _ _ _)) => .isTrue trivial
  | .linked (.lose _) => .isTrue trivial
  | .linked (.duplicate _) => .isTrue trivial
  | .ping u _ _ => inferInstanceAs (Decidable ((c.log u).drawn + 1 < 2 ^ 32))
  | .auditPings _ => .isTrue trivial
  | .wait _ => .isTrue trivial

end PingNet

/-! ## What one router does -/

def LSMessage.isPing (m : LSMessage) : Bool :=
  match m.payload with
  | .pingReq _ | .pingRsp _ => true
  | .ndReq _ | .ndRsp _ | .lsp _ => false

theorem milliSecondsOf_mono {t t' : ℕ} (h : t ≤ t') : milliSecondsOf t ≤ milliSecondsOf t' :=
  Nat.div_le_div_right h

theorem milliSecondsOf_add_le (t t' : ℕ) :
    milliSecondsOf t + milliSecondsOf t' ≤ milliSecondsOf (t + t') := by
  unfold milliSecondsOf
  omega

theorem PingRequest.lt_of_not_stale {r : PingRequest} {timeout now : ℕ}
    (h : r.stale timeout now = false) : now < r.timestamp + timeout := by
  by_contra hlate
  have hms := milliSecondsOf_mono (Nat.le_of_not_lt hlate)
  have hstale : r.stale timeout now = true :=
    decide_eq_true ((milliSecondsOf_add_le r.timestamp timeout).trans hms)
  rw [h] at hstale
  cases hstale

namespace LsNode

variable {n n' : LsNode} {timeout now : ℕ} {id : UInt32} {r : PingRequest} {m : LSMessage}
  {s : LsSocket} {sent : List (LsSocket × LSMessage)} {src : UInt32}

theorem getElem?_auditLoop (l : List (UInt32 × PingRequest))
    (tracker : Std.ExtTreeMap UInt32 PingRequest) :
    (auditLoop timeout now l tracker)[id]? = some r ↔
      tracker[id]? = some r ∧ ∀ entry ∈ l, entry.1 = id → entry.2.stale timeout now = false := by
  induction l generalizing tracker with
  | nil => simp [auditLoop]
  | cons entry l ih =>
      rw [auditLoop, List.forall_mem_cons]
      by_cases h : entry.2.stale timeout now = true
      · rw [if_pos h, ih, Std.ExtTreeMap.getElem?_erase]
        by_cases hid : entry.1 = id
        · simp [hid, h]
        · simp [hid]
      · rw [if_neg h, ih]
        simp [h]

theorem getElem?_auditPings :
    (n.auditPings timeout now).pingTracker[id]? = some r ↔
      n.pingTracker[id]? = some r ∧ id ∉ (n.pingExpiries timeout now).map Prod.fst := by
  refine (getElem?_auditLoop _ _).trans (and_congr_right fun hr => ?_)
  have hmem : (id, r) ∈ n.pingTracker.toList :=
    Std.ExtTreeMap.mem_toList_iff_getElem?_eq_some.mpr hr
  rw [pingExpiries, List.map_map]
  constructor
  · intro hfresh hid
    obtain ⟨entry, hentry, rfl⟩ := List.mem_map.mp hid
    obtain ⟨hentry, hstale⟩ := List.mem_filter.mp hentry
    rw [hfresh entry hentry rfl] at hstale
    cases hstale
  · rintro hid ⟨id', r'⟩ hentry rfl
    refine Bool.eq_false_of_not_eq_true fun hstale => hid ?_
    exact List.mem_map.mpr ⟨_, List.mem_filter.mpr ⟨hentry, hstale⟩, rfl⟩

theorem mem_pingExpiries {p : UInt32 × LsPingOutcome} :
    p ∈ n.pingExpiries timeout now ↔ p.2 = .expired now ∧
      ∃ r, n.pingTracker[p.1]? = some r ∧ r.stale timeout now = true := by
  obtain ⟨id, o⟩ := p
  simp only [pingExpiries, List.mem_map, List.mem_filter, Prod.exists, Prod.mk.injEq,
    Std.ExtTreeMap.mem_toList_iff_getElem?_eq_some]
  constructor
  · rintro ⟨id, r, ⟨hr, hstale⟩, rfl, rfl⟩
    exact ⟨rfl, r, hr, hstale⟩
  · rintro ⟨rfl, r, hr, hstale⟩
    exact ⟨id, r, ⟨hr, hstale⟩, rfl, rfl⟩

theorem nodup_pingExpiries : ((n.pingExpiries timeout now).map Prod.fst).Nodup := by
  have hkeys : (n.pingTracker.toList.map Prod.fst).Nodup := by
    rw [Std.ExtTreeMap.map_fst_toList_eq_keys]
    exact Std.ExtTreeMap.nodup_keys
  rw [pingExpiries, List.map_map]
  exact (List.filter_sublist.map _).nodup hkeys

section Handlers

variable [CostQueue]

theorem ndRequests_pings (h : n.ndRequests = .ok (n', sent)) :
    n.SameSite n' ∧ n'.pingTracker = n.pingTracker ∧
      n'.currentSequenceNumber = n.currentSequenceNumber + UInt32.ofNat n.numbersDrawn ∧
      ∀ p ∈ sent, p.2.isPing = false := by
  have hbroadcast : ∀ {n : LsNode} {message : LSMessage}, message.isPing = false →
      ∀ p ∈ n.broadcastPacket message, p.2.isPing = false := by
    rintro n message hmessage ⟨s, m⟩ hp
    rw [(mem_broadcastPacket.mp hp).2, hmessage]
  cases hflag : floodingFlag n.neighborTable n.currentneighborTable with
  | false =>
      rw [ndRequests_of_not_flag hflag] at h
      cases h
      refine ⟨⟨rfl, rfl, rfl⟩, rfl, ?_, hbroadcast rfl⟩
      simp only [numbersDrawn, hflag]
      rfl
  | true =>
      obtain ⟨table, -, rfl, rfl⟩ := (ndRequests_of_flag hflag).mp h
      refine ⟨⟨rfl, rfl, rfl⟩, rfl, ?_, fun p hp => ?_⟩
      · simp only [numbersDrawn, hflag, if_true]
        exact UInt32.add_assoc _ _ _
      · rcases List.mem_append.mp hp with hp | hp
        · exact hbroadcast rfl p hp
        · exact hbroadcast rfl p hp

theorem recv_of_not_isPing (hm : m.isPing = false) (h : n.recvLSMessage s m = .ok (n', sent)) :
    n.SameSite n' ∧ n'.pingTracker = n.pingTracker ∧
      n'.currentSequenceNumber = n.currentSequenceNumber ∧ ∀ p ∈ sent, p.2.isPing = false := by
  cases hpayload : m.payload with
  | pingReq ping => simp [LSMessage.isPing, hpayload] at hm
  | pingRsp ping => simp [LSMessage.isPing, hpayload] at hm
  | ndReq ping =>
      rw [recvLSMessage, hpayload] at h
      obtain ⟨a, -, h⟩ := bind_eq_ok.mp h
      cases h
      exact ⟨.refl n, rfl, rfl, fun p hp => by rw [List.mem_singleton.mp hp]; rfl⟩
  | ndRsp ping =>
      rw [recvLSMessage, hpayload] at h
      obtain ⟨rfl, rfl | ⟨k, i, -, -, -, rfl⟩⟩ := processNdRsp_eq_ok h
      · exact ⟨.refl n', rfl, rfl, by simp⟩
      · exact ⟨⟨rfl, rfl, rfl⟩, rfl, rfl, by simp⟩
  | lsp lsp =>
      rw [recvLSMessage, hpayload] at h
      cases hknows : n.knowsLsp m.originatorAddress lsp.sequenceNumber with
      | true =>
          dsimp only at h
          rw [processLsp_of_knows hknows] at h
          cases h
          exact ⟨.refl n, rfl, rfl, by simp⟩
      | false =>
          obtain ⟨k, details, table, -, -, -, rfl, rfl⟩ := (processLsp_of_not_knows hknows).mp h
          refine ⟨⟨rfl, rfl, rfl⟩, rfl, rfl, ?_⟩
          rintro ⟨s', m'⟩ hp
          rw [(mem_forwardPacket.mp hp).2.2]
          rfl

theorem recv_pingReq {ping : LsPing} (hm : m.payload = .pingReq ping)
    (h : n.recvLSMessage s m = .ok (n', sent)) :
    n' = n ∧ ∀ p ∈ sent, n.isOwnAddress ping.destinationAddress = true ∧
      p.2 = ⟨m.sequenceNumber, n.maxTTL, n.mainAddress,
        .pingRsp ⟨m.originatorAddress, ping.pingMessage⟩⟩ := by
  rw [recvLSMessage, hm] at h
  change n.processPingReq m ping = _ at h
  rw [processPingReq] at h
  split at h
  · rename_i hown
    cases h
    refine ⟨rfl, ?_⟩
    rintro ⟨s', m'⟩ hp
    exact ⟨hown, (mem_broadcastPacket.mp hp).2⟩
  · cases h
    exact ⟨rfl, by simp⟩

variable (now src) in
theorem recv_pingRsp {ping : LsPing} (hm : m.payload = .pingRsp ping)
    (h : n.recvLSMessage s m = .ok (n', sent)) :
    sent = [] ∧ n.SameSite n' ∧ n'.currentSequenceNumber = n.currentSequenceNumber ∧
      ∀ {id : UInt32} {r : PingRequest}, n'.pingTracker[id]? = some r ↔
        n.pingTracker[id]? = some r ∧ id ∉ (n.pingAnswers src now m).map Prod.fst := by
  rw [recvLSMessage, hm] at h
  change n.processPingRsp m ping = _ at h
  rw [processPingRsp] at h
  split at h
  · rename_i hown
    cases h
    refine ⟨rfl, ⟨rfl, rfl, rfl⟩, rfl, fun {id r} => ?_⟩
    rw [Std.ExtTreeMap.getElem?_erase]
    simp only [pingAnswers, hm, hown, true_and]
    by_cases hid : m.sequenceNumber = id
    · subst hid
      by_cases htracked : m.sequenceNumber ∈ n.pingTracker
      · simp [htracked]
      · have hnone := Std.ExtTreeMap.getElem?_eq_none htracked
        simp [hnone]
    · have hid' : id ≠ m.sequenceNumber := fun heq => hid heq.symm
      by_cases htracked : m.sequenceNumber ∈ n.pingTracker
      · simp [hid, hid', htracked]
      · simp [hid, htracked]
  · rename_i hown
    cases h
    refine ⟨rfl, .refl _, rfl, fun {id r} => ?_⟩
    simp [pingAnswers, hm, hown]

variable (now src) in
theorem recv_tracker (h : n.recvLSMessage s m = .ok (n', sent)) :
    n.SameSite n' ∧ n'.currentSequenceNumber = n.currentSequenceNumber ∧
      ∀ {id : UInt32} {r : PingRequest}, n'.pingTracker[id]? = some r ↔
        n.pingTracker[id]? = some r ∧ id ∉ (n.pingAnswers src now m).map Prod.fst := by
  cases hm : m.payload with
  | pingReq ping =>
      obtain ⟨rfl, -⟩ := recv_pingReq hm h
      exact ⟨.refl _, rfl, by simp [pingAnswers, hm]⟩
  | pingRsp ping =>
      obtain ⟨-, hsite, hcounter, htracker⟩ := recv_pingRsp now src hm h
      exact ⟨hsite, hcounter, htracker⟩
  | ndReq ping =>
      obtain ⟨hsite, htracker, hcounter, -⟩ := recv_of_not_isPing (by simp [LSMessage.isPing, hm]) h
      exact ⟨hsite, hcounter, by simp [htracker, pingAnswers, hm]⟩
  | ndRsp ping =>
      obtain ⟨hsite, htracker, hcounter, -⟩ := recv_of_not_isPing (by simp [LSMessage.isPing, hm]) h
      exact ⟨hsite, hcounter, by simp [htracker, pingAnswers, hm]⟩
  | lsp lsp =>
      obtain ⟨hsite, htracker, hcounter, -⟩ := recv_of_not_isPing (by simp [LSMessage.isPing, hm]) h
      exact ⟨hsite, hcounter, by simp [htracker, pingAnswers, hm]⟩

end Handlers

theorem mem_pingAnswers {p : UInt32 × LsPingOutcome} (h : p ∈ n.pingAnswers src now m) :
    p.2 = .answered src now ∧ p.1 = m.sequenceNumber ∧ (∃ r, n.pingTracker[p.1]? = some r) ∧
      ∃ ping, m.payload = .pingRsp ping ∧ n.isOwnAddress ping.destinationAddress = true := by
  unfold pingAnswers at h
  split at h
  · rename_i ping hping
    split at h
    · rename_i hown
      rw [List.mem_singleton.mp h]
      exact ⟨rfl, rfl, mem_iff_exists_getElem?.mp hown.2, ping, hping, hown.1⟩
    · cases h
  · cases h

theorem nodup_pingAnswers : ((n.pingAnswers src now m).map Prod.fst).Nodup := by
  unfold pingAnswers
  split
  · split
    · exact List.nodup_singleton _
    · exact List.nodup_nil
  · exact List.nodup_nil

end LsNode

/-! ## What is known of the pings -/

/-- Why a ping of router `u` has its outcome: it was answered by the router that has the
pinged address, over a link of `u`, or it was given up after the timeout; both before twice
the timeout. -/
def LsPingOutcome.Justified (w : Wiring) (timeout : ℕ) (u : UInt32) (r : PingRequest) :
    LsPingOutcome → Prop
  | .answered v time => w.maps.addressNodeMap[r.destinationAddress]? = some v ∧
      (∃ s t, w.peer u s = some (v, t)) ∧ r.timestamp ≤ time ∧ time < r.timestamp + 2 * timeout
  | .expired time =>
      milliSecondsOf r.timestamp + milliSecondsOf timeout ≤ milliSecondsOf time ∧
        time < r.timestamp + 2 * timeout

/-- The tracker of router `u` has the pings that wait for an outcome. -/
structure PingBook (w : Wiring) (timeout : ℕ) (first u : UInt32) (n : LsNode) (q : PingLog) :
    Prop where
  counter : n.currentSequenceNumber = first + UInt32.ofNat q.drawn
  sound : q.Sound fun k => first + UInt32.ofNat k
  tracker : ∀ {id : UInt32} {r : PingRequest}, n.pingTracker[id]? = some r ↔ q.Waiting id r
  settled : ∀ p ∈ q.closed, ∃ r, (p.1, r) ∈ q.opened ∧ p.2.Justified w timeout u r

namespace PingBook

variable {w : Wiring} {timeout : ℕ} {first u : UInt32} {n n' : LsNode} {q : PingLog} {k : ℕ}
  {r : PingRequest} {outcomes : List (UInt32 × LsPingOutcome)}

theorem injOn_names (hd : q.drawn < 2 ^ 32) :
    Set.InjOn (fun k => first + UInt32.ofNat k) (Set.Iic q.drawn) := by
  intro j hj k hk heq
  have hof := congrArg UInt32.toNat ((UInt32.add_right_inj first).mp heq)
  have hj' : j ≤ q.drawn := hj
  have hk' : k ≤ q.drawn := hk
  rwa [UInt32.toNat_ofNat_of_lt' (hj'.trans_lt hd),
    UInt32.toNat_ofNat_of_lt' (hk'.trans_lt hd)] at hof

theorem draw (h : PingBook w timeout first u n q)
    (hcounter : n'.currentSequenceNumber = n.currentSequenceNumber + UInt32.ofNat k)
    (htracker : n'.pingTracker = n.pingTracker) : PingBook w timeout first u n' (q.draw k) where
  counter := by
    rw [hcounter, h.counter, UInt32.add_assoc, ← UInt32.ofNat_add]
    rfl
  sound := h.sound.draw k
  tracker := by
    intro id r
    rw [htracker, h.tracker, RequestRecord.waiting_draw]
  settled := h.settled

theorem openAs (h : PingBook w timeout first u n q) (hd : q.drawn < 2 ^ 32)
    (hcounter : n'.currentSequenceNumber = n.currentSequenceNumber + 1)
    (htracker : n'.pingTracker = n.pingTracker.insertIfNew n.currentSequenceNumber r) :
    PingBook w timeout first u n' (q.openAs n.currentSequenceNumber r) where
  counter := by
    have hone : (1 : UInt32) = UInt32.ofNat 1 := rfl
    rw [hcounter, h.counter, UInt32.add_assoc, hone, ← UInt32.ofNat_add]
    rfl
  sound := h.counter ▸ h.sound.openAs (injOn_names hd) r
  tracker := by
    intro id r'
    have hfresh : n.currentSequenceNumber ∉ n.pingTracker := by
      intro hmem
      obtain ⟨r₀, hr₀⟩ := mem_iff_exists_getElem?.mp hmem
      exact h.sound.fresh (injOn_names hd) r₀ (h.counter ▸ (h.tracker.mp hr₀).1)
    have hwaiting : (q.openAs (first + UInt32.ofNat q.drawn) r).Waiting id r' ↔
        (id = first + UInt32.ofNat q.drawn ∧ r' = r) ∨ q.Waiting id r' :=
      h.sound.waiting_openAs (injOn_names hd)
    rw [← h.counter] at hwaiting
    rw [hwaiting, htracker, Std.ExtTreeMap.getElem?_insertIfNew, ← h.tracker]
    simp only [Std.compare_eq_iff_eq]
    by_cases hid : n.currentSequenceNumber = id
    · subst hid
      simp [hfresh, eq_comm]
    · simp [hid, Ne.symm hid]
  settled p hp := by
    obtain ⟨r', hr', hjust⟩ := h.settled p hp
    exact ⟨r', List.mem_append_left _ hr', hjust⟩

theorem close (h : PingBook w timeout first u n q)
    (hcounter : n'.currentSequenceNumber = n.currentSequenceNumber)
    (htracker : ∀ {id : UInt32} {r : PingRequest}, n'.pingTracker[id]? = some r ↔
      n.pingTracker[id]? = some r ∧ id ∉ outcomes.map Prod.fst)
    (hnodup : (outcomes.map Prod.fst).Nodup)
    (houtcomes : ∀ p ∈ outcomes, ∃ r, n.pingTracker[p.1]? = some r ∧
      p.2.Justified w timeout u r) :
    PingBook w timeout first u n' (q.close outcomes) where
  counter := hcounter.trans h.counter
  sound := by
    refine h.sound.close hnodup fun p hp => ?_
    obtain ⟨r, hr, -⟩ := houtcomes p hp
    exact ⟨r, h.tracker.mp hr⟩
  tracker := by
    intro id r
    rw [htracker, h.tracker, RequestRecord.waiting_close]
  settled p hp := by
    rcases List.mem_append.mp hp with hp | hp
    · exact h.settled p hp
    · obtain ⟨r, hr, hjust⟩ := houtcomes p hp
      exact ⟨r, (h.tracker.mp hr).1, hjust⟩

end PingBook

/-- A packet came over a link. A PING_REQ is that of a ping of its sender, and a PING_RSP is
for a ping of a router that has a link to its sender, which has the pinged address. -/
structure PingPacket (w : Wiring) (log : UInt32 → PingLog) (p : LsPacket UInt32) : Prop where
  wired : ∃ t, w.peer p.dst p.msg.1 = some (p.src, t)
  request : ∀ ping, p.msg.2.payload = .pingReq ping →
    p.msg.2.originatorAddress = w.mainAddress p.src ∧
      ∃ r, (p.msg.2.sequenceNumber, r) ∈ (log p.src).opened ∧
        r.destinationAddress = ping.destinationAddress
  response : ∀ ping, p.msg.2.payload = .pingRsp ping →
    ∃ u s t r, w.peer u s = some (p.src, t) ∧ ping.destinationAddress = w.mainAddress u ∧
      (p.msg.2.sequenceNumber, r) ∈ (log u).opened ∧
        w.maps.addressNodeMap[r.destinationAddress]? = some p.src

namespace PingPacket

variable {w : Wiring} {log log' : UInt32 → PingLog} {p : LsPacket UInt32}

theorem mono (h : PingPacket w log p) (hlog : ∀ u, ∀ x ∈ (log u).opened, x ∈ (log' u).opened) :
    PingPacket w log' p where
  wired := h.wired
  request ping hping := by
    obtain ⟨horig, r, hr, hdest⟩ := h.request ping hping
    exact ⟨horig, r, hlog _ _ hr, hdest⟩
  response ping hping := by
    obtain ⟨u, s, t, r, hpeer, hdest, hr, hnumber⟩ := h.response ping hping
    exact ⟨u, s, t, r, hpeer, hdest, hlog _ _ hr, hnumber⟩

theorem of_not_isPing (hwired : ∃ t, w.peer p.dst p.msg.1 = some (p.src, t))
    (h : p.msg.2.isPing = false) : PingPacket w log p where
  wired := hwired
  request ping hping := by simp [LSMessage.isPing, hping] at h
  response ping hping := by simp [LSMessage.isPing, hping] at h

end PingPacket

namespace PingNet

variable {w : Wiring} {c c' : PingNet w} {timeout : ℕ} {first : UInt32 → UInt32} {u : UInt32}
  {n : LsNode} {sent : List (LsSocket × LSMessage)} {q : PingLog} {e : LsPingEvent}

/-- The configuration, the books and the packets, and the timers: what waits was sent less
than twice the timeout before the next audit. -/
structure Pinging (timeout : ℕ) (first : UInt32 → UInt32) (c : PingNet w) : Prop where
  site : ∀ u, (c.node u).maps = w.maps ∧ (c.node u).mainAddress = w.mainAddress u ∧
    (c.node u).socketAddresses = w.socketAddresses u
  book : ∀ u, PingBook w timeout (first u) u (c.node u) (c.log u)
  packet : ∀ p ∈ c.inFlight, PingPacket w c.log p
  timer : ∀ u ∈ w.members, c.now ≤ c.auditAt u ∧ c.auditAt u ≤ c.now + timeout
  young : ∀ u ∈ w.members, ∀ id r, (c.log u).Waiting id r →
    c.auditAt u < r.timestamp + 2 * timeout
  past : ∀ u, ∀ p ∈ (c.log u).opened, p.2.timestamp ≤ c.now

theorem pinging_start (links : Links w) (maxTTL singleHop : UInt8)
    (sequenceNumber : UInt32 → UInt32) (timeout : ℕ) :
    (start w links maxTTL singleHop sequenceNumber timeout).Pinging timeout sequenceNumber where
  site _ := ⟨rfl, rfl, rfl⟩
  book u :=
    { counter := (UInt32.add_zero _).symm
      sound := .none
      tracker := by
        simp [start, LinkedNet.start, LsNode.start, RequestRecord.none, RequestRecord.Waiting]
      settled := by simp [start, RequestRecord.none] }
  packet p hp := by cases hp
  timer u _ := ⟨Nat.zero_le _, (Nat.zero_add timeout).ge⟩
  young u _ id r h := by cases h.1
  past u p hp := by cases hp

theorem mem_update_log (hgrow : ∀ x ∈ (c.log u).opened, x ∈ q.opened) (v : UInt32) :
    ∀ x ∈ (c.log v).opened, x ∈ (Function.update c.log u q v).opened := by
  intro x hx
  by_cases hv : v = u
  · subst hv
    rw [Function.update_self]
    exact hgrow x hx
  · rw [Function.update_of_ne hv]
    exact hx

/-- A router acts, and keeps its book. -/
theorem Pinging.act (h : c.Pinging timeout first) (net : LsNet UInt32) (audit : UInt32 → ℕ)
    (hnode : net.node = c.linked.net.node) (hflight : ∀ p ∈ net.inFlight, p ∈ c.inFlight)
    (hsite : (c.node u).SameSite n) (hbook : PingBook w timeout (first u) u n q)
    (hgrow : ∀ x ∈ (c.log u).opened, x ∈ q.opened) (hpast : ∀ x ∈ q.opened, x.2.timestamp ≤ c.now)
    (haudit : ∀ v, v ≠ u → audit v = c.auditAt v)
    (htimer : u ∈ w.members → (c.now ≤ audit u ∧ audit u ≤ c.now + timeout) ∧
      ∀ id r, q.Waiting id r → audit u < r.timestamp + 2 * timeout)
    (hsent : ∀ p ∈ transmit c.linked.links.ears u sent,
      PingPacket w (Function.update c.log u q) p) :
    Pinging timeout first { c with
      linked := { c.linked with net := net.act u n (transmit c.linked.links.ears u sent) }
      auditAt := audit
      log := Function.update c.log u q } := by
  have hact : ∀ v, (net.act u n (transmit c.linked.links.ears u sent)).node v =
      if v = u then n else c.node v := fun v => by rw [Net.act_node, hnode]
  constructor
  · intro v
    dsimp only [node]
    rw [hact]
    split
    · rename_i hv
      obtain ⟨hmaps, hmain, hsockets⟩ := h.site u
      exact hv ▸ ⟨hsite.maps.trans hmaps, hsite.mainAddress.trans hmain,
        hsite.socketAddresses.trans hsockets⟩
    · exact h.site v
  · intro v
    dsimp only [node]
    rw [hact]
    by_cases hv : v = u
    · subst hv
      rw [if_pos rfl, Function.update_self]
      exact hbook
    · rw [if_neg hv, Function.update_of_ne hv]
      exact h.book v
  · intro p hp
    rcases List.mem_append.mp hp with hp | hp
    · exact (h.packet p (hflight p hp)).mono (mem_update_log hgrow)
    · exact hsent p hp
  · intro v hv
    by_cases hvu : v = u
    · subst hvu
      exact (htimer hv).1
    · dsimp only
      rw [haudit v hvu]
      exact h.timer v hv
  · intro v hv id r
    by_cases hvu : v = u
    · subst hvu
      dsimp only
      rw [Function.update_self]
      exact (htimer hv).2 id r
    · dsimp only
      rw [haudit v hvu, Function.update_of_ne hvu]
      exact h.young v hv id r
  · intro v
    by_cases hvu : v = u
    · subst hvu
      dsimp only
      rw [Function.update_self]
      exact hpast
    · dsimp only
      rw [Function.update_of_ne hvu]
      exact h.past v

/-- `Pinging.act` for a router whose pings that wait have waited before. -/
theorem Pinging.act_of_waiting (h : c.Pinging timeout first) (net : LsNet UInt32)
    (hnode : net.node = c.linked.net.node) (hflight : ∀ p ∈ net.inFlight, p ∈ c.inFlight)
    (hsite : (c.node u).SameSite n) (hbook : PingBook w timeout (first u) u n q)
    (hopened : q.opened = (c.log u).opened)
    (hwaiting : ∀ id r, q.Waiting id r → (c.log u).Waiting id r)
    (hsent : ∀ p ∈ transmit c.linked.links.ears u sent, PingPacket w c.log p) :
    Pinging timeout first { c with
      linked := { c.linked with net := net.act u n (transmit c.linked.links.ears u sent) }
      log := Function.update c.log u q } := by
  have hgrow : ∀ x ∈ (c.log u).opened, x ∈ q.opened := fun x hx => by rw [hopened]; exact hx
  refine h.act net c.auditAt hnode hflight hsite hbook hgrow ?_ (fun _ _ => rfl)
    (fun hu => ?_) fun p hp => ?_
  · rw [hopened]
    exact h.past u
  · exact ⟨h.timer u hu, fun id r hr => h.young u hu id r (hwaiting id r hr)⟩
  · exact (hsent p hp).mono (mem_update_log hgrow)

theorem packet_of_not_isPing (hsent : ∀ p ∈ sent, p.2.isPing = false) :
    ∀ p ∈ transmit c.linked.links.ears u sent, PingPacket w c.log p := by
  intro p hp
  obtain ⟨rfl, s, hpeer, -, hp⟩ := LinkedNet.mem_transmit_ears.mp hp
  exact .of_not_isPing ⟨s, w.peer_symm hpeer⟩ (hsent (s, p.msg.2) hp)

theorem Pinging.of_subset (h : c.Pinging timeout first) {linked : LinkedNet w}
    (hnode : linked.net.node = c.linked.net.node)
    (hflight : ∀ p ∈ linked.net.inFlight, p ∈ c.inFlight) :
    Pinging timeout first { c with linked := linked } where
  site u := by
    dsimp only [node]
    rw [hnode]
    exact h.site u
  book u := by
    dsimp only [node]
    rw [hnode]
    exact h.book u
  packet p hp := h.packet p (hflight p hp)
  timer := h.timer
  young := h.young
  past := h.past

/-! ### Steps -/

theorem Pinging.isOwnAddress_iff (h : c.Pinging timeout first) (hw : w.Addressed)
    (hu : u ∈ w.members) {a : Ipv4Address} :
    (c.node u).isOwnAddress a = true ↔ w.maps.addressNodeMap[a]? = some u := by
  rw [LsNode.isOwnAddress_iff, (h.site u).2.2]
  constructor
  · rintro ⟨s, hs⟩
    exact hw.numbered u hu s a hs
  · intro ha
    exact (hw.owned a u ha).2.2

/-- A ping that an answer takes out is one that its sender has answered. -/
theorem Pinging.answered (h : c.Pinging timeout first) (hw : w.Addressed) {p : LsPacket UInt32}
    (hp : p ∈ c.inFlight) {x : UInt32 × LsPingOutcome}
    (hx : x ∈ (c.node p.dst).pingAnswers p.src c.now p.msg.2) :
    ∃ r, (c.node p.dst).pingTracker[x.1]? = some r ∧ x.2.Justified w timeout p.dst r := by
  obtain ⟨id, o⟩ := x
  obtain ⟨ho, hid, ⟨r, hr⟩, ping, hping, hown⟩ := LsNode.mem_pingAnswers hx
  obtain rfl : o = .answered p.src c.now := ho
  obtain rfl : id = p.msg.2.sequenceNumber := hid
  obtain ⟨u, s, t, r₀, hpeer, hdest, hr₀, hnumber⟩ := (h.packet p hp).response ping hping
  obtain ⟨t', hwired⟩ := (h.packet p hp).wired
  have hdst : p.dst ∈ w.members := (w.peer_mem hwired).1
  -- only the router that the answer is for takes it as its own
  have hu : u = p.dst := by
    have hmain := w.number u (w.peer_mem hpeer).1
    rw [← hdest, (h.isOwnAddress_iff hw hdst).mp hown] at hmain
    exact (Option.some.inj hmain).symm
  subst hu
  have hwaiting := (h.book p.dst).tracker.mp hr
  obtain rfl := (h.book p.dst).sound.eq_of_opened hr₀ hwaiting.1
  have hyoung := h.young p.dst hdst _ _ hwaiting
  exact ⟨_, hr, hnumber, ⟨s, t, hpeer⟩, h.past p.dst _ hr₀,
    (h.timer p.dst hdst).1.trans_lt hyoung⟩

theorem Pinging.packet_of_recv [CostQueue] (h : c.Pinging timeout first) (hw : w.Addressed)
    {p : LsPacket UInt32} (hp : p ∈ c.inFlight)
    (hrecv : (c.node p.dst).recvLSMessage p.msg.1 p.msg.2 = .ok (n, sent)) :
    ∀ q ∈ transmit c.linked.links.ears p.dst sent, PingPacket w c.log q := by
  have hother : p.msg.2.isPing = false →
      ∀ q ∈ transmit c.linked.links.ears p.dst sent, PingPacket w c.log q := fun hm =>
    packet_of_not_isPing (LsNode.recv_of_not_isPing hm hrecv).2.2.2
  cases hm : p.msg.2.payload with
  | pingReq ping =>
      intro q hq
      obtain ⟨hsrc, s, hpeer, -, hq⟩ := LinkedNet.mem_transmit_ears.mp hq
      obtain ⟨hown, hmsg⟩ := (LsNode.recv_pingReq hm hrecv).2 _ hq
      dsimp only at hmsg
      obtain ⟨horig, r, hr, hdest⟩ := (h.packet p hp).request ping hm
      obtain ⟨t, hwired⟩ := (h.packet p hp).wired
      refine ⟨⟨s, hsrc ▸ w.peer_symm hpeer⟩, fun ping' hping' => ?_, fun ping' hping' => ?_⟩
      · rw [hmsg] at hping'
        cases hping'
      · rw [hmsg] at hping'
        cases hping'
        rw [hmsg, hsrc]
        refine ⟨p.src, t, p.msg.1, r, w.peer_symm hwired, horig, hr, ?_⟩
        rw [hdest]
        exact (h.isOwnAddress_iff hw (w.peer_mem hwired).1).mp hown
  | pingRsp ping =>
      obtain rfl := (LsNode.recv_pingRsp c.now p.src hm hrecv).1
      intro q hq
      cases hq
  | ndReq ping => exact hother (by simp [LSMessage.isPing, hm])
  | ndRsp ping => exact hother (by simp [LSMessage.isPing, hm])
  | lsp lsp => exact hother (by simp [LSMessage.isPing, hm])

theorem Pinging.linked [CostQueue] (h : c.Pinging timeout first) (hw : w.Addressed)
    {e : FaultyEvent} {linked : LinkedNet w} (hstep : c.linked.faultyStep e = .ok linked) :
    Pinging timeout first { c with linked := linked, log := c.linkedLog e } := by
  cases e with
  | linked e =>
      rcases LinkedNet.step_ok_cases hstep with ⟨u, s, b, rfl, rfl⟩ |
        ⟨u, n, sent, rfl, hturn, rfl⟩ | ⟨k, p, n, sent, rfl, hk, hrecv, rfl⟩ | ⟨k, rfl, hk, rfl⟩
      · exact h.of_subset rfl fun _ => id
      · obtain ⟨hsite, htracker, hcounter, hsent⟩ := LsNode.ndRequests_pings hturn
        exact h.act_of_waiting c.linked.net rfl (fun _ => id) hsite
          ((h.book u).draw hcounter htracker) rfl
          (fun _ _ => id) (packet_of_not_isPing hsent)
      · have hp := List.mem_of_getElem? hk
        obtain ⟨hsite, hcounter, htracker⟩ :=
          LsNode.recv_tracker c.now p.src hrecv
        have hbook := (h.book p.dst).close hcounter htracker LsNode.nodup_pingAnswers
          fun x hx => h.answered hw hp hx
        have hlog : c.linkedLog (.linked (.router (.deliver k))) = Function.update c.log p.dst
            ((c.log p.dst).close ((c.node p.dst).pingAnswers p.src c.now p.msg.2)) := by
          simp only [linkedLog, hk]
        rw [hlog]
        exact h.act_of_waiting (c.linked.net.take k) rfl
          (fun q hq => List.mem_of_mem_eraseIdx hq) hsite hbook rfl
          (fun _ _ hr => (RequestRecord.waiting_close.mp hr).1) (h.packet_of_recv hw hp hrecv)
      · have hlog : c.linkedLog (.linked (.router (.deliver k))) = c.log := by
          simp only [linkedLog, hk]
        rw [hlog]
        exact h
  | lose k =>
      cases hstep
      exact h.of_subset rfl fun p hp => List.mem_of_mem_eraseIdx hp
  | duplicate k =>
      cases hstep
      refine h.of_subset rfl fun p hp => ?_
      rcases List.mem_append.mp hp with hp | hp
      · exact hp
      · exact List.mem_of_getElem? (Option.mem_toList.mp hp)

theorem step_ping_of_eq [CostQueue] {nodeNumber : UInt32} (pingMessage : CxxString)
    (hdest : (c.node u).resolveNodeIpAddress nodeNumber = .getAny) :
    c.step timeout (.ping u nodeNumber pingMessage) = .ok c := by
  have hnet : c.linked.net.act u (c.node u) (transmit c.linked.links.ears u []) = c.linked.net :=
    Net.act_self c.linked.net u
  simp only [step, LsNode.processPingCommand, hdest, ne_eq, not_true_eq_false, if_false, turn, hnet]

theorem step_ping_of_ne [CostQueue] {nodeNumber : UInt32} (pingMessage : CxxString)
    (hdest : (c.node u).resolveNodeIpAddress nodeNumber ≠ .getAny) :
    c.step timeout (.ping u nodeNumber pingMessage) = .ok { c with
      linked := c.turn u
        { (c.node u).nextSequenceNumber with
          pingTracker := (c.node u).pingTracker.insertIfNew (c.node u).currentSequenceNumber
            ((c.node u).pingRequest c.now nodeNumber pingMessage) }
        ((c.node u).broadcastPacket ⟨(c.node u).currentSequenceNumber, (c.node u).maxTTL,
          (c.node u).mainAddress,
          .pingReq ⟨(c.node u).resolveNodeIpAddress nodeNumber, pingMessage⟩⟩)
      log := Function.update c.log u ((c.log u).openAs (c.node u).currentSequenceNumber
        ((c.node u).pingRequest c.now nodeNumber pingMessage)) } := by
  simp only [step, LsNode.processPingCommand, if_pos hdest]

theorem Pinging.ping [CostQueue] (h : c.Pinging timeout first) (htimeout : 0 < timeout)
    {nodeNumber : UInt32} {pingMessage : CxxString} (hd : (c.log u).drawn < 2 ^ 32)
    (hstep : c.step timeout (.ping u nodeNumber pingMessage) = .ok c') :
    c'.Pinging timeout first := by
  by_cases hdest : (c.node u).resolveNodeIpAddress nodeNumber = .getAny
  · rw [step_ping_of_eq pingMessage hdest] at hstep
    exact Except.ok.inj hstep ▸ h
  · rw [step_ping_of_ne pingMessage hdest] at hstep
    obtain rfl := Except.ok.inj hstep
    refine h.act c.linked.net c.auditAt rfl (fun _ => id) ⟨rfl, rfl, rfl⟩
      ((h.book u).openAs hd rfl rfl) (fun x hx => List.mem_append_left _ hx) ?_ (fun _ _ => rfl)
      ?_ ?_
    · intro x hx
      rcases List.mem_append.mp hx with hx | hx
      · exact h.past u x hx
      · rw [List.mem_singleton.mp hx]
        exact le_rfl
    · refine fun hu => ⟨h.timer u hu, fun id r hr => ?_⟩
      rw [(h.book u).counter,
        (h.book u).sound.waiting_openAs (PingBook.injOn_names hd)] at hr
      rcases hr with ⟨-, rfl⟩ | hold
      · have haudit := (h.timer u hu).2
        change c.auditAt u < c.now + 2 * timeout
        omega
      · exact h.young u hu id r hold
    · intro p hp
      obtain ⟨rfl, s, hpeer, -, hp⟩ := LinkedNet.mem_transmit_ears.mp hp
      have hmsg := (LsNode.mem_broadcastPacket.mp hp).2
      refine ⟨⟨s, w.peer_symm hpeer⟩, fun ping hping => ?_, fun ping hping => ?_⟩
      · rw [hmsg] at hping ⊢
        cases hping
        refine ⟨(h.site p.src).2.1, (c.node p.src).pingRequest c.now nodeNumber pingMessage, ?_,
          rfl⟩
        rw [Function.update_self]
        exact List.mem_append_right _ (List.mem_singleton.mpr rfl)
      · rw [hmsg] at hping
        cases hping

theorem Pinging.auditPings [CostQueue] (h : c.Pinging timeout first)
    (hallowed : c.Allowed (.auditPings u)) (hstep : c.step timeout (.auditPings u) = .ok c') :
    c'.Pinging timeout first := by
  obtain rfl := Except.ok.inj hstep
  obtain ⟨hu, hnow⟩ := hallowed
  have hbook : PingBook w timeout (first u) u ((c.node u).auditPings timeout c.now)
      ((c.log u).close ((c.node u).pingExpiries timeout c.now)) := by
    refine (h.book u).close rfl LsNode.getElem?_auditPings LsNode.nodup_pingExpiries ?_
    rintro ⟨id, o⟩ hx
    obtain ⟨ho, r, hr, hstale⟩ := LsNode.mem_pingExpiries.mp hx
    obtain rfl : o = .expired c.now := ho
    refine ⟨r, hr, of_decide_eq_true hstale, ?_⟩
    exact hnow.trans_lt (h.young u hu id r ((h.book u).tracker.mp hr))
  refine h.act c.linked.net _ rfl (fun _ => id) ⟨rfl, rfl, rfl⟩ hbook (fun _ => id)
    (h.past u) (fun v hv => Function.update_of_ne hv _ _) (fun _ => ?_) fun p hp => by cases hp
  rw [Function.update_self]
  refine ⟨⟨Nat.le_add_right _ _, le_rfl⟩, fun id r hr => ?_⟩
  -- what the audit leaves was sent less than the timeout ago
  obtain ⟨hwaiting, hleft⟩ := RequestRecord.waiting_close.mp hr
  have hr' := (h.book u).tracker.mpr hwaiting
  have hfresh : r.stale timeout c.now = false := by
    refine Bool.eq_false_of_not_eq_true fun hstale => hleft ?_
    exact List.mem_map.mpr ⟨(id, .expired c.now), LsNode.mem_pingExpiries.mpr
      ⟨rfl, r, hr', hstale⟩, rfl⟩
  have hlt := PingRequest.lt_of_not_stale hfresh
  omega

theorem Pinging.step [CostQueue] (h : c.Pinging timeout first) (hw : w.Addressed)
    (htimeout : 0 < timeout) (hallowed : c.Allowed e) (hnumbers : c.Numbers e)
    (hstep : c.step timeout e = .ok c') : c'.Pinging timeout first := by
  cases e with
  | linked e =>
      obtain ⟨linked, hlinked, hstep⟩ := bind_eq_ok.mp hstep
      obtain rfl := Except.ok.inj hstep
      exact h.linked hw hlinked
  | ping u nodeNumber pingMessage =>
      have hd : (c.log u).drawn + 1 < 2 ^ 32 := hnumbers
      exact h.ping htimeout (Nat.lt_of_succ_lt hd) hstep
  | auditPings u => exact h.auditPings hallowed hstep
  | wait time =>
      obtain rfl := Except.ok.inj hstep
      obtain ⟨hnow, hall⟩ := hallowed
      refine ⟨h.site, h.book, h.packet, fun u hu => ⟨hall u hu, ?_⟩, h.young, fun u p hp => ?_⟩
      · exact (h.timer u hu).2.trans (Nat.add_le_add_right hnow timeout)
      · exact (h.past u p hp).trans hnow

/-- Every ping is settled once. Whatever happens to links and messages, as long as no
counter of sequence numbers comes round: the pings of a router have different numbers, and
each has at most one outcome; those without one are exactly what its tracker holds, and
were sent less than twice the timeout ago. A ping that was answered was answered by the
router that has the pinged address, at the other end of a link of the pinging router; one
that expired had waited for the timeout. -/
theorem pings_settled [CostQueue] (hw : w.Addressed) (htimeout : 0 < timeout) (links : Links w)
    (maxTTL singleHop : UInt8) (sequenceNumber : UInt32 → UInt32) {es : List LsPingEvent}
    (run : Run (step timeout) (fun c e => c.Allowed e ∧ c.Numbers e)
      (start w links maxTTL singleHop sequenceNumber timeout) es c) (hu : u ∈ w.members) :
    ((c.log u).opened.map Prod.fst).Nodup ∧ ((c.log u).closed.map Prod.fst).Nodup ∧
      (∀ (id : UInt32) (r : PingRequest), (c.node u).pingTracker[id]? = some r ↔
        (id, r) ∈ (c.log u).opened ∧ id ∉ (c.log u).closed.map Prod.fst) ∧
      (∀ p ∈ (c.log u).opened, p.2.timestamp + 2 * timeout ≤ c.now →
        ∃ outcome, (p.1, outcome) ∈ (c.log u).closed) ∧
      ∀ p ∈ (c.log u).closed, ∃ r, (p.1, r) ∈ (c.log u).opened ∧ p.2.Justified w timeout u r := by
  have h := run.invariant (pinging_start links maxTTL singleHop sequenceNumber timeout)
    fun _ _ _ h hok => h.step hw htimeout hok.1 hok.2
  refine ⟨(h.book u).sound.opened_nodup, (h.book u).sound.closed_nodup,
    fun id r => (h.book u).tracker, fun p hp hlate => ?_, (h.book u).settled⟩
  by_contra hnone
  have hwaiting : (c.log u).Waiting p.1 p.2 := by
    refine ⟨hp, fun hclosed => hnone ?_⟩
    obtain ⟨⟨id, outcome⟩, hmem, rfl⟩ := List.mem_map.mp hclosed
    exact ⟨outcome, hmem⟩
  have hyoung := h.young u hu p.1 p.2 hwaiting
  have htimer := (h.timer u hu).1
  omega

end PingNet

end PennSearch

namespace PennSearch

open MessagePassing PingNet

attribute [local instance] CostQueue.ofList

/-- Router 0 pings its neighbour 1, and router 2, which is not its neighbour. The first ping
is duplicated and answered, the second one expires. -/
def samplePings : List LsPingEvent :=
  [.linked (.linked (.link 0 0 true)), .linked (.linked (.link 1 1 true)), .ping 0 1 [104],
    .linked (.duplicate 0), .ping 0 2 [105], .linked (.linked (.router (.deliver 0))),
    .linked (.linked (.router (.deliver 2))), .wait 2000000000, .auditPings 0]

theorem pings_settled_sample :
    ∃ c : PingNet line, Run (step 2000000000) (fun c e => c.Allowed e ∧ c.Numbers e)
        (start line (lineLinks [] (by decide)) 16 1 (fun _ => 7) 2000000000) samplePings c ∧
      (c.log 0).closed = [(7, .answered 1 0), (8, .expired 2000000000)] ∧
      ((c.log 0).closed.map Prod.fst).Nodup ∧
      ∀ p ∈ (c.log 0).closed, ∃ r, (p.1, r) ∈ (c.log 0).opened ∧
        p.2.Justified line 2000000000 0 r := by
  have hexec : ∃ c, execute (step 2000000000) (fun c e => c.Allowed e ∧ c.Numbers e)
      (start line (lineLinks [] (by decide)) 16 1 (fun _ => 7) 2000000000) samplePings = some c ∧
        (c.log 0).closed = [(7, .answered 1 0), (8, .expired 2000000000)] := by
    decide +kernel
  obtain ⟨c, hc, hclosed⟩ := hexec
  have run := Run.of_execute hc
  obtain ⟨-, hnodup, -, -, hjustified⟩ :=
    pings_settled line_addressed (by decide) _ 16 1 (fun _ => 7) run (u := 0) (by decide)
  exact ⟨c, run, hclosed, hnodup, hjustified⟩

end PennSearch
