import PennSearch.Chord.Handlers

/-!
# The outcome of a ping

`SendPing` puts a request in the tracker, under the transaction id that it draws;
`ProcessPingRsp` and `AuditPings` take it out again, and call the success or the
failure function of the application. `PingRun` is any sequence of pings, responses
and audits at times that do not go back; ids are also drawn elsewhere (`draw`).
The tracker holds exactly the pings that have no outcome yet (`PingInv.tracker`),
so that each ping has at most one.
-/

namespace PennSearch

/-- What a ping causes: an action of a handler, or a call of `m_pingFailureFn`. -/
inductive PingAction
  | chord (action : ChordAction)
  | pingFailure (destAddress : Ipv4Address) (pingMessage : CxxString)
deriving DecidableEq

namespace ChordNode

def sendPing (n : ChordNode) (now : ℕ) (destAddress : Ipv4Address) (pingMessage : CxxString) :
    ChordNode × List PingAction :=
  if destAddress ≠ .getAny then
    let transactionId := n.currentTransactionId
    let n := n.nextTransactionId
    let pingRequest : PingRequest :=
      { timestamp := now, destinationAddress := destAddress, pingMessage := pingMessage }
    ({ n with pingTracker := n.pingTracker.insertIfNew transactionId pingRequest },
      [.chord (.sendTo destAddress ⟨transactionId, .pingReq pingMessage⟩)])
  else
    (n, [.pingFailure destAddress pingMessage])

/-- The loop of `AuditPings` over the entries that are left: `erase (iter++)` keeps
the iterators of the others. A call is listed with the key of its entry. -/
def auditLoop (timeout now : ℕ) :
    List (UInt32 × PingRequest) → ChordNode → ChordNode × List (UInt32 × PingAction)
  | [], n => (n, [])
  | (id, pingRequest) :: entries, n =>
      if pingRequest.timestamp + timeout ≤ now then
        let (n', calls) :=
          auditLoop timeout now entries { n with pingTracker := n.pingTracker.erase id }
        (n', (id, .pingFailure pingRequest.destinationAddress pingRequest.pingMessage) :: calls)
      else
        auditLoop timeout now entries n

def auditPings (n : ChordNode) (timeout now : ℕ) : ChordNode × List (UInt32 × PingAction) :=
  auditLoop timeout now n.pingTracker.toList n

end ChordNode

/-- A step that concerns pings. `draw` is any other use of `GetNextTransactionId`. -/
inductive PingEvent
  | sendPing (destAddress : Ipv4Address) (pingMessage : CxxString)
  | pingRsp (sourceAddress : Ipv4Address) (transactionId : UInt32) (pingMessage : CxxString)
  | auditPings
  | draw

namespace PingEvent

def Allowed : PingEvent → Prop
  | sendPing destAddress _ => destAddress ≠ .getAny
  | _ => True

def draws : PingEvent → ℕ
  | sendPing _ _ => 1
  | draw => 1
  | _ => 0

end PingEvent

/-- The handler of an event. A call is listed with the transaction id of the ping
that it is about. -/
def ChordNode.pingEvent (n : ChordNode) (timeout now : ℕ) :
    PingEvent → ChordNode × List (UInt32 × PingAction)
  | .sendPing destAddress pingMessage =>
      let (n', actions) := n.sendPing now destAddress pingMessage
      (n', actions.map fun action => (n.currentTransactionId, action))
  | .pingRsp sourceAddress transactionId pingMessage =>
      let (n', actions) :=
        n.processPingRsp ⟨transactionId, .pingRsp pingMessage⟩ sourceAddress pingMessage
      (n', actions.map fun action => (transactionId, .chord action))
  | .auditPings => n.auditPings timeout now
  | .draw => (n.nextTransactionId, [])

inductive PingOutcome
  | success
  | failure
deriving DecidableEq

def notification : UInt32 × PingAction → Option (UInt32 × PingOutcome)
  | (id, .chord (.pingSuccess _ _)) => some (id, .success)
  | (id, .pingFailure _ _) => some (id, .failure)
  | _ => none

/-- A node, with the pings that it has sent and the notifications so far. -/
structure PingState where
  node : ChordNode
  now : ℕ
  drawn : ℕ
  pings : List (UInt32 × PingRequest)
  outcomes : List (UInt32 × PingOutcome)

namespace PingState

def settled (s : PingState) : List UInt32 := s.outcomes.map Prod.fst

def sent (s : PingState) (time : ℕ) : PingEvent → List (UInt32 × PingRequest)
  | .sendPing destAddress pingMessage =>
      [(s.node.currentTransactionId,
        { timestamp := time, destinationAddress := destAddress, pingMessage := pingMessage })]
  | _ => []

def calls (s : PingState) (timeout time : ℕ) (e : PingEvent) : List (UInt32 × PingAction) :=
  (s.node.pingEvent timeout time e).2

def next (s : PingState) (timeout time : ℕ) (e : PingEvent) : PingState where
  node := (s.node.pingEvent timeout time e).1
  now := time
  drawn := s.drawn + e.draws
  pings := s.pings ++ s.sent time e
  outcomes := s.outcomes ++ (s.calls timeout time e).filterMap notification

end PingState

/-- The states of a node that starts with no ping under way. -/
inductive PingRun (timeout : ℕ) : PingState → Prop
  | start {n : ChordNode} (time : ℕ) (hn : n.pingTracker = ∅) :
      PingRun timeout { node := n, now := time, drawn := 0, pings := [], outcomes := [] }
  | step {s : PingState} {time : ℕ} {e : PingEvent} (h : PingRun timeout s) (ht : s.now ≤ time)
      (he : e.Allowed) : PingRun timeout (s.next timeout time e)

/-! ## What one event does -/

/-- The request has been waiting for the timeout or longer. -/
def PingRequest.expired (r : PingRequest) (timeout now : ℕ) : Bool := r.timestamp + timeout ≤ now

def failureCall (entry : UInt32 × PingRequest) : UInt32 × PingAction :=
  (entry.1, .pingFailure entry.2.destinationAddress entry.2.pingMessage)

namespace ChordNode

variable {n : ChordNode} {timeout now : ℕ} {id : UInt32} {r : PingRequest}

theorem auditLoop_cons (entry : UInt32 × PingRequest) (l : List (UInt32 × PingRequest)) :
    auditLoop timeout now (entry :: l) n =
      if entry.2.expired timeout now then
        let out := auditLoop timeout now l { n with pingTracker := n.pingTracker.erase entry.1 }
        (out.1, failureCall entry :: out.2)
      else auditLoop timeout now l n := by
  obtain ⟨id, r⟩ := entry
  rw [auditLoop]
  simp only [PingRequest.expired, decide_eq_true_eq]
  rfl

theorem auditLoop_calls (l : List (UInt32 × PingRequest)) (n : ChordNode) :
    (auditLoop timeout now l n).2 =
      (l.filter fun entry => entry.2.expired timeout now).map failureCall := by
  induction l generalizing n with
  | nil => rfl
  | cons entry l ih =>
      rw [auditLoop_cons, List.filter_cons]
      by_cases h : entry.2.expired timeout now = true
      · rw [if_pos h, if_pos h, List.map_cons, ← ih]
      · rw [if_neg h, if_neg h, ih]

theorem auditLoop_currentTransactionId (l : List (UInt32 × PingRequest)) (n : ChordNode) :
    (auditLoop timeout now l n).1.currentTransactionId = n.currentTransactionId := by
  induction l generalizing n with
  | nil => rfl
  | cons entry l ih =>
      rw [auditLoop_cons]
      split
      · exact ih _
      · exact ih n

theorem auditLoop_pingTracker (l : List (UInt32 × PingRequest)) (n : ChordNode) :
    (auditLoop timeout now l n).1.pingTracker[id]? = some r ↔
      n.pingTracker[id]? = some r ∧
        ∀ entry ∈ l, entry.1 = id → entry.2.expired timeout now = false := by
  induction l generalizing n with
  | nil => simp [auditLoop]
  | cons entry l ih =>
      rw [auditLoop_cons, List.forall_mem_cons]
      by_cases h : entry.2.expired timeout now = true
      · rw [if_pos h, ih, Std.TreeMap.getElem?_erase]
        by_cases hid : entry.1 = id
        · simp [hid, h]
        · simp [hid]
      · rw [if_neg h, ih]
        simp [h]

/-- An audit takes out exactly the requests that have waited for the timeout. -/
theorem auditPings_pingTracker :
    (n.auditPings timeout now).1.pingTracker[id]? = some r ↔
      n.pingTracker[id]? = some r ∧ r.expired timeout now = false := by
  rw [auditPings, auditLoop_pingTracker]
  constructor
  · rintro ⟨hr, hall⟩
    exact ⟨hr, hall (id, r) (Std.TreeMap.mem_toList_iff_getElem?_eq_some.mpr hr) rfl⟩
  · rintro ⟨hr, hexp⟩
    refine ⟨hr, ?_⟩
    rintro ⟨id', r'⟩ hmem rfl
    rw [Std.TreeMap.mem_toList_iff_getElem?_eq_some, hr] at hmem
    obtain rfl := Option.some.inj hmem
    exact hexp

theorem mem_auditPings {call : UInt32 × PingAction} :
    call ∈ (n.auditPings timeout now).2 ↔
      ∃ id r, n.pingTracker[id]? = some r ∧ r.expired timeout now = true ∧
        failureCall (id, r) = call := by
  rw [auditPings, auditLoop_calls]
  simp only [List.mem_map, List.mem_filter, Prod.exists,
    Std.TreeMap.mem_toList_iff_getElem?_eq_some, and_assoc]

theorem nodup_auditPings : ((n.auditPings timeout now).2.map Prod.fst).Nodup := by
  have hkeys : (n.pingTracker.toList.map Prod.fst).Nodup := by
    rw [Std.TreeMap.map_fst_toList_eq_keys]
    exact Std.TreeMap.nodup_keys
  have hfst : (fun entry : UInt32 × PingRequest => (failureCall entry).1) = Prod.fst := rfl
  rw [auditPings, auditLoop_calls, List.map_map]
  exact (List.filter_sublist.map Prod.fst).nodup hkeys

end ChordNode

/-! ## The tracker holds the pings without an outcome -/

/-- The ids drawn so far are those from `first` on, and the tracker has the pings
that have had no outcome yet. -/
structure PingInv (first : UInt32) (s : PingState) : Prop where
  counter : s.node.currentTransactionId = first + UInt32.ofNat s.drawn
  ids : ∀ p ∈ s.pings, ∃ k < s.drawn, p.1 = first + UInt32.ofNat k
  nodup : (s.pings.map Prod.fst).Nodup
  settled_nodup : s.settled.Nodup
  settled_sub : ∀ id ∈ s.settled, ∃ r, (id, r) ∈ s.pings
  tracker : ∀ {id r}, s.node.pingTracker[id]? = some r ↔ (id, r) ∈ s.pings ∧ id ∉ s.settled

namespace PingInv

variable {first : UInt32} {s : PingState} {timeout time : ℕ}

theorem start {n : ChordNode} (hn : n.pingTracker = ∅) :
    PingInv n.currentTransactionId
      { node := n, now := time, drawn := 0, pings := [], outcomes := [] } where
  counter := (UInt32.add_zero _).symm
  ids := by simp
  nodup := List.nodup_nil
  settled_nodup := List.nodup_nil
  settled_sub := by simp [PingState.settled]
  tracker := by simp [hn]

theorem counter_fresh (h : PingInv first s) (hd : s.drawn < 2 ^ 32) {p : UInt32 × PingRequest}
    (hp : p ∈ s.pings) : p.1 ≠ s.node.currentTransactionId := by
  obtain ⟨k, hk, hid⟩ := h.ids p hp
  rw [hid, h.counter]
  intro heq
  have hof := congrArg UInt32.toNat ((UInt32.add_right_inj first).mp heq)
  rw [UInt32.toNat_ofNat_of_lt' (hk.trans hd), UInt32.toNat_ofNat_of_lt' hd] at hof
  omega

variable {s' : PingState} {k : ℕ}

/-- An event that takes the entries `done` out of the tracker, and notifies of each. -/
theorem settles (h : PingInv first s) (done : List UInt32)
    (hcounter : s'.node.currentTransactionId = s.node.currentTransactionId + UInt32.ofNat k)
    (hdrawn : s'.drawn = s.drawn + k) (hpings : s'.pings = s.pings)
    (hsettled : s'.settled = s.settled ++ done) (hnodup : done.Nodup)
    (hdone : ∀ id ∈ done, ∃ r, s.node.pingTracker[id]? = some r)
    (htracker : ∀ {id r}, s'.node.pingTracker[id]? = some r ↔
      s.node.pingTracker[id]? = some r ∧ id ∉ done) :
    PingInv first s' where
  counter := by rw [hcounter, h.counter, hdrawn, UInt32.ofNat_add, UInt32.add_assoc]
  ids p hp := by
    rw [hpings] at hp
    obtain ⟨j, hj, hid⟩ := h.ids p hp
    exact ⟨j, by omega, hid⟩
  nodup := hpings ▸ h.nodup
  settled_nodup := by
    rw [hsettled]
    refine List.nodup_append.mpr ⟨h.settled_nodup, hnodup, ?_⟩
    rintro id hid _ hdid rfl
    obtain ⟨r, hr⟩ := hdone id hdid
    exact (h.tracker.mp hr).2 hid
  settled_sub id hid := by
    rw [hsettled, List.mem_append] at hid
    rw [hpings]
    rcases hid with hid | hid
    · exact h.settled_sub id hid
    · obtain ⟨r, hr⟩ := hdone id hid
      exact ⟨r, (h.tracker.mp hr).1⟩
  tracker := by
    intro id r
    rw [htracker, h.tracker, hpings, hsettled, List.mem_append, not_or, and_assoc]

/-- An event that sends one ping, under the id that it draws. -/
theorem sends (h : PingInv first s) {r : PingRequest} (hd : s.drawn < 2 ^ 32)
    (hcounter : s'.node.currentTransactionId = s.node.currentTransactionId + 1)
    (hdrawn : s'.drawn = s.drawn + 1)
    (hpings : s'.pings = s.pings ++ [(s.node.currentTransactionId, r)])
    (hsettled : s'.settled = s.settled)
    (htracker : s'.node.pingTracker =
      s.node.pingTracker.insertIfNew s.node.currentTransactionId r) :
    PingInv first s' where
  counter := by
    rw [hcounter, h.counter, hdrawn, UInt32.ofNat_add, UInt32.add_assoc]
    rfl
  ids p hp := by
    rw [hpings, List.mem_append, List.mem_singleton] at hp
    rcases hp with hp | rfl
    · obtain ⟨j, hj, hid⟩ := h.ids p hp
      exact ⟨j, by omega, hid⟩
    · exact ⟨s.drawn, by omega, h.counter⟩
  nodup := by
    rw [hpings, List.map_append]
    refine List.nodup_append.mpr ⟨h.nodup, List.nodup_singleton _, ?_⟩
    rintro id hid _ hnew rfl
    obtain ⟨p, hp, rfl⟩ := List.mem_map.mp hid
    exact h.counter_fresh hd hp (List.mem_singleton.mp hnew)
  settled_nodup := hsettled ▸ h.settled_nodup
  settled_sub id hid := by
    rw [hsettled] at hid
    obtain ⟨r', hr'⟩ := h.settled_sub id hid
    exact ⟨r', hpings ▸ List.mem_append_left _ hr'⟩
  tracker {id r'} := by
    have hnew : s.node.currentTransactionId ∉ s.node.pingTracker := by
      rw [Std.TreeMap.mem_iff_isSome_getElem?, Option.isSome_iff_exists]
      rintro ⟨r', hr'⟩
      exact h.counter_fresh hd (h.tracker.mp hr').1 rfl
    have hunsettled : s.node.currentTransactionId ∉ s.settled := by
      intro hid
      obtain ⟨r', hr'⟩ := h.settled_sub _ hid
      exact h.counter_fresh hd hr' rfl
    rw [htracker, Std.TreeMap.getElem?_insertIfNew, hpings, hsettled, List.mem_append,
      List.mem_singleton]
    by_cases hid : s.node.currentTransactionId = id
    · subst hid
      have hold : (s.node.currentTransactionId, r') ∉ s.pings := fun hp =>
        h.counter_fresh hd hp rfl
      simp [hnew, hold, hunsettled, eq_comm]
    · have hid' : id ≠ s.node.currentTransactionId := fun heq => hid heq.symm
      simp [hid, hid', h.tracker]

theorem settled_next (s : PingState) (e : PingEvent) :
    (s.next timeout time e).settled =
      s.settled ++ ((s.calls timeout time e).filterMap notification).map Prod.fst :=
  List.map_append

theorem notifications_auditPings (n : ChordNode) :
    (((n.auditPings timeout time).2).filterMap notification) =
      (n.auditPings timeout time).2.map fun call => (call.1, .failure) := by
  have hcomp : notification ∘ failureCall =
      some ∘ ((fun call => (call.1, PingOutcome.failure)) ∘ failureCall) := rfl
  rw [ChordNode.auditPings, ChordNode.auditLoop_calls, List.filterMap_map, List.map_map, hcomp,
    List.filterMap_eq_map]

theorem next_sendPing (h : PingInv first s) {dest : Ipv4Address} {text : CxxString}
    (hdest : dest ≠ .getAny) (hd : s.drawn < 2 ^ 32) :
    PingInv first (s.next timeout time (.sendPing dest text)) := by
  have hev : s.node.pingEvent timeout time (.sendPing dest text) =
      ({ s.node.nextTransactionId with
          pingTracker := s.node.pingTracker.insertIfNew s.node.currentTransactionId
            { timestamp := time, destinationAddress := dest, pingMessage := text } },
        [(s.node.currentTransactionId,
          .chord (.sendTo dest ⟨s.node.currentTransactionId, .pingReq text⟩))]) := by
    simp only [ChordNode.pingEvent, ChordNode.sendPing, if_pos hdest]
    rfl
  refine h.sends (r := { timestamp := time, destinationAddress := dest, pingMessage := text }) hd
    ?_ rfl rfl ?_ ?_
  · simp only [PingState.next, hev]
    rfl
  · rw [settled_next, PingState.calls, hev]
    exact List.append_nil _
  · simp only [PingState.next, hev]

theorem pingEvent_pingRsp {id : UInt32} (hid : id ∈ s.node.pingTracker) (src : Ipv4Address)
    (text : CxxString) :
    s.node.pingEvent timeout time (.pingRsp src id text) =
      ({ s.node with pingTracker := s.node.pingTracker.erase id },
        [(id, .chord (.pingSuccess src text))]) := by
  simp only [ChordNode.pingEvent, ChordNode.processPingRsp, if_pos hid, List.map_cons,
    List.map_nil]

theorem next_pingRsp (h : PingInv first s) (src : Ipv4Address) (id : UInt32) (text : CxxString) :
    PingInv first (s.next timeout time (.pingRsp src id text)) := by
  by_cases hid : id ∈ s.node.pingTracker
  · have hev : s.node.pingEvent timeout time (.pingRsp src id text) = _ :=
      pingEvent_pingRsp hid src text
    refine h.settles [id] (k := 0) ?_ rfl (List.append_nil _) ?_
      (List.nodup_singleton id) ?_ ?_
    · simp only [PingState.next, hev]
      exact (UInt32.add_zero _).symm
    · rw [settled_next, PingState.calls, hev]
      rfl
    · intro id' hid'
      rw [List.mem_singleton.mp hid', ← Option.isSome_iff_exists]
      exact Std.TreeMap.mem_iff_isSome_getElem?.mp hid
    · intro id' r
      rw [PingState.next, hev, List.mem_singleton]
      show (s.node.pingTracker.erase id)[id']? = some r ↔ _
      rw [Std.TreeMap.getElem?_erase]
      by_cases heq : id = id'
      · subst heq
        simp
      · have heq' : id' ≠ id := fun h => heq h.symm
        have hcmp : compare id id' ≠ .eq := fun h => heq (Std.LawfulEqCmp.eq_of_compare h)
        rw [if_neg hcmp]
        exact (and_iff_left heq').symm
  · have hev : s.node.pingEvent timeout time (.pingRsp src id text) = (s.node, []) := by
      simp only [ChordNode.pingEvent, ChordNode.processPingRsp, if_neg hid, List.map_nil]
    refine h.settles [] (k := 0) ?_ rfl (List.append_nil _) ?_ List.nodup_nil ?_ ?_
    · simp only [PingState.next, hev]
      exact (UInt32.add_zero _).symm
    · rw [settled_next, PingState.calls, hev]
      rfl
    · simp
    · intro id' r
      simp [PingState.next, hev]

theorem next_auditPings (h : PingInv first s) :
    PingInv first (s.next timeout time .auditPings) := by
  refine h.settles ((s.node.auditPings timeout time).2.map Prod.fst) (k := 0) ?_ rfl
    (List.append_nil _) ?_ ChordNode.nodup_auditPings ?_ ?_
  · exact (ChordNode.auditLoop_currentTransactionId _ _).trans (UInt32.add_zero _).symm
  · have hcalls : s.calls timeout time .auditPings = (s.node.auditPings timeout time).2 := rfl
    rw [settled_next, hcalls, notifications_auditPings, List.map_map]
    rfl
  · intro id hid
    obtain ⟨call, hcall, rfl⟩ := List.mem_map.mp hid
    obtain ⟨id, r, hr, -, rfl⟩ := ChordNode.mem_auditPings.mp hcall
    exact ⟨r, hr⟩
  · intro id r
    refine ChordNode.auditPings_pingTracker.trans (and_congr_right fun hr => ?_)
    constructor
    · intro hexp hid
      obtain ⟨call, hcall, hkey⟩ := List.mem_map.mp hid
      obtain ⟨id', r', hr', hexp', rfl⟩ := ChordNode.mem_auditPings.mp hcall
      obtain rfl : id' = id := hkey
      rw [hr] at hr'
      obtain rfl := Option.some.inj hr'
      rw [hexp] at hexp'
      cases hexp'
    · intro hid
      by_contra hexp
      rw [Bool.not_eq_false] at hexp
      exact hid (List.mem_map.mpr
        ⟨_, ChordNode.mem_auditPings.mpr ⟨id, r, hr, hexp, rfl⟩, rfl⟩)

theorem next_draw (h : PingInv first s) : PingInv first (s.next timeout time .draw) := by
  refine h.settles [] (k := 1) rfl rfl (List.append_nil _) ?_ List.nodup_nil (by simp) ?_
  · rw [settled_next]
    rfl
  · intro id r
    simp [PingState.next, ChordNode.pingEvent, ChordNode.nextTransactionId]

theorem next (h : PingInv first s) {e : PingEvent} (he : e.Allowed)
    (hd : (s.next timeout time e).drawn < 2 ^ 32) : PingInv first (s.next timeout time e) := by
  cases e with
  | sendPing dest text =>
      have hdrawn : s.drawn + 1 < 2 ^ 32 := hd
      exact h.next_sendPing he (by omega)
  | pingRsp src id text => exact h.next_pingRsp src id text
  | auditPings => exact h.next_auditPings
  | draw => exact h.next_draw

end PingInv

theorem PingRun.exists_inv {timeout : ℕ} {s : PingState} (h : PingRun timeout s)
    (hd : s.drawn < 2 ^ 32) : ∃ first, PingInv first s := by
  induction h with
  | start time hn => exact ⟨_, PingInv.start hn⟩
  | step h ht he ih =>
      obtain ⟨first, hinv⟩ := ih ((Nat.le_add_right _ _).trans_lt hd)
      exact ⟨first, hinv.next he hd⟩

section Notifications

variable {s : PingState} {timeout time : ℕ} {id : UInt32} {e : PingEvent}

theorem eq_pingRsp_of_success (he : e.Allowed)
    (h : (id, .success) ∈ (s.calls timeout time e).filterMap notification) :
    ∃ src text, e = .pingRsp src id text := by
  cases e with
  | sendPing dest text =>
      have hdest : dest ≠ .getAny := he
      simp only [PingState.calls, ChordNode.pingEvent, ChordNode.sendPing, if_pos hdest] at h
      cases h
  | pingRsp src id' text =>
      refine ⟨src, text, ?_⟩
      simp only [PingState.calls, ChordNode.pingEvent, ChordNode.processPingRsp] at h
      split at h
      · have hid : (id, PingOutcome.success) = (id', .success) := List.mem_singleton.mp h
        obtain rfl : id = id' := (Prod.ext_iff.mp hid).1
        rfl
      · cases h
  | auditPings =>
      have hcalls : s.calls timeout time .auditPings = (s.node.auditPings timeout time).2 := rfl
      rw [hcalls, PingInv.notifications_auditPings] at h
      obtain ⟨call, -, heq⟩ := List.mem_map.mp h
      cases (Prod.ext_iff.mp heq).2
  | draw => cases h

theorem expired_of_failure (he : e.Allowed)
    (h : (id, .failure) ∈ (s.calls timeout time e).filterMap notification) :
    ∃ r, s.node.pingTracker[id]? = some r ∧ r.expired timeout time = true := by
  cases e with
  | sendPing dest text =>
      have hdest : dest ≠ .getAny := he
      simp only [PingState.calls, ChordNode.pingEvent, ChordNode.sendPing, if_pos hdest] at h
      cases h
  | pingRsp src id' text =>
      simp only [PingState.calls, ChordNode.pingEvent, ChordNode.processPingRsp] at h
      split at h
      · have hid : (id, PingOutcome.failure) = (id', .success) := List.mem_singleton.mp h
        cases (Prod.ext_iff.mp hid).2
      · cases h
  | auditPings =>
      have hcalls : s.calls timeout time .auditPings = (s.node.auditPings timeout time).2 := rfl
      rw [hcalls, PingInv.notifications_auditPings] at h
      obtain ⟨call, hcall, heq⟩ := List.mem_map.mp h
      obtain ⟨id', r, hr, hexp, rfl⟩ := ChordNode.mem_auditPings.mp hcall
      obtain rfl : id' = id := (Prod.ext_iff.mp heq).1
      exact ⟨r, hr, hexp⟩
  | draw => cases h

namespace PingInv

variable {first : UInt32} (h : PingInv first s)

include h

/-- A response to a ping that is still waiting is its success. -/
theorem answered {p : UInt32 × PingRequest} (hp : p ∈ s.pings) (hopen : p.1 ∉ s.settled)
    (src : Ipv4Address) (text : CxxString) :
    (p.1, .chord (.pingSuccess src text)) ∈ s.calls timeout time (.pingRsp src p.1 text) ∧
      p.1 ∉ (s.next timeout time (.pingRsp src p.1 text)).node.pingTracker := by
  have hr : s.node.pingTracker[p.1]? = some p.2 := h.tracker.mpr ⟨hp, hopen⟩
  have hid : p.1 ∈ s.node.pingTracker := by
    rw [Std.TreeMap.mem_iff_isSome_getElem?, hr]
    rfl
  rw [PingState.calls, PingState.next, pingEvent_pingRsp hid]
  exact ⟨List.mem_singleton.mpr rfl, by simp⟩

/-- The first audit after the timeout fails a ping that is still waiting. -/
theorem failed_by_audit {p : UInt32 × PingRequest} (hp : p ∈ s.pings) (hopen : p.1 ∉ s.settled)
    (hexp : p.2.timestamp + timeout ≤ time) :
    failureCall p ∈ s.calls timeout time .auditPings ∧
      p.1 ∉ (s.next timeout time .auditPings).node.pingTracker := by
  have hexp' : p.2.expired timeout time = true := decide_eq_true hexp
  have hr : s.node.pingTracker[p.1]? = some p.2 := h.tracker.mpr ⟨hp, hopen⟩
  refine ⟨ChordNode.mem_auditPings.mpr ⟨p.1, p.2, hr, hexp', rfl⟩, fun hmem => ?_⟩
  rw [Std.TreeMap.mem_iff_isSome_getElem?, Option.isSome_iff_exists] at hmem
  obtain ⟨r, hr'⟩ := hmem
  obtain ⟨hr'', hfresh⟩ := ChordNode.auditPings_pingTracker.mp hr'
  rw [hr] at hr''
  obtain rfl := Option.some.inj hr''
  rw [hexp'] at hfresh
  cases hfresh

theorem not_failed_early {p : UInt32 × PingRequest} (hp : p ∈ s.pings)
    (hearly : time < p.2.timestamp + timeout) (he : e.Allowed) :
    (p.1, .failure) ∉ (s.calls timeout time e).filterMap notification := by
  intro hfail
  obtain ⟨r, hr, hexp⟩ := expired_of_failure he hfail
  have heq : (p.1, r) = p := List.inj_on_of_nodup_map h.nodup (h.tracker.mp hr).1 hp rfl
  have hexp' : p.2.timestamp + timeout ≤ time := by
    rw [← heq]
    exact of_decide_eq_true hexp
  omega

/-- After its outcome a ping is answered in vain. -/
theorem late_response (hid : id ∈ s.settled) (src : Ipv4Address) (text : CxxString) :
    s.next timeout time (.pingRsp src id text) = { s with now := time } ∧
      s.calls timeout time (.pingRsp src id text) = [] := by
  have hout : id ∉ s.node.pingTracker := by
    rw [Std.TreeMap.mem_iff_isSome_getElem?, Option.isSome_iff_exists]
    rintro ⟨r, hr⟩
    exact (h.tracker.mp hr).2 hid
  have hev : s.node.pingEvent timeout time (.pingRsp src id text) = (s.node, []) := by
    simp only [ChordNode.pingEvent, ChordNode.processPingRsp, if_neg hout, List.map_nil]
  refine ⟨?_, by rw [PingState.calls, hev]⟩
  simp only [PingState.next, PingState.calls, hev, PingState.sent, List.append_nil,
    List.filterMap_nil]
  rfl

end PingInv

end Notifications

/-- Every ping has at most one outcome: a success on the first response with its id, or a
failure at the first audit that finds it waiting for the timeout or longer. -/
theorem PingRun.one_outcome {timeout : ℕ} {s : PingState} (h : PingRun timeout s)
    (hd : s.drawn < 2 ^ 32) :
    (s.pings.map Prod.fst).Nodup ∧ s.settled.Nodup ∧ (∀ id ∈ s.settled, ∃ r, (id, r) ∈ s.pings) ∧
    ∀ time, s.now ≤ time →
      (∀ id e, e.Allowed → (id, .success) ∈ (s.calls timeout time e).filterMap notification →
        ∃ src text, e = .pingRsp src id text) ∧
      (∀ p ∈ s.pings, p.1 ∉ s.settled → ∀ src text,
        (p.1, .chord (.pingSuccess src text)) ∈ s.calls timeout time (.pingRsp src p.1 text) ∧
          p.1 ∉ (s.next timeout time (.pingRsp src p.1 text)).node.pingTracker) ∧
      (∀ p ∈ s.pings, p.1 ∉ s.settled → p.2.timestamp + timeout ≤ time →
        failureCall p ∈ s.calls timeout time .auditPings ∧
          p.1 ∉ (s.next timeout time .auditPings).node.pingTracker) ∧
      (∀ p ∈ s.pings, time < p.2.timestamp + timeout → ∀ e, e.Allowed →
        (p.1, .failure) ∉ (s.calls timeout time e).filterMap notification) ∧
      ∀ id ∈ s.settled, ∀ src text,
        s.next timeout time (.pingRsp src id text) = { s with now := time } ∧
          s.calls timeout time (.pingRsp src id text) = [] := by
  obtain ⟨first, hinv⟩ := h.exists_inv hd
  refine ⟨hinv.nodup, hinv.settled_nodup, hinv.settled_sub, fun time _ => ⟨?_, ?_, ?_, ?_, ?_⟩⟩
  · intro id e he hsucc
    exact eq_pingRsp_of_success he hsucc
  · intro p hp hopen src text
    exact hinv.answered hp hopen src text
  · intro p hp hopen hexp
    exact hinv.failed_by_audit hp hopen hexp
  · intro p hp hearly e he
    exact hinv.not_failed_early hp hearly he
  · intro id hid src text
    exact hinv.late_response hid src text

def samplePing : PingState :=
  let n := ChordNode.start ⟨0x0a000001⟩ 5
  { node := n, now := 0, drawn := 0, pings := [], outcomes := [] : PingState }.next 10 3
    (.sendPing ⟨0x0a000002⟩ [104])

theorem samplePing_run : PingRun 10 samplePing :=
  .step (.start 0 rfl) (by decide) (show (⟨0x0a000002⟩ : Ipv4Address) ≠ .getAny by decide)

/-- A response at time 5 is its success; ten time units after it was sent the audit gives
it up otherwise. -/
theorem one_outcome_samplePing :
    (5, .chord (.pingSuccess ⟨0x0a000002⟩ [104])) ∈
        samplePing.calls 10 5 (.pingRsp ⟨0x0a000002⟩ 5 [104]) ∧
      failureCall (5, ⟨3, ⟨0x0a000002⟩, [104]⟩) ∈ samplePing.calls 10 13 .auditPings := by
  have houtcome : ∀ time, samplePing.now ≤ time → _ :=
    (PingRun.one_outcome samplePing_run (by decide)).2.2.2
  have hopen : (5 : UInt32) ∉ samplePing.settled := List.not_mem_nil
  exact ⟨((houtcome 5 (by decide)).2.1 _ (List.mem_singleton.mpr rfl) hopen _ _).1,
    ((houtcome 13 (by decide)).2.2.1 _ (List.mem_singleton.mpr rfl) hopen (by decide)).1⟩

end PennSearch
