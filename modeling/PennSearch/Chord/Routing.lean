import Mathlib.Data.Finset.Card
import Mathlib.Order.OrderIsoNat
import PennSearch.Chord.Spec

/-!
# Relayed requests make progress

`FIND_SUCCESSOR`, `FIND_FINGER` and `LOOKUP_PUBLISH` are treated alike: a node
whose own arc contains the target answers the requester with its successor, and
every other node hands the request on, unchanged, to `FindNextHop`. The next hop
is strictly closer to the target in clockwise distance, whatever the successor
and the fingers are, so no request visits a node twice.
-/

namespace PennSearch

open Clockwise

/-- The digest that a request is routed towards; `none` for other messages. -/
def PennChordMessage.target (m : PennChordMessage) : Option Digest :=
  match m.payload with
  | .findSuccessor _ targetDigest => some targetDigest
  | .findFinger _ targetDigest _ => some targetDigest
  | .lookupPublish _ _ lookupDigest _ => some lookupDigest
  | _ => none

/-- The node that a request is answered to; `GetAny` for other messages. -/
def PennChordMessage.requester (m : PennChordMessage) : Ipv4Address :=
  match m.payload with
  | .findSuccessor destAddress _ => destAddress
  | .findFinger targetAddress _ _ => targetAddress
  | .lookupPublish _ initiatorAddress _ _ => initiatorAddress
  | _ => .getAny

def PennChordMessage.answer (m : PennChordMessage) (owner : Ipv4Address) : PennChordMessage where
  transactionId := m.transactionId
  payload :=
    match m.payload with
    | .findSuccessor _ _ => .joinChordSuccess owner
    | .findFinger _ _ targetIndex => .findFingerSuccess owner targetIndex
    | .lookupPublish flag _ _ lookupKey => .lookupPublishSuccess flag lookupKey owner
    | payload => payload

theorem PennChordMessage.answer_target {m : PennChordMessage} (h : m.target.isSome)
    (owner : Ipv4Address) : (m.answer owner).target = none := by
  obtain ⟨tx, payload⟩ := m
  cases payload <;> simp_all [PennChordMessage.target, PennChordMessage.answer]

theorem PennChordMessage.answer_ne {message : PennChordMessage} {target : Digest}
    (h : message.target = some target) (owner : Ipv4Address) : message.answer owner ≠ message := by
  intro heq
  have hnone := PennChordMessage.answer_target (m := message) (by simp [h]) owner
  rw [heq, h] at hnone
  cases hnone

theorem PennChordMessage.answer_inj {message : PennChordMessage} {target : Digest}
    (h : message.target = some target) {owner owner' : Ipv4Address}
    (heq : message.answer owner = message.answer owner') :
    owner = owner' := by
  obtain ⟨tx, payload⟩ := message
  cases payload <;>
    simp_all [PennChordMessage.target, PennChordMessage.answer]

variable [Sha1]

namespace ChordNode

/-- The handlers of the three requests are one function of the target. -/
theorem recvMessage_of_target (n : ChordNode) {message : PennChordMessage}
    {target : Digest} (h : message.target = some target) (sourceAddress : Ipv4Address) :
    n.recvMessage message sourceAddress =
      if n.inOwnArc target.pos then
        .ok (n, [.sendTo message.requester (message.answer n.successorAddr)])
      else do
        let nextHopAddr ← n.findNextHop target
        return (n, [.sendTo nextHopAddr message]) := by
  obtain ⟨tx, payload⟩ := message
  cases payload with
  | findSuccessor destAddress targetDigest =>
      obtain rfl : targetDigest = target := by simpa [PennChordMessage.target] using h
      exact n.findSuccessor_eq _ _ _
  | findFinger targetAddress targetDigest targetIndex =>
      obtain rfl : targetDigest = target := by simpa [PennChordMessage.target] using h
      exact n.processFindFinger_eq _ _ _ _
  | lookupPublish flag initiatorAddress lookupDigest lookupKey =>
      obtain rfl : lookupDigest = target := by simpa [PennChordMessage.target] using h
      exact n.processLookupPublish_eq _ _ _ _ _
  | _ => simp [PennChordMessage.target] at h

theorem recvMessage_target_cases {n n' : ChordNode} (message : PennChordMessage)
    {target : Digest} (sourceAddress : Ipv4Address) {acts : List ChordAction}
    (htarget : message.target = some target)
    (h : n.recvMessage message sourceAddress = .ok (n', acts)) :
    n' = n ∧
      ((n.inOwnArc target.pos ∧
          acts = [.sendTo message.requester (message.answer n.successorAddr)]) ∨
        (¬ n.inOwnArc target.pos ∧ ∃ hop, n.findNextHop target = .ok hop ∧
          acts = [.sendTo hop message])) := by
  rw [n.recvMessage_of_target htarget] at h
  by_cases hown : n.inOwnArc target.pos
  · rw [if_pos hown] at h
    cases h
    exact ⟨rfl, Or.inl ⟨hown, rfl⟩⟩
  · rw [if_neg hown] at h
    cases hhop : n.findNextHop target with
    | error f =>
        rw [hhop] at h
        cases h
    | ok hop =>
        rw [hhop] at h
        cases h
        exact ⟨rfl, Or.inr ⟨hown, hop, rfl, rfl⟩⟩

/-- The node and its fingers are among `nodes`; the successor may be anything. -/
def KnowsOnly (n : ChordNode) (nodes : Finset Ipv4Address) : Prop :=
  n.localAddress ∈ nodes ∧
    ∀ (i : UInt16) (finger : Ipv4Address), n.fingerTable[i]? = some finger → finger ∈ nodes

theorem findNextHop_closer {n : ChordNode} {nodes : Finset Ipv4Address} {target : Digest}
    {hop : Ipv4Address} (hinj : Set.InjOn nodePos (nodes : Set Ipv4Address))
    (hn : n.KnowsOnly nodes) (hout : ¬ n.inOwnArc target.pos)
    (hhop : n.findNextHop target = .ok hop) :
    cwDist (nodePos hop) target.pos < cwDist (nodePos n.localAddress) target.pos := by
  rcases findNextHop_spec hhop with rfl | ⟨⟨i, hfinger⟩, hne, harc⟩
  · exact cwDist_lt_of_not_inArc hout
  · have hpos : nodePos hop ≠ nodePos n.localAddress :=
      fun heq => hne (hinj (hn.2 i hop hfinger) hn.1 heq)
    have hstart : nodePos n.localAddress ≠ target.pos := by
      intro heq
      exact hout (heq ▸ inArc_left _ _)
    exact cwDist_lt_of_inArc harc hstart hpos

theorem relay_or_answer {n : ChordNode} {nodes : Finset Ipv4Address}
    (message : PennChordMessage) {target : Digest}
    (hinj : Set.InjOn nodePos (nodes : Set Ipv4Address)) (hn : n.KnowsOnly nodes)
    (hfingers : ¬ n.fingerTable.isEmpty) (htarget : message.target = some target)
    (sourceAddress : Ipv4Address) :
    n.recvMessage message sourceAddress =
        .ok (n, [.sendTo message.requester (message.answer n.successorAddr)]) ∨
      ∃ hop, n.recvMessage message sourceAddress = .ok (n, [.sendTo hop message]) ∧
        cwDist (nodePos hop) target.pos < cwDist (nodePos n.localAddress) target.pos := by
  rw [n.recvMessage_of_target htarget]
  by_cases hown : n.inOwnArc target.pos
  · exact Or.inl (if_pos hown)
  · obtain ⟨hop, hhop⟩ := findNextHop_isOk target hfingers
    refine Or.inr ⟨hop, ?_, findNextHop_closer hinj hn hown hhop⟩
    rw [if_neg hown, hhop]
    rfl

end ChordNode

/-- Some state of node `a`, which knows only `nodes` and has fingers, hands the
request `message` on to `b`. -/
def RelayHop (nodes : Finset Ipv4Address) (message : PennChordMessage)
    (a b : Ipv4Address) : Prop :=
  ∃ (n : ChordNode) (sourceAddress : Ipv4Address) (n' : ChordNode) (acts : List ChordAction),
    n.localAddress = a ∧ n.KnowsOnly nodes ∧ ¬ n.fingerTable.isEmpty ∧
      n.recvMessage message sourceAddress = .ok (n', acts) ∧ .sendTo b message ∈ acts

section Chains

variable {nodes : Finset Ipv4Address} {message : PennChordMessage} {target : Digest}

theorem RelayHop.closer (hinj : Set.InjOn nodePos (nodes : Set Ipv4Address))
    (htarget : message.target = some target) {a b : Ipv4Address}
    (h : RelayHop nodes message a b) :
    a ∈ nodes ∧ cwDist (nodePos b) target.pos < cwDist (nodePos a) target.pos := by
  obtain ⟨n, source, n', acts, rfl, hn, hfingers, hrecv, hmem⟩ := h
  refine ⟨hn.1, ?_⟩
  rcases ChordNode.relay_or_answer message hinj hn hfingers htarget source with h | ⟨hop, h, hlt⟩
  · rw [h] at hrecv
    cases hrecv
    -- an answer is never the request itself
    have hsame : message = message.answer n.successorAddr :=
      (ChordAction.sendTo.inj (List.mem_singleton.mp hmem)).2
    exact absurd hsame.symm (PennChordMessage.answer_ne htarget _)
  · rw [h] at hrecv
    cases hrecv
    obtain ⟨rfl, -⟩ := ChordAction.sendTo.inj (List.mem_singleton.mp hmem)
    exact hlt

theorem relayChain_pairwise (hinj : Set.InjOn nodePos (nodes : Set Ipv4Address))
    (htarget : message.target = some target) {path : List Ipv4Address}
    (h : path.IsChain (RelayHop nodes message)) :
    path.Pairwise fun a b => cwDist (nodePos b) target.pos < cwDist (nodePos a) target.pos := by
  have hchain : path.IsChain
      fun a b => cwDist (nodePos b) target.pos < cwDist (nodePos a) target.pos :=
    h.imp fun a b hab => (hab.closer hinj htarget).2
  have : IsTrans Ipv4Address
      fun a b => cwDist (nodePos b) target.pos < cwDist (nodePos a) target.pos :=
    ⟨fun _ _ _ h₁ h₂ => h₂.trans h₁⟩
  exact List.isChain_iff_pairwise.mp hchain

theorem relayChain_nodup (hinj : Set.InjOn nodePos (nodes : Set Ipv4Address))
    (htarget : message.target = some target) {path : List Ipv4Address}
    (h : path.IsChain (RelayHop nodes message)) : path.Nodup :=
  (relayChain_pairwise hinj htarget h).imp fun hlt heq => by
    rw [heq] at hlt
    exact lt_irrefl _ hlt

theorem relayChain_dropLast_mem (hinj : Set.InjOn nodePos (nodes : Set Ipv4Address))
    (htarget : message.target = some target) {path : List Ipv4Address}
    (h : path.IsChain (RelayHop nodes message)) : ∀ a ∈ path.dropLast, a ∈ nodes := by
  induction path with
  | nil => simp
  | cons a path ih =>
      cases path with
      | nil => simp
      | cons b path =>
          rw [List.isChain_cons_cons] at h
          intro c hc
          rw [List.dropLast_cons_cons, List.mem_cons] at hc
          rcases hc with rfl | hc
          · exact (h.1.closer hinj htarget).1
          · exact ih h.2 c hc

theorem relayChain_length_le (hinj : Set.InjOn nodePos (nodes : Set Ipv4Address))
    (htarget : message.target = some target) {path : List Ipv4Address}
    (h : path.IsChain (RelayHop nodes message)) : path.length ≤ nodes.card + 1 := by
  have hnodup : path.dropLast.Nodup :=
    (relayChain_nodup hinj htarget h).sublist (List.dropLast_sublist path)
  have hsub : path.dropLast.toFinset ⊆ nodes := fun a ha =>
    relayChain_dropLast_mem hinj htarget h a (List.mem_toFinset.mp ha)
  have hcard := Finset.card_le_card hsub
  rw [List.toFinset_card_of_nodup hnodup, List.length_dropLast] at hcard
  omega

end Chains

/-- Routing progress. A request is answered, or handed on to a node strictly
closer to its target; the same holds of the `FindSuccessor` that a join starts.
Hence a relayed request visits no node twice, and every chain of relays ends,
even when the nodes' states change between the hops. -/
theorem relay_progress (nodes : Finset Ipv4Address)
    (hinj : Set.InjOn nodePos (nodes : Set Ipv4Address)) :
    (∀ (n : ChordNode) (message : PennChordMessage) (sourceAddress : Ipv4Address)
        (target : Digest),
      n.KnowsOnly nodes → ¬ n.fingerTable.isEmpty → message.target = some target →
        n.recvMessage message sourceAddress =
            .ok (n, [.sendTo message.requester (message.answer n.successorAddr)]) ∨
          ∃ hop, n.recvMessage message sourceAddress = .ok (n, [.sendTo hop message]) ∧
            cwDist (nodePos hop) target.pos <
              cwDist (nodePos n.localAddress) target.pos) ∧
      (∀ (n : ChordNode) (message : PennChordMessage) (destAddr : Ipv4Address)
          (target : Digest),
        n.KnowsOnly nodes → ¬ n.fingerTable.isEmpty →
          n.findSuccessor message destAddr target =
              .ok (n, [ChordNode.replyFindSuccessor message destAddr n.successorAddr]) ∨
            ∃ hop, n.findSuccessor message destAddr target =
                .ok (n, [.sendTo hop ⟨message.transactionId, .findSuccessor destAddr target⟩]) ∧
              cwDist (nodePos hop) target.pos <
                cwDist (nodePos n.localAddress) target.pos) ∧
      (∀ (message : PennChordMessage) (path : List Ipv4Address), message.target.isSome →
        path.IsChain (RelayHop nodes message) →
          path.Nodup ∧ path.length ≤ nodes.card + 1) ∧
      (∀ message : PennChordMessage, message.target.isSome →
        ¬ ∃ visit : ℕ → Ipv4Address,
          ∀ k, RelayHop nodes message (visit k) (visit (k + 1))) := by
  refine ⟨?_, ?_, ?_, ?_⟩
  · intro n message source target hn hfingers htarget
    exact ChordNode.relay_or_answer message hinj hn hfingers htarget source
  · intro n message destAddr target hn hfingers
    exact ChordNode.relay_or_answer ⟨message.transactionId, .findSuccessor destAddr target⟩
      hinj hn hfingers rfl .getAny
  · intro message path htarget hpath
    obtain ⟨target, htarget⟩ := Option.isSome_iff_exists.mp htarget
    exact ⟨relayChain_nodup hinj htarget hpath, relayChain_length_le hinj htarget hpath⟩
  · rintro message htarget ⟨visit, hvisit⟩
    obtain ⟨target, htarget⟩ := Option.isSome_iff_exists.mp htarget
    have hdecr : ∀ k, cwDist (nodePos (visit (k + 1))) target.pos <
        cwDist (nodePos (visit k)) target.pos :=
      fun k => ((hvisit k).closer hinj htarget).2
    exact not_strictAnti_of_wellFoundedLT
      (fun k => cwDist (nodePos (visit k)) target.pos) (strictAnti_nat_of_succ_lt hdecr)

end PennSearch

namespace PennSearch

attribute [local instance] sampleSha1

theorem relay_progress_sample :
    let n := sampleMember sampleB sampleC sampleA [(1, sampleC), (160, sampleA)]
    let message : PennChordMessage := ⟨7, .findSuccessor sampleE (sha1 sampleA)⟩
    n.recvMessage message sampleC =
        .ok (n, [.sendTo message.requester (message.answer n.successorAddr)]) ∨
      ∃ hop, n.recvMessage message sampleC = .ok (n, [.sendTo hop message]) ∧
        Clockwise.cwDist (nodePos hop) (sha1 sampleA).pos <
          Clockwise.cwDist (nodePos n.localAddress) (sha1 sampleA).pos := by
  have hinj : ∀ a ∈ ({sampleA, sampleB, sampleC} : Finset Ipv4Address),
      ∀ b ∈ ({sampleA, sampleB, sampleC} : Finset Ipv4Address),
        nodePos a = nodePos b → a = b := by decide
  refine (relay_progress {sampleA, sampleB, sampleC} fun a ha b hb => hinj a ha b hb).1 _ _ _ _
    ⟨by decide, fun i finger h => ?_⟩ (by decide) rfl
  have hmem := Std.TreeMap.mem_toList_iff_getElem?_eq_some.mpr h
  have hlist : (sampleMember sampleB sampleC sampleA
      [(1, sampleC), (160, sampleA)]).fingerTable.toList = [(1, sampleC), (160, sampleA)] := by
    decide
  rw [hlist] at hmem
  rcases List.mem_cons.mp hmem with h | h
  · obtain ⟨-, rfl⟩ := Prod.mk.inj h
    decide
  · obtain ⟨-, rfl⟩ := Prod.mk.inj (List.mem_singleton.mp h)
    decide

end PennSearch
