import PennSearch.Chord.Simulation

/-!
# Concurrent joins

Any nodes join a ring that starts from one landmark `A`, at any moments, under two
conditions: a node issues JOIN only while no request of its own is outstanding,
and `FIND_SUCCESSOR` is delivered only at members. The handlers check neither: a
second answer can name the joiner as its own successor, and a node without
pointers answers from `0.0.0.0`.

`Growing` is the invariant of these runs: no successor lies beyond the landmark,
so that every member reaches it. `Announced` needs one condition more, that
`NOTIFY` is delivered only at members, because an answer wipes out a predecessor
that was notified before it: the successor of a member has been told of a
predecessor at least as close, or is about to be. At rest this makes the
successor function injective, so that there is one cycle.
-/

namespace PennSearch

open Clockwise MessagePassing

/-- The packet carries the request of `x`, or its answer. -/
def carries (x : Ipv4Address) (p : RingPacket) : Bool :=
  match p.msg with
  | .joinChord => p.src = x
  | .findSuccessor requester _ => requester = x
  | .joinChordSuccess _ => p.dst = x
  | _ => false

/-- A request that was handed on, or an answer. -/
def RingMessage.carriesOn : RingMessage → Bool
  | .findSuccessor _ _ | .joinChordSuccess _ => true
  | _ => false

/-- `x` is a member, or its answer is on the way. -/
def Known (s : RingNet) (x : Ipv4Address) : Prop :=
  (s.node x).member = true ∨ ∃ src v, ⟨src, x, .joinChordSuccess v⟩ ∈ s.inFlight

structure Extends (s s' : RingNet) : Prop where
  member : ∀ a, (s.node a).member = true → (s'.node a).member = true
  known : ∀ a, Known s a → Known s' a

variable [Sha1]

/-- `v` can be the successor of `a`: it is known, and not beyond the landmark. -/
structure Aims (N : Finset Ipv4Address) (A : Ipv4Address) (s : RingNet) (a v : Ipv4Address) :
    Prop where
  mem : v ∈ N
  known : Known s v
  le : cwTurn (nodePos a) (nodePos v) ≤ cwTurn (nodePos a) (nodePos A)

inductive GrowthPacket (N : Finset Ipv4Address) (A : Ipv4Address) (s : RingNet) :
    RingPacket → Prop
  | joinChord {src dst : Ipv4Address} (src_mem : src ∈ N) (dst_mem : dst ∈ N)
      (dst_member : (s.node dst).member = true) : GrowthPacket N A s ⟨src, dst, .joinChord⟩
  | findSuccessor {src dst x : Ipv4Address} (mem : x ∈ N) :
      GrowthPacket N A s ⟨src, dst, .findSuccessor x (sha1 x)⟩
  | joinChordSuccess {src dst v : Ipv4Address} (dst_mem : dst ∈ N) (ne : v ≠ dst)
      (aims : Aims N A s dst v) : GrowthPacket N A s ⟨src, dst, .joinChordSuccess v⟩
  | notify {src dst : Ipv4Address} (src_mem : src ∈ N) (src_member : (s.node src).member = true)
      (ne : src ≠ dst) : GrowthPacket N A s ⟨src, dst, .notify⟩
  | stabilizeReq {src dst : Ipv4Address} (src_member : (s.node src).member = true) :
      GrowthPacket N A s ⟨src, dst, .stabilizeReq⟩
  | stabilizeResp {src dst v : Ipv4Address} (dst_member : (s.node dst).member = true)
      (mem : v ∈ N) (member : (s.node v).member = true) :
      GrowthPacket N A s ⟨src, dst, .stabilizeResp v⟩

/-- A ring among the nodes `N` that grows from the landmark `A`. A node has at
most one claim to membership: it is a member, or it asks, or it is answered. -/
structure Growing (N : Finset Ipv4Address) (A : Ipv4Address) (s : RingNet) : Prop where
  landmark : (s.node A).member = true
  mem : ∀ a, (s.node a).member = true → a ∈ N
  aims : ∀ a, (s.node a).member = true → Aims N A s a (s.node a).successor
  predecessor : ∀ a, (s.node a).predecessor = .getAny ∨
    ((s.node a).predecessor ≠ a ∧ (s.node (s.node a).predecessor).member = true)
  traffic : ∀ p ∈ s.inFlight, GrowthPacket N A s p
  claims : ∀ x, s.inFlight.countP (carries x) + (s.node x).member.toNat ≤ 1
  alone : (s.node A).successor = A → (∀ a, (s.node a).member = true → a = A) ∧
    ∀ p ∈ s.inFlight, p.msg.carriesOn = false

/-- `v` has a predecessor at least as close as `m`. -/
def Aware (s : RingNet) (m v : Ipv4Address) : Prop :=
  (s.node v).member = true ∧ (s.node v).predecessor ≠ .getAny ∧
    cwTurn (nodePos (s.node v).predecessor) (nodePos v) ≤ cwTurn (nodePos m) (nodePos v)

def Notified (s : RingNet) (m v : Ipv4Address) : Prop :=
  ⟨m, v, .notify⟩ ∈ s.inFlight ∨ Aware s m v

/-- The successor of every member is notified of it. -/
def Announced (s : RingNet) : Prop :=
  ∀ a, (s.node a).member = true → (s.node a).successor ≠ a → Notified s a (s.node a).successor

section Step

variable {N : Finset Ipv4Address} {A d : Ipv4Address} {s s₀ s' : RingNet} {q : Pointers}
  {sent : List RingPacket} {k : ℕ} {p : RingPacket}

theorem Aims.mono (hext : Extends s s') {a v : Ipv4Address} (h : Aims N A s a v) :
    Aims N A s' a v :=
  ⟨h.mem, hext.known v h.known, h.le⟩

theorem GrowthPacket.mono (hext : Extends s s') (h : GrowthPacket N A s p) :
    GrowthPacket N A s' p := by
  cases h with
  | joinChord src_mem dst_mem dst_member =>
      exact .joinChord src_mem dst_mem (hext.member _ dst_member)
  | findSuccessor mem => exact .findSuccessor mem
  | joinChordSuccess dst_mem ne aims => exact .joinChordSuccess dst_mem ne (aims.mono hext)
  | notify src_mem src_member ne => exact .notify src_mem (hext.member _ src_member) ne
  | stabilizeReq src_member => exact .stabilizeReq (hext.member _ src_member)
  | stabilizeResp dst_member mem member =>
      exact .stabilizeResp (hext.member _ dst_member) mem (hext.member _ member)

omit [Sha1] in
theorem Extends.act (hnode : s₀.node = s.node)
    (hmember : (s.node d).member = true → q.member = true)
    (hanswers : ∀ p ∈ s.inFlight, ∀ v, p.msg = .joinChordSuccess v →
      p ∈ s₀.inFlight ∨ (p.dst = d ∧ q.member = true)) :
    Extends s (s₀.act d q sent) := by
  have hmem : ∀ a, (s.node a).member = true → ((s₀.act d q sent).node a).member = true := by
    intro a ha
    rw [Net.act_node, hnode]
    split
    · rename_i had
      exact hmember (had ▸ ha)
    · exact ha
  refine ⟨hmem, ?_⟩
  rintro a (ha | ⟨src, v, hans⟩)
  · exact Or.inl (hmem a ha)
  · rcases hanswers _ hans v rfl with hkept | ⟨rfl, hq⟩
    · exact Or.inr ⟨src, v, List.mem_append_left _ hkept⟩
    · exact Or.inl (by rwa [Net.act_node_self])

omit [Sha1] in
/-- The delivery of anything but an answer. -/
theorem Extends.handle (hp : s.inFlight[k]? = some p) (hans : ∀ v, p.msg ≠ .joinChordSuccess v)
    (hmember : q.member = (s.node d).member) : Extends s ((s.take k).act d q sent) := by
  refine .act rfl (fun ha => hmember.trans ha) fun p' hp' v hmsg => Or.inl ?_
  refine mem_eraseIdx_of_ne hp hp' ?_
  rintro rfl
  exact hans v hmsg

/-- A turn of node `d` after which its pointers, the packets it sends and the
claims are as they should be. -/
theorem Growing.act (h : Growing N A s) (hnode : s₀.node = s.node)
    (hsub : ∀ p ∈ s₀.inFlight, p ∈ s.inFlight) (hext : Extends s (s₀.act d q sent))
    (hsucc : (q.member = (s.node d).member ∧ q.successor = (s.node d).successor) ∨
      (d ∈ N ∧ Aims N A (s₀.act d q sent) d q.successor))
    (hpred : q.predecessor = (s.node d).predecessor ∨ q.predecessor = .getAny ∨
      (q.predecessor ≠ d ∧ (s.node q.predecessor).member = true))
    (hsent : ∀ p ∈ sent, GrowthPacket N A (s₀.act d q sent) p)
    (hclaims : ∀ x, (s₀.act d q sent).inFlight.countP (carries x) +
      ((s₀.act d q sent).node x).member.toNat ≤ 1)
    (halone : ((s₀.act d q sent).node A).successor = A → (s.node A).successor = A ∧
      q.member = (s.node d).member ∧ ∀ p ∈ sent, p.msg.carriesOn = false) :
    Growing N A (s₀.act d q sent) := by
  have hself : (s₀.act d q sent).node d = q := Net.act_node_self ..
  have hother : ∀ a, a ≠ d → (s₀.act d q sent).node a = s.node a := fun a ha => by
    rw [Net.act_node_of_ne _ _ _ ha, hnode]
  have hmember : ∀ a, ((s₀.act d q sent).node a).member = true →
      a ∈ N ∧ Aims N A (s₀.act d q sent) a ((s₀.act d q sent).node a).successor := by
    intro a ha
    by_cases had : a = d
    · subst had
      rw [hself] at ha ⊢
      rcases hsucc with ⟨hmem, hsucc⟩ | hnew
      · rw [hmem] at ha
        exact ⟨h.mem a ha, hsucc ▸ (h.aims a ha).mono hext⟩
      · exact hnew
    · rw [hother a had] at ha ⊢
      exact ⟨h.mem a ha, (h.aims a ha).mono hext⟩
  refine ⟨hext.member A h.landmark, fun a ha => (hmember a ha).1, fun a ha => (hmember a ha).2,
    fun a => ?_, fun p hp => ?_, hclaims, fun hA => ?_⟩
  · have hkept : (s.node a).predecessor = .getAny ∨ ((s.node a).predecessor ≠ a ∧
        ((s₀.act d q sent).node (s.node a).predecessor).member = true) :=
      (h.predecessor a).imp_right fun ⟨hne, hmem⟩ => ⟨hne, hext.member _ hmem⟩
    by_cases had : a = d
    · subst had
      rw [hself]
      rcases hpred with hsame | hnone | ⟨hne, hmem⟩
      · rwa [hsame]
      · exact Or.inl hnone
      · exact Or.inr ⟨hne, hext.member _ hmem⟩
    · rwa [hother a had]
  · rcases List.mem_append.mp hp with hp | hp
    · exact (h.traffic p (hsub p hp)).mono hext
    · exact hsent p hp
  · obtain ⟨hA', hmem, hquiet⟩ := halone hA
    obtain ⟨honly, hflight⟩ := h.alone hA'
    refine ⟨fun a ha => honly a ?_, fun p hp => ?_⟩
    · by_cases had : a = d
      · rw [had] at ha ⊢
        rwa [hself, hmem] at ha
      · rwa [hother a had] at ha
    · rcases List.mem_append.mp hp with hp | hp
      · exact hflight p (hsub p hp)
      · exact hquiet p hp

/-- A delivery that keeps the membership and takes no answer from the network. The
packets sent carry at most the request that the delivered packet carried. -/
theorem Growing.handle (h : Growing N A s) (hp : s.inFlight[k]? = some p)
    (hans : ∀ v, p.msg ≠ .joinChordSuccess v) (hmember : q.member = (s.node d).member)
    (hsucc : q.successor = (s.node d).successor ∨ ((s.node d).member = true ∧
      q.successor ≠ d ∧ Aims N A ((s.take k).act d q sent) d q.successor))
    (hpred : q.predecessor = (s.node d).predecessor ∨
      (q.predecessor ≠ d ∧ (s.node q.predecessor).member = true))
    (hsent : ∀ p' ∈ sent, GrowthPacket N A s p')
    (hcarry : ∀ x, sent.countP (carries x) ≤ if carries x p then 1 else 0)
    (halone : (s.node A).successor = A → (d = A → q.successor = A) →
      ∀ p' ∈ sent, p'.msg.carriesOn = false) :
    Growing N A ((s.take k).act d q sent) := by
  have hext : Extends s ((s.take k).act d q sent) := .handle hp hans hmember
  refine h.act rfl (fun p' hp' => List.mem_of_mem_eraseIdx hp') hext
    (hsucc.imp (⟨hmember, ·⟩) fun ⟨hd, _, haims⟩ => ⟨h.mem d hd, haims⟩) (hpred.imp_right Or.inr)
    (fun p' hp' => (hsent p' hp').mono hext) (fun x => ?_) fun hA => ?_
  · have hmem : (((s.take k).act d q sent).node x).member = (s.node x).member :=
      Net.act_node_congr (c := s.take k) (f := Pointers.member) hmember sent x
    have hcount := countP_eq_eraseIdx (carries x) hp
    have hclaims := h.claims x
    have hle := hcarry x
    rw [hmem, Net.act_inFlight, List.countP_append, Net.take_inFlight]
    omega
  · by_cases hdA : d = A
    · subst hdA
      rw [Net.act_node_self] at hA
      rcases hsucc with hsame | ⟨-, hne, -⟩
      · have hA' := hsame.symm.trans hA
        exact ⟨hA', hmember, halone hA' fun _ => hA⟩
      · exact absurd hA hne
    · rw [Net.act_node_of_ne _ _ _ (Ne.symm hdA), Net.take_node] at hA
      exact ⟨hA, hmember, halone hA fun heq => absurd heq hdA⟩

theorem Growing.send (h : Growing N A s) (d : Ipv4Address)
    (hsent : ∀ p ∈ sent, GrowthPacket N A s p)
    (hcarry : ∀ x, s.inFlight.countP (carries x) + sent.countP (carries x) +
      (s.node x).member.toNat ≤ 1)
    (hquiet : ∀ p ∈ sent, p.msg.carriesOn = false) : Growing N A (s.act d (s.node d) sent) := by
  have hext : Extends s (s.act d (s.node d) sent) := .act rfl id fun p hp _ _ => Or.inl hp
  have hnode : ∀ a, (s.act d (s.node d) sent).node a = s.node a := fun a => by
    rw [Net.act_node]
    split
    · rename_i had
      rw [had]
    · rfl
  refine h.act rfl (fun _ hp => hp) hext (Or.inl ⟨rfl, rfl⟩) (Or.inl rfl)
    (fun p hp => (hsent p hp).mono hext) (fun x => ?_) fun hA => ?_
  · rw [hnode, Net.act_inFlight, List.countP_append]
    exact hcarry x
  · rw [hnode] at hA
    exact ⟨hA, rfl, hquiet⟩

theorem Growing.successor_ne (h : Growing N A s)
    (hinj : Set.InjOn nodePos (N : Set Ipv4Address)) {a : Ipv4Address}
    (ha : (s.node a).member = true) (haA : a ≠ A) : (s.node a).successor ≠ a := by
  intro hself
  have hle := (h.aims a ha).le
  have hpos : nodePos a ≠ nodePos A := fun heq => haA (hinj (h.mem a ha) (h.mem A h.landmark) heq)
  have hlt := cwTurn_lt_iff.mpr hpos
  rw [hself, cwTurn_self] at hle
  omega

theorem Growing.several_of_member (h : Growing N A s) {a : Ipv4Address}
    (ha : (s.node a).member = true) (hne : (s.node a).successor ≠ a) :
    (s.node A).successor ≠ A := by
  intro hself
  obtain rfl := (h.alone hself).1 a ha
  exact hne hself

theorem Growing.several_of_carriesOn (h : Growing N A s) (hp : p ∈ s.inFlight)
    (hmsg : p.msg.carriesOn = true) : (s.node A).successor ≠ A := by
  intro hself
  rw [(h.alone hself).2 p hp] at hmsg
  cases hmsg

/-- A node whose request or answer is in flight is not yet a member. -/
theorem Growing.outside_of_carries (h : Growing N A s) {x : Ipv4Address} (hp : p ∈ s.inFlight)
    (hx : carries x p = true) : (s.node x).member = false := by
  have hpos : 0 < s.inFlight.countP (carries x) := List.countP_pos_iff.mpr ⟨p, hp, hx⟩
  have hclaims := h.claims x
  by_contra hmem
  rw [Bool.not_eq_false] at hmem
  rw [hmem, Bool.toNat_true] at hclaims
  omega

theorem Growing.single (h : Growing N A s) (x : Ipv4Address) :
    s.inFlight.countP (carries x) ≤ 1 :=
  (Nat.le_add_right _ _).trans (h.claims x)

/-! ## Requests -/

def Requests (x : Ipv4Address) (p : RingPacket) : Prop :=
  (p.src = x ∧ p.msg = .joinChord) ∨ p.msg = .findSuccessor x (sha1 x)

theorem Requests.carries {x : Ipv4Address} (h : Requests x p) (y : Ipv4Address) :
    carries y p = decide (x = y) := by
  rcases h with ⟨hsrc, hmsg⟩ | hmsg
  · simp [PennSearch.carries, hmsg, hsrc]
  · simp [PennSearch.carries, hmsg]

theorem Requests.msg_ne {x : Ipv4Address} (h : Requests x p) (v : Ipv4Address) :
    p.msg ≠ .joinChordSuccess v := by
  rcases h with ⟨-, hmsg⟩ | hmsg <;> simp [hmsg]

/-- While `x` asks, nobody knows it. -/
theorem Growing.not_known (h : Growing N A s) {x : Ipv4Address} (hp : p ∈ s.inFlight)
    (hx : Requests x p) : ¬ Known s x := by
  have hcarry : PennSearch.carries x p = true := by simp [hx.carries]
  rintro (hmem | ⟨src, v, hans⟩)
  · rw [h.outside_of_carries hp hcarry] at hmem
    cases hmem
  · obtain rfl := eq_of_countP_le_one (h.single x) hp hans hcarry (by simp [PennSearch.carries])
    exact hx.msg_ne v rfl

/-- Node `d` handles the request of `x` by at most one packet that carries it on. -/
theorem Growing.request (h : Growing N A s) {p' : RingPacket} {x : Ipv4Address}
    (hp : s.inFlight[k]? = some p) (hx : Requests x p)
    (hcarry : ∀ y, carries y p' = decide (x = y)) (hp' : GrowthPacket N A s p')
    (hseveral : (s.node A).successor ≠ A) (hsent : sent = [p'] ∨ sent = []) :
    Growing N A ((s.take k).act d (s.node d) sent) := by
  refine h.handle hp hx.msg_ne rfl (Or.inl rfl) (Or.inl rfl) (fun q hq => ?_) (fun y => ?_)
    fun hself => absurd hself hseveral
  · rcases hsent with rfl | rfl
    · rwa [List.mem_singleton.mp hq]
    · cases hq
  · rcases hsent with rfl | rfl
    · rw [List.countP_singleton, hcarry, hx.carries]
    · simp

theorem Growing.answer (hinj : Set.InjOn nodePos (N : Set Ipv4Address)) (hany : .getAny ∉ N)
    (h : Growing N A s) {x : Ipv4Address} (hp : s.inFlight[k]? = some p) (hx : Requests x p)
    (hxN : x ∈ N) (hseveral : (s.node A).successor ≠ A) (hd : (s.node d).member = true)
    (owns : (s.node d).owns d (nodePos x)) :
    Growing N A ((s.take k).act d (s.node d)
      (ringSends d [.send x (.joinChordSuccess (s.node d).successor)])) := by
  have hout := h.outside_of_carries (mem_of_getElem? hp) (x := x) (by simp [hx.carries])
  have hxany : x ≠ .getAny := fun heq => hany (heq ▸ hxN)
  obtain ⟨hmem, hknown, hle⟩ := h.aims d hd
  have hne : (s.node d).successor ≠ x := fun heq =>
    h.not_known (mem_of_getElem? hp) hx (heq ▸ hknown)
  have hxd : x ≠ d := by
    rintro rfl
    rw [hout] at hd
    cases hd
  have hle' := cwTurn_le_cwTurn_of_inArc hle owns
    (fun heq => hxd (hinj hxN (h.mem d hd) heq)) (fun heq => hne (hinj hxN hmem heq).symm)
  rw [ringSends_send hxany]
  exact h.request hp hx (fun y => by simp [carries])
    (.joinChordSuccess hxN hne ⟨hmem, hknown, hle'⟩) hseveral (Or.inl rfl)

theorem Growing.forward (h : Growing N A s) {x hop : Ipv4Address}
    (hp : s.inFlight[k]? = some p) (hx : Requests x p) (hxN : x ∈ N)
    (hseveral : (s.node A).successor ≠ A) :
    Growing N A ((s.take k).act d (s.node d)
      (ringSends d [.send hop (.findSuccessor x (sha1 x))])) := by
  have hpacket : GrowthPacket N A s ⟨d, hop, .findSuccessor x (sha1 x)⟩ := .findSuccessor hxN
  refine h.request hp hx (fun y => by simp [carries]) hpacket hseveral ?_
  by_cases hhop : hop = .getAny
  · exact Or.inr (by simp [ringSends, hhop])
  · exact Or.inl (ringSends_send hhop _)

/-- The landmark, alone, splits the ring with the first node that asks. -/
theorem Growing.split (hany : .getAny ∉ N) (h : Growing N A s)
    (hp : s.inFlight[k]? = some p) (hmsg : p.msg = .joinChord) (hxN : p.src ∈ N) :
    Growing N A ((s.take k).act A { s.node A with successor := p.src }
      (ringSends A [.send p.src (.joinChordSuccess A), .send p.src .notify])) := by
  have hx : Requests p.src p := Or.inl ⟨rfl, hmsg⟩
  generalize p.src = x at *
  have hxany : x ≠ .getAny := fun heq => hany (heq ▸ hxN)
  have hout := h.outside_of_carries (mem_of_getElem? hp) (x := x) (by simp [hx.carries])
  have hxA : x ≠ A := by
    rintro rfl
    rw [h.landmark] at hout
    cases hout
  have hsends : ringSends A [.send x (.joinChordSuccess A), .send x .notify] =
      [⟨A, x, .joinChordSuccess A⟩, ⟨A, x, .notify⟩] := by
    simp [ringSends, hxany]
  rw [hsends]
  have haims : Aims N A s x A := ⟨h.mem A h.landmark, Or.inl h.landmark, le_rfl⟩
  refine h.handle hp hx.msg_ne rfl (Or.inr ⟨h.landmark, hxA, hxN, ?_, ?_⟩) (Or.inl rfl)
    (fun q hq => ?_) (fun y => ?_) fun _ hA => absurd (hA rfl) hxA
  · -- the answer to `x` is on its way now
    exact Or.inr ⟨A, A, List.mem_append_right _ (List.mem_cons_self ..)⟩
  · rw [cwTurn_self]
    exact cwTurn_le _ _
  · simp only [List.mem_cons, List.not_mem_nil, or_false] at hq
    rcases hq with rfl | rfl
    · exact .joinChordSuccess hxN (Ne.symm hxA) haims
    · exact .notify (h.mem A h.landmark) h.landmark (Ne.symm hxA)
  · rw [hx.carries]
    simp [List.countP_cons, carries]

theorem Growing.joined (hany : .getAny ∉ N) (h : Growing N A s) {v : Ipv4Address}
    (hp : s.inFlight[k]? = some p) (hmsg : p.msg = .joinChordSuccess v) :
    Growing N A ((s.take k).act p.dst ⟨true, v, .getAny⟩
      (ringSends p.dst [.send v .notify])) := by
  obtain ⟨src, d, msg⟩ := p
  obtain rfl : msg = .joinChordSuccess v := hmsg
  have hin := mem_of_getElem? hp
  have hout := h.outside_of_carries hin (x := d) (by simp [carries])
  have hseveral := h.several_of_carriesOn hin rfl
  obtain ⟨hdN, hvd, haims⟩ : d ∈ N ∧ v ≠ d ∧ Aims N A s d v := by
    cases h.traffic _ hin with
    | joinChordSuccess dst_mem ne aims => exact ⟨dst_mem, ne, aims⟩
  have hvany : v ≠ .getAny := fun heq => hany (heq ▸ haims.mem)
  have hdA : A ≠ d := by
    rintro rfl
    rw [h.landmark] at hout
    cases hout
  simp only
  rw [ringSends_send hvany]
  have hext : Extends s ((s.take k).act d ⟨true, v, .getAny⟩ [⟨d, v, .notify⟩]) := by
    refine .act rfl (fun _ => rfl) fun p' hp' w _ => ?_
    by_cases hthis : p' = ⟨src, d, .joinChordSuccess v⟩
    · exact Or.inr ⟨by rw [hthis], rfl⟩
    · exact Or.inl (mem_eraseIdx_of_ne hp hp' hthis)
  refine h.act rfl (fun p' hp' => List.mem_of_mem_eraseIdx hp') hext
    (Or.inr ⟨hdN, haims.mono hext⟩) (Or.inr (Or.inl rfl)) (fun p' hp' => ?_) (fun x => ?_)
    fun hself => ?_
  · rw [List.mem_singleton.mp hp']
    exact .notify hdN (by rw [Net.act_node_self]) (Ne.symm hvd)
  · -- the claim of `d` turns from an answer into membership
    have hclaims := h.claims x
    rw [countP_eq_eraseIdx (carries x) hp] at hclaims
    by_cases hxd : x = d
    · subst hxd
      simp [List.countP_append, carries, hout] at hclaims ⊢
      omega
    · rw [Net.act_node_of_ne _ _ _ hxd]
      simp [List.countP_append, carries, Ne.symm hxd] at hclaims ⊢
      omega
  · rw [Net.act_node_of_ne _ _ _ hdA] at hself
    exact absurd hself hseveral

/-! ## Stabilization -/

theorem Growing.notify (h : Growing N A s) (hp : s.inFlight[k]? = some p) (hmsg : p.msg = .notify)
    (hmember : q.member = (s.node p.dst).member) (hsucc : q.successor = (s.node p.dst).successor)
    (hpred : q.predecessor = (s.node p.dst).predecessor ∨ q.predecessor = p.src) :
    Growing N A ((s.take k).act p.dst q []) := by
  obtain ⟨hsrc, hne⟩ : (s.node p.src).member = true ∧ p.src ≠ p.dst := by
    cases h.traffic p (mem_of_getElem? hp) with
    | notify src_mem src_member ne => exact ⟨src_member, ne⟩
    | _ => cases hmsg
  refine h.handle hp (by simp [hmsg]) hmember (Or.inl hsucc) (hpred.imp_right fun hnew => ?_)
    (by simp) (by simp) (by simp)
  rw [hnew]
  exact ⟨hne, hsrc⟩

/-- A delivery that moves no pointer, with at most one packet sent that carries
nothing on. -/
theorem Growing.reply (h : Growing N A s) {out : List RingAction}
    (hp : s.inFlight[k]? = some p) (hans : ∀ v, p.msg ≠ .joinChordSuccess v)
    (hout : ∀ p' ∈ ringSends d out, GrowthPacket N A s p' ∧ (∀ x, carries x p' = false) ∧
      p'.msg.carriesOn = false) :
    Growing N A ((s.take k).act d (s.node d) (ringSends d out)) := by
  refine h.handle hp hans rfl (Or.inl rfl) (Or.inl rfl) (fun q hq => (hout q hq).1) (fun x => ?_)
    fun _ _ q hq => (hout q hq).2.2
  have hzero : (ringSends d out).countP (carries x) = 0 :=
    List.countP_eq_zero.mpr fun q hq => by simp [(hout q hq).2.1 x]
  omega

omit [Sha1] in
theorem ne_getAny_of_mem (hany : .getAny ∉ N) {a : Ipv4Address} (ha : a ∈ N) : a ≠ .getAny :=
  fun heq => hany (heq ▸ ha)

theorem Growing.adopt (hany : .getAny ∉ N) (h : Growing N A s) {v : Ipv4Address}
    (hp : s.inFlight[k]? = some p) (hmsg : p.msg = .stabilizeResp v)
    (ne : nodePos v ≠ nodePos p.dst) (owns : (s.node p.dst).owns p.dst (nodePos v)) :
    Growing N A ((s.take k).act p.dst { s.node p.dst with successor := v }
      (ringSends p.dst [.send v .notify])) := by
  obtain ⟨hd, hvN, hv⟩ : (s.node p.dst).member = true ∧ v ∈ N ∧ (s.node v).member = true := by
    have hpacket := h.traffic p (mem_of_getElem? hp)
    cases hpacket with
    | stabilizeResp dst_member mem member =>
        cases hmsg
        exact ⟨dst_member, mem, member⟩
    | _ => cases hmsg
  have hvd : v ≠ p.dst := fun heq => ne (congrArg nodePos heq)
  have hans : ∀ w, p.msg ≠ .joinChordSuccess w := by simp [hmsg]
  have haims : Aims N A s p.dst v :=
    ⟨hvN, Or.inl hv, (cwTurn_le_of_inArc owns ne).trans (h.aims _ hd).le⟩
  rw [ringSends_send (ne_getAny_of_mem hany hvN)]
  refine h.handle hp hans rfl (Or.inr ⟨hd, hvd, haims.mono (.handle hp hans (by rfl))⟩)
    (Or.inl rfl) (fun q hq => ?_) (fun x => ?_) fun _ _ q hq => ?_
  · rw [List.mem_singleton.mp hq]
    exact .notify (h.mem _ hd) hd (Ne.symm hvd)
  · simp [carries]
  · rw [List.mem_singleton.mp hq]
    rfl

/-! ## Notifications -/

theorem Notified.act {m v : Ipv4Address} (h : Notified s m v) (hnode : s₀.node = s.node)
    (hflight : ∀ p ∈ s.inFlight, p.msg = .notify →
      p ∈ s₀.inFlight ∨ Aware (s₀.act d q sent) p.src p.dst)
    (haware : ∀ m, Aware s m d → Aware (s₀.act d q sent) m d) :
    Notified (s₀.act d q sent) m v := by
  rcases h with hnot | hv
  · exact (hflight _ hnot rfl).imp_left fun hkept => List.mem_append_left _ hkept
  · right
    by_cases hvd : v = d
    · subst hvd
      exact haware m hv
    · rwa [Aware, Net.act_node_of_ne _ _ _ hvd, hnode]

theorem Announced.act (h : Announced s) (hnode : s₀.node = s.node)
    (hflight : ∀ p ∈ s.inFlight, p.msg = .notify →
      p ∈ s₀.inFlight ∨ Aware (s₀.act d q sent) p.src p.dst)
    (haware : ∀ m, Aware s m d → Aware (s₀.act d q sent) m d)
    (hsucc : ((s.node d).member = q.member ∧ (s.node d).successor = q.successor) ∨
      ⟨d, q.successor, .notify⟩ ∈ sent) :
    Announced (s₀.act d q sent) := by
  intro a ha hne
  by_cases had : a = d
  · subst had
    rw [Net.act_node_self] at ha hne ⊢
    rcases hsucc with ⟨hmem, hsame⟩ | hnot
    · rw [← hsame] at hne ⊢
      exact (h a (hmem.trans ha) hne).act hnode hflight haware
    · exact Or.inl (List.mem_append_right _ hnot)
  · rw [Net.act_node_of_ne _ _ _ had, hnode] at ha hne ⊢
    exact (h a ha hne).act hnode hflight haware

/-- A delivery of anything but a notification, which keeps the predecessor. -/
theorem Announced.handle (h : Announced s) (hp : s.inFlight[k]? = some p)
    (hnot : p.msg ≠ .notify) (hmember : q.member = (s.node d).member)
    (hpred : q.predecessor = (s.node d).predecessor)
    (hsucc : (s.node d).successor = q.successor ∨ ⟨d, q.successor, .notify⟩ ∈ sent) :
    Announced ((s.take k).act d q sent) := by
  refine h.act rfl (fun p' hp' hmsg => Or.inl ?_) (fun m hm => ?_)
    (hsucc.imp_left fun hsame => ⟨hmember.symm, hsame⟩)
  · refine mem_eraseIdx_of_ne hp hp' ?_
    rintro rfl
    exact hnot hmsg
  · rwa [Aware, Net.act_node_self, hmember, hpred]

theorem Announced.send (h : Announced s) (d : Ipv4Address) :
    Announced (s.act d (s.node d) sent) :=
  h.act rfl (fun _ hp _ => Or.inl hp) (fun m hm => by rwa [Aware, Net.act_node_self])
    (Or.inl ⟨rfl, rfl⟩)

/-- The answer comes to a node that was aware of nobody. -/
theorem Announced.joined (hany : .getAny ∉ N) (hgrowing : Growing N A s) (h : Announced s)
    {v : Ipv4Address} (hp : s.inFlight[k]? = some p) (hmsg : p.msg = .joinChordSuccess v) :
    Announced ((s.take k).act p.dst ⟨true, v, .getAny⟩
      (ringSends p.dst [.send v .notify])) := by
  have hin := mem_of_getElem? hp
  have hout := hgrowing.outside_of_carries hin (x := p.dst) (by simp [carries, hmsg])
  have hvN : v ∈ N := by
    have hpacket := hgrowing.traffic p hin
    cases hpacket with
    | joinChordSuccess dst_mem ne aims =>
        cases hmsg
        exact aims.mem
    | _ => cases hmsg
  rw [ringSends_send (ne_getAny_of_mem hany hvN)]
  refine h.act rfl (fun p' hp' hmsg' => Or.inl ?_) (fun m hm => ?_)
    (Or.inr (List.mem_singleton_self _))
  · refine mem_eraseIdx_of_ne hp hp' ?_
    rintro rfl
    rw [hmsg] at hmsg'
    cases hmsg'
  · have hmem := hm.1
    rw [hout] at hmem
    cases hmem

/-- A notification leaves its receiver with a predecessor at least as close as the
sender and as the predecessor it had. -/
theorem Announced.notify (h : Announced s) (hp : s.inFlight[k]? = some p)
    (hd : (s.node p.dst).member = true) (hmember : q.member = (s.node p.dst).member)
    (hsucc : q.successor = (s.node p.dst).successor) (hsome : q.predecessor ≠ .getAny)
    (hclose : cwTurn (nodePos q.predecessor) (nodePos p.dst) ≤
      cwTurn (nodePos p.src) (nodePos p.dst))
    (hcloser : (s.node p.dst).predecessor ≠ .getAny →
      cwTurn (nodePos q.predecessor) (nodePos p.dst) ≤
        cwTurn (nodePos (s.node p.dst).predecessor) (nodePos p.dst)) :
    Announced ((s.take k).act p.dst q []) := by
  have haware : ∀ m, cwTurn (nodePos q.predecessor) (nodePos p.dst) ≤
      cwTurn (nodePos m) (nodePos p.dst) → Aware ((s.take k).act p.dst q []) m p.dst := by
    intro m hle
    rw [Aware, Net.act_node_self]
    exact ⟨hmember.trans hd, hsome, hle⟩
  refine h.act rfl (fun p' hp' _ => ?_) (fun m hm => haware m ((hcloser hm.2.1).trans hm.2.2))
    (Or.inl ⟨hmember.symm, hsucc.symm⟩)
  by_cases hthis : p' = p
  · subst hthis
    exact Or.inr (haware p'.src hclose)
  · exact Or.inl (mem_eraseIdx_of_ne hp hp' hthis)

end Step

/-- Joins of the nodes `N` through members, with no request of the same node
outstanding, and deliveries in any order; `FIND_SUCCESSOR` comes to members only. -/
def RingNet.GrowthAllowed (N : Finset Ipv4Address) (s : RingNet) : RingEvent → Prop
  | .join x nodeAddr => x ∈ N ∧ (s.node nodeAddr).member = true ∧
      ((s.node x).member = false → ∀ p ∈ s.inFlight, carries x p = false)
  | .leave _ => False
  | .deliver k => ∀ p, s.inFlight[k]? = some p → (∃ x t, p.msg = .findSuccessor x t) →
      (s.node p.dst).member = true
  | _ => True

def RingNet.NotifiesMembers (s : RingNet) : RingEvent → Prop
  | .deliver k => ∀ p, s.inFlight[k]? = some p → p.msg = .notify → (s.node p.dst).member = true
  | _ => True

section Run

variable {N : Finset Ipv4Address} {A : Ipv4Address} {s s' : RingNet} {e : RingEvent}
  {F : Ipv4Address → Ipv4Address → Prop} {k : ℕ} {p : RingPacket} {q : Pointers}
  {out : List RingAction}

theorem Growing.deliver (hinj : Set.InjOn nodePos (N : Set Ipv4Address)) (hany : .getAny ∉ N)
    (h : Growing N A s) (hp : s.inFlight[k]? = some p)
    (allowed : s.GrowthAllowed N (.deliver k))
    (reacts : Reacts (F p.dst) p.dst (s.node p.dst) p.src p.msg q out) :
    Growing N A ((s.take k).act p.dst q (ringSends p.dst out)) := by
  have hin := mem_of_getElem? hp
  have hpacket := h.traffic p hin
  have hguard := allowed p hp
  obtain ⟨src, d, msg⟩ := p
  simp only at *
  cases reacts with
  | joinRefused outside =>
      cases hpacket with
      | joinChord src_mem dst_mem dst_member =>
          rw [outside] at dst_member
          cases dst_member
  | joinSplit member alone =>
      have hdA : d = A := by
        by_contra hne
        exact h.successor_ne hinj member hne alone
      subst hdA
      cases hpacket with
      | joinChord src_mem => exact h.split hany hp rfl src_mem
  | joinAnswer member several owns =>
      cases hpacket with
      | joinChord src_mem =>
          exact h.answer hinj hany hp (Or.inl ⟨rfl, rfl⟩) src_mem
            (h.several_of_member member several) member owns
  | joinForward member several owns known =>
      cases hpacket with
      | joinChord src_mem =>
          exact h.forward hp (Or.inl ⟨rfl, rfl⟩) src_mem (h.several_of_member member several)
  | findAnswer owns =>
      cases hpacket with
      | findSuccessor mem =>
          exact h.answer hinj hany hp (Or.inr rfl) mem (h.several_of_carriesOn hin rfl)
            (hguard ⟨_, _, rfl⟩) owns
  | findForward owns known =>
      cases hpacket with
      | findSuccessor mem =>
          exact h.forward hp (Or.inr rfl) mem (h.several_of_carriesOn hin rfl)
  | joined => exact h.joined hany hp rfl
  | notifyFirst none => exact h.notify hp rfl rfl rfl (Or.inr rfl)
  | notifyAdopt some arc => exact h.notify hp rfl rfl rfl (Or.inr rfl)
  | notifyIgnore some arc => exact h.notify hp rfl rfl rfl (Or.inl rfl)
  | reqAnswer some =>
      refine h.reply hp (by simp) fun p' hp' => ?_
      obtain rfl := eq_of_mem_ringSends hp'
      obtain ⟨-, hpred⟩ := (h.predecessor d).resolve_left some
      cases hpacket with
      | stabilizeReq src_member =>
          exact ⟨.stabilizeResp src_member (h.mem _ hpred) hpred, fun _ => rfl, rfl⟩
  | reqIgnore none => exact h.reply hp (by simp) (by simp)
  | respAdopt some ne owns => exact h.adopt hany hp rfl ne owns
  | respKeep keep => exact h.reply hp (by simp) (by simp)
  | leaveSuccessor => cases hpacket
  | leavePredecessor => cases hpacket

/-- The invariant of growth is kept by every allowed step. -/
theorem Growing.step (hinj : Set.InjOn nodePos (N : Set Ipv4Address)) (hany : .getAny ∉ N)
    (h : Growing N A s) (allowed : s.GrowthAllowed N e) (hstep : RingStep F s e s') :
    Growing N A s' := by
  obtain ⟨a, q, out, hturn, rfl⟩ := hstep
  cases hturn with
  | quiet a => simpa [RingNet.before] using h
  | joinIgnored ignored => simpa [RingNet.before] using h
  | joinLandmark outside =>
      have hmember := allowed.2.1
      rw [outside] at hmember
      cases hmember
  | joinRequest outside ne some =>
      obtain ⟨hxN, hmember, hfree⟩ := allowed
      have hzero : s.inFlight.countP (carries a) = 0 :=
        List.countP_eq_zero.mpr fun p hp => by simp [hfree outside p hp]
      rw [ringSends_send some]
      refine h.send a (fun p hp => ?_) (fun y => ?_) (fun p hp => ?_)
      · rw [List.mem_singleton.mp hp]
        exact .joinChord hxN (h.mem _ hmember) hmember
      · by_cases hay : a = y
        · subst hay
          simp [hzero, outside, carries]
        · simpa [carries, hay] using h.claims y
      · rw [List.mem_singleton.mp hp]
        rfl
  | leaveIgnored outside => exact allowed.elim
  | leaveAlone member alone => exact allowed.elim
  | leave member several => exact allowed.elim
  | stabilizeSkip skip => simpa [RingNet.before] using h
  | stabilize member several =>
      refine h.send a (fun p hp => ?_) (fun y => ?_) (fun p hp => ?_)
      · rw [eq_of_mem_ringSends hp]
        exact .stabilizeReq member
      · have hzero : (ringSends a [.send (s.node a).successor .stabilizeReq]).countP
            (carries y) = 0 :=
          List.countP_eq_zero.mpr fun p hp => by simp [eq_of_mem_ringSends hp, carries]
        rw [hzero]
        exact h.claims y
      · rw [eq_of_mem_ringSends hp]
        rfl
  | deliver packet reacts => exact h.deliver hinj hany packet allowed reacts

theorem Announced.deliver (hinj : Set.InjOn nodePos (N : Set Ipv4Address)) (hany : .getAny ∉ N)
    (hgrowing : Growing N A s) (h : Announced s) (hp : s.inFlight[k]? = some p)
    (notifies : s.NotifiesMembers (.deliver k))
    (reacts : Reacts (F p.dst) p.dst (s.node p.dst) p.src p.msg q out) :
    Announced ((s.take k).act p.dst q (ringSends p.dst out)) := by
  have hpacket := hgrowing.traffic p (mem_of_getElem? hp)
  have hguard := notifies p hp
  obtain ⟨src, d, msg⟩ := p
  simp only at *
  cases reacts with
  | joinSplit member alone =>
      cases hpacket with
      | joinChord src_mem =>
          refine h.handle hp (by simp) rfl rfl (Or.inr ?_)
          exact mem_ringSends.mpr ⟨rfl, ne_getAny_of_mem hany src_mem, by simp⟩
  | joined => exact h.joined hany hgrowing hp rfl
  | notifyFirst none =>
      cases hpacket with
      | notify src_mem src_member ne =>
          exact h.notify hp (hguard rfl) rfl rfl (ne_getAny_of_mem hany src_mem) le_rfl
            fun hsome => absurd none hsome
  | notifyAdopt some arc =>
      cases hpacket with
      | notify src_mem src_member ne =>
          have hd := hguard rfl
          have hne : nodePos src ≠ nodePos d :=
            fun heq => ne (hinj src_mem (hgrowing.mem d hd) heq)
          exact h.notify hp hd rfl rfl (ne_getAny_of_mem hany src_mem) le_rfl
            fun _ => cwTurn_le_of_inArc_left arc hne
  | notifyIgnore some arc =>
      exact h.notify hp (hguard rfl) rfl rfl some (cwTurn_le_of_not_inArc arc) fun _ => le_rfl
  | respAdopt some ne owns =>
      refine h.handle hp (by simp) rfl rfl (Or.inr ?_)
      exact mem_ringSends.mpr ⟨rfl, some, by simp⟩
  | leaveSuccessor => cases hpacket
  | leavePredecessor => cases hpacket
  | _ => exact h.handle hp (by simp) rfl rfl (Or.inl rfl)

/-- Every successor stays notified as long as notifications meet members. -/
theorem Announced.step (hinj : Set.InjOn nodePos (N : Set Ipv4Address)) (hany : .getAny ∉ N)
    (hgrowing : Growing N A s) (h : Announced s) (allowed : s.GrowthAllowed N e)
    (notifies : s.NotifiesMembers e) (hstep : RingStep F s e s') : Announced s' := by
  obtain ⟨a, q, out, hturn, rfl⟩ := hstep
  cases hturn with
  | joinLandmark outside =>
      have hmember := allowed.2.1
      rw [outside] at hmember
      cases hmember
  | leaveIgnored outside => exact allowed.elim
  | leaveAlone member alone => exact allowed.elim
  | leave member several => exact allowed.elim
  | deliver packet reacts => exact h.deliver hinj hany hgrowing packet notifies reacts
  | _ => exact h.send a

end Run

end PennSearch
