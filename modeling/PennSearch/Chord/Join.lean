import PennSearch.Chord.Stabilization

/-!
# One join into a stable ring

A node `X` issues one JOIN through a member of the stable ring `R`. While `X` is
outside, exactly one message carries its request (`Joining`): `JOIN_CHORD`, a
relayed `FIND_SUCCESSOR`, or the answer. Once `X` has the answer (`Joined`), a
notification to its successor is in flight or has arrived, and from then on a
stabilization of the member before `X` brings `X` to its notice (`Converging`).

In all three phases a pointer is right for `R` or for `insert X R`, and every
other message in flight is `Chatter`: notifications between neighbours, requests
and answers among the nodes that take part.
-/

namespace PennSearch

open Clockwise MessagePassing

variable [Sha1] {R : Finset Ipv4Address} {X : Ipv4Address}

/-! ## Neighbours before and after the join -/

def NextOnce (R : Finset Ipv4Address) (X a b : Ipv4Address) : Prop :=
  IsNext nodePos R a b ∨ IsNext nodePos (insert X R) a b

/-- `p` is the predecessor of `a` before or after the join; the newcomer may not
have one yet. -/
def PredecessorOnce (R : Finset Ipv4Address) (X p a : Ipv4Address) : Prop :=
  IsPredecessor R p a ∨ IsPredecessor (insert X R) p a ∨ (a = X ∧ p = .getAny)

section Neighbours

variable {a b p v : Ipv4Address}

theorem NextOnce.mem (h : NextOnce R X a b) : b ∈ insert X R := by
  rcases h with h | h
  · exact Finset.mem_insert_of_mem h.1
  · exact h.1

theorem NextOnce.isNext (hX : X ∉ R) (h : NextOnce R X a b) (hb : b ≠ X) :
    IsNext nodePos R a b := by
  rcases h with h | h
  · exact h
  · have herase := h.erase_other hb
    rwa [Finset.erase_insert hX] at herase

theorem NextOnce.isNext_newcomer (hX : X ∉ R) (h : NextOnce R X a X) :
    IsNext nodePos (insert X R) a X :=
  h.resolve_left fun h => hX h.1

theorem NextOnce.of_newcomer (h : NextOnce R X X b) : IsNext nodePos (insert X R) X b := by
  rcases h with h | h
  · exact h.insert_self
  · exact h

theorem NextOnce.of_inArc (hX : X ∉ R)
    (hinj : Set.InjOn nodePos (insert X R : Finset Ipv4Address)) (h : NextOnce R X a b)
    (hv : v ∈ insert X R) (harc : InArc (nodePos a) (nodePos b) (nodePos v))
    (hne : nodePos v ≠ nodePos a) : v = b ∨ (v = X ∧ NextOnce R X a X) := by
  rcases h with h | h
  · rcases Finset.mem_insert.mp hv with rfl | hvR
    · exact Or.inr ⟨rfl, Or.inr (h.insert_new harc hne)⟩
    · exact Or.inl (h.eq_of_inArc
        (hinj.mono (Finset.coe_subset.mpr (Finset.subset_insert X R))) hvR harc hne)
  · exact Or.inl (h.eq_of_inArc hinj hv harc hne)

theorem NextOnce.predecessorOnce (ha : a ∈ insert X R) (hab : a ≠ b) (h : NextOnce R X a b) :
    PredecessorOnce R X a b := by
  rcases h with h | h
  · rcases Finset.mem_insert.mp ha with rfl | haR
    · exact Or.inr (Or.inl (isPredecessor_of_isNext (Finset.mem_insert_self _ _) hab h.insert_self))
    · exact Or.inl (isPredecessor_of_isNext haR hab h)
  · exact Or.inr (Or.inl (isPredecessor_of_isNext ha hab h))

theorem exists_neighbours (hX : X ∉ R)
    (hinj : Set.InjOn nodePos (insert X R : Finset Ipv4Address)) (hR : R.Nonempty) :
    ∃ P ∈ R, ∃ S ∈ R, IsNext nodePos (insert X R) P X ∧ IsNext nodePos (insert X R) X S ∧
      IsNext nodePos R P S := by
  obtain ⟨S, hS⟩ : ∃ b, IsNext nodePos R X b := exists_isNext hR X
  obtain ⟨P, hP, hPX⟩ : ∃ a ∈ insert X R, IsNext nodePos (insert X R) a X :=
    exists_isNext_to (Finset.mem_insert_self X R)
  have hXS := hS.insert_self
  have hSX : S ≠ X := fun h => hX (h ▸ hS.1)
  have hPne : P ≠ X := by
    rintro rfl
    exact hSX (hXS.unique hinj hPX)
  have hPR : P ∈ R := Finset.mem_of_mem_insert_of_ne hP hPne
  have hPS := hPX.erase_between hinj hXS hSX
  rw [Finset.erase_insert hX] at hPS
  exact ⟨P, hPR, S, hS.1, hPX, hXS, hPS⟩

end Neighbours

/-! ## Nodes that take part, and their chatter -/

/-- The pointers of a node that takes part in the ring, among the nodes `A`. -/
structure TakesPart (R : Finset Ipv4Address) (X : Ipv4Address) (A : Finset Ipv4Address)
    (a : Ipv4Address) (q : Pointers) : Prop where
  member : q.member = true
  successor : NextOnce R X a q.successor
  predecessor : PredecessorOnce R X q.predecessor a
  known : q.predecessor = .getAny ∨ q.predecessor ∈ A

/-- Notifications and stabilization among the nodes `A`. -/
inductive Chatter (R : Finset Ipv4Address) (X : Ipv4Address) (A : Finset Ipv4Address) :
    RingPacket → Prop
  | notify {src dst : Ipv4Address} (src_mem : src ∈ A) (dst_mem : dst ∈ insert X R)
      (ne : src ≠ dst) (next : NextOnce R X src dst) : Chatter R X A ⟨src, dst, .notify⟩
  | stabilizeReq {src dst : Ipv4Address} (src_mem : src ∈ A) (dst_mem : dst ∈ insert X R) :
      Chatter R X A ⟨src, dst, .stabilizeReq⟩
  | stabilizeResp {src dst v : Ipv4Address} (dst_mem : dst ∈ A) (mem : v ∈ A) :
      Chatter R X A ⟨src, dst, .stabilizeResp v⟩

section Chatter

variable {A : Finset Ipv4Address} {a : Ipv4Address} {q : Pointers}

theorem TakesPart.mono {A' : Finset Ipv4Address} (hA : A ⊆ A') (h : TakesPart R X A a q) :
    TakesPart R X A' a q :=
  ⟨h.member, h.successor, h.predecessor, h.known.imp_right fun hp => hA hp⟩

theorem Chatter.mono {A' : Finset Ipv4Address} (hA : A ⊆ A') {p : RingPacket}
    (h : Chatter R X A p) : Chatter R X A' p := by
  cases h with
  | notify src_mem dst_mem ne next => exact .notify (hA src_mem) dst_mem ne next
  | stabilizeReq src_mem dst_mem => exact .stabilizeReq (hA src_mem) dst_mem
  | stabilizeResp dst_mem mem => exact .stabilizeResp (hA dst_mem) (hA mem)

/-- Chatter that reaches a node that takes part leaves its pointers right and
causes only chatter; a new successor is notified at once. -/
theorem Chatter.reacts (hX : X ∉ R)
    (hinj : Set.InjOn nodePos (insert X R : Finset Ipv4Address)) (hA : A ⊆ insert X R)
    {p : RingPacket} {F : Ipv4Address → Prop} {old : Pointers} {out : List RingAction}
    (hp : Chatter R X A p) (hd : p.dst ∈ A) (hold : TakesPart R X A p.dst old)
    (reacts : Reacts F p.dst old p.src p.msg q out) :
    TakesPart R X A p.dst q ∧ (∀ p' ∈ ringSends p.dst out, Chatter R X A p') ∧
      (∀ v, .send v .notify ∈ out → v ∈ A) ∧
      (q.successor = old.successor ∨
        (out = [.send q.successor .notify] ∧ q.successor ≠ p.dst)) := by
  cases hp with
  | notify src_mem dst_mem ne next =>
      have hsrc : PredecessorOnce R X _ _ := next.predecessorOnce (hA src_mem) ne
      cases reacts with
      | notifyFirst none =>
          exact ⟨⟨hold.member, hold.successor, hsrc, Or.inr src_mem⟩, by simp, by simp,
            Or.inl rfl⟩
      | notifyAdopt some arc =>
          refine ⟨⟨hold.member, hold.successor, hsrc, Or.inr src_mem⟩, ?_, by simp, Or.inl rfl⟩
          simp [ringSends]
      | notifyIgnore some arc => exact ⟨hold, by simp, by simp, Or.inl rfl⟩
  | stabilizeReq src_mem dst_mem =>
      cases reacts with
      | reqIgnore none => exact ⟨hold, by simp, by simp, Or.inl rfl⟩
      | reqAnswer some =>
          refine ⟨hold, fun p' hp' => ?_, by simp, Or.inl rfl⟩
          obtain rfl := eq_of_mem_ringSends hp'
          exact .stabilizeResp src_mem (hold.known.resolve_left some)
  | stabilizeResp dst_mem mem =>
      cases reacts with
      | respKeep keep => exact ⟨hold, by simp, by simp, Or.inl rfl⟩
      | respAdopt some ne owns =>
          rename_i src dst v
          -- the node named is the successor already, or the newcomer
          have hnext : NextOnce R X dst v := by
            rcases hold.successor.of_inArc hX hinj (hA mem) owns ne with heq | ⟨heq, hnext⟩
            · exact heq ▸ hold.successor
            · exact heq ▸ hnext
          refine ⟨⟨hold.member, hnext, hold.predecessor, hold.known⟩, fun p' hp' => ?_, ?_,
            Or.inr ⟨rfl, fun h => ne (congrArg nodePos h)⟩⟩
          · obtain rfl := eq_of_mem_ringSends hp'
            exact .notify hd (hA mem) (fun h => ne (congrArg nodePos h.symm)) hnext
          · intro w hw
            obtain ⟨rfl, -⟩ := RingAction.send.inj (List.mem_singleton.mp hw)
            exact mem

end Chatter

/-! ## The newcomer is outside -/

/-- The messages that carry the request of the newcomer. -/
def RingMessage.isToken : RingMessage → Bool
  | .joinChord => true
  | .findSuccessor _ _ => true
  | .joinChordSuccess _ => true
  | _ => false

/-- The request of `X`, on its way to a member or answered. -/
inductive JoinToken (R : Finset Ipv4Address) (X : Ipv4Address) : RingPacket → Prop
  | request {dst : Ipv4Address} (dst_mem : dst ∈ R) : JoinToken R X ⟨X, dst, .joinChord⟩
  | relayed {src dst : Ipv4Address} (dst_mem : dst ∈ R) (several : R ≠ {dst}) :
      JoinToken R X ⟨src, dst, .findSuccessor X (sha1 X)⟩
  | answer {src v : Ipv4Address} (next : IsNext nodePos (insert X R) X v) :
      JoinToken R X ⟨src, X, .joinChordSuccess v⟩

/-- `X` is outside, and one message carries its request. The answer of a landmark
that was alone comes with a notification, which the answer precedes. -/
structure Joining (R : Finset Ipv4Address) (X : Ipv4Address) (s : RingNet) : Prop where
  takesPart : ∀ a ∈ R, TakesPart R X R a (s.node a)
  outside : ∀ a ∉ R, (s.node a).member = false
  newcomer : s.node X = .outside
  traffic : ∀ p ∈ s.inFlight, JoinToken R X p ∨ Chatter R X R p
  single : s.inFlight.countP (fun p => p.msg.isToken) = 1
  answered : ∀ a ∈ R, (s.node a).successor = X →
    (∃ src v, ⟨src, X, .joinChordSuccess v⟩ ∈ s.inFlight) ∧ ⟨a, X, .notify⟩ ∈ s.inFlight
  split : ∀ src v, ⟨src, X, .joinChordSuccess v⟩ ∈ s.inFlight →
    ∀ a ∈ R, (s.node a).successor ≠ a
  heralded : Heralded (fun q p => q.src = p.src ∧ q.dst = p.dst ∧ ∃ v, q.msg = .joinChordSuccess v)
    (fun p => p.dst = X ∧ p.msg = .notify) s.inFlight

theorem JoinToken.isToken {p : RingPacket} (h : JoinToken R X p) : p.msg.isToken = true := by
  cases h <;> rfl

theorem Chatter.isToken {A : Finset Ipv4Address} {p : RingPacket} (h : Chatter R X A p) :
    p.msg.isToken = false := by
  cases h <;> rfl

section Joining

variable {s : RingNet} {F : Ipv4Address → Ipv4Address → Prop}

theorem Joining.act_chatter (h : Joining R X s) (hX : X ∉ R) {a : Ipv4Address} {q : Pointers}
    {sent : List RingPacket} (ha : a ∈ R) (hq : TakesPart R X R a q)
    (hsucc : q.successor = X → (s.node a).successor = X)
    (hself : q.successor = a → (s.node a).successor = a)
    (hsent : ∀ p ∈ sent, Chatter R X R p ∧ ¬ (p.dst = X ∧ p.msg = .notify)) :
    Joining R X (s.act a q sent) := by
  have haX : X ≠ a := fun h => hX (h ▸ ha)
  refine ⟨fun b hb => ?_, fun b hb => ?_, ?_, fun p hp => ?_, ?_, fun b hb hbX => ?_,
    fun src v hans b hb => ?_, ?_⟩
  · rw [Net.act_node]
    split
    · rename_i hba
      exact hba ▸ hq
    · exact h.takesPart b hb
  · rw [Net.act_node, if_neg fun hba : b = a => hb (hba ▸ ha)]
    exact h.outside b hb
  · rw [Net.act_node, if_neg haX]
    exact h.newcomer
  · rcases List.mem_append.mp hp with hp | hp
    · exact h.traffic p hp
    · exact Or.inr (hsent p hp).1
  · have hzero : sent.countP (fun p => p.msg.isToken) = 0 :=
      List.countP_eq_zero.mpr fun p hp => by simp [(hsent p hp).1.isToken]
    rw [Net.act_inFlight, List.countP_append, h.single, hzero]
  · have hbX' : (s.node b).successor = X := by
      rw [Net.act_node] at hbX
      split at hbX
      · rename_i hba
        exact hba ▸ hsucc hbX
      · exact hbX
    obtain ⟨⟨src, v, hans⟩, hnot⟩ := h.answered b hb hbX'
    exact ⟨⟨src, v, List.mem_append_left _ hans⟩, List.mem_append_left _ hnot⟩
  · have hold : ⟨src, X, .joinChordSuccess v⟩ ∈ s.inFlight := by
      rcases List.mem_append.mp hans with hans | hans
      · exact hans
      · cases (hsent _ hans).1
    rw [Net.act_node]
    split
    · rename_i hba
      rw [hba]
      exact fun heq => h.split src v hold a ha (hself heq)
    · exact h.split src v hold b hb
  · exact h.heralded.append fun p hp => (hsent p hp).2

theorem Joining.stabilize (h : Joining R X s) (hX : X ∉ R) {a : Ipv4Address}
    (ha : a ∈ R) :
    Joining R X (s.act a (s.node a)
      (ringSends a [.send (s.node a).successor .stabilizeReq])) := by
  refine h.act_chatter hX ha (h.takesPart a ha) id id fun p hp => ?_
  obtain rfl := eq_of_mem_ringSends hp
  exact ⟨.stabilizeReq ha (h.takesPart _ ha).successor.mem, by simp⟩

/-- First in, first out: no notification reaches the newcomer before its answer. -/
theorem Joining.not_notify (h : Joining R X s) {k : ℕ} {p : RingPacket}
    (packet : s.inFlight[k]? = some p) (hold : IsOldest s.inFlight k) :
    ¬ (p.dst = X ∧ p.msg = .notify) := by
  intro hQ
  obtain ⟨i, q, hik, hq, hP⟩ := h.heralded k p packet hQ
  exact hold.not_before packet hik hq ⟨hP.1, hP.2.1⟩

theorem Joining.take (h : Joining R X s) {k : ℕ} {p : RingPacket}
    (packet : s.inFlight[k]? = some p) (hp : Chatter R X R p)
    (hnot : ¬ (p.dst = X ∧ p.msg = .notify)) : Joining R X (s.take k) := by
  have hcount := countP_eq_eraseIdx (fun p : RingPacket => p.msg.isToken) packet
  have hherald := h.heralded.eraseIdx packet fun p' _ hP => by
    obtain ⟨-, -, v, hv⟩ := hP
    have htoken := hp.isToken
    rw [hv] at htoken
    cases htoken
  refine ⟨h.takesPart, h.outside, h.newcomer,
    fun p' hp' => h.traffic p' (List.mem_of_mem_eraseIdx hp'), ?_, fun a ha haX => ?_,
    fun src v hans => h.split src v (List.mem_of_mem_eraseIdx hans), hherald⟩
  · rw [h.single] at hcount
    simpa [hp.isToken] using hcount.symm
  · obtain ⟨⟨src, v, hans⟩, hnotify⟩ := h.answered a ha haX
    refine ⟨⟨src, v, mem_eraseIdx_of_ne packet hans ?_⟩, mem_eraseIdx_of_ne packet hnotify ?_⟩
    · rintro rfl
      exact absurd hp.isToken (by simp [RingMessage.isToken])
    · rintro rfl
      exact hnot ⟨rfl, rfl⟩

theorem Joining.deliver_chatter (h : Joining R X s) (hX : X ∉ R)
    (hinj : Set.InjOn nodePos (insert X R : Finset Ipv4Address)) {k : ℕ} {p : RingPacket}
    {q : Pointers} {out : List RingAction} (packet : s.inFlight[k]? = some p)
    (hp : Chatter R X R p) (hold : IsOldest s.inFlight k)
    (reacts : Reacts (F p.dst) p.dst (s.node p.dst) p.src p.msg q out) :
    Joining R X ((s.take k).act p.dst q (ringSends p.dst out)) := by
  have hnot := h.not_notify packet hold
  have htake := h.take packet hp hnot
  by_cases hd : p.dst ∈ R
  · obtain ⟨hq, hsent, hnotify, hsucc⟩ :=
      hp.reacts hX hinj (Finset.subset_insert X R) hd (h.takesPart _ hd) reacts
    refine htake.act_chatter hX hd hq (fun hqX => ?_) (fun hself => ?_)
      fun p' hp' => ⟨hsent p' hp', ?_⟩
    · rcases hsucc with hsucc | ⟨hsucc, -⟩
      · exact hsucc ▸ hqX
      · exact absurd (hnotify X (by simp [hsucc, hqX])) hX
    · rcases hsucc with hsucc | ⟨-, hne⟩
      · exact hsucc ▸ hself
      · exact absurd hself hne
    · rintro ⟨hdst, hmsg⟩
      have hmem := (mem_ringSends.mp hp').2.2
      rw [hdst, hmsg] at hmem
      exact hX (hnotify X hmem)
  · -- only a request can reach the newcomer, which has no predecessor to name
    cases hp with
    | notify src_mem dst_mem ne next =>
        exact absurd ⟨Finset.eq_of_mem_insert_of_notMem dst_mem hd, rfl⟩ hnot
    | stabilizeResp dst_mem mem => exact absurd dst_mem hd
    | stabilizeReq src_mem dst_mem =>
        obtain rfl := Finset.eq_of_mem_insert_of_notMem dst_mem hd
        cases reacts with
        | reqAnswer some => exact absurd (by rw [h.newcomer]; rfl) some
        | reqIgnore none => simpa [Net.act, Net.take] using htake

theorem Joining.no_other_token (h : Joining R X s) {k : ℕ} {p : RingPacket}
    (packet : s.inFlight[k]? = some p) (hp : p.msg.isToken = true) :
    ∀ p' ∈ s.inFlight.eraseIdx k, p'.msg.isToken = false := by
  have hcount := countP_eq_eraseIdx (fun p : RingPacket => p.msg.isToken) packet
  simp only [h.single, hp, if_true] at hcount
  have hzero : (s.inFlight.eraseIdx k).countP (fun p => p.msg.isToken) = 0 := by
    simpa using hcount
  intro p' hp'
  simpa using List.countP_eq_zero.mp hzero p' hp'

theorem Joining.chatter_of_rest (h : Joining R X s) {k : ℕ} {p p' : RingPacket}
    (packet : s.inFlight[k]? = some p) (hp : p.msg.isToken = true)
    (hp' : p' ∈ s.inFlight.eraseIdx k) : Chatter R X R p' := by
  rcases h.traffic p' (List.mem_of_mem_eraseIdx hp') with htoken | hchatter
  · have hno := h.no_other_token packet hp p' hp'
    rw [htoken.isToken] at hno
    cases hno
  · exact hchatter

theorem Joining.isNext_of_request (h : Joining R X s) (hX : X ∉ R) {k : ℕ} {p : RingPacket}
    (packet : s.inFlight[k]? = some p) (hp : p.msg.isToken = true)
    (hans : ∀ v, p.msg ≠ .joinChordSuccess v) {a : Ipv4Address} (ha : a ∈ R) :
    (s.node a).successor ≠ X ∧ IsNext nodePos R a (s.node a).successor := by
  have hne : (s.node a).successor ≠ X := by
    intro haX
    obtain ⟨⟨src, v, hmem⟩, -⟩ := h.answered a ha haX
    have hno := h.no_other_token packet hp _
      (mem_eraseIdx_of_ne packet hmem fun heq => hans v (heq ▸ rfl))
    cases hno
  exact ⟨hne, (h.takesPart a ha).successor.isNext hX hne⟩

theorem Joining.heralded_rest (h : Joining R X s) {k : ℕ} {p : RingPacket}
    (packet : s.inFlight[k]? = some p) (hans : ∀ v, p.msg ≠ .joinChordSuccess v) :
    Heralded (fun q p => q.src = p.src ∧ q.dst = p.dst ∧ ∃ v, q.msg = .joinChordSuccess v)
      (fun p => p.dst = X ∧ p.msg = .notify) (s.inFlight.eraseIdx k) :=
  h.heralded.eraseIdx packet fun _ _ hP => hans _ hP.2.2.choose_spec

theorem Joining.act_token (h : Joining R X s) (hX : X ∉ R) {k : ℕ} {p p' : RingPacket}
    (packet : s.inFlight[k]? = some p) (hp : p.msg.isToken = true)
    (hans : ∀ v, p.msg ≠ .joinChordSuccess v) (hp' : JoinToken R X p')
    (hsplit : ∀ v, p'.msg = .joinChordSuccess v → ∀ b ∈ R, (s.node b).successor ≠ b)
    (a : Ipv4Address) :
    Joining R X ((s.take k).act a (s.node a) [p']) := by
  have hnode : ((s.take k).act a (s.node a) [p']).node = s.node := by simp [Net.act]
  have hzero : (s.inFlight.eraseIdx k).countP (fun p => p.msg.isToken) = 0 :=
    List.countP_eq_zero.mpr fun p'' hp'' => by simp [h.no_other_token packet hp p'' hp'']
  refine ⟨?_, ?_, ?_, fun p'' hp'' => ?_, ?_, fun b hb hbX => ?_, fun src v hv => ?_, ?_⟩
  · rw [hnode]
    exact h.takesPart
  · rw [hnode]
    exact h.outside
  · rw [hnode]
    exact h.newcomer
  · rcases List.mem_append.mp hp'' with hp'' | hp''
    · exact Or.inr (h.chatter_of_rest packet hp hp'')
    · exact Or.inl (List.mem_singleton.mp hp'' ▸ hp')
  · simp [hzero, hp'.isToken]
  · rw [hnode] at hbX
    exact absurd hbX (h.isNext_of_request hX packet hp hans hb).1
  · rw [hnode]
    rcases List.mem_append.mp hv with hv | hv
    · cases h.no_other_token packet hp _ hv
    · exact hsplit v (List.mem_singleton.mp hv ▸ rfl)
  · refine (h.heralded_rest packet hans).append fun q hq hQ => ?_
    have htoken := hp'.isToken
    rw [← List.mem_singleton.mp hq, hQ.2] at htoken
    cases htoken

theorem Joining.act_split (h : Joining R X s) (hX : X ∉ R)
    (hinj : Set.InjOn nodePos (insert X R : Finset Ipv4Address)) {k : ℕ} {a : Ipv4Address}
    (packet : s.inFlight[k]? = some ⟨X, a, .joinChord⟩) (ha : a ∈ R)
    (halone : (s.node a).successor = a) :
    Joining R X ((s.take k).act a { s.node a with successor := X }
      [⟨a, X, .joinChordSuccess a⟩, ⟨a, X, .notify⟩]) := by
  have hans : ∀ v, RingMessage.joinChord ≠ .joinChordSuccess v := fun v h => by cases h
  have hR : R = {a} := by
    have hnext := (h.isNext_of_request hX packet rfl hans ha).2
    rw [halone] at hnext
    exact eq_singleton_of_isNext_self
      (hinj.mono (Finset.coe_subset.mpr (Finset.subset_insert X R))) ha hnext
  have haX : X ≠ a := fun h => hX (h ▸ ha)
  have hposX : nodePos X ≠ nodePos a := fun h => haX
    (hinj (by simp) (by simp [ha]) h)
  have hnext : NextOnce R X a X := by
    subst hR
    exact Or.inr ((isNext_self_singleton a).insert_new (inArc_self _ _) hposX)
  have hanswer : IsNext nodePos (insert X R) X a := by
    subst hR
    exact IsNext.insert_self ⟨ha, fun c hc => by rw [Finset.mem_singleton.mp hc]⟩
  have hzero : (s.inFlight.eraseIdx k).countP (fun p => p.msg.isToken) = 0 :=
    List.countP_eq_zero.mpr fun p hp => by simp [h.no_other_token packet rfl p hp]
  refine ⟨fun b hb => ?_, fun b hb => ?_, ?_, fun p hp => ?_, ?_, fun b hb hbX => ?_,
    fun src v hv b hb => ?_, ?_⟩
  · have hpart := h.takesPart b hb
    rw [hR, Finset.mem_singleton] at hb
    subst hb
    rw [Net.act_node_self]
    exact ⟨hpart.member, hnext, hpart.predecessor, hpart.known⟩
  · rw [Net.act_node, if_neg fun hba : b = a => hb (hba ▸ ha)]
    exact h.outside b hb
  · rw [Net.act_node, if_neg haX]
    exact h.newcomer
  · simp only [Net.act_inFlight, List.mem_append, List.mem_cons, List.not_mem_nil,
      or_false] at hp
    rcases hp with hp | rfl | rfl
    · exact Or.inr (h.chatter_of_rest packet rfl hp)
    · exact Or.inl (.answer hanswer)
    · exact Or.inr (.notify ha (Finset.mem_insert_self _ _) haX.symm hnext)
  · rw [Net.act_inFlight, Net.take_inFlight, List.countP_append, hzero]
    rfl
  · rw [hR, Finset.mem_singleton] at hb
    subst hb
    exact ⟨⟨b, b, by simp⟩, by simp⟩
  · rw [hR, Finset.mem_singleton] at hb
    subst hb
    rw [Net.act_node_self]
    exact haX
  · exact (h.heralded_rest packet hans).append_pair (by simp) ⟨rfl, rfl, a, rfl⟩

end Joining

/-! ## The newcomer is a member -/

/-- The predecessor of `a` is `m`, or a notification from `m` is on its way. -/
def Told (s : RingNet) (m a : Ipv4Address) : Prop :=
  ⟨m, a, .notify⟩ ∈ s.inFlight ∨ (s.node a).predecessor = m

/-- `X` is a member. Its successor has its notification or will get it, and the
same holds between `X` and the member that has `X` as its successor. -/
structure Joined (R : Finset Ipv4Address) (X : Ipv4Address) (s : RingNet) : Prop where
  takesPart : ∀ a ∈ insert X R, TakesPart R X (insert X R) a (s.node a)
  outside : ∀ a ∉ insert X R, (s.node a).member = false
  traffic : ∀ p ∈ s.inFlight, Chatter R X (insert X R) p
  several : ∀ a ∈ R, (s.node a).successor ≠ a
  notified : ∀ v, IsNext nodePos (insert X R) X v → Told s X v
  noticed : ∀ a ∈ R, (s.node a).successor = X → Told s a X

section Joined

variable {s : RingNet} {F : Ipv4Address → Ipv4Address → Prop}

theorem Joining.act_joined (h : Joining R X s) (hX : X ∉ R)
    (hinj : Set.InjOn nodePos (insert X R : Finset Ipv4Address)) (hR : R.Nonempty)
    (hany : .getAny ∉ insert X R) {k : ℕ} {src v : Ipv4Address}
    (packet : s.inFlight[k]? = some ⟨src, X, .joinChordSuccess v⟩)
    (hv : IsNext nodePos (insert X R) X v) :
    Joined R X ((s.take k).act X ⟨true, v, .getAny⟩ (ringSends X [.send v .notify])) := by
  have hvany : v ≠ .getAny := fun h => hany (h ▸ hv.1)
  have hvX : X ≠ v := by
    rintro rfl
    obtain ⟨b, hb⟩ := hR
    have hself := eq_singleton_of_isNext_self hinj hv.1 hv
    have hb' : b ∈ insert X R := Finset.mem_insert_of_mem hb
    rw [hself, Finset.mem_singleton] at hb'
    exact hX (hb' ▸ hb)
  rw [ringSends_send hvany]
  refine ⟨fun a ha => ?_, fun a ha => ?_, fun p hp => ?_, fun a ha => ?_, fun w hw => ?_,
    fun a ha haX => ?_⟩
  · rw [Net.act_node]
    split
    · rename_i haX
      subst haX
      exact ⟨rfl, Or.inr hv, Or.inr (Or.inr ⟨rfl, rfl⟩), Or.inl rfl⟩
    · rename_i haX
      exact (h.takesPart a (Finset.mem_of_mem_insert_of_ne ha haX)).mono (Finset.subset_insert X R)
  · rw [Finset.mem_insert, not_or] at ha
    rw [Net.act_node, if_neg ha.1]
    exact h.outside a ha.2
  · rcases List.mem_append.mp hp with hp | hp
    · exact (h.chatter_of_rest packet rfl hp).mono (Finset.subset_insert X R)
    · rw [List.mem_singleton.mp hp]
      exact .notify (Finset.mem_insert_self X R) hv.1 hvX (Or.inr hv)
  · rw [Net.act_node, if_neg fun haX : a = X => hX (haX ▸ ha)]
    exact h.split src v (mem_of_getElem? packet) a ha
  · rw [hw.unique hinj hv]
    exact Or.inl (by simp)
  · have hne : a ≠ X := fun h => hX (h ▸ ha)
    rw [Net.act_node, if_neg hne] at haX
    have hnotify := (h.answered a ha haX).2
    exact Or.inl (List.mem_append_left _ (mem_eraseIdx_of_ne packet hnotify (by simp)))

theorem Joined.stabilize (h : Joined R X s) {a : Ipv4Address} (ha : a ∈ insert X R) :
    Joined R X (s.act a (s.node a)
      (ringSends a [.send (s.node a).successor .stabilizeReq])) := by
  have hnode : (s.act a (s.node a)
      (ringSends a [.send (s.node a).successor .stabilizeReq])).node = s.node := by
    simp [Net.act]
  refine ⟨?_, ?_, fun p hp => ?_, ?_, fun v hv => ?_, fun b hb hbX => ?_⟩
  · rw [hnode]
    exact h.takesPart
  · rw [hnode]
    exact h.outside
  · rcases List.mem_append.mp hp with hp | hp
    · exact h.traffic p hp
    · obtain rfl := eq_of_mem_ringSends hp
      exact .stabilizeReq ha (h.takesPart _ ha).successor.mem
  · rw [hnode]
    exact h.several
  · unfold Told
    rw [hnode]
    exact (h.notified v hv).imp_left fun hmem => List.mem_append_left _ hmem
  · unfold Told
    rw [hnode] at hbX ⊢
    exact (h.noticed b hb hbX).imp_left fun hmem => List.mem_append_left _ hmem

theorem Reacts.notify_cases {F : Ipv4Address → Prop} {a src : Ipv4Address} {p q : Pointers}
    {out : List RingAction} (h : Reacts F a p src .notify q out) :
    (q.predecessor = src ∧ (p.predecessor = .getAny ∨
        InArc (nodePos p.predecessor) (nodePos a) (nodePos src))) ∨
      (q = p ∧ p.predecessor ≠ .getAny ∧
        ¬ InArc (nodePos p.predecessor) (nodePos a) (nodePos src)) := by
  cases h with
  | notifyFirst none => exact Or.inl ⟨rfl, Or.inl none⟩
  | notifyAdopt some arc => exact Or.inl ⟨rfl, Or.inr arc⟩
  | notifyIgnore some arc => exact Or.inr ⟨rfl, some, arc⟩

theorem Chatter.predecessor_eq {A : Finset Ipv4Address} {F : Ipv4Address → Prop}
    {p : RingPacket} {old q : Pointers} {out : List RingAction} (hp : Chatter R X A p)
    (hmsg : p.msg ≠ .notify) (reacts : Reacts F p.dst old p.src p.msg q out) :
    q.predecessor = old.predecessor := by
  cases hp with
  | notify src_mem dst_mem ne next => exact absurd rfl hmsg
  | stabilizeReq src_mem dst_mem => cases reacts <;> rfl
  | stabilizeResp dst_mem mem => cases reacts <;> rfl

theorem Reacts.notify_taken {F : Ipv4Address → Prop} {a src : Ipv4Address} {p q : Pointers}
    {out : List RingAction} (h : Reacts F a p src .notify q out)
    (hpart : TakesPart R X (insert X R) a p) (hnext : IsNext nodePos (insert X R) src a) :
    q.predecessor = src := by
  rcases h.notify_cases with ⟨hq, -⟩ | ⟨-, hsome, harc⟩
  · exact hq
  · exact absurd (hnext.inArc_of_mem (hpart.known.resolve_left hsome)) harc

/-- A true predecessor is not given up for another notification. -/
theorem Reacts.notify_kept {F : Ipv4Address → Prop} {a src : Ipv4Address} {p q : Pointers}
    {out : List RingAction} (hinj : Set.InjOn nodePos (insert X R : Finset Ipv4Address))
    (hany : .getAny ∉ insert X R) (h : Reacts F a p src .notify q out)
    (hp : p.predecessor ∈ insert X R)
    (hnext : IsNext nodePos (insert X R) p.predecessor a) (hsrc : src ∈ insert X R)
    (hne : src ≠ a) : q.predecessor = p.predecessor := by
  rcases h.notify_cases with ⟨hq, hnone | harc⟩ | ⟨rfl, -⟩
  · exact absurd (hnone ▸ hp) hany
  · by_cases heq : src = p.predecessor
    · rw [hq, heq]
    · have hpos : nodePos src ≠ nodePos p.predecessor := fun h => heq (hinj hsrc hp h)
      exact absurd (hnext.eq_of_inArc hinj hsrc harc hpos) hne
  · rfl

theorem Joined.predecessor_deliver (h : Joined R X s)
    (hinj : Set.InjOn nodePos (insert X R : Finset Ipv4Address))
    (hany : .getAny ∉ insert X R) {k : ℕ} {p : RingPacket} {q : Pointers}
    {out : List RingAction} (packet : s.inFlight[k]? = some p)
    (reacts : Reacts (F p.dst) p.dst (s.node p.dst) p.src p.msg q out)
    {m a : Ipv4Address} (hm : m ∈ insert X R) (hnext : IsNext nodePos (insert X R) m a)
    (hpred : (s.node a).predecessor = m) :
    (((s.take k).act p.dst q (ringSends p.dst out)).node a).predecessor = m := by
  have hp := h.traffic p (mem_of_getElem? packet)
  rw [Net.act_node]
  split
  · rename_i hdst
    subst hdst
    by_cases hmsg : p.msg = .notify
    · rw [hmsg] at reacts
      obtain ⟨src, dst, msg⟩ := p
      cases hp with
      | notify src_mem dst_mem ne next =>
          rw [reacts.notify_kept hinj hany (hpred ▸ hm) (hpred ▸ hnext) src_mem ne, hpred]
      | _ => cases hmsg
    · rw [hp.predecessor_eq hmsg reacts, hpred]
  · exact hpred

theorem Joined.told_deliver (h : Joined R X s)
    (hinj : Set.InjOn nodePos (insert X R : Finset Ipv4Address))
    (hany : .getAny ∉ insert X R) {k : ℕ} {p : RingPacket} {q : Pointers}
    {out : List RingAction} (packet : s.inFlight[k]? = some p)
    (reacts : Reacts (F p.dst) p.dst (s.node p.dst) p.src p.msg q out)
    {m a : Ipv4Address} (hm : m ∈ insert X R) (ha : a ∈ insert X R)
    (hnext : IsNext nodePos (insert X R) m a) (htold : Told s m a) :
    Told ((s.take k).act p.dst q (ringSends p.dst out)) m a := by
  by_cases hthis : p = ⟨m, a, .notify⟩
  · subst hthis
    right
    rw [Net.act_node_self]
    exact reacts.notify_taken (h.takesPart a ha) hnext
  · rcases htold with hmem | hpred
    · exact Or.inl (List.mem_append_left _ (mem_eraseIdx_of_ne packet hmem (Ne.symm hthis)))
    · exact Or.inr (h.predecessor_deliver hinj hany packet reacts hm hnext hpred)

theorem Joined.deliver (h : Joined R X s) (hX : X ∉ R)
    (hinj : Set.InjOn nodePos (insert X R : Finset Ipv4Address))
    (hany : .getAny ∉ insert X R) {k : ℕ} {p : RingPacket}
    {q : Pointers} {out : List RingAction} (packet : s.inFlight[k]? = some p)
    (reacts : Reacts (F p.dst) p.dst (s.node p.dst) p.src p.msg q out) :
    Joined R X ((s.take k).act p.dst q (ringSends p.dst out)) := by
  have hp := h.traffic p (mem_of_getElem? packet)
  have hd : p.dst ∈ insert X R := by
    cases hp with
    | notify src_mem dst_mem ne next => exact dst_mem
    | stabilizeReq src_mem dst_mem => exact dst_mem
    | stabilizeResp dst_mem mem => exact dst_mem
  obtain ⟨hq, hsent, -, hsucc⟩ := hp.reacts hX hinj subset_rfl hd (h.takesPart _ hd) reacts
  refine ⟨fun a ha => ?_, fun a ha => ?_, fun p' hp' => ?_, fun a ha => ?_, fun v hv => ?_,
    fun a ha haX => ?_⟩
  · rw [Net.act_node]
    split
    · rename_i had
      exact had ▸ hq
    · exact h.takesPart a ha
  · rw [Net.act_node, if_neg fun had : a = p.dst => ha (had ▸ hd)]
    exact h.outside a ha
  · rcases List.mem_append.mp hp' with hp' | hp'
    · exact h.traffic p' (List.mem_of_mem_eraseIdx hp')
    · exact hsent p' hp'
  · rw [Net.act_node]
    split
    · rename_i had
      rcases hsucc with hsucc | ⟨-, hne⟩
      · rw [hsucc, had]
        exact h.several _ (had ▸ ha)
      · rwa [had]
    · exact h.several a ha
  · exact h.told_deliver hinj hany packet reacts (Finset.mem_insert_self X R) hv.1 hv
      (h.notified v hv)
  · have haR' := Finset.mem_insert_of_mem (a := a) (b := X) ha
    have hnext : (s.node a).successor = X → IsNext nodePos (insert X R) a X := fun heq =>
      (heq ▸ (h.takesPart a haR').successor).isNext_newcomer hX
    have hold : (s.node a).successor = X →
        Told ((s.take k).act p.dst q (ringSends p.dst out)) a X := fun heq =>
      h.told_deliver hinj hany packet reacts haR' (Finset.mem_insert_self X R) (hnext heq)
        (h.noticed a ha heq)
    rw [Net.act_node] at haX
    split at haX
    · rename_i had
      rcases hsucc with hsucc | ⟨hsucc, -⟩
      · exact hold (by rw [had, ← hsucc, haX])
      · have hXany : X ≠ .getAny := fun h => hany (h ▸ Finset.mem_insert_self X R)
        left
        rw [hsucc, haX, ringSends_send hXany, had]
        simp
    · exact hold haX

end Joined

/-! ## From outside to member -/

section Request

variable {s : RingNet} {F : Ipv4Address → Ipv4Address → Prop}

theorem Joining.successor_ne (h : Joining R X s) (hX : X ∉ R)
    (hinj : Set.InjOn nodePos (insert X R : Finset Ipv4Address)) {a : Ipv4Address} (ha : a ∈ R)
    (hR : R ≠ {a}) : ∀ b ∈ R, (s.node b).successor ≠ b := by
  intro b hb hself
  have hbX : b ≠ X := fun h => hX (h ▸ hb)
  have hnext := (h.takesPart b hb).successor.isNext hX fun heq => hbX (hself.symm.trans heq)
  rw [hself] at hnext
  have hR' := eq_singleton_of_isNext_self
    (hinj.mono (Finset.coe_subset.mpr (Finset.subset_insert X R))) hb hnext
  rw [hR', Finset.mem_singleton] at ha
  exact hR (ha ▸ hR')

theorem Joining.act_request (h : Joining R X s) (hX : X ∉ R)
    (hinj : Set.InjOn nodePos (insert X R : Finset Ipv4Address))
    (hany : .getAny ∉ insert X R) (hF : ∀ a ∈ R, R ≠ {a} → ∀ b, F a b → b ∈ R) {k : ℕ}
    {p : RingPacket} (packet : s.inFlight[k]? = some p) (hp : p.msg.isToken = true)
    (hans : ∀ v, p.msg ≠ .joinChordSuccess v) (hd : p.dst ∈ R) (hR : R ≠ {p.dst}) :
    ((s.node p.dst).owns p.dst (nodePos X) →
      Joining R X ((s.take k).act p.dst (s.node p.dst)
        (ringSends p.dst [.send X (.joinChordSuccess (s.node p.dst).successor)]))) ∧
    (∀ hop, hop = (s.node p.dst).successor ∨ F p.dst hop →
      Joining R X ((s.take k).act p.dst (s.node p.dst)
        (ringSends p.dst [.send hop (.findSuccessor X (sha1 X))]))) := by
  have hXany : X ≠ .getAny := fun h => hany (h ▸ Finset.mem_insert_self X R)
  obtain ⟨hsX, hnext⟩ := h.isNext_of_request hX packet hp hans hd
  have hpos : ∀ {b}, b ∈ R → nodePos X ≠ nodePos b := by
    intro b hb heq
    exact hX (hinj (Finset.mem_coe.mpr (Finset.mem_insert_self X R))
      (Finset.mem_coe.mpr (Finset.mem_insert_of_mem hb)) heq ▸ hb)
  constructor
  · intro howns
    rw [ringSends_send hXany]
    exact h.act_token hX packet hp hans
      (.answer (hnext.insert_from_new howns (hpos hd) (hpos hnext.1)))
      (fun _ _ => h.successor_ne hX hinj hd hR) p.dst
  · intro hop hhop
    have hhopR : hop ∈ R := by
      rcases hhop with rfl | hhop
      · exact hnext.1
      · exact hF p.dst hd hR hop hhop
    have hhopany : hop ≠ .getAny := fun h => hany (h ▸ Finset.mem_insert_of_mem hhopR)
    have hRhop : R ≠ {hop} := by
      intro heq
      rw [heq, Finset.mem_singleton] at hd
      exact hR (hd ▸ heq)
    rw [ringSends_send hhopany]
    exact h.act_token hX packet hp hans (.relayed hhopR hRhop) (fun _ hv => by cases hv) p.dst

/-- A delivery while the newcomer is outside. -/
theorem Joining.deliver (h : Joining R X s) (hX : X ∉ R)
    (hinj : Set.InjOn nodePos (insert X R : Finset Ipv4Address)) (hR : R.Nonempty)
    (hany : .getAny ∉ insert X R) (hF : ∀ a ∈ R, R ≠ {a} → ∀ b, F a b → b ∈ R) {k : ℕ}
    {p : RingPacket} {q : Pointers} {out : List RingAction} (packet : s.inFlight[k]? = some p)
    (hold : IsOldest s.inFlight k)
    (reacts : Reacts (F p.dst) p.dst (s.node p.dst) p.src p.msg q out) :
    Joining R X ((s.take k).act p.dst q (ringSends p.dst out)) ∨
      Joined R X ((s.take k).act p.dst q (ringSends p.dst out)) := by
  have hXany : X ≠ .getAny := fun h => hany (h ▸ Finset.mem_insert_self X R)
  rcases h.traffic p (mem_of_getElem? packet) with htoken | hchatter
  · cases htoken with
    | request dst_mem =>
        rename_i dst
        have hrequest : R ≠ {dst} → _ := h.act_request hX hinj hany hF packet rfl (by simp) dst_mem
        have hseveral : (s.node dst).successor ≠ dst → R ≠ {dst} := by
          intro hne heq
          have hnext := (h.isNext_of_request hX packet rfl (by simp) dst_mem).2
          rw [heq] at hnext
          exact hne (Finset.mem_singleton.mp hnext.1)
        left
        cases reacts with
        | joinRefused outside => rw [(h.takesPart dst dst_mem).member] at outside; cases outside
        | joinSplit member alone =>
            have hsends : ringSends dst [.send X (.joinChordSuccess dst), .send X .notify] =
                [⟨dst, X, .joinChordSuccess dst⟩, ⟨dst, X, .notify⟩] := by
              simp [ringSends, hXany]
            rw [hsends]
            exact h.act_split hX hinj packet dst_mem alone
        | joinAnswer member several owns => exact (hrequest (hseveral several)).1 owns
        | joinForward member several owns known =>
            exact (hrequest (hseveral several)).2 _ known
    | relayed dst_mem several =>
        have hrequest := h.act_request hX hinj hany hF packet rfl (by simp) dst_mem several
        left
        cases reacts with
        | findAnswer owns => exact hrequest.1 owns
        | findForward owns known => exact hrequest.2 _ known
    | answer next =>
        cases reacts with
        | joined => exact Or.inr (h.act_joined hX hinj hR hany packet next)
  · exact Or.inl (h.deliver_chatter hX hinj packet hchatter hold reacts)

end Request

end PennSearch
