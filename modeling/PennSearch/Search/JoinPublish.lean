import Mathlib.Algebra.Group.WithOne.Basic
import PennSearch.Search.Conservation
import PennSearch.Search.Errands
import PennSearch.Search.GracefulLeave
import PennSearch.Search.Publishing

/-!
# PUBLISH during a join

One node joins a stable ring while a member publishes. Who owns a key is decided
when its lookup is answered, the STORE_LIST arrives later, and the keys on the arc
of the newcomer are handed over in between, when its NOTIFY reaches its successor.
`Accommodating` is the invariant of both layers: a key is where its owner was
before the join or is after it, and the first of these only as long as that node
has not taken the newcomer as its predecessor. A STORE_LIST keeps this if it is
`Timely`.
-/

namespace PennSearch

open Clockwise MessagePassing

/-! ## Comparing postings -/

def Posting.Includes (p q : Posting) : Prop := ∃ r, p = q + r

theorem Posting.Includes.refl (p : Posting) : p.Includes p := ⟨0, (add_zero p).symm⟩

theorem Posting.Includes.add {p p' q q' : Posting} (h : p.Includes q) (h' : p'.Includes q') :
    (p + p').Includes (q + q') := by
  obtain ⟨r, rfl⟩ := h
  obtain ⟨r', rfl⟩ := h'
  exact ⟨r + r', add_add_add_comm q r q' r'⟩

theorem Posting.Includes.add_right {p q : Posting} (h : p.Includes q) (x : Posting) :
    (p + x).Includes q := by
  obtain ⟨r, rfl⟩ := h
  exact ⟨r + x, add_assoc q r x⟩

theorem includes_inTransit {key : CxxString} {l : List SearchPacket} {p : SearchPacket}
    (hp : p ∈ l) :
    Posting.Includes (inTransit (PennSearchMessage.carried key) l) (p.msg.carried key) := by
  obtain ⟨k, hk⟩ := List.mem_iff_getElem?.mp hp
  exact ⟨_, inTransit_eraseIdx hk⟩

def Posting.documents : Posting →+ Multiset CxxString := WithZero.lift (AddHom.id _)

theorem PostingMap.documents_posting (m : PostingMap) (key : CxxString) :
    (m.posting key).documents = m.documents key := by
  unfold PostingMap.posting PostingMap.documents
  cases m[key]? with
  | none => exact map_zero _
  | some docVector => rfl

theorem Posting.Includes.documents_le {p q : Posting} (h : p.Includes q) :
    q.documents ≤ p.documents := by
  obtain ⟨r, rfl⟩ := h
  rw [map_add]
  exact Multiset.le_add_right _ _

/-! ## What is shipped when a lookup is answered -/

def SearchNode.shipment (n : SearchNode) : ChordAction → List SearchAction
  | .lookupPublishSuccess key addressResponsible transactionId =>
      match n.invertListMap[key]? with
      | none => []
      | some docVector => [.sendTo addressResponsible ⟨transactionId, .storeList key docVector⟩]
  | _ => []

variable [Sha1] {R : Finset Ipv4Address} {X w : Ipv4Address} {K : CxxString → Prop}

theorem PennNet.callbacks_eq_sends {a : Ipv4Address} {acts : List ChordAction} {s s' : PennNet}
    (hreported : ∀ act ∈ acts, Reported R X w K a act)
    (hjoin : ∀ b tx, .chordJoinNotify b tx ∉ acts) (hleave : ∀ b tx, .chordLeaveNotify b tx ∉ acts)
    (h : s.callbacks a acts = .ok s') :
    s' = s.sends a (acts.flatMap (s.search.node a).shipment) := by
  induction acts generalizing s with
  | nil => exact (Except.ok.inj h).symm.trans (s.sends_nil a).symm
  | cons act acts ih =>
      rw [List.forall_mem_cons] at hreported
      have hjoin' : ∀ b tx, .chordJoinNotify b tx ∉ acts :=
        fun b tx hmem => hjoin b tx (List.mem_cons_of_mem _ hmem)
      have hleave' : ∀ b tx, .chordLeaveNotify b tx ∉ acts :=
        fun b tx hmem => hleave b tx (List.mem_cons_of_mem _ hmem)
      have hcons : s.callback a act >>= (fun s => s.callbacks a acts) = .ok s' := h
      obtain ⟨s₁, hact, hrest⟩ := bind_eq_ok.mp hcons
      have hsent : s₁ = s.sends a ((s.search.node a).shipment act) := by
        cases act with
        | lookupPublishSuccess key responsible tx =>
            simp only [callback, SearchNode.handleChord, SearchNode.sendInvertList] at hact
            cases hlist : (s.search.node a).invertListMap[key]? with
            | none =>
                simp only [hlist, bind, Except.bind, pure, Except.pure, Except.ok.injEq] at hact
                simpa [SearchNode.shipment, hlist, Net.act, sends] using hact.symm
            | some docVector =>
                simp only [hlist, PennSearchMessage.sendTo] at hact
                split at hact
                · simp only [bind, Except.bind, pure, Except.pure, Except.ok.injEq] at hact
                  simpa [SearchNode.shipment, hlist, Net.act, sends] using hact.symm
                · cases hact
        | chordJoinNotify b tx => exact absurd List.mem_cons_self (hjoin b tx)
        | chordLeaveNotify b tx => exact absurd List.mem_cons_self (hleave b tx)
        | searchInitialSuccess key responsible tx => exact hreported.1.elim
        | searchBeginSuccess key responsible tx => exact hreported.1.elim
        | _ =>
            simp only [callback, SearchNode.handleChord] at hact
            simpa [bind, Except.bind, pure, Except.pure, Net.act, sends, searchPackets,
              SearchNode.shipment] using hact.symm
      subst hsent
      rw [ih hreported.2 hjoin' hleave' hrest, sends_append, List.flatMap_cons]
      rfl

omit [Sha1] in
theorem SearchNode.mem_shipment {n : SearchNode} {act : ChordAction} {dst : Ipv4Address}
    {message : PennSearchMessage} (h : .sendTo dst message ∈ n.shipment act) :
    ∃ key tx docVector, act = .lookupPublishSuccess key dst tx ∧
      n.invertListMap[key]? = some docVector ∧ message = ⟨tx, .storeList key docVector⟩ := by
  cases act with
  | lookupPublishSuccess key responsible tx =>
      cases hlist : n.invertListMap[key]? with
      | none => simp [shipment, hlist] at h
      | some docVector =>
          simp only [shipment, hlist, List.mem_singleton, SearchAction.sendTo.injEq] at h
          obtain ⟨rfl, rfl⟩ := h
          exact ⟨key, tx, docVector, rfl, hlist, rfl⟩
  | _ => cases h

/-! ## The invariant of both layers -/

/-- Node `a` may hold `key`: as its owner after the join, or as its owner before
the join that has not taken `X` as its predecessor. -/
def MayHold (R : Finset Ipv4Address) (X : Ipv4Address) (c : ChordNet) (a : Ipv4Address)
    (key : CxxString) : Prop :=
  Owns (insert X R) a key ∨ (Owns R a key ∧ (c.node a).predecessorAddr ≠ X)

/-- What its owner before or after the join does not keep from `src` belongs to `src`. -/
theorem owns_of_not_inArc {a src : Ipv4Address} {key : CxxString} (hsrc : src ∈ insert X R)
    (h : OwnsOnce R X a key) (hout : ¬ InArc (nodePos src) (nodePos a) (keyPos key)) :
    Owns (insert X R) src key := by
  rcases h with howns | howns
  · rcases Finset.mem_insert.mp hsrc with rfl | hR
    · exact howns.insert_cases.resolve_left fun howns => hout (howns.inArc hsrc)
    · exact absurd (howns.inArc hR) hout
  · exact absurd (howns.inArc hsrc) hout

/-- Posting lists whose keys are apart from the nodes, and that fit a datagram. -/
def Publishable (R : Finset Ipv4Address) (X : Ipv4Address) (m : PostingMap) : Prop :=
  ∀ key docVector, m[key]? = some docVector →
    Apart R X key ∧ ∀ tx, PennSearchMessage.fits ⟨tx, .storeList key docVector⟩ = true

theorem Publishable.apart {m : PostingMap} (hm : Publishable R X m) :
    ∀ key ∈ m, Apart R X key := by
  intro key hkey
  obtain ⟨docVector, hlist⟩ :=
    Option.isSome_iff_exists.mp (Std.TreeMap.mem_iff_isSome_getElem?.mp hkey)
  exact (hm key docVector hlist).1

def SearchPayload.storedKey : SearchPayload → Option CxxString
  | .storeList key _ => some key
  | _ => none

namespace PennNet

/-- Both layers while `X` arrives and `w` publishes the postings `m`; `T` is what
there was before. The lookups of the keys `todo` have not been called yet. -/
structure Accommodating (R : Finset Ipv4Address) (X w : Ipv4Address) (T : CxxString → Posting)
    (m : PostingMap) (issued : Bool) (todo : List CxxString) (s : PennNet) : Prop where
  arriving : Arriving R X w (· ∈ m) issued s.chord
  localAddress : ∀ a, (s.search.node a).localAddress = a
  inverted : ∀ key ∈ m, (s.search.node w).invertListMap[key]? = m[key]?
  held : ∀ a key, key ∈ (s.search.node a).dataMap → Apart R X key → MayHold R X s.chord a key
  addressed : ∀ p ∈ s.search.inFlight, ∃ e, p.msg.payload.posted = some e ∧ p.dst ∈ insert X R ∧
    (Apart R X e.1 → OwnsOnce R X p.dst e.1)
  passed : ∀ p ∈ s.search.inFlight, ∀ key docVector, p.msg.payload = .passKeys key docVector →
    Apart R X key → Owns (insert X R) p.dst key
  kept : ∀ key, (s.search.total (insert X R) key).Includes (T key)
  shipped : ∀ key ∈ m, (s.search.total (insert X R) key).Includes (T key + m.posting key) ∨
    key ∈ todo ∨ s.chord.Looking key

omit [Sha1] in
theorem total_sends (s : PennNet) (a : Ipv4Address) (acts : List SearchAction)
    (N : Finset Ipv4Address) (key : CxxString) :
    (s.sends a acts).search.total N key = s.search.total N key +
      inTransit (PennSearchMessage.carried key) (searchPackets a acts) := by
  simp only [SearchNet.total, Net.total, sends, inTransit_append, add_assoc]

namespace Accommodating

variable {T : CxxString → Posting} {m : PostingMap} {issued issued' : Bool}
  {todo : List CxxString} {s s' : PennNet} {c : ChordNet} {a : Ipv4Address}
  {acts : List ChordAction}

theorem mem_of_ownsOnce {key : CxxString} (h : OwnsOnce R X a key) : a ∈ insert X R := by
  rcases h with h | h
  · exact Finset.mem_insert_of_mem h.1
  · exact h.1

theorem of_mem_shipments (h : Accommodating R X w T m issued todo s)
    (hreported : ∀ act ∈ acts, Reported R X w (· ∈ m) a act) {p : SearchPacket}
    (hp : p ∈ searchPackets a (acts.flatMap (s.search.node a).shipment)) :
    ∃ key tx docVector, p.msg = ⟨tx, .storeList key docVector⟩ ∧ m[key]? = some docVector ∧
      OwnsOnce R X p.dst key := by
  obtain ⟨-, -, -, hact⟩ := mem_searchPackets.mp hp
  obtain ⟨act, hmem, hact⟩ := List.mem_flatMap.mp hact
  obtain ⟨key, tx, docVector, rfl, hlist, hmsg⟩ := SearchNode.mem_shipment hact
  obtain ⟨rfl, hkey, howns⟩ := hreported _ hmem
  exact ⟨key, tx, docVector, hmsg, (h.inverted key hkey).symm.trans hlist, howns⟩

/-- A turn of the Chord layer without a hand-over. -/
theorem sends (h : Accommodating R X w T m issued todo s) (hsite : JoinSite R X)
    (hm : Publishable R X m) (harriving : Arriving R X w (· ∈ m) issued' c)
    (hreported : ∀ act ∈ acts, Reported R X w (· ∈ m) a act)
    (hpred : ∀ b ∈ R, (c.node b).predecessorAddr = X → (s.chord.node b).predecessorAddr = X)
    (hlooking : ∀ key, s.chord.Looking key →
      c.Looking key ∨ ∃ b tx, .lookupPublishSuccess key b tx ∈ acts) :
    Accommodating R X w T m issued' todo
      ({ s with chord := c }.sends a (acts.flatMap (s.search.node a).shipment)) := by
  refine ⟨harriving, h.localAddress, h.inverted, fun b key hkey => ?_, fun p hp => ?_,
    fun p hp key docVector hpay => ?_, fun key => ?_, fun key hkey => ?_⟩
  · intro hapart
    exact (h.held b key hkey hapart).imp_right fun hold =>
      ⟨hold.1, fun heq => hold.2 (hpred b hold.1.1 heq)⟩
  · rcases List.mem_append.mp hp with hp | hp
    · exact h.addressed p hp
    · obtain ⟨key, tx, docVector, hmsg, hlist, howns⟩ := h.of_mem_shipments hreported hp
      exact ⟨(key, docVector), by rw [hmsg]; rfl, mem_of_ownsOnce howns, fun _ => howns⟩
  · rcases List.mem_append.mp hp with hp | hp
    · exact h.passed p hp key docVector hpay
    · obtain ⟨key', tx, docVector', hmsg, -, -⟩ := h.of_mem_shipments hreported hp
      rw [hmsg] at hpay
      cases hpay
  · rw [total_sends]
    exact (h.kept key).add_right _
  · rw [total_sends]
    rcases h.shipped key hkey with hshipped | htodo | hlook
    · exact Or.inl (hshipped.add_right _)
    · exact Or.inr (Or.inl htodo)
    · rcases hlooking key hlook with hlook | ⟨b, tx, hact⟩
      · exact Or.inr (Or.inr hlook)
      · -- the list of the key is shipped now
        left
        obtain ⟨rfl, -, howns⟩ := hreported _ hact
        obtain ⟨docVector, hlist⟩ :=
          Option.isSome_iff_exists.mp (Std.TreeMap.mem_iff_isSome_getElem?.mp hkey)
        have hpacket : (⟨a, b, ⟨tx, .storeList key docVector⟩⟩ : SearchPacket) ∈
            searchPackets a (acts.flatMap (s.search.node a).shipment) := by
          refine mem_searchPackets.mpr ⟨rfl, hsite.ne_getAny (mem_of_ownsOnce howns),
            (hm key docVector hlist).2 tx, List.mem_flatMap.mpr ⟨_, hact, ?_⟩⟩
          simp [SearchNode.shipment, (h.inverted key hkey).trans hlist]
        have hcarried : PennSearchMessage.carried key ⟨tx, .storeList key docVector⟩ =
            m.posting key := by
          rw [PostingMap.posting_of_getElem? hlist]
          exact if_pos rfl
        exact hcarried ▸ (h.kept key).add (includes_inTransit hpacket)

/-- The hand-over at a node that takes `src` as its predecessor. -/
theorem handOver {src : Ipv4Address} {net : SearchNet} (h : Accommodating R X w T m issued todo s)
    (hsite : JoinSite R X) (harriving : Arriving R X w (· ∈ m) issued' c)
    (hsrc : src ∈ insert X R) (ha : a ∈ insert X R) (hnext : NextOnce R X src a)
    (hpred : (c.node a).predecessorAddr = src)
    (hother : ∀ b, b ≠ a → (c.node b).predecessorAddr = (s.chord.node b).predecessorAddr)
    (hlooking : ∀ key, s.chord.Looking key → c.Looking key)
    (hfits : ∀ tx key docVector, (s.search.node a).dataMap[key]? = some docVector →
      (s.search.node a).keepsKey src key = false →
        PennSearchMessage.fits ⟨tx, .passKeys key docVector⟩ = true)
    (hpass : s.search.handOver a (.joinNotify src) = .ok net) :
    Accommodating R X w T m issued' todo { s with chord := c, search := net } := by
  obtain ⟨⟨n, acts⟩, hresult, hnet⟩ := bind_eq_ok.mp hpass
  obtain rfl := Except.ok.inj hnet
  have ho := SearchNode.passKeysJoin_handsOver hresult
  have hkeeps : ∀ key, (s.search.node a).keepsKey src key = true ↔
      InArc (nodePos src) (nodePos a) (keyPos key) := fun key => by
    rw [SearchNode.keepsKey_iff, h.localAddress]
  -- what goes to `src` is what it owns
  have hgoes : ∀ key, key ∈ (s.search.node a).dataMap → Apart R X key →
      (s.search.node a).keepsKey src key = false → Owns (insert X R) src key := by
    intro key hkey hapart hgo
    refine owns_of_not_inArc (a := a) hsrc ?_ fun harc => ?_
    · exact (h.held a key hkey hapart).elim Or.inr fun hold => Or.inl hold.1
    · rw [(hkeeps key).mpr harc] at hgo
      cases hgo
  have hsent : ∀ p ∈ searchPackets a acts, ∃ tx key docVector,
      p.dst = src ∧ p.msg = ⟨tx, .passKeys key docVector⟩ ∧ key ∈ (s.search.node a).dataMap ∧
        (s.search.node a).keepsKey src key = false := by
    intro p hp
    obtain ⟨-, -, -, hact⟩ := mem_searchPackets.mp hp
    obtain ⟨tx, key, docVector, heq, hget, hgo⟩ := ho.sends _ hact
    obtain ⟨hdst, hmsg⟩ := SearchAction.sendTo.inj heq
    exact ⟨tx, key, docVector, hdst, hmsg, by simp [Std.TreeMap.mem_iff_isSome_getElem?, hget], hgo⟩
  have htotal : ∀ key, SearchNet.total (insert X R) key
      (s.search.act a n (searchPackets a acts)) = s.search.total (insert X R) key :=
    SearchNet.total_handsOver ho ha (hsite.ne_getAny hsrc) hfits
  have hsame : n.localAddress = (s.search.node a).localAddress ∧
      n.invertListMap = (s.search.node a).invertListMap := by
    rw [ho.same]
    exact ⟨rfl, rfl⟩
  refine ⟨harriving, fun b => ?_, fun key hkey => ?_, fun b key hkey => ?_, fun p hp => ?_,
    fun p hp key docVector hpay => ?_, fun key => ?_, fun key hkey => ?_⟩
  · exact (Net.act_node_congr (f := SearchNode.localAddress) hsame.1 _ b).trans (h.localAddress b)
  · rw [← h.inverted key hkey]
    exact congrArg (·[key]?) (Net.act_node_congr (f := SearchNode.invertListMap) hsame.2 _ w)
  · rw [Net.act_node] at hkey
    split at hkey
    · -- a key that stays
      rename_i hb
      subst hb
      rw [Std.TreeMap.mem_iff_isSome_getElem?, ho.dataMap key] at hkey
      split at hkey
      · cases hkey
      · rename_i hstay
        rw [Bool.not_eq_false] at hstay
        intro hapart
        rcases h.held b key (Std.TreeMap.mem_iff_isSome_getElem?.mpr hkey) hapart with
          howns | ⟨howns, -⟩
        · exact Or.inl howns
        · by_cases hsrcX : src = X
          · subst hsrcX
            left
            exact hnext.of_newcomer.isOwner ((hkeeps key).mp hstay)
              fun heq => absurd heq (hapart _ hsrc)
          · exact Or.inr ⟨howns, hpred ▸ hsrcX⟩
    · rename_i hb
      intro hapart
      exact (h.held b key hkey hapart).imp_right fun hold => ⟨hold.1, hother b hb ▸ hold.2⟩
  · rcases List.mem_append.mp hp with hp | hp
    · exact h.addressed p hp
    · obtain ⟨tx, key, docVector, hdst, hmsg, hkey, hgo⟩ := hsent p hp
      refine ⟨(key, docVector), by rw [hmsg]; rfl, hdst ▸ hsrc, fun hapart => ?_⟩
      exact Or.inr (hdst ▸ hgoes key hkey hapart hgo)
  · rcases List.mem_append.mp hp with hp | hp
    · exact h.passed p hp key docVector hpay
    · obtain ⟨tx, key', docVector', hdst, hmsg, hkey, hgo⟩ := hsent p hp
      rw [hmsg] at hpay
      cases hpay
      exact fun hapart => hdst ▸ hgoes key hkey hapart hgo
  · rw [htotal]
    exact h.kept key
  · rw [htotal]
    exact (h.shipped key hkey).imp_right (Or.imp_right (hlooking key))

end Accommodating

/-! ## Events of the Chord layer -/

/-- The entries that a node passes, as it follows a notification or leaves, fit a
datagram. -/
def PassesFit (s : PennNet) : ChordEvent → Prop
  | .deliver k => ∀ p ∈ s.chord.inFlight[k]?, p.msg.payload = .notify →
      (s.chord.node p.dst).predecessorAddr ≠ .getAny →
      InArc (nodePos (s.chord.node p.dst).predecessorAddr) (nodePos p.dst) (nodePos p.src) →
      ∀ e ∈ (s.search.node p.dst).dataMap.toList,
        (s.search.node p.dst).keepsKey p.src e.1 = false →
          PennSearchMessage.fits ⟨0, .passKeys e.1 e.2⟩ = true
  | .leave x => ∀ e ∈ (s.search.node x).dataMap.toList,
      PennSearchMessage.fits ⟨0, .passKeys e.1 e.2⟩ = true
  | _ => True

instance (s : PennNet) (e : ChordEvent) : Decidable (s.PassesFit e) :=
  match e with
  | .deliver _ => inferInstanceAs (Decidable (∀ p ∈ _, _))
  | .leave _ => inferInstanceAs (Decidable (∀ e ∈ _, _))
  | .join .. | .ringstate _ | .stabilize _ | .fixFinger _ | .lookupPublish .. => .isTrue trivial

omit [Sha1] in
theorem predecessorAddr_of_view {c c' : ChordNet} {e : RingEvent} {a : Ipv4Address} {q : Pointers}
    {sent : List RingPacket} (hview : c'.view = (c.view.before e).act a q sent) (b : Ipv4Address) :
    (c'.node b).predecessorAddr = if b = a then q.predecessor else (c.node b).predecessorAddr := by
  have hnode : (c'.view.node b).predecessor =
      (((c.view.before e).act a q sent).node b).predecessor := by rw [hview]
  rw [Net.act_node] at hnode
  refine hnode.trans ?_
  split
  · rfl
  · cases e <;> rfl

namespace Accommodating

variable {T : CxxString → Posting} {m : PostingMap} {issued issued' : Bool}
  {todo : List CxxString} {s s' : PennNet} {e : ChordEvent}

/-- An event without a hand-over. -/
theorem quietStep {c : ChordNet} {acts : List ChordAction} {q : Pointers}
    (h : Accommodating R X w T m issued todo s) (hsite : JoinSite R X)
    (hm : Publishable R X m) (hw : w ∈ insert X R) (harriving : Arriving R X w (· ∈ m) issued' c)
    (hreported : ∀ act ∈ acts, Reported R X w (· ∈ m) (s.chord.actor e) act)
    (hjoin : ∀ b, .joinNotify b ∉ acts.filterMap ringAction)
    (hleave : ∀ b, .leaveNotify b ∉ acts.filterMap ringAction)
    (hstay : s.chord.actor e ∈ R → q.predecessor = X →
      (s.chord.node (s.chord.actor e)).predecessorAddr = X)
    (hview : c.view = (s.chord.view.before (s.chord.ringEvent e)).act (s.chord.actor e) q
      (ringSends (s.chord.actor e) (acts.filterMap ringAction)))
    (hact : s.chord.stepActions e = .ok (c, acts))
    (hcall : PennNet.callbacks { s with chord := c } (s.chord.actor e) acts = .ok s') :
    Accommodating R X w T m issued' todo s' ∧ s'.chord = c := by
  have hsent := callbacks_eq_sends hreported
    (fun b tx hmem => hjoin b (List.mem_filterMap.mpr ⟨_, hmem, rfl⟩))
    (fun b tx hmem => hleave b (List.mem_filterMap.mpr ⟨_, hmem, rfl⟩)) hcall
  subst hsent
  refine ⟨h.sends hsite hm harriving hreported (fun b hb hpred => ?_)
    fun key => h.arriving.looking hsite hw hact, rfl⟩
  rw [predecessorAddr_of_view hview b] at hpred
  split at hpred
  · rename_i hba
    rw [hba] at hb ⊢
    exact hstay hb hpred
  · exact hpred

theorem chordStep (h : Accommodating R X w T m issued todo s) (hsite : JoinSite R X)
    (hm : Publishable R X m) (hw : w ∈ insert X R) (he : s.chord.Ordinary e)
    (hcalls : Calls R X w (· ∈ m) s.chord e) (hfits : s.PassesFit e)
    (hstep : s.chordStep e = .ok s') :
    Accommodating R X w T m issued todo s' ∧
      present R X s.chord.view ⊆ present R X s'.chord.view := by
  obtain ⟨⟨c, acts⟩, hact, hcall⟩ := bind_eq_ok.mp hstep
  dsimp only at hcall
  obtain ⟨⟨harriving, hreported⟩, hpresent⟩ := h.arriving.step hsite hm.apart he hcalls hact
  obtain ⟨⟨q, hturn, hview⟩, -⟩ :=
    ChordNet.stepActions_view h.arriving.localAddress (h.arriving.hopsIn e) hact
  rcases h.arriving.phase.turn_cases hsite he.view hturn with
    ⟨k, src, hevent, hpacket, hout, hpred, hnext, hsrc, ha, hsome, harc⟩ |
      ⟨hjoin, hleave, hstay⟩
  · -- a notification that is followed
    obtain ⟨j, p, rfl, hp, hring⟩ := ChordNet.ringEvent_deliver hevent hpacket
    obtain ⟨hpay, hpsrc, hdst⟩ : p.msg.payload = .notify ∧ p.src = src ∧
        p.dst = s.chord.actor (.deliver j) := by
      obtain ⟨psrc, pdst, tx, payload⟩ := p
      cases payload <;> simp_all [ringPacket, ringMessage]
    have hplain : ∀ act ∈ acts, act.isLookup = false := by
      intro act hmem
      have hkind := ChordNet.stepActions_kind hact act hmem
      rw [ChordAction.isLookup_eq_false_iff]
      intro hlookup
      rw [hlookup, ChordNet.eventKind, hp, Option.map_some, hpay] at hkind
      cases hkind
    rw [callbacks_eq _ _ hplain, hout] at hcall
    cases hpass : s.search.handOver (s.chord.actor (.deliver j)) (.joinNotify src) with
    | error f =>
        simp [hpass, bind, Except.bind] at hcall
    | ok net =>
        obtain rfl : { s with chord := c, search := net } = s' := by
          simpa [hpass, bind, Except.bind, pure, Except.pure] using hcall
        refine ⟨h.handOver hsite harriving hsrc ha hnext ?_ (fun b hb => ?_) (fun key hlook => ?_)
          (fun tx key docVector hget hgo => ?_) hpass, hpresent⟩
        · rw [predecessorAddr_of_view hview, if_pos rfl, hpred]
        · rw [predecessorAddr_of_view hview, if_neg hb]
        · refine (h.arriving.looking hsite hw hact hlook).resolve_right ?_
          rintro ⟨b, tx, hmem⟩
          cases hplain _ hmem
        · refine hfits p hp hpay (hdst ▸ hsome) (hdst ▸ hpsrc ▸ harc) (key, docVector)
            (Std.TreeMap.mem_toList_iff_getElem?_eq_some.mpr (hdst ▸ hget)) ?_
          rw [hpsrc, hdst]
          exact hgo
  · obtain ⟨haccom, rfl⟩ :=
      h.quietStep hsite hm hw harriving hreported hjoin hleave hstay hview hact hcall
    exact ⟨haccom, hpresent⟩

theorem join {L : Ipv4Address} (h : Accommodating R X w T m false todo s) (hsite : JoinSite R X)
    (hm : Publishable R X m) (hw : w ∈ insert X R) (hL : L ∈ R)
    (hstep : s.chordStep (.join X L) = .ok s') :
    Accommodating R X w T m true todo s' ∧
      present R X s.chord.view ⊆ present R X s'.chord.view := by
  obtain ⟨⟨c, acts⟩, hact, hcall⟩ := bind_eq_ok.mp hstep
  dsimp only at hcall
  obtain ⟨harriving, hreported⟩ := h.arriving.join hsite hm.apart hL hact
  obtain ⟨⟨q, hturn, hview⟩, -⟩ :=
    ChordNet.stepActions_view h.arriving.localAddress (h.arriving.hopsIn (.join X L)) hact
  have hXL : X ≠ L := fun heq => hsite.newcomer (heq ▸ hL)
  have hquiet : (∀ b, .joinNotify b ∉ acts.filterMap ringAction) ∧
      ∀ b, .leaveNotify b ∉ acts.filterMap ringAction := by
    simp only [ChordNet.ringEvent, ChordNet.actor] at hturn
    generalize acts.filterMap ringAction = out at hturn
    cases hturn with
    | joinIgnored ignored => exact ⟨by simp, by simp⟩
    | joinLandmark outside => exact absurd rfl hXL
    | joinRequest outside ne some => exact ⟨by simp, by simp⟩
  have hpresent : present R X s.chord.view ⊆ present R X c.view :=
    (h.arriving.phase.join hsite.newcomer hL ⟨_, q, _, hturn, hview⟩).2
  obtain ⟨haccom, rfl⟩ := h.quietStep (e := .join X L) hsite hm hw harriving hreported
    hquiet.1 hquiet.2 (fun hX => absurd hX hsite.newcomer) hview hact hcall
  exact ⟨haccom, hpresent⟩

end Accommodating

/-! ## Deliveries in the search layer -/

/-- A STORE_LIST reaches a node that has not taken `X` as its predecessor, or that
keeps the key when it does. -/
def Timely (X : Ipv4Address) (s : PennNet) (k : ℕ) : Prop :=
  ∀ p ∈ s.search.inFlight[k]?, ∀ key ∈ p.msg.payload.storedKey,
    (s.chord.node p.dst).predecessorAddr = X → (s.search.node p.dst).keepsKey X key = true

namespace Accommodating

variable {T : CxxString → Posting} {m : PostingMap} {issued : Bool} {todo : List CxxString}
  {s s' : PennNet} {k : ℕ}

theorem mayHold (h : Accommodating R X w T m issued todo s) (hsite : JoinSite R X)
    (htimely : s.Timely X k) {p : SearchPacket} (hp : s.search.inFlight[k]? = some p)
    {e : CxxString × List CxxString} (hposted : p.msg.payload.posted = some e)
    (hapart : Apart R X e.1) (howns : OwnsOnce R X p.dst e.1) :
    MayHold R X s.chord p.dst e.1 := by
  have hkept := htimely p hp
  obtain ⟨src, dst, tx, payload⟩ := p
  cases payload with
  | storeList key docVector =>
      cases hposted
      rcases howns with howns | howns
      · by_cases hpred : (s.chord.node dst).predecessorAddr = X
        · -- `X` is the predecessor already, and the key stays
          left
          have harc : InArc (nodePos X) (nodePos dst) (keyPos key) := by
            rw [← h.localAddress dst]
            exact (SearchNode.keepsKey_iff _ X key).mp (hkept key rfl hpred)
          have hX : X ∈ insert X R := Finset.mem_insert_self X R
          have hnext := (h.arriving.phase.takesPart (subset_present _ howns.1)).next_of_predecessor
            hsite hpred
          exact hnext.isOwner harc fun heq => absurd heq (hapart X hX)
        · exact Or.inr ⟨howns, hpred⟩
      · exact Or.inl howns
  | passKeys key docVector =>
      cases hposted
      exact Or.inl (h.passed _ (mem_of_getElem? hp) key docVector rfl hapart)
  | _ => cases hposted

/-- A delivery in the search layer. -/
theorem deliver (h : Accommodating R X w T m issued todo s) (hsite : JoinSite R X)
    (htimely : s.Timely X k) (hstep : s.step viaChord (.deliver k) = .ok s') :
    Accommodating R X w T m issued todo s' ∧ s'.chord = s.chord := by
  simp only [step] at hstep
  cases hp : s.search.inFlight[k]? with
  | none =>
      rw [hp] at hstep
      obtain rfl := Except.ok.inj hstep
      exact ⟨h, rfl⟩
  | some p =>
      rw [hp] at hstep
      obtain ⟨⟨n, acts⟩, hrecv, hstep⟩ := bind_eq_ok.mp hstep
      obtain ⟨e, hposted, hN, howns⟩ := h.addressed p (mem_of_getElem? hp)
      have hmay := fun hapart => h.mayHold hsite htimely hp hposted hapart (howns hapart)
      have hplaced : s.search.Placed (fun _ _ => True) (fun _ _ => True) :=
        ⟨fun _ _ _ => trivial, fun p hp => (h.addressed p hp).imp fun _ he => ⟨he.1, trivial⟩⟩
      obtain ⟨-, -, htotal⟩ := hplaced.deliver (N := insert X R) (fun _ _ _ => trivial) hp hrecv
      obtain ⟨rfl, rfl⟩ := SearchNode.recvMessage_posted hposted hrecv
      let n : SearchNode :=
        { s.search.node p.dst with dataMap := (s.search.node p.dst).dataMap.store e.1 e.2 }
      obtain rfl : { s with search := (s.search.take k).act p.dst n [] } = s' :=
        Except.ok.inj hstep
      refine ⟨⟨h.arriving, fun b => ?_, fun key hkey => ?_, fun b key hkey => ?_, fun q hq => ?_,
        fun q hq => ?_, fun key => ?_, fun key hkey => ?_⟩, rfl⟩
      · exact (Net.act_node_congr (c := s.search.take k) (f := SearchNode.localAddress)
          (s := n) rfl [] b).trans (h.localAddress b)
      · rw [← h.inverted key hkey]
        exact congrArg (·[key]?) (Net.act_node_congr (c := s.search.take k)
          (f := SearchNode.invertListMap) (s := n) rfl [] w)
      · rw [Net.act_node] at hkey
        split at hkey
        · rename_i hb
          subst hb
          rcases PostingMap.mem_store hkey with hkey | rfl
          · exact h.held _ key hkey
          · exact hmay
        · exact h.held b key hkey
      · exact h.addressed q (List.mem_of_mem_eraseIdx (by simpa using hq))
      · exact h.passed q (List.mem_of_mem_eraseIdx (by simpa using hq))
      · exact (htotal key hN).symm ▸ h.kept key
      · exact (htotal key hN).symm ▸ h.shipped key hkey

end Accommodating

/-! ## The PUBLISH -/

def PublishFits (R : Finset Ipv4Address) (X : Ipv4Address) (lines : Option (List CxxString)) :
    Prop :=
  ∀ m ∈ ((lines.getD []).foldlM PostingMap.invertLine ∅).toOption, ∀ e ∈ m.toList,
    Apart R X e.1 ∧ PennSearchMessage.fits ⟨0, .storeList e.1 e.2⟩ = true

namespace Accommodating

variable {T : CxxString → Posting} {m : PostingMap} {issued : Bool} {todo : List CxxString}
  {s s' : PennNet}

/-- A call of `LookupPublish` for a key that is left. -/
theorem call {key : CxxString} {tx : UInt32} (h : Accommodating R X w T m issued (key :: todo) s)
    (hsite : JoinSite R X) (hm : Publishable R X m) (hw : w ∈ present R X s.chord.view)
    (hkey : key ∈ m) (hstep : s.chordStep (.lookupPublish w key 0 tx) = .ok s') :
    Accommodating R X w T m issued todo s' ∧ w ∈ present R X s'.chord.view := by
  obtain ⟨acts, hact⟩ := chordStep_chord hstep
  have hlook := h.arriving.looking_of_call hsite hw hact
  obtain ⟨haccom, hpresent⟩ := h.chordStep hsite hm (present_subset _ hw)
    (e := .lookupPublish w key 0 tx) trivial ⟨rfl, rfl, hkey, hw⟩ trivial hstep
  refine ⟨{ haccom with shipped := fun k hk => ?_ }, hpresent hw⟩
  rcases haccom.shipped k hk with hshipped | htodo | hlooking
  · exact Or.inl hshipped
  · rcases List.mem_cons.mp htodo with rfl | htodo
    · exact Or.inr (Or.inr hlook)
    · exact Or.inr (Or.inl htodo)
  · exact Or.inr (Or.inr hlooking)

/-- PUBLISH at a node that is on the ring, when nothing has been published yet. -/
theorem publish {filename : CxxString} {lines : Option (List CxxString)}
    (h : Accommodating R X w T ∅ issued [] s) (hsite : JoinSite R X)
    (hw : w ∈ present R X s.chord.view) (hfits : PublishFits R X lines)
    (hstep : s.step viaChord (.publish w filename lines) = .ok s') :
    ∃ m, (lines.getD []).foldlM PostingMap.invertLine ∅ = .ok m ∧ Publishable R X m ∧
      Accommodating R X w T m issued [] s' := by
  obtain ⟨-, m, n, calls, hfold, hn, hkeys, hcalls, hrest⟩ := publish_cases hstep
  have hm : Publishable R X m := by
    intro key docVector hlist
    have hmem : (key, docVector) ∈ m.toList := Std.TreeMap.mem_toList_iff_getElem?_eq_some.mpr hlist
    obtain ⟨hapart, hsize⟩ := hfits m (by rw [hfold]; rfl) _ hmem
    exact ⟨hapart, fun tx => hsize⟩
  refine ⟨m, hfold, hm, ?_⟩
  have hnone : ∀ key, key ∉ (∅ : PostingMap) := fun key => Std.TreeMap.not_mem_emptyc
  have hsame : n.localAddress = (s.search.node w).localAddress ∧
      n.dataMap = (s.search.node w).dataMap := by
    rw [hn]
    exact ⟨rfl, rfl⟩
  have hsearch : ∀ b, ((s.search.act w n []).node b).dataMap = (s.search.node b).dataMap :=
    Net.act_node_congr (f := SearchNode.dataMap) hsame.2 []
  have htotal : ∀ key, SearchNet.total (insert X R) key (s.search.act w n []) =
      s.search.total (insert X R) key := by
    intro key
    simp only [SearchNet.total, Net.total, Net.act_inFlight, List.append_nil, SearchNode.held,
      hsearch]
  have hstart : Accommodating R X w T m issued (calls.map LookupCall.lookupKey)
      { s with search := s.search.act w n [] } := by
    refine ⟨h.arriving.mono fun key hkey => absurd hkey (hnone key), fun b => ?_,
      fun key hkey => ?_, fun b key hkey => ?_, fun p hp => ?_, fun p hp => ?_, fun key => ?_,
      fun key hkey => ?_⟩
    · exact (Net.act_node_congr (f := SearchNode.localAddress) hsame.1 [] b).trans
        (h.localAddress b)
    · rw [Net.act_node_self, hn]
    · exact h.held b key (hsearch b ▸ hkey)
    · exact h.addressed p (by simpa using hp)
    · exact h.passed p (by simpa using hp)
    · exact (htotal key).symm ▸ h.kept key
    · exact Or.inr (Or.inl (hkeys ▸ Std.TreeMap.mem_keys.mpr hkey))
  have hdone := foldlM_induction (P := fun done t => ∀ rest, calls = done ++ rest →
    Accommodating R X w T m issued (rest.map LookupCall.lookupKey) t ∧
      w ∈ present R X t.chord.view) hrest ?_ ?_
  · exact (hdone [] (List.append_nil _).symm).1
  · rintro rest rfl
    exact ⟨hstart, hw⟩
  · rintro done c rest t t' hsplit hround hcall rest' hsplit'
    obtain rfl : rest = rest' := by
      rw [hsplit, List.append_assoc] at hsplit'
      exact List.cons.inj (List.append_cancel_left hsplit') |>.2
    have hc : c ∈ calls := by
      rw [hsplit]
      simp
    obtain ⟨haccom, hpresent⟩ := hround (c :: rest) hsplit
    obtain ⟨b, key, flag, tx⟩ := c
    obtain ⟨rfl, rfl⟩ := hcalls _ hc
    refine haccom.call hsite hm hpresent ?_ hcall
    exact Std.TreeMap.mem_keys.mp (hkeys ▸ List.mem_map_of_mem (f := LookupCall.lookupKey) hc)

end Accommodating

end PennNet

end PennSearch
