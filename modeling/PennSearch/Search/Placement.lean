import PennSearch.Search.Callbacks

/-!
# Postings in their place

`Placed owns holds c` says that a node holds only keys that it may hold, and
that every message in flight is a posting on its way to a node that owns its key.
Deliveries and hand-overs keep this, and keep what there is of every key.
-/

namespace PennSearch

open Clockwise MessagePassing

def SearchNet.total (N : Finset Ipv4Address) (key : CxxString) (c : SearchNet) : Posting :=
  Net.total (SearchNode.held key) (PennSearchMessage.carried key) N c

/-- Every key is held where `holds` allows it, and every message in flight is a
posting for a node that `owns` its key. -/
structure SearchNet.Placed (owns holds : Ipv4Address → CxxString → Prop) (c : SearchNet) :
    Prop where
  held : ∀ a key, key ∈ (c.node a).dataMap → holds a key
  addressed : ∀ p ∈ c.inFlight, ∃ e, p.msg.payload.posted = some e ∧ owns p.dst e.1

theorem SearchNode.recvMessage_posted {n n' : SearchNode} {message : PennSearchMessage}
    {src : Ipv4Address} {acts : List SearchAction} {e : CxxString × List CxxString}
    (hposted : message.payload.posted = some e)
    (h : n.recvMessage message src = .ok (n', acts)) :
    n' = { n with dataMap := n.dataMap.store e.1 e.2 } ∧ acts = [] := by
  obtain ⟨tx, payload⟩ := message
  cases payload with
  | storeList key docVector =>
      cases hposted
      simp only [recvMessage, processStoreList] at h
      split at h
      · cases h
      · cases h
        exact ⟨rfl, rfl⟩
  | passKeys key docVector =>
      cases hposted
      cases h
      exact ⟨rfl, rfl⟩
  | _ => cases hposted

theorem PostingMap.mem_store {m : PostingMap} {key k : CxxString} {recVect : List CxxString}
    (h : k ∈ m.store key recVect) : k ∈ m ∨ k = key := by
  unfold store at h
  cases hget : m[key]? with
  | none =>
      rw [hget, Std.TreeMap.mem_insert] at h
      rcases h with h | h
      · exact Or.inr (Std.LawfulEqCmp.eq_of_compare h).symm
      · exact Or.inl h
  | some docs =>
      rw [hget, Std.TreeMap.mem_insert] at h
      rcases h with h | h
      · exact Or.inr (Std.LawfulEqCmp.eq_of_compare h).symm
      · exact Or.inl h

namespace SearchNet

variable {owns holds holds' : Ipv4Address → CxxString → Prop} {c : SearchNet}
  {a dst : Ipv4Address} {n : SearchNode} {acts : List SearchAction} {N : Finset Ipv4Address}

theorem Placed.deliver (h : c.Placed owns holds) (hown : ∀ b key, owns b key → holds b key) {k : ℕ}
    {p : SearchPacket} (hp : c.inFlight[k]? = some p)
    (hrecv : (c.node p.dst).recvMessage p.msg p.src = .ok (n, acts)) :
    Placed owns holds ((c.take k).act p.dst n []) ∧ acts = [] ∧
      ∀ key, p.dst ∈ N → SearchNet.total N key ((c.take k).act p.dst n []) = c.total N key := by
  obtain ⟨e, hposted, howns⟩ := h.addressed p (mem_of_getElem? hp)
  obtain ⟨rfl, rfl⟩ := SearchNode.recvMessage_posted hposted hrecv
  refine ⟨⟨fun b key hkey => ?_, fun p' hp' => ?_⟩, rfl, fun key hN => ?_⟩
  · rw [Net.act_node] at hkey
    split at hkey
    · rename_i hb
      subst hb
      rcases PostingMap.mem_store hkey with hkey | rfl
      · exact h.held _ key hkey
      · exact hown _ _ howns
    · exact h.held b key hkey
  · rw [Net.act_inFlight, List.append_nil] at hp'
    exact h.addressed p' (List.mem_of_mem_eraseIdx hp')
  · have hheld : SearchNode.held key
        { c.node p.dst with dataMap := (c.node p.dst).dataMap.store e.1 e.2 } +
          inTransit (PennSearchMessage.carried key) ([] : List SearchPacket) =
        SearchNode.held key ((c.take k).node p.dst) + p.msg.carried key := by
      rw [inTransit_nil, add_zero, PennSearchMessage.carried_of_posted hposted]
      exact PostingMap.posting_store _ _ _ _
    rw [total, Net.total_act hN hheld, total, Net.total_take hp, add_comm]

theorem Placed.handsOver (h : c.Placed owns holds) {pass : CxxString → Prop} [DecidablePred pass]
    (ho : HandsOver pass dst (c.node a) n acts)
    (howns : ∀ key, key ∈ (c.node a).dataMap → pass key → owns dst key)
    (hholds : ∀ b key, holds b key → (b = a → ¬ pass key) → holds' b key) :
    Placed owns holds' (c.act a n (searchPackets a acts)) := by
  refine ⟨fun b key hkey => ?_, fun p hp => ?_⟩
  · rw [Net.act_node] at hkey
    split at hkey
    · rename_i hb
      subst hb
      rw [Std.TreeMap.mem_iff_isSome_getElem?, ho.dataMap key] at hkey
      split at hkey
      · cases hkey
      · rename_i hpass
        exact hholds b key (h.held b key (Std.TreeMap.mem_iff_isSome_getElem?.mpr hkey))
          fun _ => hpass
    · rename_i hb
      exact hholds b key (h.held b key hkey) fun heq => absurd heq hb
  · rcases List.mem_append.mp hp with hp | hp
    · exact h.addressed p hp
    · obtain ⟨-, -, -, hact⟩ := mem_searchPackets.mp hp
      obtain ⟨tx, key, docVector, heq, hget, hpass⟩ := ho.sends _ hact
      obtain ⟨hdst, hmsg⟩ := SearchAction.sendTo.inj heq
      refine ⟨(key, docVector), by rw [hmsg]; rfl, ?_⟩
      rw [hdst]
      exact howns key (by simp [Std.TreeMap.mem_iff_isSome_getElem?, hget]) hpass

/-- A hand-over to somebody, of posting lists that fit a datagram, keeps the total. -/
theorem total_handsOver {pass : CxxString → Prop} [DecidablePred pass]
    (ho : HandsOver pass dst (c.node a) n acts) (ha : a ∈ N) (hdst : dst ≠ .getAny)
    (hfits : ∀ tx key docVector, (c.node a).dataMap[key]? = some docVector → pass key →
      PennSearchMessage.fits ⟨tx, .passKeys key docVector⟩ = true) (key : CxxString) :
    SearchNet.total N key (c.act a n (searchPackets a acts)) = c.total N key := by
  have hsent : inTransit (PennSearchMessage.carried key) (searchPackets a acts) =
      actsCarried key acts := by
    refine inTransit_searchPackets key fun dst' message hact => ?_
    obtain ⟨tx, k, docVector, heq, hget, hpass⟩ := ho.sends _ hact
    obtain ⟨rfl, rfl⟩ := SearchAction.sendTo.inj heq
    exact ⟨hdst, hfits tx k docVector hget hpass⟩
  have hsum : n.held key + inTransit (PennSearchMessage.carried key) (searchPackets a acts) =
      (c.node a).held key + 0 := by
    rw [hsent, ho.held_add, add_zero]
  rw [total, Net.total_act ha hsum, add_zero]
  rfl

theorem Placed.total_eq_held (h : c.Placed owns holds) (hflight : c.inFlight = []) (ha : a ∈ N)
    {key : CxxString} (honly : ∀ b, holds b key → b = a) :
    c.total N key = (c.node a).held key := by
  refine Net.total_eq_held hflight ha fun b _ hb => ?_
  exact PostingMap.posting_eq_zero.mpr fun hkey => hb (honly b (h.held b key hkey))

end SearchNet

end PennSearch
