import PennSearch.Search.GracefulLeave

/-!
# Handing over when a send is refused

`SendTo` returns `-1` without sending when the packet is too large or there is
no route. `PassKeysJoin` and `PassKeysLeave` do not look at what it returns, so
the packets in their actions are the calls of `SendTo`, and whether a key goes
does not depend on the answer. `route k` says that the `k`-th call finds a route.
-/

namespace PennSearch

open MessagePassing

/-- `UdpSocketImpl::DoSendTo`: the number of bytes taken, or -1. -/
def doSendTo (message : PennSearchMessage) (route : Bool) : ℤ :=
  if 65507 < message.serializedSize then -1
  else if route then message.serializedSize
  else -1

theorem doSendTo_ne_iff {message : PennSearchMessage} {route : Bool} :
    doSendTo message route ≠ -1 ↔ message.fits = true ∧ route = true := by
  unfold doSendTo PennSearchMessage.fits
  split
  · rename_i hlarge
    simp [hlarge]
  · rename_i hsmall
    split
    · rename_i hroute
      have hnonneg : (message.serializedSize : ℤ) ≠ -1 := by omega
      simp [hroute, hnonneg, Nat.le_of_not_lt hsmall]
    · rename_i hroute
      simp [hroute]

/-- A key goes from the map only when the call that carries it is accepted, and
stays with its documents when it is refused. -/
structure AtomicPerKey (route : ℕ → Bool) (n n' : SearchNode) (acts : List SearchAction) :
    Prop where
  removed : ∀ key ∈ n.dataMap, key ∉ n'.dataMap →
    ∃ k dst tx docVector, acts[k]? = some (.sendTo dst ⟨tx, .passKeys key docVector⟩) ∧
      doSendTo ⟨tx, .passKeys key docVector⟩ (route k) ≠ -1
  refused : ∀ k dst tx key docVector,
    acts[k]? = some (.sendTo dst ⟨tx, .passKeys key docVector⟩) →
      doSendTo ⟨tx, .passKeys key docVector⟩ (route k) = -1 → n'.dataMap[key]? = n.dataMap[key]?

/-- The handler returns, and is atomic for each key. -/
def SearchResult.Atomic (route : ℕ → Bool) (n : SearchNode) (r : SearchResult) : Prop :=
  ∃ n' acts, r = .ok (n', acts) ∧ AtomicPerKey route n n' acts

/-- Each entry fits into a datagram when it is passed, and finds a route. -/
def Sendable (route : ℕ → Bool) (entries : List (CxxString × List CxxString)) : Prop :=
  ∀ k key docVector, entries[k]? = some (key, docVector) →
    5 + (2 + key.length + 2 + entriesSize docVector) ≤ 65507 ∧ route k = true

variable {route : ℕ → Bool} {n n' : SearchNode} {acts : List SearchAction} {dst : Ipv4Address}
  {entries : List (CxxString × List CxxString)}

theorem passKeys_fits (tx : UInt32) {key : CxxString} {docVector : List CxxString} :
    PennSearchMessage.fits ⟨tx, .passKeys key docVector⟩ = true ↔
      5 + (2 + key.length + 2 + entriesSize docVector) ≤ 65507 :=
  decide_eq_true_iff

theorem Sendable.countable (h : Sendable route entries) (tx : UInt32) :
    ∀ e ∈ entries, PennSearchMessage.countable ⟨tx, .passKeys e.1 e.2⟩ = true := by
  intro e he
  obtain ⟨k, hk⟩ := List.mem_iff_getElem?.mp he
  exact PennSearchMessage.countable_of_fits ((passKeys_fits tx).mpr (h k e.1 e.2 hk).1)

theorem getElem?_of_passed (h : acts.map SearchAction.passed = entries.map fun e => some (dst, e))
    {k : ℕ} {key : CxxString} {docVector : List CxxString} :
    entries[k]? = some (key, docVector) ↔
      ∃ tx, acts[k]? = some (.sendTo dst ⟨tx, .passKeys key docVector⟩) := by
  have hk : acts[k]?.map SearchAction.passed = entries[k]?.map fun e => some (dst, e) := by
    rw [← List.getElem?_map, ← List.getElem?_map, h]
  constructor
  · intro he
    rw [he] at hk
    obtain ⟨act, hact, hpassed⟩ := Option.map_eq_some_iff.mp hk
    obtain ⟨tx, rfl⟩ := SearchAction.passed_eq_some hpassed
    exact ⟨tx, hact⟩
  · rintro ⟨tx, hact⟩
    rw [hact] at hk
    obtain ⟨e, he, heq⟩ := Option.map_eq_some_iff.mp hk.symm
    obtain ⟨-, rfl⟩ := Prod.mk.inj (Option.some.inj heq)
    exact he

/-- What is handed over goes whatever the answers are, so the hand-over is atomic
exactly when every call is accepted. -/
theorem HandsOver.atomicPerKey_iff {pass : CxxString → Prop} [DecidablePred pass]
    (h : HandsOver pass dst n n' acts)
    (hacts : acts.map SearchAction.passed = entries.map fun e => some (dst, e))
    (hentries : ∀ key docVector, (key, docVector) ∈ entries ↔
      n.dataMap[key]? = some docVector ∧ pass key) :
    AtomicPerKey route n n' acts ↔ Sendable route entries := by
  constructor
  · intro hatomic k key docVector hk
    obtain ⟨tx, hact⟩ := (getElem?_of_passed hacts).mp hk
    obtain ⟨hheld, hpass⟩ := (hentries key docVector).mp (List.mem_of_getElem? hk)
    rw [← passKeys_fits tx, ← doSendTo_ne_iff]
    intro hrefused
    have hstays := hatomic.refused k dst tx key docVector hact hrefused
    rw [h.dataMap, if_pos hpass, hheld] at hstays
    cases hstays
  · intro hsend
    constructor
    · intro key hkey hgone
      obtain ⟨docVector, hheld⟩ : ∃ docVector, n.dataMap[key]? = some docVector := by
        rw [← Option.isSome_iff_exists, Std.TreeMap.isSome_getElem?_iff_mem]
        exact hkey
      have hpass : pass key := by
        by_contra hnot
        apply hgone
        rw [← Std.TreeMap.isSome_getElem?_iff_mem, h.dataMap, if_neg hnot, hheld]
        rfl
      obtain ⟨k, hk⟩ := List.mem_iff_getElem?.mp ((hentries key docVector).mpr ⟨hheld, hpass⟩)
      obtain ⟨tx, hact⟩ := (getElem?_of_passed hacts).mp hk
      refine ⟨k, dst, tx, docVector, hact, doSendTo_ne_iff.mpr ?_⟩
      rw [passKeys_fits]
      exact hsend k key docVector hk
    · intro k dst' tx key docVector hact hrefused
      obtain ⟨tx', e, he, heq⟩ := exists_of_passed hacts _ (List.mem_of_getElem? hact)
      cases heq
      have hk := (getElem?_of_passed hacts).mpr ⟨tx, hact⟩
      have haccepted := doSendTo_ne_iff.mpr
        ((hsend k _ _ hk).imp_left (passKeys_fits tx).mpr)
      exact absurd hrefused haccepted

namespace SearchNode

theorem passKeysLeave_atomic_iff (n : SearchNode) (successorAddress : Ipv4Address) :
    (n.passKeysLeave successorAddress).Atomic route n ↔ Sendable route n.dataMap.toList := by
  have hof : ∀ n' acts, n.passKeysLeave successorAddress = .ok (n', acts) →
      (AtomicPerKey route n n' acts ↔ Sendable route n.dataMap.toList) := by
    intro n' acts hr
    refine (passKeysLeave_handsOver hr).atomicPerKey_iff (passKeysLeaveLoop_cases hr).2 ?_
    intro key docVector
    rw [Std.TreeMap.mem_toList_iff_getElem?_eq_some, and_true]
  constructor
  · rintro ⟨n', acts, hr, hatomic⟩
    exact (hof n' acts hr).mp hatomic
  · intro hsend
    obtain ⟨⟨n', acts⟩, hr⟩ := passKeysLeaveLoop_isOk successorAddress
      (fun tx => hsend.countable tx) n
    exact ⟨n', acts, hr, (hof n' acts hr).mpr hsend⟩

variable [Sha1]

def passedEntries (n : SearchNode) (predecessorAddress : Ipv4Address) :
    List (CxxString × List CxxString) :=
  n.dataMap.toList.filter fun e => !n.keepsKey predecessorAddress e.1

theorem passKeysJoinLoop_isOk (predecessorAddress : Ipv4Address)
    {l : List (CxxString × List CxxString)} {n₀ : SearchNode}
    (hcount : ∀ tx, ∀ e ∈ l.filter fun e => !n₀.keepsKey predecessorAddress e.1,
      PennSearchMessage.countable ⟨tx, .passKeys e.1 e.2⟩ = true) :
    ∀ n : SearchNode, n.localAddress = n₀.localAddress →
      ∃ r, n.passKeysJoinLoop predecessorAddress l = .ok r := by
  induction l with
  | nil => exact fun n _ => ⟨_, rfl⟩
  | cons e l ih =>
      intro n hlocal
      obtain ⟨key, docVector⟩ := e
      have hkeeps := keepsKey_congr hlocal predecessorAddress key
      rw [passKeysJoinLoop]
      by_cases hkeep : n.keepsKey predecessorAddress key = true
      · rw [if_pos hkeep]
        rw [List.filter_cons_of_neg (by simp [← hkeeps, hkeep])] at hcount
        exact ih hcount n hlocal
      · rw [if_neg hkeep]
        rw [List.filter_cons_of_pos (by simp [← hkeeps, hkeep])] at hcount
        have hhead := hcount n.currentTransactionId (key, docVector) List.mem_cons_self
        obtain ⟨r, hr⟩ := ih (fun tx e he => hcount tx e (List.mem_cons_of_mem _ he))
          { n.nextTransactionId with dataMap := n.dataMap.erase key } hlocal
        refine ⟨(r.1, .sendTo predecessorAddress
          ⟨n.currentTransactionId, .passKeys key docVector⟩ :: r.2), ?_⟩
        simp [PennSearchMessage.sendTo, hhead, hr, bind, Except.bind, pure, Except.pure]

theorem passKeysJoin_atomicPerKey_iff {n n' : SearchNode} {acts : List SearchAction}
    {predecessorAddress : Ipv4Address} (hr : n.passKeysJoin predecessorAddress = .ok (n', acts)) :
    AtomicPerKey route n n' acts ↔ Sendable route (n.passedEntries predecessorAddress) := by
  refine (passKeysJoin_handsOver hr).atomicPerKey_iff (passKeysJoin_acts hr) ?_
  intro key docVector
  rw [passedEntries, List.mem_filter, Std.TreeMap.mem_toList_iff_getElem?_eq_some,
    Bool.not_eq_true']

theorem passKeysJoin_atomic_iff (n : SearchNode) (predecessorAddress : Ipv4Address) :
    (n.passKeysJoin predecessorAddress).Atomic route n ↔
      Sendable route (n.passedEntries predecessorAddress) := by
  constructor
  · rintro ⟨n', acts, hr, hatomic⟩
    exact (passKeysJoin_atomicPerKey_iff hr).mp hatomic
  · intro hsend
    obtain ⟨⟨n', acts⟩, hr⟩ := passKeysJoinLoop_isOk predecessorAddress
      (fun tx => hsend.countable tx) n rfl
    exact ⟨n', acts, hr, (passKeysJoin_atomicPerKey_iff hr).mpr hsend⟩

/-- For every map and every pattern of answers, each of the two hand-overs
returns and is atomic per key exactly when every entry that it passes fits into a
datagram and finds a route. -/
theorem hand_over_atomic_iff (n : SearchNode) (address : Ipv4Address) (route : ℕ → Bool) :
    ((n.passKeysJoin address).Atomic route n ↔ Sendable route (n.passedEntries address)) ∧
      ((n.passKeysLeave address).Atomic route n ↔ Sendable route n.dataMap.toList) :=
  ⟨n.passKeysJoin_atomic_iff address, n.passKeysLeave_atomic_iff address⟩

end SearchNode

end PennSearch

namespace PennSearch

attribute [local instance] sampleSha1

theorem entriesSize_replicate (k : ℕ) (s : CxxString) :
    entriesSize (List.replicate k s) = k * (2 + s.length) := by
  rw [entriesSize, List.map_replicate, List.sum_replicate, Nat.nsmul_eq_mul]

/-- Node A with the postings of `T2`, a key that it has to pass to B. -/
def sampleHolder (docVector : List CxxString) : SearchNode :=
  { SearchNode.start sampleA 0 with
    dataMap := (∅ : PostingMap).insert ([84, 50] : CxxString) docVector }

section Holder

variable {docVector : List CxxString}

theorem keepsKey_sampleHolder : (sampleHolder docVector).keepsKey sampleB [84, 50] = false := by
  have hlocal : (sampleHolder docVector).localAddress = sampleA := rfl
  unfold SearchNode.keepsKey
  rw [hlocal]
  decide

theorem passedEntries_sampleHolder :
    (sampleHolder docVector).passedEntries sampleB = [([84, 50], docVector)] := by
  have hlist : (sampleHolder docVector).dataMap.toList = [([84, 50], docVector)] := rfl
  rw [SearchNode.passedEntries, hlist,
    List.filter_cons_of_pos (by rw [keepsKey_sampleHolder]; rfl), List.filter_nil]

/-- Postings that can be encoded, but do not fit into a datagram, are gone
although there is a route. -/
theorem sampleHolder_drops (hcount : docVector.length < 65536)
    (hlarge : 65507 < 11 + entriesSize docVector) :
    ∃ n' acts, (sampleHolder docVector).passKeysJoin sampleB = .ok (n', acts) ∧
      (sampleHolder docVector).dataMap[([84, 50] : CxxString)]? = some docVector ∧
      n'.dataMap[([84, 50] : CxxString)]? = none ∧
      ¬ AtomicPerKey (fun _ => true) (sampleHolder docVector) n' acts := by
  have hcountable : ∀ tx, ∀ e ∈ (sampleHolder docVector).passedEntries sampleB,
      PennSearchMessage.countable ⟨tx, .passKeys e.1 e.2⟩ = true := by
    intro tx e he
    rw [passedEntries_sampleHolder, List.mem_singleton] at he
    simpa [he, PennSearchMessage.countable, PennSearchMessage.lists] using hcount
  obtain ⟨⟨n', acts⟩, hr⟩ := SearchNode.passKeysJoinLoop_isOk sampleB hcountable _ rfl
  have hgone := (SearchNode.passKeysJoin_handsOver hr).dataMap [84, 50]
  rw [if_pos keepsKey_sampleHolder] at hgone
  refine ⟨n', acts, hr, by simp [sampleHolder], hgone, fun hatomic => ?_⟩
  have hsend := (SearchNode.passKeysJoin_atomicPerKey_iff hr).mp hatomic
  rw [passedEntries_sampleHolder] at hsend
  have hfit : 5 + (2 + 2 + 2 + entriesSize docVector) ≤ 65507 := (hsend 0 _ _ rfl).1
  omega

end Holder

/-- A posting list of 30000 documents. -/
theorem hand_over_drops_refused :
    ∃ n' acts, (sampleHolder (List.replicate 30000 [68])).passKeysJoin sampleB = .ok (n', acts) ∧
      (sampleHolder (List.replicate 30000 [68])).dataMap[([84, 50] : CxxString)]? =
        some (List.replicate 30000 [68]) ∧
      n'.dataMap[([84, 50] : CxxString)]? = none ∧
      ¬ AtomicPerKey (fun _ => true) (sampleHolder (List.replicate 30000 [68])) n' acts := by
  apply sampleHolder_drops
  · rw [List.length_replicate]
    norm_num
  · rw [entriesSize_replicate]
    norm_num

end PennSearch
