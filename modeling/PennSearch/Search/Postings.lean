import Mathlib.Algebra.Group.WithOne.Defs
import Mathlib.Algebra.Order.Group.Multiset
import PennSearch.Library.Ledger
import PennSearch.Search.Net

/-!
# Where the postings are

The value of a key at a node is its posting list as a multiset, or nothing
(`Posting`); a `STORE_LIST` and a `PASS_KEYS` carry such values. Storing what
arrives adds it up, and the two loops that hand keys over send exactly what they
take out of the map.
-/

namespace PennSearch

open MessagePassing

/-- The documents of a key, or no entry. Adding joins two entries. -/
abbrev Posting := WithZero (Multiset CxxString)

def Posting.ofList (docVector : List CxxString) : Posting := ((docVector : Multiset CxxString) :)

theorem Posting.ofList_append (l l' : List CxxString) :
    Posting.ofList (l ++ l') = Posting.ofList l + Posting.ofList l' := by
  rw [ofList, ofList, ofList, ← WithZero.coe_add, Multiset.coe_add]

def Posting.single (key : CxxString) (e : CxxString × List CxxString) : Posting :=
  if e.1 = key then Posting.ofList e.2 else 0

section Entries

variable {key : CxxString} {l : List (CxxString × List CxxString)}

def Posting.sum (key : CxxString) (l : List (CxxString × List CxxString)) : Posting :=
  (l.map (Posting.single key)).sum

@[simp] theorem Posting.sum_nil (key : CxxString) : Posting.sum key [] = 0 := rfl

@[simp] theorem Posting.sum_cons (key : CxxString) (e : CxxString × List CxxString)
    (l : List (CxxString × List CxxString)) :
    Posting.sum key (e :: l) = Posting.single key e + Posting.sum key l := rfl

theorem Posting.sum_eq_zero (h : ∀ e ∈ l, e.1 ≠ key) : Posting.sum key l = 0 := by
  induction l with
  | nil => rfl
  | cons e l ih =>
      rw [List.forall_mem_cons] at h
      rw [Posting.sum_cons, ih h.2, add_zero, Posting.single, if_neg h.1]

theorem Posting.sum_eq_ofList {docVector : List CxxString}
    (hdistinct : l.Pairwise fun a b => a.1 ≠ b.1) (h : (key, docVector) ∈ l) :
    Posting.sum key l = Posting.ofList docVector := by
  induction l with
  | nil => cases h
  | cons e l ih =>
      obtain ⟨hne, hrest⟩ := List.pairwise_cons.mp hdistinct
      rw [Posting.sum_cons]
      rcases List.mem_cons.mp h with rfl | h
      · rw [Posting.sum_eq_zero fun e he => (hne e he).symm, add_zero, Posting.single, if_pos rfl]
      · rw [ih hrest h, Posting.single, if_neg (hne _ h), zero_add]

theorem Posting.sum_filter (key : CxxString) (pass : CxxString → Bool)
    (l : List (CxxString × List CxxString)) :
    Posting.sum key (l.filter fun e => pass e.1) = if pass key then Posting.sum key l else 0 := by
  induction l with
  | nil => simp
  | cons e l ih =>
      rw [List.filter_cons, Posting.sum_cons]
      by_cases hkey : e.1 = key
      · cases hpass : pass key <;> simp [hkey, hpass, ih]
      · have hzero : Posting.single key e = 0 := if_neg hkey
        rw [hzero, zero_add, ← ih]
        split
        · rw [Posting.sum_cons, hzero, zero_add]
        · rfl

end Entries

namespace PostingMap

def posting (m : PostingMap) (key : CxxString) : Posting :=
  match m[key]? with
  | none => 0
  | some docVector => Posting.ofList docVector

variable {m : PostingMap} {key : CxxString}

theorem posting_of_getElem? {docVector : List CxxString} (h : m[key]? = some docVector) :
    m.posting key = Posting.ofList docVector := by
  rw [posting, h]

theorem posting_eq_zero : m.posting key = 0 ↔ key ∉ m := by
  rw [posting, Std.TreeMap.mem_iff_isSome_getElem?]
  cases m[key]? with
  | none => simp
  | some docVector => simp [Posting.ofList]

theorem posting_congr {m' : PostingMap} (h : m[key]? = m'[key]?) :
    m.posting key = m'.posting key := by
  rw [posting, posting, h]

theorem posting_store (m : PostingMap) (key k : CxxString) (recVect : List CxxString) :
    (m.store key recVect).posting k = m.posting k + Posting.single k (key, recVect) := by
  unfold store Posting.single
  by_cases hk : key = k
  · subst hk
    rw [if_pos rfl]
    cases h : m[key]? with
    | none => simp [posting, h]
    | some docs => simp [posting, h, Posting.ofList_append]
  · rw [if_neg hk, add_zero]
    cases h : m[key]? with
    | none =>
        refine posting_congr ?_
        simp [Std.TreeMap.getElem?_insert, hk]
    | some docs =>
        refine posting_congr ?_
        simp [Std.TreeMap.getElem?_insert, hk]

theorem sum_toList (m : PostingMap) (key : CxxString) :
    Posting.sum key m.toList = m.posting key := by
  have hdistinct : m.toList.Pairwise fun a b => a.1 ≠ b.1 :=
    m.distinct_keys_toList.imp fun h heq => h (by rw [heq]; exact Std.ReflCmp.compare_self)
  cases h : m[key]? with
  | none =>
      have hmem : key ∉ m := by simp [Std.TreeMap.mem_iff_isSome_getElem?, h]
      rw [posting_eq_zero.mpr hmem]
      refine Posting.sum_eq_zero fun e he => ?_
      rintro rfl
      rw [show e = (e.1, e.2) from rfl, Std.TreeMap.mem_toList_iff_getElem?_eq_some, h] at he
      cases he
  | some docVector =>
      rw [posting_of_getElem? h]
      exact Posting.sum_eq_ofList hdistinct (Std.TreeMap.mem_toList_iff_getElem?_eq_some.mpr h)

end PostingMap

/-- The entry that a message asks its receiver to store. -/
def SearchPayload.posted : SearchPayload → Option (CxxString × List CxxString)
  | .storeList key docVector => some (key, docVector)
  | .passKeys key docVector => some (key, docVector)
  | _ => none

def PennSearchMessage.carried (key : CxxString) (message : PennSearchMessage) : Posting :=
  match message.payload.posted with
  | none => 0
  | some e => Posting.single key e

theorem PennSearchMessage.carried_of_posted {message : PennSearchMessage}
    {e : CxxString × List CxxString} (h : message.payload.posted = some e) (key : CxxString) :
    message.carried key = Posting.single key e := by
  rw [carried, h]

def SearchNode.held (key : CxxString) (n : SearchNode) : Posting := n.dataMap.posting key

def actsCarried (key : CxxString) (acts : List SearchAction) : Posting :=
  (acts.map fun
    | .sendTo _ message => message.carried key
    | _ => 0).sum

@[simp] theorem actsCarried_nil (key : CxxString) : actsCarried key [] = 0 := rfl

@[simp] theorem actsCarried_sendTo (key : CxxString) (dst : Ipv4Address)
    (message : PennSearchMessage) (acts : List SearchAction) :
    actsCarried key (.sendTo dst message :: acts) =
      message.carried key + actsCarried key acts := rfl

/-- The node and the entry that are together in a PASS_KEYS. -/
def SearchAction.passed : SearchAction → Option (Ipv4Address × CxxString × List CxxString)
  | .sendTo dst ⟨_, .passKeys key docVector⟩ => some (dst, key, docVector)
  | _ => none

theorem SearchAction.passed_eq_some {act : SearchAction} {dst : Ipv4Address}
    {e : CxxString × List CxxString} (h : act.passed = some (dst, e)) :
    ∃ tx, act = .sendTo dst ⟨tx, .passKeys e.1 e.2⟩ := by
  unfold passed at h
  split at h
  · obtain ⟨rfl, rfl⟩ := Prod.mk.inj (Option.some.inj h)
    exact ⟨_, rfl⟩
  · cases h

section Passed

variable {acts : List SearchAction} {dst : Ipv4Address} {l : List (CxxString × List CxxString)}

theorem exists_of_passed (h : acts.map SearchAction.passed = l.map fun e => some (dst, e)) :
    ∀ act ∈ acts, ∃ tx, ∃ e ∈ l, act = .sendTo dst ⟨tx, .passKeys e.1 e.2⟩ := by
  intro act hact
  have hmem : act.passed ∈ l.map fun e => some (dst, e) := h ▸ List.mem_map_of_mem hact
  obtain ⟨e, he, heq⟩ := List.mem_map.mp hmem
  obtain ⟨tx, rfl⟩ := SearchAction.passed_eq_some heq.symm
  exact ⟨tx, e, he, rfl⟩

theorem actsCarried_of_passed (h : acts.map SearchAction.passed = l.map fun e => some (dst, e))
    (key : CxxString) : actsCarried key acts = Posting.sum key l := by
  induction l generalizing acts with
  | nil =>
      obtain rfl := List.map_eq_nil_iff.mp h
      rfl
  | cons e l ih =>
      obtain ⟨act, acts, rfl, hact, hacts⟩ := List.map_eq_cons_iff.mp h
      obtain ⟨tx, rfl⟩ := SearchAction.passed_eq_some hact
      rw [actsCarried_sendTo, ih hacts, Posting.sum_cons]
      rfl

end Passed

theorem mem_searchPackets {src : Ipv4Address} {acts : List SearchAction} {p : SearchPacket} :
    p ∈ searchPackets src acts ↔
      p.src = src ∧ p.dst ≠ .getAny ∧ p.msg.fits = true ∧ .sendTo p.dst p.msg ∈ acts := by
  obtain ⟨psrc, pdst, pmsg⟩ := p
  simp only [searchPackets, List.mem_filterMap]
  constructor
  · rintro ⟨act, hact, h⟩
    cases act with
    | sendTo dst message =>
        by_cases hlost : dst = .getAny ∨ message.fits = false
        · simp [hlost] at h
        · obtain ⟨rfl, rfl, rfl⟩ : src = psrc ∧ dst = pdst ∧ message = pmsg := by
            simpa [hlost] using h
          rw [not_or, Bool.not_eq_false] at hlost
          exact ⟨rfl, hlost.1, hlost.2, hact⟩
    | _ => simp at h
  · rintro ⟨rfl, hdst, hfits, hact⟩
    exact ⟨_, hact, by simp [hdst, hfits]⟩

theorem inTransit_searchPackets {src : Ipv4Address} {acts : List SearchAction} (key : CxxString)
    (h : ∀ dst message, .sendTo dst message ∈ acts → dst ≠ .getAny ∧ message.fits = true) :
    inTransit (PennSearchMessage.carried key) (searchPackets src acts) = actsCarried key acts := by
  induction acts with
  | nil => rfl
  | cons act acts ih =>
      have hrest := ih fun dst message hmem => h dst message (List.mem_cons_of_mem _ hmem)
      cases act with
      | sendTo dst message =>
          obtain ⟨hdst, hfits⟩ := h dst message List.mem_cons_self
          rw [actsCarried_sendTo, ← hrest]
          simp [searchPackets, hdst, hfits]
      | lookupPublish lookupKey flag transactionId =>
          rw [show actsCarried key (.lookupPublish lookupKey flag transactionId :: acts) =
            0 + actsCarried key acts from rfl, zero_add, ← hrest]
          simp [searchPackets]
      | searchResults docList =>
          rw [show actsCarried key (.searchResults docList :: acts) =
            0 + actsCarried key acts from rfl, zero_add, ← hrest]
          simp [searchPackets]

/-- A node hands the entries of the keys in `pass` to `dst`, and keeps the rest. -/
structure HandsOver (pass : CxxString → Prop) [DecidablePred pass] (dst : Ipv4Address)
    (n n' : SearchNode) (acts : List SearchAction) : Prop where
  same : n' = { n with currentTransactionId := n'.currentTransactionId, dataMap := n'.dataMap }
  dataMap : ∀ key, n'.dataMap[key]? = if pass key then none else n.dataMap[key]?
  sends : ∀ act ∈ acts, ∃ tx key docVector, act = .sendTo dst ⟨tx, .passKeys key docVector⟩ ∧
    n.dataMap[key]? = some docVector ∧ pass key
  carried : ∀ key, actsCarried key acts = if pass key then n.held key else 0

theorem HandsOver.held_add {pass : CxxString → Prop} [DecidablePred pass] {dst : Ipv4Address}
    {n n' : SearchNode} {acts : List SearchAction} (h : HandsOver pass dst n n' acts)
    (key : CxxString) : n'.held key + actsCarried key acts = n.held key := by
  rw [h.carried, SearchNode.held, PostingMap.posting, h.dataMap]
  by_cases hpass : pass key
  · simp [hpass]
  · simp [hpass, SearchNode.held, PostingMap.posting]

namespace SearchNode

variable {n n' : SearchNode} {acts : List SearchAction} {l : List (CxxString × List CxxString)}

theorem sendTo_eq_ok {message : PennSearchMessage} {dst : Ipv4Address} {act : SearchAction}
    (h : message.sendTo dst = .ok act) : act = .sendTo dst message := by
  unfold PennSearchMessage.sendTo at h
  split at h
  · exact (Except.ok.inj h).symm
  · cases h

theorem passKeysLeaveLoop_cases {successorAddress : Ipv4Address}
    (h : n.passKeysLeaveLoop successorAddress l = .ok (n', acts)) :
    n' = { n with currentTransactionId := n'.currentTransactionId, dataMap := ∅ } ∧
      acts.map SearchAction.passed = l.map fun e => some (successorAddress, e) := by
  induction l generalizing n acts with
  | nil =>
      cases h
      exact ⟨rfl, rfl⟩
  | cons e l ih =>
      obtain ⟨act, hact, h⟩ := bind_eq_ok.mp h
      obtain ⟨⟨n₁, acts₁⟩, hrest, h⟩ := bind_eq_ok.mp h
      obtain ⟨rfl, rfl⟩ := Prod.mk.inj (Except.ok.inj h)
      obtain rfl := sendTo_eq_ok hact
      obtain ⟨hsame, hacts⟩ := ih hrest
      exact ⟨hsame, congrArg (_ :: ·) hacts⟩

theorem passKeysLeave_handsOver {successorAddress : Ipv4Address}
    (h : n.passKeysLeave successorAddress = .ok (n', acts)) :
    HandsOver (fun _ => True) successorAddress n n' acts := by
  obtain ⟨hsame, hacts⟩ := passKeysLeaveLoop_cases h
  have hempty : n'.dataMap = ∅ := by rw [hsame]
  refine ⟨by rw [hempty]; exact hsame, fun key => ?_, fun act hact => ?_, fun key => ?_⟩
  · rw [hempty, if_pos trivial]
    exact Std.TreeMap.getElem?_emptyc
  · obtain ⟨tx, e, he, rfl⟩ := exists_of_passed hacts act hact
    exact ⟨tx, e.1, e.2, rfl, Std.TreeMap.mem_toList_iff_getElem?_eq_some.mp he, trivial⟩
  · rw [actsCarried_of_passed hacts, if_pos trivial, PostingMap.sum_toList]
    rfl

variable [Sha1]

theorem keepsKey_congr {m : SearchNode} (h : m.localAddress = n.localAddress)
    (predecessorAddress : Ipv4Address) (key : CxxString) :
    m.keepsKey predecessorAddress key = n.keepsKey predecessorAddress key := by
  unfold keepsKey
  rw [h]

/-- The loop of `PassKeysJoin` sends and erases the entries of `l` that do not
stay. -/
theorem passKeysJoinLoop_cases {predecessorAddress : Ipv4Address}
    (h : n.passKeysJoinLoop predecessorAddress l = .ok (n', acts)) :
    n' = { n with currentTransactionId := n'.currentTransactionId, dataMap := n'.dataMap } ∧
      (∀ key, n'.dataMap[key]? =
        if n.keepsKey predecessorAddress key = false ∧ ∃ e ∈ l, e.1 = key then none
        else n.dataMap[key]?) ∧
      acts.map SearchAction.passed =
        (l.filter fun e => !n.keepsKey predecessorAddress e.1).map
          fun e => some (predecessorAddress, e) := by
  induction l generalizing n acts with
  | nil =>
      cases h
      exact ⟨rfl, by simp, rfl⟩
  | cons e l ih =>
      rw [passKeysJoinLoop] at h
      split at h
      · -- the key stays
        rename_i hkeep
        obtain ⟨hsame, hdata, hacts⟩ := ih h
        refine ⟨hsame, fun k => ?_, by rw [hacts, List.filter_cons_of_neg (by simp [hkeep])]⟩
        rw [hdata k]
        refine if_congr (and_congr_right fun hk => ?_) rfl rfl
        have hne : e.1 ≠ k := by
          rintro rfl
          rw [hk] at hkeep
          cases hkeep
        simp [hne]
      · -- the key goes
        rename_i hpass
        obtain ⟨act, hact, h⟩ := bind_eq_ok.mp h
        obtain ⟨⟨n₁, acts₁⟩, hrest, h⟩ := bind_eq_ok.mp h
        obtain ⟨rfl, rfl⟩ := Prod.mk.inj (Except.ok.inj h)
        obtain rfl := sendTo_eq_ok hact
        obtain ⟨hsame, hdata, hacts⟩ := ih hrest
        have hlocal : ∀ k, { n.nextTransactionId with
            dataMap := n.dataMap.erase e.1 }.keepsKey predecessorAddress k =
            n.keepsKey predecessorAddress k := fun k => keepsKey_congr rfl _ k
        simp only [hlocal] at hdata hacts
        refine ⟨hsame, fun k => ?_, ?_⟩
        · rw [hdata k]
          by_cases hk : e.1 = k
          · subst hk
            simp [hpass]
          · refine if_congr (and_congr_right fun _ => ?_) rfl ?_
            · simp [hk]
            · simp [Std.TreeMap.getElem?_erase, hk]
        · rw [List.filter_cons_of_pos (by simp [hpass])]
          exact congrArg (_ :: ·) hacts

theorem passKeysJoin_acts {predecessorAddress : Ipv4Address}
    (h : n.passKeysJoin predecessorAddress = .ok (n', acts)) :
    acts.map SearchAction.passed =
      (n.dataMap.toList.filter fun e => !n.keepsKey predecessorAddress e.1).map
        fun e => some (predecessorAddress, e) :=
  (passKeysJoinLoop_cases h).2.2

theorem passKeysJoin_handsOver {predecessorAddress : Ipv4Address}
    (h : n.passKeysJoin predecessorAddress = .ok (n', acts)) :
    HandsOver (fun key => n.keepsKey predecessorAddress key = false) predecessorAddress
      n n' acts := by
  obtain ⟨hsame, hdata, hacts⟩ := passKeysJoinLoop_cases h
  refine ⟨hsame, fun key => ?_, fun act hact => ?_, fun key => ?_⟩
  · rw [hdata key]
    split
    · rename_i hk
      rw [if_pos hk.1]
    · rename_i hk
      split
      · rename_i hpass
        cases hget : n.dataMap[key]? with
        | none => rfl
        | some docVector =>
            exact absurd ⟨hpass, _, Std.TreeMap.mem_toList_iff_getElem?_eq_some.mpr hget, rfl⟩ hk
      · rfl
  · obtain ⟨tx, e, he, rfl⟩ := exists_of_passed hacts act hact
    rw [List.mem_filter, Bool.not_eq_true'] at he
    exact ⟨tx, e.1, e.2, rfl, Std.TreeMap.mem_toList_iff_getElem?_eq_some.mp he.1, he.2⟩
  · rw [actsCarried_of_passed hacts,
      Posting.sum_filter key (fun k => !n.keepsKey predecessorAddress k), PostingMap.sum_toList]
    simp [held]

end SearchNode

end PennSearch
