import Std.Data.ExtTreeMap
import PennSearch.Chord.Node

/-!
# The state of a link-state router

The messages of `ls-message.h`, the tables of `ls-routing-protocol.h`, and the
state of one `LSRoutingProtocol` object. A `std::map` is `Std.ExtTreeMap`, which
iterates in the order of the keys and is determined by its entries. A `find`
whose iterator is used without a test against `end` gives `LsFault` where the
key is absent.

`simulator-main.cc` fills both address maps in one pass over the nodes, so that
every node number it gives an address has a main address: `AddressMaps` carries
this.
-/

namespace PennSearch

instance : Ord Ipv4Address where
  compare a b := compare a.address b.address

instance : Std.TransOrd Ipv4Address where
  eq_swap {a b} := by
    have h : compare a.address b.address = (compare b.address a.address).swap :=
      Std.OrientedCmp.eq_swap
    exact h
  isLE_trans {a b c} hab hbc := by
    have h : (compare a.address c.address).isLE := Std.TransCmp.isLE_trans hab hbc
    exact h

instance : Std.LawfulEqOrd Ipv4Address where
  eq_of_compare {a b} h := by
    obtain ⟨a⟩ := a
    obtain ⟨b⟩ := b
    have hab : compare a b = .eq := h
    exact congrArg Ipv4Address.mk (Std.LawfulEqCmp.eq_of_compare hab)

/-- `Ipv4Address::Ipv4Address`, the address of no one. -/
def Ipv4Address.unset : Ipv4Address := ⟨0x66666666⟩

/-- `UINT32_MAX`, the cost of a node without a route. -/
def uint32Max : UInt32 := 0xffffffff

/-! ## Messages -/

/-- `LSMessage::PingReq`; `LSMessage::PingRsp` has the same fields. -/
structure LsPing where
  destinationAddress : Ipv4Address
  pingMessage : CxxString
deriving DecidableEq

structure Lsp where
  sequenceNumber : UInt64
  neighborAddrlist : List Ipv4Address
  destinationAddress : Ipv4Address
  message : CxxString
deriving DecidableEq

inductive LSPayload
  | pingReq (pingReq : LsPing)
  | pingRsp (pingRsp : LsPing)
  | ndReq (pingReq : LsPing)
  | ndRsp (pingRsp : LsPing)
  | lsp (lsp : Lsp)
deriving DecidableEq

structure LSMessage where
  sequenceNumber : UInt32
  ttl : UInt8
  originatorAddress : Ipv4Address
  payload : LSPayload
deriving DecidableEq

/-! ## Tables -/

structure NeighborTableEntry where
  neighborAddr : Ipv4Address
  interfaceAddr : Ipv4Address
deriving DecidableEq

/-- What the latest LSP of a node says. `UpdateMap` pushes on the three vectors
together, and every link costs 1. -/
structure RouteMapDetails where
  nodeAddr : Ipv4Address
  neighborList : List UInt32
  neighborListAddr : List Ipv4Address
  neighborListCost : List UInt32
  costs : neighborListCost = List.replicate neighborList.length 1
deriving DecidableEq

structure RouteTableDetails where
  destAddr : Ipv4Address
  nextHopNumber : UInt32
  nextHopAddr : Ipv4Address
  interfaceAddr : Ipv4Address
  cost : UInt32
deriving DecidableEq

abbrev NeighborTable := Std.ExtTreeMap UInt32 NeighborTableEntry

abbrev RouteMap := Std.ExtTreeMap UInt32 RouteMapDetails

abbrev RouteTable := Std.ExtTreeMap UInt32 RouteTableDetails

structure AddressMaps where
  nodeAddressMap : Std.ExtTreeMap UInt32 Ipv4Address
  addressNodeMap : Std.ExtTreeMap Ipv4Address UInt32
  resolves : ∀ {a : Ipv4Address} {k : UInt32}, addressNodeMap[a]? = some k → k ∈ nodeAddressMap

/-- A `Ptr<Socket>`, by the number of its interface. -/
abbrev LsSocket := ℕ

/-- The state of one `LSRoutingProtocol` object. `socketAddresses` has the local
address of each socket. -/
structure LsNode where
  maps : AddressMaps
  mainAddress : Ipv4Address
  socketAddresses : Std.ExtTreeMap LsSocket Ipv4Address
  neighborTable : NeighborTable
  currentneighborTable : NeighborTable
  lspSequenceNumberTable : Std.ExtTreeMap Ipv4Address UInt64
  routeMap : RouteMap
  routeTable : RouteTable
  maxTTL : UInt8
  singleHop : UInt8
  currentSequenceNumber : UInt32
  lspSequenceNumber : UInt64
  pingTracker : Std.ExtTreeMap UInt32 PingRequest

/-- The map in which an iterator was at its end when it was used. `queue` says
that a loop is not at its end. -/
inductive LsFault
  | socketAddresses
  | addressNodeMap
  | nodeAddressMap
  | neighborTable
  | costMap
  | nextHopMap
  | queue
deriving DecidableEq

/-- What a handler returns: the state, and what it sends on which sockets. -/
abbrev LsResult := Except LsFault (LsNode × List (LsSocket × LSMessage))

/-- A `find` whose iterator is used at once. -/
def findIn {κ α : Type} [Ord κ] [Std.TransOrd κ] (fault : LsFault) (m : Std.ExtTreeMap κ α)
    (k : κ) : Except LsFault α :=
  match m[k]? with
  | none => .error fault
  | some a => .ok a

section FindIn

variable {κ α : Type} [Ord κ] [Std.TransOrd κ] {fault fault' : LsFault}
  {m : Std.ExtTreeMap κ α} {k : κ} {a : α}

theorem findIn_eq_ok : findIn fault m k = .ok a ↔ m[k]? = some a := by
  unfold findIn
  split
  · rename_i h
    simp [h]
  · rename_i b h
    simp [h]

theorem findIn_eq_error : findIn fault m k = .error fault' ↔ fault' = fault ∧ m[k]? = none := by
  unfold findIn
  split
  · rename_i h
    simp [h, eq_comm]
  · rename_i b h
    simp [h]

theorem exists_findIn_of_mem (h : k ∈ m) : ∃ a, findIn fault m k = .ok a := by
  obtain ⟨a, ha⟩ := Option.isSome_iff_exists.mp (Std.ExtTreeMap.mem_iff_isSome_getElem?.mp h)
  exact ⟨a, findIn_eq_ok.mpr ha⟩

end FindIn

section Maps

variable {κ α : Type} [Ord κ] [Std.TransOrd κ]

theorem getElem?_insert_eq [Std.LawfulEqOrd κ] [DecidableEq κ] (m : Std.ExtTreeMap κ α)
    (k a : κ) (v : α) :
    (m.insert k v)[a]? = if k = a then some v else m[a]? := by
  rw [Std.ExtTreeMap.getElem?_insert]
  simp only [Std.compare_eq_iff_eq]

theorem mem_iff_exists_getElem? {m : Std.ExtTreeMap κ α} {k : κ} :
    k ∈ m ↔ ∃ a, m[k]? = some a := by
  rw [Std.ExtTreeMap.mem_iff_isSome_getElem?, Option.isSome_iff_exists]

theorem getElem?_foldl_insert [Std.LawfulEqOrd κ] [DecidableEq κ] (f : κ → α) (ks : List κ)
    (m : Std.ExtTreeMap κ α) (a : κ) :
    (ks.foldl (fun m k => m.insert k (f k)) m)[a]? = if a ∈ ks then some (f a) else m[a]? := by
  induction ks generalizing m with
  | nil => simp
  | cons k ks ih =>
      rw [List.foldl_cons, ih, getElem?_insert_eq]
      by_cases ha : a ∈ ks
      · simp [ha]
      · by_cases hk : k = a
        · simp [hk]
        · simp [ha, hk, Ne.symm hk]

end Maps

/-- `m_addressNodeMap.find`, used at once. -/
def AddressMaps.numberOf (maps : AddressMaps) (a : Ipv4Address) : Except LsFault UInt32 :=
  findIn .addressNodeMap maps.addressNodeMap a

/-- The state that `DoStart` sets up. -/
def LsNode.start (maps : AddressMaps) (mainAddress : Ipv4Address)
    (socketAddresses : Std.ExtTreeMap LsSocket Ipv4Address) (maxTTL singleHop : UInt8)
    (sequenceNumber : UInt32) : LsNode where
  maps := maps
  mainAddress := mainAddress
  socketAddresses := socketAddresses
  neighborTable := ∅
  currentneighborTable := ∅
  lspSequenceNumberTable := ∅
  routeMap := ∅
  routeTable := ∅
  maxTTL := maxTTL
  singleHop := singleHop
  currentSequenceNumber := sequenceNumber
  lspSequenceNumber := 0
  pingTracker := ∅

end PennSearch
