import Mathlib.Data.List.Lex
import PennSearch.Chord.Node

/-!
# Messages of the search layer

`PennSearchMessage` has the eight message types with their payloads. Two facts
about the encoding decide what reaches the network: `GetSerializedSize` counts
the entries of a list with a `uint16_t` and never returns on 65536 of them
(`countable`), and the socket refuses a packet of more than 65507 bytes
(`fits`).
-/

namespace PennSearch

instance instLinearOrderUInt8 : LinearOrder UInt8 where
  le_refl := UInt8.le_refl
  le_trans _ _ _ := UInt8.le_trans
  le_antisymm _ _ := UInt8.le_antisymm
  le_total := UInt8.le_total
  lt_iff_le_not_ge a b := by
    rw [UInt8.lt_iff_toNat_lt, UInt8.le_iff_toNat_le, UInt8.le_iff_toNat_le]
    omega
  toDecidableLE := inferInstance

/-- The payload of a search message, one constructor per `MessageType`. -/
inductive SearchPayload
  | pingReq (pingMessage : CxxString)
  | pingRsp (pingMessage : CxxString)
  | storeList (key : CxxString) (docVector : List CxxString)
  | searchInitial (initiatorAddress : Ipv4Address) (keyList : List CxxString)
  | searchBegin (initiatorAddress : Ipv4Address) (keyList docList : List CxxString)
  | search (initiatorAddress : Ipv4Address) (keyList docList : List CxxString)
  | searchComplete (keyList docList : List CxxString)
  | passKeys (key : CxxString) (docVector : List CxxString)
deriving DecidableEq

structure PennSearchMessage where
  transactionId : UInt32
  payload : SearchPayload
deriving DecidableEq

/-- The bytes of the entries of a list, each after its 16-bit length. -/
def entriesSize (l : List CxxString) : ℕ := (l.map fun s => 2 + s.length).sum

@[simp] theorem entriesSize_nil : entriesSize [] = 0 := rfl

@[simp] theorem entriesSize_cons (s : CxxString) (l : List CxxString) :
    entriesSize (s :: l) = 2 + s.length + entriesSize l := by
  simp [entriesSize]

theorem length_le_entriesSize (l : List CxxString) : 2 * l.length ≤ entriesSize l := by
  induction l with
  | nil => exact le_rfl
  | cons s l ih =>
      rw [entriesSize_cons, List.length_cons]
      omega

namespace PennSearchMessage

/-- `GetSerializedSize`, where it returns; the size is taken to stay below the
range of its `uint32_t`. -/
def serializedSize (m : PennSearchMessage) : ℕ :=
  5 + match m.payload with
    | .pingReq pingMessage => 2 + pingMessage.length
    | .pingRsp pingMessage => 2 + pingMessage.length
    | .storeList key docVector => 2 + key.length + 2 + entriesSize docVector
    | .searchInitial _ keyList => 4 + 2 + entriesSize keyList
    | .searchBegin _ keyList docList => 4 + 2 + 2 + entriesSize keyList + entriesSize docList
    | .search _ keyList docList => 4 + 2 + 2 + entriesSize keyList + entriesSize docList
    | .searchComplete keyList docList => 2 + 2 + entriesSize keyList + entriesSize docList
    | .passKeys key docVector => 2 + key.length + 2 + entriesSize docVector

def lists (m : PennSearchMessage) : List (List CxxString) :=
  match m.payload with
  | .pingReq _ => []
  | .pingRsp _ => []
  | .storeList _ docVector => [docVector]
  | .searchInitial _ keyList => [keyList]
  | .searchBegin _ keyList docList => [keyList, docList]
  | .search _ keyList docList => [keyList, docList]
  | .searchComplete keyList docList => [keyList, docList]
  | .passKeys _ docVector => [docVector]

/-- A `uint16_t` counter reaches the end of every list. -/
def countable (m : PennSearchMessage) : Bool := m.lists.all fun l => l.length < 65536

/-- The socket takes the message: at most `MAX_IPV4_UDP_DATAGRAM_SIZE` bytes. -/
def fits (m : PennSearchMessage) : Bool := m.serializedSize ≤ 65507

theorem entriesSize_le_serializedSize {m : PennSearchMessage} {l : List CxxString}
    (h : l ∈ m.lists) : entriesSize l ≤ m.serializedSize := by
  obtain ⟨tx, payload⟩ := m
  cases payload with
  | pingReq pingMessage => cases h
  | pingRsp pingMessage => cases h
  | storeList key docVector =>
      obtain rfl := List.mem_singleton.mp h
      exact (Nat.le_add_left _ _).trans (Nat.le_add_left _ _)
  | passKeys key docVector =>
      obtain rfl := List.mem_singleton.mp h
      exact (Nat.le_add_left _ _).trans (Nat.le_add_left _ _)
  | searchInitial initiator keyList =>
      obtain rfl := List.mem_singleton.mp h
      exact (Nat.le_add_left _ _).trans (Nat.le_add_left _ _)
  | _ =>
      simp only [lists, List.mem_cons, List.not_mem_nil, or_false] at h
      simp only [serializedSize]
      rcases h with rfl | rfl <;> omega

theorem countable_of_fits {m : PennSearchMessage} (h : m.fits = true) : m.countable = true := by
  refine List.all_eq_true.mpr fun l hl => decide_eq_true ?_
  have hsize := entriesSize_le_serializedSize hl
  have hlen := length_le_entriesSize l
  have hfits : m.serializedSize ≤ 65507 := of_decide_eq_true h
  omega

end PennSearchMessage

end PennSearch
