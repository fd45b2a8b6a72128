import PennSearch.LinkState.Freshness

/-!
# Unknown destinations

`RouteOutput` and `RouteInput` use the iterator of `m_addressNodeMap.find` without
a test. So they take the table entry of a destination, or leave a destination
without one to the static routes, exactly where the map has the destination; on the
receiving path also where the packet is settled before the lookup.
-/

namespace PennSearch

open MessagePassing

/-- What `RouteInput` does with a packet: it returns at once for one of the node's
own, hands it to `lcb` or gives it up if there is none, hands it to `ucb` with a
route, or leaves it to the static routes. -/
inductive LsInput
  | own
  | localDeliver
  | undeliverable
  | unicastForward (route : LsRoute)
  | static
deriving DecidableEq

namespace LsNode

/-- `RouteInput`. Whether the destination is one of the node's own on the interface
(`IsDestinationAddress`) and whether there is an `lcb` are given by ns-3. -/
def routeInput (n : LsNode) (source destination : Ipv4Address) (isDestination lcb : Bool) :
    Except LsFault LsInput :=
  if n.isOwnAddress source then .ok .own
  else if isDestination then .ok (if lcb then .localDeliver else .undeliverable)
  else do
    let node ← n.maps.numberOf destination
    match n.routeTable[node]? with
    | none => return .static
    | some details =>
        match n.neighborTable[details.nextHopNumber]? with
        | none => return .static
        | some neighbor =>
            return .unicastForward
              ⟨destination, n.mainAddress, details.nextHopAddr, neighbor.interfaceAddr⟩

/-! ## Routing by the entry of the destination -/

/-- The entry of `m_routeTable` under the number that `m_addressNodeMap` has for the
destination, if it has one. -/
def entryOf (n : LsNode) (destination : Ipv4Address) : Option RouteTableDetails :=
  n.maps.addressNodeMap[destination]?.bind fun node => n.routeTable[node]?

def outputBy (n : LsNode) (destination : Ipv4Address) :
    Option RouteTableDetails → Except LsFault (Option LsRoute)
  | none => .ok none
  | some details => do
      let neighbor ← findIn .neighborTable n.neighborTable details.nextHopNumber
      return some ⟨destination, n.mainAddress, details.nextHopAddr, neighbor.interfaceAddr⟩

/-- `RouteInput` with a given entry, for a packet that has to be routed. -/
def forwardBy (n : LsNode) (destination : Ipv4Address) : Option RouteTableDetails → LsInput
  | none => .static
  | some details =>
      match n.neighborTable[details.nextHopNumber]? with
      | none => .static
      | some neighbor => .unicastForward
          ⟨destination, n.mainAddress, details.nextHopAddr, neighbor.interfaceAddr⟩

def inputBy (n : LsNode) (source destination : Ipv4Address) (isDestination lcb : Bool)
    (entry : Option RouteTableDetails) : Except LsFault LsInput :=
  if n.isOwnAddress source then .ok .own
  else if isDestination then .ok (if lcb then .localDeliver else .undeliverable)
  else .ok (n.forwardBy destination entry)

variable {n : LsNode} {source destination : Ipv4Address} {isDestination lcb : Bool} {node : UInt32}

theorem numberOf_eq_error {maps : AddressMaps} (h : maps.addressNodeMap[destination]? = none) :
    maps.numberOf destination = .error .addressNodeMap :=
  findIn_eq_error.mpr ⟨rfl, h⟩

theorem entryOf_eq (h : n.maps.addressNodeMap[destination]? = some node) :
    n.entryOf destination = n.routeTable[node]? := by
  rw [entryOf, h, Option.bind_some]

theorem routeOutput_of_mem (h : n.maps.addressNodeMap[destination]? = some node) :
    n.routeOutput destination = n.outputBy destination (n.entryOf destination) := by
  have hnode : n.maps.numberOf destination = .ok node := findIn_eq_ok.mpr h
  rw [routeOutput, hnode, entryOf_eq h]
  cases hentry : n.routeTable[node]? with
  | none => simp [hentry, outputBy, bind, Except.bind, pure, Except.pure]
  | some details => simp [hentry, outputBy, bind, Except.bind, pure, Except.pure]

theorem routeOutput_of_notMem (h : n.maps.addressNodeMap[destination]? = none) :
    n.routeOutput destination = .error .addressNodeMap := by
  rw [routeOutput, numberOf_eq_error h]
  rfl

theorem routeInput_of_routed (hown : n.isOwnAddress source = false) :
    n.routeInput source destination false lcb = (do
      let node ← n.maps.numberOf destination
      return n.forwardBy destination n.routeTable[node]?) := by
  have hfalse : ¬ n.isOwnAddress source = true := by simp [hown]
  rw [routeInput, if_neg hfalse, if_neg Bool.false_ne_true]
  refine bind_congr fun node => ?_
  cases n.routeTable[node]? with
  | none => rfl
  | some details =>
      simp only [forwardBy]
      cases n.neighborTable[details.nextHopNumber]? <;> rfl

theorem inputBy_of_routed (hown : n.isOwnAddress source = false)
    (entry : Option RouteTableDetails) :
    n.inputBy source destination false lcb entry = .ok (n.forwardBy destination entry) := by
  have hfalse : ¬ n.isOwnAddress source = true := by simp [hown]
  rw [inputBy, if_neg hfalse, if_neg Bool.false_ne_true]

theorem routeInput_of_settled (h : n.isOwnAddress source = true ∨ isDestination = true)
    (entry : Option RouteTableDetails) :
    n.routeInput source destination isDestination lcb =
      n.inputBy source destination isDestination lcb entry := by
  by_cases hown : n.isOwnAddress source = true
  · rw [routeInput, inputBy, if_pos hown, if_pos hown]
  · have hdest : isDestination = true := h.resolve_left hown
    rw [routeInput, inputBy, if_neg hown, if_neg hown, if_pos hdest, if_pos hdest]

theorem routeOutput_eq_iff :
    n.routeOutput destination = n.outputBy destination (n.entryOf destination) ↔
      destination ∈ n.maps.addressNodeMap := by
  rw [mem_iff_exists_getElem?]
  constructor
  · intro h
    by_contra hnot
    have hnone : n.maps.addressNodeMap[destination]? = none :=
      Option.eq_none_iff_forall_ne_some.mpr fun node hnode => hnot ⟨node, hnode⟩
    rw [routeOutput_of_notMem hnone, entryOf, hnone] at h
    cases h
  · rintro ⟨node, hnode⟩
    exact routeOutput_of_mem hnode

theorem routeInput_eq_iff :
    n.routeInput source destination isDestination lcb =
        n.inputBy source destination isDestination lcb (n.entryOf destination) ↔
      n.isOwnAddress source = true ∨ isDestination = true ∨
        destination ∈ n.maps.addressNodeMap := by
  by_cases hsettled : n.isOwnAddress source = true ∨ isDestination = true
  · exact iff_of_true (routeInput_of_settled hsettled _) (or_assoc.mp (Or.inl hsettled))
  · obtain ⟨hown, hdest⟩ := not_or.mp hsettled
    rw [Bool.not_eq_true] at hown hdest
    subst hdest
    rw [routeInput_of_routed hown, inputBy_of_routed hown, mem_iff_exists_getElem?]
    constructor
    · intro h
      cases hnode : n.maps.addressNodeMap[destination]? with
      | none =>
          rw [numberOf_eq_error hnode] at h
          cases h
      | some node => exact Or.inr (Or.inr ⟨node, rfl⟩)
    · rintro (h | h | ⟨node, hnode⟩)
      · rw [hown] at h
        cases h
      · cases h
      · have hok : n.maps.numberOf destination = .ok node := findIn_eq_ok.mpr hnode
        rw [hok, entryOf_eq hnode]
        rfl

/-- Both paths route by the entry of the destination, and leave a destination
without one to the static routes, exactly where they do not look up an unknown
destination. -/
theorem unknown_destinations_fall_through_iff (n : LsNode) (source destination : Ipv4Address)
    (isDestination lcb : Bool) :
    (n.routeOutput destination = n.outputBy destination (n.entryOf destination) ↔
        destination ∈ n.maps.addressNodeMap) ∧
      (n.routeInput source destination isDestination lcb =
          n.inputBy source destination isDestination lcb (n.entryOf destination) ↔
        n.isOwnAddress source = true ∨ isDestination = true ∨
          destination ∈ n.maps.addressNodeMap) :=
  ⟨routeOutput_eq_iff, routeInput_eq_iff⟩

theorem HopsKnown.routeOutput_eq_error_iff {fault : LsFault} (hn : n.HopsKnown) :
    n.routeOutput destination = .error fault ↔
      fault = .addressNodeMap ∧ destination ∉ n.maps.addressNodeMap := by
  cases hnode : n.maps.addressNodeMap[destination]? with
  | none =>
      have hnot : destination ∉ n.maps.addressNodeMap := by
        simp [mem_iff_exists_getElem?, hnode]
      rw [routeOutput_of_notMem hnode]
      simp [hnot, eq_comm]
  | some node =>
      have hmem : destination ∈ n.maps.addressNodeMap := mem_iff_exists_getElem?.mpr ⟨node, hnode⟩
      refine iff_of_false ?_ fun h => h.2 hmem
      rw [routeOutput_of_mem hnode, entryOf_eq hnode]
      cases hentry : n.routeTable[node]? with
      | none => simp [outputBy]
      | some details =>
          obtain ⟨neighbor, hneighbor⟩ : ∃ neighbor,
              findIn .neighborTable n.neighborTable details.nextHopNumber = .ok neighbor :=
            exists_findIn_of_mem (hn node details hentry)
          rw [outputBy, hneighbor]
          simp [bind, Except.bind, pure, Except.pure]

end LsNode

section Samples

attribute [local instance] CostQueue.ofList

/-- A router that has just started loses its way on `0.0.0.0`, for packets of its
own and for those that it forwards. -/
theorem unspecified_destination_faults :
    ∃ n, Run LsNode.step (fun _ _ => True) sampleRouter [] n ∧
      n.entryOf .getAny = none ∧
      n.routeOutput .getAny = .error .addressNodeMap ∧
      n.routeInput ⟨12⟩ .getAny false true = .error .addressNodeMap := by
  refine ⟨sampleRouter, .nil, ?_⟩
  decide +kernel

end Samples

end PennSearch
