import PennSearch.LinkState.Datagrams

/-!
# Addresses and links from a topology

`main` of `simulator-main.cc` takes the links from a topology file, gives each of them
a network of its own and its two devices the first two addresses there, and enters all
addresses in `g_addressNodeMap` and the first one of every node in `g_nodeAddressMap`.
For every `Topology` this is a `Wiring` whose addresses are distinct.
-/

namespace PennSearch

/-! ## Address assignment -/

/-- `Ipv4AddressHelper` under the mask 255.255.255.0. `network` is already shifted. -/
structure Ipv4AddressHelper where
  network : UInt32
  address : UInt32

namespace Ipv4AddressHelper

/-- `SetBase` for 10.0.0.0, and the default base 0.0.0.1. -/
def setBase : Ipv4AddressHelper := ⟨(0x0a000000 : UInt32) >>> 8, 1⟩

def newAddress (h : Ipv4AddressHelper) : Ipv4Address × Ipv4AddressHelper :=
  (⟨(h.network <<< 8) ||| h.address⟩, { h with address := h.address + 1 })

def newNetwork (h : Ipv4AddressHelper) : Ipv4AddressHelper := ⟨h.network + 1, 1⟩

end Ipv4AddressHelper

/-- An interface on a device, which is given by its link and its end of it: `false` is
`devA` and `true` is `devB` of `PointToPointHelper::Install`. -/
structure Interface where
  device : ℕ × Bool
  address : Ipv4Address
deriving DecidableEq

/-- The helper, and the interfaces of every node but the one for loopback, which has
number 0. -/
structure Assignment where
  helper : Ipv4AddressHelper
  interfaces : UInt32 → List Interface

namespace Assignment

/-- `AddInterface` and `AddAddress` for a device of node `u`. -/
def addDevice (s : Assignment) (u : UInt32) (device : ℕ × Bool) : Assignment where
  helper := s.helper.newAddress.2
  interfaces := Function.update s.interfaces u
    (s.interfaces u ++ [⟨device, s.helper.newAddress.1⟩])

/-- `Assign` for the devices of link `i`, and `NewNetwork`. -/
def assign (s : Assignment) (i : ℕ) (link : UInt32 × UInt32) : Assignment :=
  let s := (s.addDevice link.1 (i, false)).addDevice link.2 (i, true)
  { s with helper := s.helper.newNetwork }

end Assignment

def nodeAt (link : UInt32 × UInt32) (second : Bool) : UInt32 := if second then link.2 else link.1

def hostAddress (i : ℕ) (second : Bool) : Ipv4Address :=
  ⟨((0x0a0000 + UInt32.ofNat i) <<< 8) ||| (if second then 2 else 1)⟩

def portsOf (links : List ((UInt32 × UInt32) × ℕ)) (u : UInt32) : List Interface :=
  links.flatMap fun (link, i) =>
    (if link.1 = u then [⟨(i, false), hostAddress i false⟩] else []) ++
      (if link.2 = u then [⟨(i, true), hostAddress i true⟩] else [])

namespace Assignment

theorem assign_eq (s : Assignment) (i : ℕ) (link : UInt32 × UInt32)
    (hs : s.helper = ⟨0x0a0000 + UInt32.ofNat i, 1⟩) :
    (s.assign i link).helper = ⟨0x0a0000 + UInt32.ofNat (i + 1), 1⟩ ∧
      ∀ u, (s.assign i link).interfaces u = s.interfaces u ++ portsOf [(link, i)] u := by
  have haddr : ∀ second, hostAddress i second =
      ⟨(s.helper.network <<< 8) ||| (if second then 2 else 1)⟩ := by
    intro second
    rw [hs]
    rfl
  constructor
  · simp only [assign, addDevice, Ipv4AddressHelper.newAddress, Ipv4AddressHelper.newNetwork, hs,
      UInt32.ofNat_add, UInt32.add_assoc]
    rfl
  · intro u
    have hone : s.helper.address = 1 := by rw [hs]
    simp only [assign, addDevice, Ipv4AddressHelper.newAddress, portsOf, List.flatMap_cons,
      List.flatMap_nil, List.append_nil, haddr, hone, Function.update_apply]
    by_cases h1 : u = link.1
    · by_cases h2 : u = link.2
      · subst h1
        simp [← h2]
      · subst h1
        simp [h2, Ne.symm h2]
    · by_cases h2 : u = link.2
      · subst h2
        simp [h1, Ne.symm h1]
      · simp [h1, h2, Ne.symm h1, Ne.symm h2]

theorem foldl_assign (links : List (UInt32 × UInt32)) (k : ℕ) (s : Assignment)
    (hs : s.helper = ⟨0x0a0000 + UInt32.ofNat k, 1⟩) (u : UInt32) :
    ((links.zipIdx k).foldl (fun s l => s.assign l.2 l.1) s).interfaces u =
      s.interfaces u ++ portsOf (links.zipIdx k) u := by
  induction links generalizing k s with
  | nil => simp [portsOf]
  | cons link links ih =>
      obtain ⟨hhelper, hinterfaces⟩ := s.assign_eq k link hs
      rw [List.zipIdx_cons, List.foldl_cons, ih (k + 1) _ hhelper, hinterfaces]
      simp [portsOf]

end Assignment

/-! ## The interfaces of a node -/

theorem mem_portsOf {links : List (UInt32 × UInt32)} {u : UInt32} {x : Interface} :
    x ∈ portsOf links.zipIdx u ↔ ∃ link, links[x.device.1]? = some link ∧
      nodeAt link x.device.2 = u ∧ x.address = hostAddress x.device.1 x.device.2 := by
  obtain ⟨⟨i, second⟩, address⟩ := x
  simp only [portsOf, List.mem_flatMap, Prod.exists, List.mem_zipIdx_iff_getElem?,
    List.mem_append]
  constructor
  · rintro ⟨src, dst, j, hlink, hx | hx⟩
    · by_cases h : src = u
      · rw [if_pos h] at hx
        cases List.mem_singleton.mp hx
        exact ⟨src, dst, hlink, h, rfl⟩
      · rw [if_neg h] at hx
        cases hx
    · by_cases h : dst = u
      · rw [if_pos h] at hx
        cases List.mem_singleton.mp hx
        exact ⟨src, dst, hlink, h, rfl⟩
      · rw [if_neg h] at hx
        cases hx
  · rintro ⟨src, dst, hlink, hnode, rfl⟩
    refine ⟨src, dst, i, hlink, ?_⟩
    cases second with
    | false => exact Or.inl (by simp_all [nodeAt])
    | true => exact Or.inr (by simp_all [nodeAt])

theorem nodup_portsOf (links : List (UInt32 × UInt32)) (u : UInt32) :
    ((portsOf links.zipIdx u).map Interface.device).Nodup := by
  rw [portsOf, List.map_flatMap, List.nodup_flatMap]
  constructor
  · rintro ⟨link, i⟩ -
    dsimp only
    split_ifs <;> simp
  · have hindex : links.zipIdx.Pairwise fun p q => p.2 ≠ q.2 := by
      rw [← List.pairwise_map]
      rw [List.zipIdx_map_snd]
      exact List.nodup_range'
    refine hindex.imp fun {p q} hne => ?_
    intro x hx hy
    obtain ⟨x', hx', rfl⟩ := List.mem_map.mp hx
    obtain ⟨y', hy', hxy⟩ := List.mem_map.mp hy
    have hi : ∀ {r : (UInt32 × UInt32) × ℕ} {z : Interface},
        z ∈ (if r.1.1 = u then [⟨(r.2, false), hostAddress r.2 false⟩] else []) ++
          (if r.1.2 = u then [⟨(r.2, true), hostAddress r.2 true⟩] else []) →
            z.device.1 = r.2 := by
      intro r z hz
      rcases List.mem_append.mp hz with hz | hz
      · split at hz
        · rw [List.mem_singleton.mp hz]
        · cases hz
      · split at hz
        · rw [List.mem_singleton.mp hz]
        · cases hz
    exact hne ((hi hx').symm.trans ((congrArg Prod.fst hxy).symm.trans (hi hy')))

/-! ## The addresses of the ends of links -/

theorem toNat_hostAddress {i : ℕ} (hi : i < 0x750000) (second : Bool) :
    (hostAddress i second).address.toNat =
      (0x0a0000 + i) * 256 + if second then 2 else 1 := by
  have hnetwork : (0x0a0000 + UInt32.ofNat i).toNat = 0x0a0000 + i := by
    have h : (UInt32.ofNat i).toNat = i := UInt32.toNat_ofNat_of_lt' (by
      have hsize : UInt32.size = 4294967296 := rfl
      omega)
    have hbase : (0x0a0000 : UInt32).toNat = 0x0a0000 := rfl
    rw [UInt32.toNat_add, h, hbase]
    omega
  have hshift : ((0x0a0000 + UInt32.ofNat i) <<< 8).toNat = (0x0a0000 + i) <<< 8 := by
    rw [UInt32.toNat_shiftLeft, hnetwork]
    have h : (8 : UInt32).toNat % 32 = 8 := rfl
    rw [h, Nat.shiftLeft_eq]
    omega
  have hlast : (if second then (2 : UInt32) else 1).toNat = if second then 2 else 1 := by
    cases second <;> rfl
  have hlt : (if second then 2 else 1) < 2 ^ 8 := by
    cases second <;> decide
  rw [hostAddress, UInt32.toNat_or, hshift, hlast, ← Nat.shiftLeft_add_eq_or_of_lt hlt,
    Nat.shiftLeft_eq]

theorem hostAddress_inj {i j : ℕ} (hi : i < 0x750000) (hj : j < 0x750000) {b b' : Bool}
    (h : hostAddress i b = hostAddress j b') : i = j ∧ b = b' := by
  have hnat : (hostAddress i b).address.toNat = (hostAddress j b').address.toNat := by rw [h]
  rw [toNat_hostAddress hi, toNat_hostAddress hj] at hnat
  cases b <;> cases b' <;> simp at hnat ⊢ <;> omega

theorem isHost_hostAddress {i : ℕ} (hi : i < 0x750000) (second : Bool) :
    (hostAddress i second).IsHost := by
  have hnat := toNat_hostAddress hi second
  have hlast : (if second then 2 else 1) = 1 ∨ (if second then 2 else 1) = 2 := by
    cases second <;> simp
  generalize (if second then 2 else 1) = last at hnat hlast
  constructor
  · have hlow : ¬ (0xe0000000 : UInt32) ≤ (hostAddress i second).address := by
      rw [UInt32.le_iff_toNat_le, hnat]
      have h : (0xe0000000 : UInt32).toNat = 0xe0000000 := rfl
      omega
    simp [Ipv4Address.isMulticast, hlow]
  · refine decide_eq_false fun heq => ?_
    have h : (0xffffffff : UInt32).toNat = 0xffffffff := rfl
    rw [heq, h] at hnat
    omega
  · intro heq
    have h : Ipv4Address.loopback.address.toNat = 0x7f000001 := rfl
    rw [heq, h] at hnat
    omega
  · intro heq
    -- the last byte of a directed broadcast is 255
    have hor : (hostAddress i second).address.toNat ||| 255 =
        (hostAddress i second).address.toNat :=
      congrArg (fun a : Ipv4Address => a.address.toNat) heq
    have hmod := congrArg (· % 2 ^ 8) hor
    simp only [Nat.or_mod_two_pow, hnat] at hmod
    rcases hlast with rfl | rfl <;> simp [Nat.add_mod] at hmod

theorem hostAddress_ne_loopback {i : ℕ} (hi : i < 0x750000) (second : Bool) :
    hostAddress i second ≠ .loopback :=
  (isHost_hostAddress hi second).loopback

/-! ## The maps, and the sockets of a router -/

/-- `g_addressNodeMap` and `g_nodeAddressMap`. -/
structure AddressTables where
  addressNodeMap : Std.ExtTreeMap Ipv4Address UInt32
  nodeAddressMap : Std.ExtTreeMap UInt32 Ipv4Address

/-- The loop of `main` over the interfaces of node `u`, from one that has the first of the
addresses on. -/
def enterAddresses (u : UInt32) (mainSet : Bool) :
    List Ipv4Address → AddressTables → AddressTables
  | [], m => m
  | addr :: rest, m =>
      if addr = .loopback then enterAddresses u mainSet rest m
      else
        let m := { m with addressNodeMap := m.addressNodeMap.insertIfNew addr u }
        if mainSet then enterAddresses u true rest m
        else enterAddresses u true rest
          { m with nodeAddressMap := m.nodeAddressMap.insertIfNew u addr }

/-- The sockets that `DoStart` creates, when the interfaces have these addresses. -/
def startSockets (addresses : List Ipv4Address) : Std.ExtTreeMap LsSocket Ipv4Address :=
  addresses.zipIdx.foldl (fun m x => if x.1 = .loopback then m else m.insert x.2 x.1) ∅

section Maps

variable {κ α : Type} [Ord κ] [Std.TransOrd κ] [Std.LawfulEqOrd κ] [DecidableEq κ]

theorem getElem?_insertIfNew_eq (m : Std.ExtTreeMap κ α) (k a : κ) (v : α) :
    (m.insertIfNew k v)[a]? = m[a]?.or (if k = a then some v else none) := by
  rw [Std.ExtTreeMap.getElem?_insertIfNew]
  simp only [Std.compare_eq_iff_eq]
  by_cases hk : k = a
  · subst hk
    cases hm : m[k]? with
    | none =>
        have hmem : k ∉ m := by simp [mem_iff_exists_getElem?, hm]
        simp [hmem]
    | some b =>
        have hmem : k ∈ m := mem_iff_exists_getElem?.mpr ⟨b, hm⟩
        simp [hmem]
  · simp [hk]

theorem foldl_or {σ β γ : Type} (get : σ → Option γ) (f : σ → β → σ) (g : β → Option γ)
    (h : ∀ m b, get (f m b) = (get m).or (g b)) (bs : List β) (m : σ) :
    get (bs.foldl f m) = (get m).or (bs.findSome? g) := by
  induction bs generalizing m with
  | nil => simp
  | cons b bs ih =>
      rw [List.foldl_cons, ih, h, Option.or_assoc, List.findSome?_cons]
      cases g b <;> rfl

end Maps

theorem enterAddresses_addressNodeMap (u : UInt32) (mainSet : Bool) (addresses : List Ipv4Address)
    (m : AddressTables) (a : Ipv4Address) :
    (enterAddresses u mainSet addresses m).addressNodeMap[a]? =
      m.addressNodeMap[a]?.or (if a ∈ addresses ∧ a ≠ .loopback then some u else none) := by
  induction addresses generalizing mainSet m with
  | nil => simp [enterAddresses]
  | cons addr rest ih =>
      have hstep : ∀ m' : AddressTables,
          m'.addressNodeMap = m.addressNodeMap.insertIfNew addr u → addr ≠ .loopback →
            m'.addressNodeMap[a]?.or (if a ∈ rest ∧ a ≠ .loopback then some u else none) =
              m.addressNodeMap[a]?.or
                (if a ∈ addr :: rest ∧ a ≠ .loopback then some u else none) := by
        intro m' hm' hne
        rw [hm', getElem?_insertIfNew_eq, Option.or_assoc]
        by_cases ha : addr = a
        · subst ha
          simp [hne]
        · simp [ha, Ne.symm ha]
      rw [enterAddresses]
      split
      · rename_i hloop
        rw [ih]
        by_cases ha : a = addr
        · subst ha
          simp [hloop]
        · simp [ha]
      · rename_i hne
        split
        · rw [ih]
          exact hstep _ rfl hne
        · rw [ih]
          exact hstep _ rfl hne

theorem enterAddresses_nodeAddressMap (u : UInt32) (mainSet : Bool) (addresses : List Ipv4Address)
    (m : AddressTables) (v : UInt32) :
    (enterAddresses u mainSet addresses m).nodeAddressMap[v]? =
      m.nodeAddressMap[v]?.or (if u = v ∧ mainSet = false then
        addresses.find? (fun addr => addr ≠ .loopback) else none) := by
  induction addresses generalizing mainSet m with
  | nil => simp [enterAddresses]
  | cons addr rest ih =>
      rw [enterAddresses]
      split
      · rename_i hloop
        rw [ih, List.find?_cons_of_neg (by simpa using hloop)]
      · rename_i hne
        have hfind : (addr :: rest).find? (fun addr => addr ≠ .loopback) = some addr :=
          List.find?_cons_of_pos (by simpa using hne)
        cases mainSet with
        | true => simp [ih]
        | false =>
            rw [if_neg Bool.false_ne_true, ih, hfind, getElem?_insertIfNew_eq]
            simp

theorem getElem?_startSockets {addresses : List Ipv4Address} {s : LsSocket} {a : Ipv4Address} :
    (startSockets addresses)[s]? = some a ↔ addresses[s]? = some a ∧ a ≠ .loopback := by
  induction addresses using List.reverseRecOn with
  | nil => simp [startSockets]
  | append_singleton rest addr ih =>
      have hconcat : startSockets (rest ++ [addr]) =
          if addr = .loopback then startSockets rest
          else (startSockets rest).insert rest.length addr := by
        simp [startSockets, List.zipIdx_append]
      have hget : (rest ++ [addr])[s]? = if s = rest.length then some addr else rest[s]? := by
        rcases lt_trichotomy s rest.length with hs | rfl | hs
        · rw [List.getElem?_append_left hs, if_neg hs.ne]
        · simp
        · rw [List.getElem?_eq_none (by simpa using hs), if_neg hs.ne',
            List.getElem?_eq_none hs.le]
      rw [hconcat, hget]
      by_cases hs : s = rest.length
      · subst hs
        have hend : rest[rest.length]? = none := List.getElem?_eq_none le_rfl
        by_cases hloop : addr = .loopback
        · rw [if_pos hloop, ih, hend]
          simp [hloop, eq_comm]
        · rw [if_neg hloop, getElem?_insert_eq]
          simp only [if_true, Option.some.injEq]
          exact ⟨fun h => ⟨h, h ▸ hloop⟩, fun h => h.1⟩
      · rw [if_neg hs, ← ih]
        split_ifs
        · rfl
        · rw [getElem?_insert_eq, if_neg (Ne.symm hs)]

/-! ## The topology -/

/-- A topology file whose nodes are all at the end of a link, as `main` demands (else it
stops with `Corrupt node container!`). `main` does not reject a link from a node to itself;
there is none here, and the networks of the links end before 127.0.0.0. -/
structure Topology where
  totalNodes : UInt32
  links : List (UInt32 × UInt32)
  ends : ∀ link ∈ links, ∀ second, nodeAt link second < totalNodes
  linked : ∀ u < totalNodes, ∃ link ∈ links, ∃ second, nodeAt link second = u
  proper : ∀ link ∈ links, link.1 ≠ link.2
  few : links.length ≤ 0x750000

namespace Topology

variable (t : Topology)

def assignment : Assignment :=
  t.links.zipIdx.foldl (fun s l => s.assign l.2 l.1) ⟨.setBase, fun _ => []⟩

def interfaces (u : UInt32) : List Interface := t.assignment.interfaces u

def addresses (u : UInt32) : List Ipv4Address :=
  .loopback :: (t.interfaces u).map Interface.address

/-- The nodes, in the order of the loops of `main`. -/
def nodes : List UInt32 := (List.range t.totalNodes.toNat).map UInt32.ofNat

def tables : AddressTables :=
  t.nodes.foldl (fun m u => enterAddresses u false (t.addresses u) m) ⟨∅, ∅⟩

/-- The address of the interface that `SetMainInterface` gets. -/
def mainAddress (u : UInt32) : Ipv4Address :=
  ((t.addresses u).find? fun addr => addr ≠ .loopback).getD .getAny

def interfaceForDevice (u : UInt32) (device : ℕ × Bool) : LsSocket :=
  ((t.interfaces u).map Interface.device).idxOf device + 1

def peer (u : UInt32) : LsSocket → Option (UInt32 × LsSocket)
  | 0 => none
  | s + 1 => do
      let interface ← (t.interfaces u)[s]?
      let link ← t.links[interface.device.1]?
      let v := nodeAt link (!interface.device.2)
      return (v, t.interfaceForDevice v (interface.device.1, !interface.device.2))

variable {t : Topology} {u v : UInt32} {s s' : LsSocket} {a : Ipv4Address} {x : Interface}

theorem interfaces_eq (t : Topology) (u : UInt32) :
    t.interfaces u = portsOf t.links.zipIdx u := by
  rw [interfaces, assignment, Assignment.foldl_assign t.links 0 _ rfl, List.nil_append]

theorem mem_interfaces : x ∈ t.interfaces u ↔ ∃ link, t.links[x.device.1]? = some link ∧
    nodeAt link x.device.2 = u ∧ x.address = hostAddress x.device.1 x.device.2 := by
  rw [interfaces_eq, mem_portsOf]

theorem few_of_mem (h : x ∈ t.interfaces u) : x.device.1 < 0x750000 := by
  obtain ⟨link, hlink, -⟩ := mem_interfaces.mp h
  exact (List.getElem?_eq_some_iff.mp hlink).1.trans_le t.few

theorem ne_loopback (h : x ∈ t.interfaces u) : x.address ≠ .loopback := by
  obtain ⟨link, -, -, haddress⟩ := mem_interfaces.mp h
  rw [haddress]
  exact hostAddress_ne_loopback (few_of_mem h) _

theorem eq_of_address {y : Interface} (hx : x ∈ t.interfaces u) (hy : y ∈ t.interfaces v)
    (h : x.address = y.address) : u = v ∧ x = y := by
  obtain ⟨link, hlink, rfl, hxaddress⟩ := mem_interfaces.mp hx
  obtain ⟨link', hlink', rfl, hyaddress⟩ := mem_interfaces.mp hy
  obtain ⟨hi, hb⟩ := hostAddress_inj (few_of_mem hx) (few_of_mem hy)
    (hxaddress.symm.trans (h.trans hyaddress))
  have hdevice : x.device = y.device := Prod.ext hi hb
  rw [hdevice] at hlink ⊢
  obtain rfl := Option.some.inj (hlink.symm.trans hlink')
  refine ⟨rfl, ?_⟩
  obtain ⟨device, address⟩ := x
  obtain ⟨device', address'⟩ := y
  obtain rfl : device = device' := hdevice
  obtain rfl : address = address' := h
  rfl

theorem mem_addresses (ha : a ≠ .loopback) :
    a ∈ t.addresses u ↔ ∃ x ∈ t.interfaces u, x.address = a := by
  simp [addresses, ha]

theorem mem_nodes : u ∈ t.nodes ↔ u < t.totalNodes := by
  simp only [nodes, List.mem_map, List.mem_range, UInt32.lt_iff_toNat_lt]
  constructor
  · rintro ⟨k, hk, rfl⟩
    have hsmall : k < 2 ^ 32 := hk.trans t.totalNodes.toNat_lt
    rwa [UInt32.toNat_ofNat_of_lt' hsmall]
  · intro hu
    exact ⟨u.toNat, hu, UInt32.ofNat_toNat⟩

theorem lt_of_mem (h : x ∈ t.interfaces u) : u < t.totalNodes := by
  obtain ⟨link, hlink, rfl, -⟩ := mem_interfaces.mp h
  exact t.ends link (List.mem_of_getElem? hlink) _

theorem addressNodeMap_eq_some :
    t.tables.addressNodeMap[a]? = some u ↔ ∃ x ∈ t.interfaces u, x.address = a := by
  have hget := foldl_or (fun m : AddressTables => m.addressNodeMap[a]?)
    (fun m u => enterAddresses u false (t.addresses u) m)
    (fun u => if a ∈ t.addresses u ∧ a ≠ .loopback then some u else none)
    (fun m u => enterAddresses_addressNodeMap u false (t.addresses u) m a) t.nodes ⟨∅, ∅⟩
  rw [tables]
  simp only [Std.ExtTreeMap.getElem?_empty, Option.none_or] at hget
  rw [hget]
  constructor
  · intro h
    obtain ⟨u', -, hu'⟩ := List.exists_of_findSome?_eq_some h
    split at hu'
    · rename_i ha
      obtain rfl := Option.some.inj hu'
      exact (mem_addresses ha.2).mp ha.1
    · cases hu'
  · rintro ⟨x, hx, rfl⟩
    have hne := ne_loopback hx
    have hmem : x.address ∈ t.addresses u := (mem_addresses hne).mpr ⟨x, hx, rfl⟩
    obtain ⟨v, hv⟩ : ∃ v, t.nodes.findSome? (fun u =>
        if x.address ∈ t.addresses u ∧ x.address ≠ .loopback then some u else none) = some v := by
      rw [← Option.isSome_iff_exists, List.findSome?_isSome_iff]
      exact ⟨u, mem_nodes.mpr (lt_of_mem hx), by simp [hmem, hne]⟩
    obtain ⟨v', -, hv'⟩ := List.exists_of_findSome?_eq_some hv
    split at hv'
    · rename_i ha
      obtain ⟨y, hy, hxy⟩ := (mem_addresses ha.2).mp ha.1
      obtain rfl := Option.some.inj hv'
      obtain ⟨rfl, -⟩ := eq_of_address hy hx hxy
      exact hv
    · cases hv'

theorem exists_main (hu : u < t.totalNodes) :
    ∃ x rest, t.interfaces u = x :: rest ∧ t.mainAddress u = x.address ∧
      (t.addresses u).find? (fun addr => addr ≠ .loopback) = some x.address := by
  obtain ⟨link, hlink, second, hnode⟩ := t.linked u hu
  obtain ⟨i, hi⟩ := List.mem_iff_getElem?.mp hlink
  have hmem : (⟨(i, second), hostAddress i second⟩ : Interface) ∈ t.interfaces u :=
    mem_interfaces.mpr ⟨link, hi, hnode, rfl⟩
  cases hlist : t.interfaces u with
  | nil =>
      rw [hlist] at hmem
      cases hmem
  | cons x rest =>
      have hx : x.address ≠ .loopback := ne_loopback (hlist ▸ List.mem_cons_self)
      have hfind : (t.addresses u).find? (fun addr => addr ≠ .loopback) = some x.address := by
        simp [addresses, hlist, hx]
      exact ⟨x, rest, rfl, by rw [mainAddress, hfind, Option.getD_some], hfind⟩

theorem nodeAddressMap_eq (hu : u < t.totalNodes) :
    t.tables.nodeAddressMap[u]? = some (t.mainAddress u) := by
  obtain ⟨x, -, -, hmain, hfind⟩ := t.exists_main hu
  have hget := foldl_or (fun m : AddressTables => m.nodeAddressMap[u]?)
    (fun m v => enterAddresses v false (t.addresses v) m)
    (fun v => if v = u ∧ false = false then
      (t.addresses v).find? (fun addr => addr ≠ .loopback) else none)
    (fun m v => enterAddresses_nodeAddressMap v false (t.addresses v) m u) t.nodes ⟨∅, ∅⟩
  rw [tables]
  simp only [Std.ExtTreeMap.getElem?_empty, Option.none_or, and_true] at hget
  rw [hget, hmain]
  obtain ⟨b, hb⟩ : ∃ b, t.nodes.findSome? (fun v => if v = u then
      (t.addresses v).find? (fun addr => addr ≠ .loopback) else none) = some b := by
    rw [← Option.isSome_iff_exists, List.findSome?_isSome_iff]
    exact ⟨u, mem_nodes.mpr hu, by rw [if_pos rfl, hfind]; rfl⟩
  obtain ⟨v, -, hv⟩ := List.exists_of_findSome?_eq_some hb
  split at hv
  · rename_i hvu
    rw [hb, ← hv, hvu, hfind]
  · cases hv

/-! ## Links -/

theorem interfaceForDevice_eq (hs : (t.interfaces u)[s]? = some x) :
    t.interfaceForDevice u x.device = s + 1 := by
  have hnodup : ((t.interfaces u).map Interface.device).Nodup := by
    rw [interfaces_eq]
    exact nodup_portsOf _ _
  have hget : ((t.interfaces u).map Interface.device)[s]? = some x.device := by
    rw [List.getElem?_map, hs, Option.map_some]
  obtain ⟨hlt, hget⟩ := List.getElem?_eq_some_iff.mp hget
  rw [interfaceForDevice, ← hget, hnodup.idxOf_getElem]

theorem getElem?_interfaceForDevice (hx : x ∈ t.interfaces u) :
    ∃ s, t.interfaceForDevice u x.device = s + 1 ∧ (t.interfaces u)[s]? = some x := by
  obtain ⟨s, hs⟩ := List.mem_iff_getElem?.mp hx
  exact ⟨s, interfaceForDevice_eq hs, hs⟩

def opposite (x : Interface) : Interface :=
  ⟨(x.device.1, !x.device.2), hostAddress x.device.1 (!x.device.2)⟩

theorem opposite_opposite (hx : x ∈ t.interfaces u) : opposite (opposite x) = x := by
  obtain ⟨-, -, -, haddress⟩ := mem_interfaces.mp hx
  obtain ⟨⟨i, second⟩, address⟩ := x
  simp only [opposite, Bool.not_not]
  rw [← haddress]

theorem exists_opposite (hx : x ∈ t.interfaces u) :
    ∃ v, v ≠ u ∧ opposite x ∈ t.interfaces v := by
  obtain ⟨link, hlink, rfl, -⟩ := mem_interfaces.mp hx
  refine ⟨nodeAt link (!x.device.2), ?_, mem_interfaces.mpr ⟨link, hlink, rfl, rfl⟩⟩
  have hproper := t.proper link (List.mem_of_getElem? hlink)
  cases x.device.2 <;> simp [nodeAt, hproper, Ne.symm hproper]

theorem peer_eq_some_iff {q : UInt32 × LsSocket} :
    t.peer u s = some q ↔ ∃ k j x, s = k + 1 ∧ q.2 = j + 1 ∧ (t.interfaces u)[k]? = some x ∧
      (t.interfaces q.1)[j]? = some (opposite x) := by
  constructor
  · intro h
    cases s with
    | zero => cases h
    | succ k =>
        simp only [peer, Option.bind_eq_bind, Option.bind_eq_some_iff, Option.pure_def,
          Option.some.injEq] at h
        obtain ⟨x, hx, link, hlink, rfl⟩ := h
        have hmem : opposite x ∈ t.interfaces (nodeAt link (!x.device.2)) :=
          mem_interfaces.mpr ⟨link, hlink, rfl, rfl⟩
        obtain ⟨j, hj, hget⟩ := getElem?_interfaceForDevice hmem
        exact ⟨k, j, x, rfl, hj, hx, hget⟩
  · rintro ⟨k, j, x, rfl, hj, hx, hopposite⟩
    obtain ⟨link, hlink, hnode, -⟩ := mem_interfaces.mp (List.mem_of_getElem? hopposite)
    have hdevice := interfaceForDevice_eq hopposite
    simp only [peer, Option.bind_eq_bind, hx, Option.bind_some, Option.pure_def]
    change (t.links[x.device.1]?.bind _) = _
    rw [show t.links[x.device.1]? = some link from hlink, Option.bind_some, Option.some.injEq]
    refine Prod.ext hnode ?_
    change t.interfaceForDevice (nodeAt link (!x.device.2)) (opposite x).device = q.2
    rw [hj, ← hdevice]
    exact congrArg (fun v => t.interfaceForDevice v (opposite x).device) hnode

theorem peer_symm {q : UInt32 × LsSocket} (h : t.peer u s = some q) :
    t.peer q.1 q.2 = some (u, s) := by
  obtain ⟨k, j, x, rfl, hj, hx, hopposite⟩ := peer_eq_some_iff.mp h
  refine peer_eq_some_iff.mpr ⟨j, k, opposite x, hj, rfl, hopposite, ?_⟩
  rw [opposite_opposite (List.mem_of_getElem? hx)]
  exact hx

/-! ## The routers -/

theorem getElem?_sockets : (startSockets (t.addresses u))[s]? = some a ↔
    ∃ k x, s = k + 1 ∧ (t.interfaces u)[k]? = some x ∧ x.address = a := by
  rw [getElem?_startSockets]
  cases s with
  | zero =>
      constructor
      · rintro ⟨h, hne⟩
        exact absurd (Option.some.inj h).symm hne
      · rintro ⟨k, x, h, -⟩
        cases h
  | succ s =>
      rw [addresses, List.getElem?_cons_succ, List.getElem?_map, Option.map_eq_some_iff]
      constructor
      · rintro ⟨⟨x, hx, rfl⟩, -⟩
        exact ⟨s, x, rfl, hx, rfl⟩
      · rintro ⟨k, x, hk, hx, rfl⟩
        obtain rfl := Nat.succ.inj hk
        exact ⟨⟨x, hx, rfl⟩, ne_loopback (List.mem_of_getElem? hx)⟩

def maps (t : Topology) : AddressMaps where
  nodeAddressMap := t.tables.nodeAddressMap
  addressNodeMap := t.tables.addressNodeMap
  resolves h := by
    obtain ⟨x, hx, -⟩ := addressNodeMap_eq_some.mp h
    exact mem_iff_exists_getElem?.mpr ⟨_, nodeAddressMap_eq (lt_of_mem hx)⟩

def wiring (t : Topology) : Wiring where
  members := t.nodes.toFinset
  maps := t.maps
  mainAddress := t.mainAddress
  socketAddresses u := startSockets (t.addresses u)
  peer := t.peer
  number u hu := by
    obtain ⟨x, rest, hlist, hmain, -⟩ := t.exists_main (mem_nodes.mp (List.mem_toFinset.mp hu))
    rw [hmain]
    exact addressNodeMap_eq_some.mpr ⟨x, hlist ▸ List.mem_cons_self, rfl⟩
  main_mem u hu := by
    obtain ⟨x, rest, hlist, hmain, -⟩ := t.exists_main (mem_nodes.mp (List.mem_toFinset.mp hu))
    exact ⟨1, getElem?_sockets.mpr ⟨0, x, rfl, by rw [hlist]; rfl, hmain.symm⟩⟩
  main_ne u hu := by
    obtain ⟨x, rest, hlist, hmain, -⟩ := t.exists_main (mem_nodes.mp (List.mem_toFinset.mp hu))
    have hmem : x ∈ t.interfaces u := hlist ▸ List.mem_cons_self
    obtain ⟨link, -, -, haddress⟩ := mem_interfaces.mp hmem
    rw [hmain, haddress]
    intro heq
    have hnat := toNat_hostAddress (few_of_mem hmem) x.device.2
    rw [heq] at hnat
    have hzero : Ipv4Address.getAny.address.toNat = 0 := rfl
    omega
  peer_symm h := peer_symm h
  peer_mem h := by
    obtain ⟨k, j, x, rfl, hj, hx, hopposite⟩ := peer_eq_some_iff.mp h
    have hmem := List.mem_of_getElem? hx
    refine ⟨List.mem_toFinset.mpr (mem_nodes.mpr (lt_of_mem hmem)), ?_, ?_⟩
    · exact mem_iff_exists_getElem?.mpr ⟨_, getElem?_sockets.mpr ⟨k, x, rfl, hx, rfl⟩⟩
    · rintro rfl
      obtain ⟨v, hne, hv⟩ := exists_opposite hmem
      exact hne (eq_of_address hv (List.mem_of_getElem? hopposite) rfl).1

theorem mem_members : u ∈ t.wiring.members ↔ u < t.totalNodes :=
  List.mem_toFinset.trans mem_nodes

theorem getElem?_socketAddresses : (t.wiring.socketAddresses u)[s]? = some a ↔
    ∃ k x, s = k + 1 ∧ (t.interfaces u)[k]? = some x ∧ x.address = a :=
  getElem?_sockets

theorem wiring_addressed (t : Topology) : t.wiring.Addressed where
  numbered u _ s a h := by
    obtain ⟨k, x, -, hx, rfl⟩ := getElem?_socketAddresses.mp h
    exact addressNodeMap_eq_some.mpr ⟨x, List.mem_of_getElem? hx, rfl⟩
  owned a u h := by
    obtain ⟨x, hx, rfl⟩ := addressNodeMap_eq_some.mp h
    obtain ⟨link, -, -, haddress⟩ := mem_interfaces.mp hx
    obtain ⟨k, hk⟩ := List.mem_iff_getElem?.mp hx
    refine ⟨mem_members.mpr (lt_of_mem hx), ?_, k + 1,
      getElem?_socketAddresses.mpr ⟨k, x, rfl, hk, rfl⟩⟩
    exact haddress ▸ isHost_hostAddress (few_of_mem hx) _
  inj u _ s s' a h h' := by
    obtain ⟨k, x, rfl, hx, rfl⟩ := getElem?_socketAddresses.mp h
    obtain ⟨k', x', rfl, hx', haddress⟩ := getElem?_socketAddresses.mp h'
    obtain ⟨-, rfl⟩ :=
      eq_of_address (List.mem_of_getElem? hx') (List.mem_of_getElem? hx) haddress
    rw [← interfaceForDevice_eq hx, ← interfaceForDevice_eq hx']

theorem directedBroadcast_hostAddress {i : ℕ} (hi : i < 0x750000) (second : Bool) :
    (hostAddress i second).directedBroadcast.address.toNat = (0x0a0000 + i) * 2 ^ 8 + 255 := by
  have hor : (if second then 2 else 1) ||| 255 = 255 := by cases second <;> decide
  have hlt : (if second then 2 else 1) < 2 ^ 8 := by cases second <;> decide
  have h255 : (255 : UInt32).toNat = 255 := rfl
  rw [Ipv4Address.directedBroadcast, UInt32.toNat_or, toNat_hostAddress hi, h255,
    show 256 = 2 ^ 8 from rfl, ← Nat.shiftLeft_eq, Nat.shiftLeft_add_eq_or_of_lt hlt, Nat.or_assoc,
    hor, Nat.shiftLeft_add_eq_or_of_lt (by decide)]

theorem directedBroadcast_eq_iff {y : Interface} (hx : x ∈ t.interfaces u)
    (hy : y ∈ t.interfaces v) :
    x.address.directedBroadcast = y.address.directedBroadcast ↔ x = y ∨ y = opposite x := by
  obtain ⟨link, -, -, hxaddress⟩ := mem_interfaces.mp hx
  obtain ⟨link', -, -, hyaddress⟩ := mem_interfaces.mp hy
  have hiff : x.address.directedBroadcast = y.address.directedBroadcast ↔
      x.device.1 = y.device.1 := by
    constructor
    · intro h
      have hnat : x.address.directedBroadcast.address.toNat =
          y.address.directedBroadcast.address.toNat := by rw [h]
      rw [hxaddress, hyaddress, directedBroadcast_hostAddress (few_of_mem hx),
        directedBroadcast_hostAddress (few_of_mem hy)] at hnat
      omega
    · intro h
      have hnat : x.address.directedBroadcast.address.toNat =
          y.address.directedBroadcast.address.toNat := by
        rw [hxaddress, hyaddress, directedBroadcast_hostAddress (few_of_mem hx),
          directedBroadcast_hostAddress (few_of_mem hy), h]
      exact congrArg Ipv4Address.mk (UInt32.toNat_inj.mp hnat)
  rw [hiff]
  obtain ⟨⟨i, b⟩, address⟩ := x
  obtain ⟨⟨j, b'⟩, address'⟩ := y
  obtain rfl : address = hostAddress i b := hxaddress
  obtain rfl : address' = hostAddress j b' := hyaddress
  constructor
  · intro h
    obtain rfl : i = j := h
    by_cases hb : b' = b
    · exact Or.inl (by rw [hb])
    · obtain rfl : b' = !b := by cases b <;> cases b' <;> simp_all
      exact Or.inr rfl
  · rintro (h | h)
    · exact congrArg (fun z : Interface => z.device.1) h
    · exact (congrArg (fun z : Interface => z.device.1) h).symm

/-- What `main` sets up. The maps have exactly the addresses of the interfaces, each at one
interface, and every address is one of a host. `g_nodeAddressMap` gives a node its main
address. Two interfaces are in one network exactly if they are one or the two ends of a
link, so that a directed broadcast is heard at the other end and nowhere else. -/
theorem addresses_assigned (t : Topology) :
    t.wiring.Addressed ∧
      (∀ u ∈ t.wiring.members,
        t.wiring.maps.nodeAddressMap[u]? = some (t.wiring.mainAddress u)) ∧
      ∀ (u v : UInt32) (s s' : LsSocket) (a b : Ipv4Address),
        (t.wiring.socketAddresses u)[s]? = some a → (t.wiring.socketAddresses v)[s']? = some b →
          (a.directedBroadcast = b.directedBroadcast ↔
            (u, s) = (v, s') ∨ t.wiring.peer u s = some (v, s')) := by
  refine ⟨t.wiring_addressed, fun u hu => nodeAddressMap_eq (mem_members.mp hu), ?_⟩
  intro u v s s' a b ha hb
  obtain ⟨k, x, rfl, hx, rfl⟩ := getElem?_socketAddresses.mp ha
  obtain ⟨k', y, rfl, hy, rfl⟩ := getElem?_socketAddresses.mp hb
  have hxmem := List.mem_of_getElem? hx
  have hymem := List.mem_of_getElem? hy
  rw [directedBroadcast_eq_iff hxmem hymem]
  constructor
  · rintro (rfl | rfl)
    · obtain ⟨rfl, -⟩ := eq_of_address hxmem hymem rfl
      have hk : k + 1 = k' + 1 := by rw [← interfaceForDevice_eq hx, ← interfaceForDevice_eq hy]
      exact Or.inl (by rw [hk])
    · exact Or.inr (peer_eq_some_iff.mpr ⟨k, k', x, rfl, rfl, hx, hy⟩)
  · rintro (h | h)
    · obtain ⟨rfl, hk⟩ := Prod.mk.inj h
      obtain rfl := Nat.succ.inj hk
      exact Or.inl (Option.some.inj (hx.symm.trans hy))
    · have hpeer : t.peer u (k + 1) = some (v, k' + 1) := h
      obtain ⟨k₁, k₂, z, hk₁, hk₂, hz, hopposite⟩ := peer_eq_some_iff.mp hpeer
      obtain rfl := Nat.succ.inj hk₁
      obtain rfl := Nat.succ.inj hk₂
      obtain rfl := Option.some.inj (hx.symm.trans hz)
      exact Or.inr (Option.some.inj (hy.symm.trans hopposite))

end Topology

theorem sampleLinks_ends {link : UInt32 × UInt32} (h : link ∈ [(0, 1), (2, 1)]) :
    link = (0, 1) ∨ link = (2, 1) := by
  simpa using h

def sampleTopology : Topology where
  totalNodes := 3
  links := [(0, 1), (2, 1)]
  ends link hlink second := by
    rcases sampleLinks_ends hlink with rfl | rfl <;> cases second <;> decide
  linked u hu := by
    have hsmall : u.toNat < 3 := UInt32.lt_iff_toNat_lt.mp hu
    rcases (by omega : u.toNat = 0 ∨ u.toNat = 1 ∨ u.toNat = 2) with h | h | h
    · exact ⟨(0, 1), by simp, false, UInt32.toNat_inj.mp h.symm⟩
    · exact ⟨(0, 1), by simp, true, UInt32.toNat_inj.mp h.symm⟩
    · exact ⟨(2, 1), by simp, false, UInt32.toNat_inj.mp h.symm⟩
  proper link hlink := by
    rcases sampleLinks_ends hlink with rfl | rfl <;> decide
  few := by decide

example : (sampleTopology.wiring.mainAddress 1, sampleTopology.wiring.peer 1 2) =
    (⟨0x0a000002⟩, some (2, 1)) := by decide +kernel

end PennSearch
