import PennSearch.Buffer
import PennSearch.LinkState.Node

/-!
# The encoding of link-state messages

`GetSerializedSize`, `Serialize` and `Deserialize` of `LSMessage`. An object of
the class has the structures of all payloads beside the header fields, and its
message type selects one of them: `ND_REQ` is carried by the structure of
`PING_REQ`, and `ND_RSP` by that of `PING_RSP`. `LSMessageObject.message?` reads
the message off an object. `Lsp::Deserialize` clears the vector of neighbours
before it fills it, so that what an object held before does not come back.
-/

namespace PennSearch

open Wire BufferIterator

/-! ## Payload structures -/

namespace LsPing

def encodedSize (p : LsPing) : ℕ := 4 + 2 + p.pingMessage.length

/-- `PingReq::Serialize` and `PingRsp::Serialize`. -/
def serialize (p : LsPing) : List UInt8 :=
  writeAddress p.destinationAddress ++ writeString p.pingMessage

/-- `PingReq::Deserialize` and `PingRsp::Deserialize`. -/
def deserialize : BufferReader LsPing := do
  let destinationAddress ← readAddress
  let pingMessage ← readString
  pure { destinationAddress := destinationAddress, pingMessage := pingMessage }

theorem deserialize_inverts :
    Reader.Inverts deserialize serialize fun p => p.pingMessage.length < 65536 := by
  intro bytes p rest
  simp only [deserialize, serialize, Reader.bind_eq_ok, Reader.pure_eq_ok,
    readAddress_inverts.eq_ok, readString_inverts.eq_ok]
  constructor
  · rintro ⟨a, _, ⟨-, rfl⟩, text, _, ⟨hlen, rfl⟩, rfl, rfl⟩
    exact ⟨hlen, (List.append_assoc _ _ _).symm⟩
  · rintro ⟨hlen, rfl⟩
    exact ⟨_, _, ⟨trivial, List.append_assoc _ _ _⟩, _, _, ⟨hlen, rfl⟩, rfl, rfl⟩

theorem deserialize_failsOnly : Reader.FailsOnly deserialize .pastEnd :=
  readAddress_failsOnly.bind fun _ => readString_failsOnly.bind fun _ => .pure _

theorem length_serialize {p : LsPing} (hp : p.pingMessage.length < 65536) :
    p.serialize.length = p.encodedSize := by
  rw [serialize, List.length_append, length_writeAddress, length_writeString hp, encodedSize,
    add_assoc]

end LsPing

namespace Lsp

def encodedSize (l : Lsp) : ℕ := 8 + 2 + 4 * l.neighborAddrlist.length + 4 + 2 + l.message.length

def serialize (l : Lsp) : Except WireFault (List UInt8) := do
  let neighbors ← writeVector writeAddress l.neighborAddrlist
  pure (writeU64 l.sequenceNumber ++ neighbors ++ writeAddress l.destinationAddress ++
    writeString l.message)

/-- `Lsp::Deserialize`, into a structure that holds another LSP. -/
def deserialize (held : Lsp) : BufferReader Lsp := do
  let sequenceNumber ← readU64
  let cleared := { held with sequenceNumber := sequenceNumber, neighborAddrlist := [] }
  let neighborAddrlist ← readVector readAddress cleared.neighborAddrlist
  let destinationAddress ← readAddress
  let message ← readString
  pure { cleared with
    neighborAddrlist := neighborAddrlist
    destinationAddress := destinationAddress
    message := message }

def Expressible (l : Lsp) : Prop := l.neighborAddrlist.length < 65536 ∧ l.message.length < 65536

def bytes (l : Lsp) : List UInt8 :=
  writeU64 l.sequenceNumber ++ vectorBytes writeAddress l.neighborAddrlist ++
    writeAddress l.destinationAddress ++ writeString l.message

theorem serialize_eq {l : Lsp} (hl : l.Expressible) : l.serialize = .ok l.bytes := by
  rw [serialize, writeVector_eq hl.1]
  rfl

theorem deserialize_inverts (held : Lsp) :
    Reader.Inverts (deserialize held) bytes Expressible := by
  intro input l rest
  simp only [deserialize, bytes, Reader.bind_eq_ok, Reader.pure_eq_ok, readU64_inverts.eq_ok,
    (readVector_inverts readAddress_inverts).eq_ok, readAddress_inverts.eq_ok,
    readString_inverts.eq_ok]
  constructor
  · rintro ⟨seq, _, ⟨-, rfl⟩, list, _, ⟨⟨hlist, -⟩, rfl⟩, a, _, ⟨-, rfl⟩, text, _, ⟨hlen, rfl⟩,
      rfl, rfl⟩
    exact ⟨⟨hlist, hlen⟩, by simp only [List.append_assoc]⟩
  · rintro ⟨⟨hlist, hlen⟩, rfl⟩
    refine ⟨l.sequenceNumber, _, ⟨trivial, ?_⟩, l.neighborAddrlist, _,
      ⟨⟨hlist, fun _ _ => trivial⟩, rfl⟩, l.destinationAddress, _, ⟨trivial, rfl⟩, l.message, _,
      ⟨hlen, rfl⟩, rfl, rfl⟩
    simp only [List.append_assoc]

theorem deserialize_failsOnly (held : Lsp) : Reader.FailsOnly (deserialize held) .pastEnd :=
  readU64_failsOnly.bind fun _ => (readVector_failsOnly readAddress_failsOnly _).bind fun _ =>
    readAddress_failsOnly.bind fun _ => readString_failsOnly.bind fun _ => .pure _

theorem length_bytes {l : Lsp} (hl : l.Expressible) : l.bytes.length = l.encodedSize := by
  have hlist : (l.neighborAddrlist.flatMap writeAddress).length =
      4 * l.neighborAddrlist.length := by
    rw [List.length_flatMap]
    simp [mul_comm]
  rw [bytes, vectorBytes, List.length_append, List.length_append, List.length_append,
    List.length_append, length_writeU64, length_writeU16, hlist, length_writeAddress,
    length_writeString hl.2, encodedSize]
  omega

end Lsp

/-! ## Messages -/

namespace LSPayload

def messageType : LSPayload → UInt8
  | pingReq _ => 1
  | pingRsp _ => 2
  | ndReq _ => 3
  | ndRsp _ => 4
  | lsp _ => 5

def encodedSize : LSPayload → ℕ
  | pingReq p => p.encodedSize
  | pingRsp p => p.encodedSize
  | ndReq p => p.encodedSize
  | ndRsp p => p.encodedSize
  | lsp l => l.encodedSize

def serialize : LSPayload → Except WireFault (List UInt8)
  | pingReq p => .ok p.serialize
  | pingRsp p => .ok p.serialize
  | ndReq p => .ok p.serialize
  | ndRsp p => .ok p.serialize
  | lsp l => l.serialize

/-- The strings and the list have lengths that 16 bits can express. -/
def Expressible : LSPayload → Prop
  | pingReq p => p.pingMessage.length < 65536
  | pingRsp p => p.pingMessage.length < 65536
  | ndReq p => p.pingMessage.length < 65536
  | ndRsp p => p.pingMessage.length < 65536
  | lsp l => l.Expressible

def bytes : LSPayload → List UInt8
  | pingReq p => p.serialize
  | pingRsp p => p.serialize
  | ndReq p => p.serialize
  | ndRsp p => p.serialize
  | lsp l => l.bytes

theorem serialize_eq {p : LSPayload} (hp : p.Expressible) : p.serialize = .ok p.bytes := by
  cases p with
  | lsp l => exact Lsp.serialize_eq hp
  | _ => rfl

theorem length_bytes {p : LSPayload} (hp : p.Expressible) : p.bytes.length = p.encodedSize := by
  cases p with
  | lsp l => exact Lsp.length_bytes hp
  | _ => exact LsPing.length_serialize hp

theorem expressible_of_encodedSize {p : LSPayload} (hp : p.encodedSize ≤ 65507) :
    p.Expressible := by
  cases p with
  | lsp l =>
      simp only [encodedSize, Lsp.encodedSize] at hp
      exact ⟨by omega, by omega⟩
  | _ =>
      simp only [encodedSize, LsPing.encodedSize] at hp
      simp only [Expressible]
      omega

end LSPayload

namespace LSMessage

def encodedSize (m : LSMessage) : ℕ := 1 + 4 + 4 + 1 + m.payload.encodedSize

/-- `GetSerializedSize`: its `uint32_t` keeps the low 32 bits. -/
def getSerializedSize (m : LSMessage) : UInt32 := UInt32.ofNat m.encodedSize

def serialize (m : LSMessage) : Except WireFault (List UInt8) := do
  let payload ← m.payload.serialize
  pure (writeU8 m.payload.messageType ++ writeHtonU32 m.sequenceNumber ++ writeU8 m.ttl ++
    writeAddress m.originatorAddress ++ payload)

end LSMessage

structure LSMessageObject where
  messageType : UInt8
  sequenceNumber : UInt32
  ttl : UInt8
  originatorAddress : Ipv4Address
  pingReq : LsPing
  pingRsp : LsPing
  lsp : Lsp

namespace LSMessageObject

def payload? (o : LSMessageObject) : Option LSPayload :=
  match o.messageType.toNat with
  | 1 => some (.pingReq o.pingReq)
  | 2 => some (.pingRsp o.pingRsp)
  | 3 => some (.ndReq o.pingReq)
  | 4 => some (.ndRsp o.pingRsp)
  | 5 => some (.lsp o.lsp)
  | _ => none

def message? (o : LSMessageObject) : Option LSMessage :=
  o.payload?.map fun payload =>
    { sequenceNumber := o.sequenceNumber, ttl := o.ttl, originatorAddress := o.originatorAddress,
      payload := payload }

/-- The payload part of `Deserialize`, with the size that it adds. -/
def deserializePayload (o : LSMessageObject) : BufferReader (LSMessageObject × UInt32) :=
  match o.messageType.toNat with
  | 1 => do
      let pingReq ← LsPing.deserialize
      pure ({ o with pingReq := pingReq }, UInt32.ofNat pingReq.encodedSize)
  | 2 => do
      let pingRsp ← LsPing.deserialize
      pure ({ o with pingRsp := pingRsp }, UInt32.ofNat pingRsp.encodedSize)
  | 3 => do
      let pingReq ← LsPing.deserialize
      pure ({ o with pingReq := pingReq }, UInt32.ofNat pingReq.encodedSize)
  | 4 => do
      let pingRsp ← LsPing.deserialize
      pure ({ o with pingRsp := pingRsp }, UInt32.ofNat pingRsp.encodedSize)
  | 5 => do
      let lsp ← Lsp.deserialize o.lsp
      pure ({ o with lsp := lsp }, UInt32.ofNat lsp.encodedSize)
  | _ => Reader.fail .unknownType

/-- `Deserialize` into an object, with what it returns. -/
def deserialize (o : LSMessageObject) : BufferReader (LSMessageObject × UInt32) := do
  let messageType ← readU8
  let sequenceNumber ← readNtohU32
  let ttl ← readU8
  let originatorAddress ← readAddress
  let (o', size) ← deserializePayload
    { o with
      messageType := messageType
      sequenceNumber := sequenceNumber
      ttl := ttl
      originatorAddress := originatorAddress }
  pure (o', 1 + 4 + 1 + 4 + size)

def assign (o : LSMessageObject) : LSPayload → LSMessageObject
  | .pingReq p => { o with pingReq := p }
  | .pingRsp p => { o with pingRsp := p }
  | .ndReq p => { o with pingReq := p }
  | .ndRsp p => { o with pingRsp := p }
  | .lsp l => { o with lsp := l }

theorem message?_assign {o : LSMessageObject} {p : LSPayload} (hp : p.messageType = o.messageType) :
    (o.assign p).message? = some
      { sequenceNumber := o.sequenceNumber, ttl := o.ttl,
        originatorAddress := o.originatorAddress, payload := p } := by
  obtain ⟨t, seq, ttl, originator, pingReq, pingRsp, lsp⟩ := o
  subst hp
  cases p <;> rfl

theorem deserializePayload_bytes {o : LSMessageObject} {p : LSPayload} (hp : p.Expressible)
    (htype : p.messageType = o.messageType) (rest : List UInt8) :
    deserializePayload o (p.bytes ++ rest) =
      .ok ((o.assign p, UInt32.ofNat p.encodedSize), rest) := by
  obtain ⟨t, seq, ttl, originator, pingReq, pingRsp, lsp⟩ := o
  subst htype
  cases p with
  | lsp l => exact Reader.bind_of_ok ((Lsp.deserialize_inverts lsp).read_write hp rest)
  | _ => exact Reader.bind_of_ok (LsPing.deserialize_inverts.read_write hp rest)

theorem deserializePayload_yields (o : LSMessageObject) :
    Reader.Yields (deserializePayload o) fun input out rest =>
      ∃ p : LSPayload, p.Expressible ∧ p.messageType = o.messageType ∧
        out = (o.assign p, UInt32.ofNat p.encodedSize) ∧ input = p.bytes ++ rest := by
  unfold deserializePayload
  split <;> rename_i ht <;> intro input out rest h
  · obtain ⟨p, hp, rfl, rfl⟩ := LsPing.deserialize_inverts.bind_pure_eq_ok.mp h
    exact ⟨.pingReq p, hp, UInt8.toNat_inj.mp ht.symm, rfl, rfl⟩
  · obtain ⟨p, hp, rfl, rfl⟩ := LsPing.deserialize_inverts.bind_pure_eq_ok.mp h
    exact ⟨.pingRsp p, hp, UInt8.toNat_inj.mp ht.symm, rfl, rfl⟩
  · obtain ⟨p, hp, rfl, rfl⟩ := LsPing.deserialize_inverts.bind_pure_eq_ok.mp h
    exact ⟨.ndReq p, hp, UInt8.toNat_inj.mp ht.symm, rfl, rfl⟩
  · obtain ⟨p, hp, rfl, rfl⟩ := LsPing.deserialize_inverts.bind_pure_eq_ok.mp h
    exact ⟨.ndRsp p, hp, UInt8.toNat_inj.mp ht.symm, rfl, rfl⟩
  · obtain ⟨l, hl, rfl, rfl⟩ := (Lsp.deserialize_inverts o.lsp).bind_pure_eq_ok.mp h
    exact ⟨.lsp l, hl, UInt8.toNat_inj.mp ht.symm, rfl, rfl⟩
  · cases h

theorem deserializePayload_failsOnly {o : LSMessageObject} (hlo : 1 ≤ o.messageType)
    (hhi : o.messageType ≤ 5) : Reader.FailsOnly (deserializePayload o) .pastEnd := by
  rw [UInt8.le_iff_toNat_le] at hlo hhi
  unfold deserializePayload
  split
  · exact LsPing.deserialize_failsOnly.bind fun _ => .pure _
  · exact LsPing.deserialize_failsOnly.bind fun _ => .pure _
  · exact LsPing.deserialize_failsOnly.bind fun _ => .pure _
  · exact LsPing.deserialize_failsOnly.bind fun _ => .pure _
  · exact (Lsp.deserialize_failsOnly o.lsp).bind fun _ => .pure _
  · have hone : (1 : UInt8).toNat = 1 := rfl
    have hfive : (5 : UInt8).toNat = 5 := rfl
    grind

def withHeader (o : LSMessageObject) (t : UInt8) (seq : UInt32) (ttl : UInt8)
    (originator : Ipv4Address) : LSMessageObject :=
  { o with
    messageType := t
    sequenceNumber := seq
    ttl := ttl
    originatorAddress := originator }

theorem deserialize_header (o : LSMessageObject) (t : UInt8) (seq : UInt32) (ttl : UInt8)
    (originator : Ipv4Address) (bytes : List UInt8) :
    o.deserialize
        (writeU8 t ++ (writeHtonU32 seq ++ (writeU8 ttl ++ (writeAddress originator ++ bytes)))) =
      (do
        let out ← (o.withHeader t seq ttl originator).deserializePayload
        pure (out.1, 1 + 4 + 1 + 4 + out.2) :
        BufferReader (LSMessageObject × UInt32)) bytes := by
  rw [deserialize, Reader.bind_of_ok (readU8_writeU8 _ t),
    Reader.bind_of_ok (readNtohU32_writeHtonU32 _ seq), Reader.bind_of_ok (readU8_writeU8 _ ttl),
    Reader.bind_of_ok (readAddress_writeAddress _ originator)]
  rfl

end LSMessageObject

namespace LSMessage

open LSMessageObject

def bytes (m : LSMessage) : List UInt8 :=
  writeU8 m.payload.messageType ++ writeHtonU32 m.sequenceNumber ++ writeU8 m.ttl ++
    writeAddress m.originatorAddress ++ m.payload.bytes

theorem serialize_eq {m : LSMessage} (hm : m.payload.Expressible) : m.serialize = .ok m.bytes := by
  rw [serialize, LSPayload.serialize_eq hm]
  rfl

theorem expressible_of_encodedSize {m : LSMessage} (hm : m.encodedSize ≤ 65507) :
    m.payload.Expressible := by
  apply LSPayload.expressible_of_encodedSize
  exact (Nat.le_add_left _ _).trans hm

theorem length_bytes {m : LSMessage} (hm : m.encodedSize ≤ 65507) :
    m.bytes.length = m.getSerializedSize.toNat := by
  have hsize : m.getSerializedSize.toNat = m.encodedSize :=
    UInt32.toNat_ofNat_of_lt' (hm.trans_lt (by decide))
  rw [hsize, bytes, List.length_append, List.length_append, List.length_append, List.length_append,
    length_writeU8, length_writeHtonU32, length_writeU8, length_writeAddress,
    LSPayload.length_bytes (expressible_of_encodedSize hm), encodedSize]

theorem deserialize_bytes {m : LSMessage} (hm : m.payload.Expressible) (o : LSMessageObject)
    (rest : List UInt8) :
    ∃ o', o.deserialize (m.bytes ++ rest) = .ok ((o', m.getSerializedSize), rest) ∧
      o'.message? = some m := by
  obtain ⟨seq, ttl, originator, p⟩ := m
  have hsize : 1 + 4 + 1 + 4 + UInt32.ofNat p.encodedSize =
      getSerializedSize ⟨seq, ttl, originator, p⟩ := by
    rw [getSerializedSize, encodedSize, UInt32.ofNat_add]
    rfl
  refine ⟨(o.withHeader p.messageType seq ttl originator).assign p, ?_, message?_assign rfl⟩
  rw [← hsize, bytes, List.append_assoc, List.append_assoc, List.append_assoc, List.append_assoc,
    deserialize_header]
  exact Reader.bind_of_ok (deserializePayload_bytes hm rfl rest)

theorem eq_bytes_of_deserialize {o : LSMessageObject} {t : UInt8} {tail : List UInt8}
    (hlo : 1 ≤ t) (hhi : t ≤ 5) (hshort : o.deserialize (t :: tail) ≠ .error .pastEnd) :
    ∃ o' size rest m, o.deserialize (t :: tail) = .ok ((o', size), rest) ∧
      o'.message? = some m ∧ m.payload.Expressible ∧ t :: tail = m.bytes ++ rest := by
  have hhead : o.deserialize (t :: tail) = _ := Reader.bind_of_ok (readU8_writeU8 tail t)
  have hfails : Reader.FailsOnly (do
      let seq ← readNtohU32
      let ttl ← readU8
      let originator ← readAddress
      let out ← (o.withHeader t seq ttl originator).deserializePayload
      pure (out.1, 1 + 4 + 1 + 4 + out.2)) .pastEnd :=
    readNtohU32_failsOnly.bind fun _ => readU8_failsOnly.bind fun _ =>
      readAddress_failsOnly.bind fun _ => (deserializePayload_failsOnly hlo hhi).bind fun _ =>
        .pure _
  cases hread : o.deserialize (t :: tail) with
  | error e =>
      rw [hread] at hshort hhead
      exact absurd (congrArg Except.error (hfails _ _ hhead.symm)) hshort
  | ok p =>
      obtain ⟨⟨o', size⟩, rest⟩ := p
      rw [hhead] at hread
      simp only [Reader.bind_eq_ok, Reader.pure_eq_ok, readNtohU32_inverts.eq_ok,
        readU8_inverts.eq_ok, readAddress_inverts.eq_ok] at hread
      obtain ⟨seq, _, ⟨-, rfl⟩, ttl, _, ⟨-, rfl⟩, originator, _, ⟨-, rfl⟩, out, _, hpayload,
        hout, rfl⟩ := hread
      obtain ⟨p, hp, htype, rfl, rfl⟩ := deserializePayload_yields _ _ _ _ hpayload
      obtain ⟨rfl, rfl⟩ := Prod.ext_iff.mp hout
      refine ⟨_, _, _, ⟨seq, ttl, originator, p⟩, rfl, message?_assign htype, hp, ?_⟩
      simp only [bytes, htype, writeU8, List.append_assoc, List.cons_append, List.nil_append]

/-- The encoding and the decoding of messages undo each other, whatever the object
that reads held before. -/
theorem roundTrip_of_any_object :
    (∀ m : LSMessage, m.encodedSize ≤ 65507 →
      ∃ written, m.serialize = .ok written ∧ written.length = m.getSerializedSize.toNat ∧
        ∀ (o : LSMessageObject) (rest : List UInt8), ∃ o',
          o.deserialize (written ++ rest) = .ok ((o', m.getSerializedSize), rest) ∧
            o'.message? = some m) ∧
    ∀ (o : LSMessageObject) (t : UInt8) (tail : List UInt8), 1 ≤ t → t ≤ 5 →
      o.deserialize (t :: tail) ≠ .error .pastEnd →
        ∃ o' size rest m written, o.deserialize (t :: tail) = .ok ((o', size), rest) ∧
          o'.message? = some m ∧ m.serialize = .ok written ∧ t :: tail = written ++ rest := by
  constructor
  · intro m hm
    have hp := expressible_of_encodedSize hm
    exact ⟨m.bytes, serialize_eq hp, length_bytes hm, deserialize_bytes hp⟩
  · intro o t tail hlo hhi hshort
    obtain ⟨o', size, rest, m, hread, hmsg, hp, htail⟩ := eq_bytes_of_deserialize hlo hhi hshort
    exact ⟨o', size, rest, m, m.bytes, hread, hmsg, serialize_eq hp, htail⟩

end LSMessage

end PennSearch
