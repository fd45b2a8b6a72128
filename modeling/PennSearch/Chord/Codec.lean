import PennSearch.Buffer
import PennSearch.Chord.Node

/-!
# The encoding of Chord messages

`GetSerializedSize`, `Serialize` and `Deserialize` of `PennChordMessage`, each a
switch over the message type, and of the payload structures. `Deserialize`
assigns every field of the payload that it selects, so that what the object held
before does not matter. `JoinChord::Deserialize` has no `return`, and the size
that its caller adds up is undefined (`deserialize_joinChord`); this is the only
message that does not come back.
-/

namespace PennSearch

open Wire BufferIterator

namespace ChordPayload

def messageType : ChordPayload → UInt8
  | pingReq _ => 1
  | pingRsp _ => 2
  | joinChord => 3
  | findSuccessor _ _ => 4
  | joinChordSuccess _ => 5
  | joinChordFail => 6
  | notify => 7
  | stabilizeReq => 8
  | stabilizeResp _ => 9
  | ringstate _ => 10
  | leaveSuccessor _ => 11
  | leavePredecessor _ => 12
  | findFinger _ _ _ => 13
  | findFingerSuccess _ _ => 14
  | lookupPublish _ _ _ _ => 15
  | lookupPublishSuccess _ _ _ => 16

/-- The number of bytes that the size formula of the payload adds up. -/
def encodedSize : ChordPayload → ℕ
  | pingReq pingMessage => 2 + pingMessage.length
  | pingRsp pingMessage => 2 + pingMessage.length
  | joinChord => 0
  | findSuccessor _ _ => 4 + 20
  | joinChordSuccess _ => 4
  | joinChordFail => 0
  | notify => 0
  | stabilizeReq => 0
  | stabilizeResp _ => 4
  | ringstate _ => 4
  | leaveSuccessor _ => 4
  | leavePredecessor _ => 4
  | findFinger _ _ _ => 4 + 20 + 2
  | findFingerSuccess _ _ => 4 + 2
  | lookupPublish _ _ _ lookupKey => 2 + 4 + 20 + 2 + lookupKey.length
  | lookupPublishSuccess _ lookupKey _ => 2 + 4 + 2 + lookupKey.length

/-- `GetSerializedSize` of the payload: its `uint32_t` keeps the low 32 bits. -/
def getSerializedSize (p : ChordPayload) : UInt32 := UInt32.ofNat p.encodedSize

def serialize : ChordPayload → List UInt8
  | pingReq pingMessage => writeString pingMessage
  | pingRsp pingMessage => writeString pingMessage
  | joinChord => []
  | findSuccessor destAddress targetDigest => writeAddress destAddress ++ writeDigest targetDigest
  | joinChordSuccess successorAddress => writeAddress successorAddress
  | joinChordFail => []
  | notify => []
  | stabilizeReq => []
  | stabilizeResp predecessorAddress => writeAddress predecessorAddress
  | ringstate initiatorAddress => writeAddress initiatorAddress
  | leaveSuccessor predecessorAddress => writeAddress predecessorAddress
  | leavePredecessor successorAddress => writeAddress successorAddress
  | findFinger targetAddress targetDigest targetIndex =>
      writeAddress targetAddress ++ writeDigest targetDigest ++ writeU16 targetIndex
  | findFingerSuccess fingerAddress fingerIndex =>
      writeAddress fingerAddress ++ writeU16 fingerIndex
  | lookupPublish flag initiatorAddress lookupDigest lookupKey =>
      writeU16 flag ++ writeAddress initiatorAddress ++ writeDigest lookupDigest ++
        writeString lookupKey
  | lookupPublishSuccess flag lookupKey addressResponsible =>
      writeU16 flag ++ writeAddress addressResponsible ++ writeString lookupKey

def deserialize (messageType : UInt8) : BufferReader ChordPayload :=
  match messageType.toNat with
  | 1 => do
      let pingMessage ← readString
      pure (.pingReq pingMessage)
  | 2 => do
      let pingMessage ← readString
      pure (.pingRsp pingMessage)
  | 3 => Reader.fail .missingReturn
  | 4 => do
      let destAddress ← readAddress
      let targetDigest ← readDigest
      pure (.findSuccessor destAddress targetDigest)
  | 5 => do
      let successorAddress ← readAddress
      pure (.joinChordSuccess successorAddress)
  | 6 => pure .joinChordFail
  | 7 => pure .notify
  | 8 => pure .stabilizeReq
  | 9 => do
      let predecessorAddress ← readAddress
      pure (.stabilizeResp predecessorAddress)
  | 10 => do
      let initiatorAddress ← readAddress
      pure (.ringstate initiatorAddress)
  | 11 => do
      let predecessorAddress ← readAddress
      pure (.leaveSuccessor predecessorAddress)
  | 12 => do
      let successorAddress ← readAddress
      pure (.leavePredecessor successorAddress)
  | 13 => do
      let targetAddress ← readAddress
      let targetDigest ← readDigest
      let targetIndex ← readU16
      pure (.findFinger targetAddress targetDigest targetIndex)
  | 14 => do
      let fingerAddress ← readAddress
      let fingerIndex ← readU16
      pure (.findFingerSuccess fingerAddress fingerIndex)
  | 15 => do
      let flag ← readU16
      let initiatorAddress ← readAddress
      let lookupDigest ← readDigest
      let lookupKey ← readString
      pure (.lookupPublish flag initiatorAddress lookupDigest lookupKey)
  | 16 => do
      let flag ← readU16
      let addressResponsible ← readAddress
      let lookupKey ← readString
      pure (.lookupPublishSuccess flag lookupKey addressResponsible)
  | _ => Reader.fail .unknownType

/-- The string of a payload has a length that its 16-bit prefix can express. -/
def Expressible : ChordPayload → Prop
  | pingReq pingMessage => pingMessage.length < 65536
  | pingRsp pingMessage => pingMessage.length < 65536
  | lookupPublish _ _ _ lookupKey => lookupKey.length < 65536
  | lookupPublishSuccess _ lookupKey _ => lookupKey.length < 65536
  | _ => True

theorem length_serialize {p : ChordPayload} (hp : p.Expressible) :
    p.serialize.length = p.encodedSize := by
  cases p with
  | pingReq pingMessage => exact length_writeString hp
  | pingRsp pingMessage => exact length_writeString hp
  | lookupPublish flag initiator digest key =>
      simp only [serialize, encodedSize, List.length_append, length_writeString hp,
        length_writeU16, length_writeAddress, length_writeDigest]
      omega
  | lookupPublishSuccess flag key responsible =>
      simp only [serialize, encodedSize, List.length_append, length_writeString hp,
        length_writeU16, length_writeAddress]
      omega
  | _ => simp [serialize, encodedSize]

theorem expressible_of_encodedSize {p : ChordPayload} (hp : p.encodedSize ≤ 65507) :
    p.Expressible := by
  cases p with
  | pingReq pingMessage => simp only [encodedSize, Expressible] at hp ⊢; omega
  | pingRsp pingMessage => simp only [encodedSize, Expressible] at hp ⊢; omega
  | lookupPublish flag initiator digest key => simp only [encodedSize, Expressible] at hp ⊢; omega
  | lookupPublishSuccess flag key responsible =>
      simp only [encodedSize, Expressible] at hp ⊢; omega
  | _ => trivial

theorem deserialize_serialize {p : ChordPayload} (hp : p.Expressible) (hjoin : p ≠ .joinChord)
    (rest : List UInt8) :
    deserialize p.messageType (p.serialize ++ rest) = .ok (p, rest) := by
  cases p with
  | joinChord => exact absurd rfl hjoin
  | pingReq pingMessage => exact Reader.bind_of_ok (readString_writeString rest hp)
  | pingRsp pingMessage => exact Reader.bind_of_ok (readString_writeString rest hp)
  | lookupPublish flag initiator digest key =>
      simp only [messageType, deserialize, UInt8.reduceToNat, serialize, List.append_assoc,
        Reader.bind_apply, readU16_writeU16, readAddress_writeAddress, readDigest_writeDigest,
        readString_writeString rest hp, Except.bind]
      rfl
  | lookupPublishSuccess flag key responsible =>
      simp only [messageType, deserialize, UInt8.reduceToNat, serialize, List.append_assoc,
        Reader.bind_apply, readU16_writeU16, readAddress_writeAddress,
        readString_writeString rest hp, Except.bind]
      rfl
  | _ =>
      simp only [messageType, deserialize, UInt8.reduceToNat, serialize, List.append_assoc,
        Reader.bind_apply, readU16_writeU16, readAddress_writeAddress, readDigest_writeDigest,
        Except.bind]
      rfl

theorem deserialize_yields (t : UInt8) :
    Reader.Yields (deserialize t) fun bytes p rest =>
      (p.messageType = t ∧ p.Expressible) ∧ bytes = p.serialize ++ rest := by
  unfold deserialize
  split <;> rename_i ht <;> intro bytes p rest h
  · simp only [Reader.bind_eq_ok, Reader.pure_eq_ok, readString_inverts.eq_ok] at h
    obtain ⟨text, _, ⟨hlen, rfl⟩, rfl, rfl⟩ := h
    exact ⟨⟨UInt8.toNat_inj.mp ht.symm, hlen⟩, rfl⟩
  · simp only [Reader.bind_eq_ok, Reader.pure_eq_ok, readString_inverts.eq_ok] at h
    obtain ⟨text, _, ⟨hlen, rfl⟩, rfl, rfl⟩ := h
    exact ⟨⟨UInt8.toNat_inj.mp ht.symm, hlen⟩, rfl⟩
  · cases h
  · simp only [Reader.bind_eq_ok, Reader.pure_eq_ok, readAddress_inverts.eq_ok,
        readDigest_inverts.eq_ok] at h
    obtain ⟨address, _, ⟨-, rfl⟩, digest, _, ⟨-, rfl⟩, rfl, rfl⟩ := h
    refine ⟨⟨UInt8.toNat_inj.mp ht.symm, trivial⟩, ?_⟩
    simp only [serialize, List.append_assoc]
  · simp only [Reader.bind_eq_ok, Reader.pure_eq_ok, readAddress_inverts.eq_ok] at h
    obtain ⟨address, _, ⟨-, rfl⟩, rfl, rfl⟩ := h
    exact ⟨⟨UInt8.toNat_inj.mp ht.symm, trivial⟩, rfl⟩
  · obtain ⟨rfl, rfl⟩ := Reader.pure_eq_ok.mp h
    exact ⟨⟨UInt8.toNat_inj.mp ht.symm, trivial⟩, rfl⟩
  · obtain ⟨rfl, rfl⟩ := Reader.pure_eq_ok.mp h
    exact ⟨⟨UInt8.toNat_inj.mp ht.symm, trivial⟩, rfl⟩
  · obtain ⟨rfl, rfl⟩ := Reader.pure_eq_ok.mp h
    exact ⟨⟨UInt8.toNat_inj.mp ht.symm, trivial⟩, rfl⟩
  · simp only [Reader.bind_eq_ok, Reader.pure_eq_ok, readAddress_inverts.eq_ok] at h
    obtain ⟨address, _, ⟨-, rfl⟩, rfl, rfl⟩ := h
    exact ⟨⟨UInt8.toNat_inj.mp ht.symm, trivial⟩, rfl⟩
  · simp only [Reader.bind_eq_ok, Reader.pure_eq_ok, readAddress_inverts.eq_ok] at h
    obtain ⟨address, _, ⟨-, rfl⟩, rfl, rfl⟩ := h
    exact ⟨⟨UInt8.toNat_inj.mp ht.symm, trivial⟩, rfl⟩
  · simp only [Reader.bind_eq_ok, Reader.pure_eq_ok, readAddress_inverts.eq_ok] at h
    obtain ⟨address, _, ⟨-, rfl⟩, rfl, rfl⟩ := h
    exact ⟨⟨UInt8.toNat_inj.mp ht.symm, trivial⟩, rfl⟩
  · simp only [Reader.bind_eq_ok, Reader.pure_eq_ok, readAddress_inverts.eq_ok] at h
    obtain ⟨address, _, ⟨-, rfl⟩, rfl, rfl⟩ := h
    exact ⟨⟨UInt8.toNat_inj.mp ht.symm, trivial⟩, rfl⟩
  · simp only [Reader.bind_eq_ok, Reader.pure_eq_ok, readAddress_inverts.eq_ok,
        readDigest_inverts.eq_ok, readU16_inverts.eq_ok] at h
    obtain ⟨address, _, ⟨-, rfl⟩, digest, _, ⟨-, rfl⟩, number, _, ⟨-, rfl⟩, rfl, rfl⟩ := h
    refine ⟨⟨UInt8.toNat_inj.mp ht.symm, trivial⟩, ?_⟩
    simp only [serialize, List.append_assoc]
  · simp only [Reader.bind_eq_ok, Reader.pure_eq_ok, readAddress_inverts.eq_ok,
        readU16_inverts.eq_ok] at h
    obtain ⟨address, _, ⟨-, rfl⟩, number, _, ⟨-, rfl⟩, rfl, rfl⟩ := h
    refine ⟨⟨UInt8.toNat_inj.mp ht.symm, trivial⟩, ?_⟩
    simp only [serialize, List.append_assoc]
  · simp only [Reader.bind_eq_ok, Reader.pure_eq_ok, readU16_inverts.eq_ok,
        readAddress_inverts.eq_ok, readDigest_inverts.eq_ok, readString_inverts.eq_ok] at h
    obtain ⟨number, _, ⟨-, rfl⟩, address, _, ⟨-, rfl⟩, digest, _, ⟨-, rfl⟩, text, _,
      ⟨hlen, rfl⟩, rfl, rfl⟩ := h
    refine ⟨⟨UInt8.toNat_inj.mp ht.symm, hlen⟩, ?_⟩
    simp only [serialize, List.append_assoc]
  · simp only [Reader.bind_eq_ok, Reader.pure_eq_ok, readU16_inverts.eq_ok,
        readAddress_inverts.eq_ok, readString_inverts.eq_ok] at h
    obtain ⟨number, _, ⟨-, rfl⟩, address, _, ⟨-, rfl⟩, text, _, ⟨hlen, rfl⟩, rfl, rfl⟩ := h
    refine ⟨⟨UInt8.toNat_inj.mp ht.symm, hlen⟩, ?_⟩
    simp only [serialize, List.append_assoc]
  · cases h

theorem deserialize_failsOnly {t : UInt8} (hlo : 1 ≤ t) (hhi : t ≤ 16) (hjoin : t ≠ 3) :
    Reader.FailsOnly (deserialize t) .pastEnd := by
  rw [UInt8.le_iff_toNat_le] at hlo hhi
  have hjoin' : t.toNat ≠ 3 := fun h => hjoin (UInt8.toNat_inj.mp h)
  unfold deserialize
  split
  · exact readString_failsOnly.bind fun _ => .pure _
  · exact readString_failsOnly.bind fun _ => .pure _
  · contradiction
  · exact readAddress_failsOnly.bind fun _ => readDigest_failsOnly.bind fun _ => .pure _
  · exact readAddress_failsOnly.bind fun _ => .pure _
  · exact .pure _
  · exact .pure _
  · exact .pure _
  · exact readAddress_failsOnly.bind fun _ => .pure _
  · exact readAddress_failsOnly.bind fun _ => .pure _
  · exact readAddress_failsOnly.bind fun _ => .pure _
  · exact readAddress_failsOnly.bind fun _ => .pure _
  · exact readAddress_failsOnly.bind fun _ => readDigest_failsOnly.bind fun _ =>
      readU16_failsOnly.bind fun _ => .pure _
  · exact readAddress_failsOnly.bind fun _ => readU16_failsOnly.bind fun _ => .pure _
  · exact readU16_failsOnly.bind fun _ => readAddress_failsOnly.bind fun _ =>
      readDigest_failsOnly.bind fun _ => readString_failsOnly.bind fun _ => .pure _
  · exact readU16_failsOnly.bind fun _ => readAddress_failsOnly.bind fun _ =>
      readString_failsOnly.bind fun _ => .pure _
  · have hone : (1 : UInt8).toNat = 1 := rfl
    have hsixteen : (16 : UInt8).toNat = 16 := rfl
    grind

end ChordPayload

namespace PennChordMessage

def encodedSize (m : PennChordMessage) : ℕ := 1 + 4 + m.payload.encodedSize

def getSerializedSize (m : PennChordMessage) : UInt32 := 1 + 4 + m.payload.getSerializedSize

def serialize (m : PennChordMessage) : List UInt8 :=
  writeU8 m.payload.messageType ++ writeHtonU32 m.transactionId ++ m.payload.serialize

def deserialize : BufferReader (PennChordMessage × UInt32) := do
  let messageType ← readU8
  let transactionId ← readNtohU32
  let payload ← ChordPayload.deserialize messageType
  pure (⟨transactionId, payload⟩, 1 + 4 + payload.getSerializedSize)

/-- What was written is as long as announced, and is read back and stripped. -/
def RoundTrips (m : PennChordMessage) : Prop :=
  m.serialize.length = m.getSerializedSize.toNat ∧ ∀ rest,
    deserialize (m.serialize ++ rest) = .ok ((m, m.getSerializedSize), rest) ∧
      removeHeader deserialize (m.serialize ++ rest) = .ok (m, rest)

/-- Some message is read from the bytes, and written as the bytes that were read. -/
def Reproduced (bytes : List UInt8) : Prop :=
  ∃ m size rest, deserialize bytes = .ok ((m, size), rest) ∧ bytes = m.serialize ++ rest

theorem getSerializedSize_eq (m : PennChordMessage) :
    m.getSerializedSize = UInt32.ofNat m.encodedSize := by
  rw [encodedSize, UInt32.ofNat_add]
  rfl

theorem toNat_getSerializedSize {m : PennChordMessage} (hm : m.encodedSize ≤ 65507) :
    m.getSerializedSize.toNat = m.encodedSize := by
  rw [getSerializedSize_eq]
  exact UInt32.toNat_ofNat_of_lt' (hm.trans_lt (by decide))

theorem expressible_of_encodedSize {m : PennChordMessage} (hm : m.encodedSize ≤ 65507) :
    m.payload.Expressible := by
  apply ChordPayload.expressible_of_encodedSize
  exact (Nat.le_add_left _ _).trans hm

theorem length_serialize {m : PennChordMessage} (hm : m.encodedSize ≤ 65507) :
    m.serialize.length = m.getSerializedSize.toNat := by
  rw [toNat_getSerializedSize hm, serialize, List.length_append, List.length_append,
    length_writeU8, length_writeHtonU32,
    ChordPayload.length_serialize (expressible_of_encodedSize hm), encodedSize]

theorem deserialize_header (t : UInt8) (transactionId : UInt32) (bytes : List UInt8) :
    deserialize (writeU8 t ++ (writeHtonU32 transactionId ++ bytes)) =
      (do
        let payload ← ChordPayload.deserialize t
        pure ((⟨transactionId, payload⟩ : PennChordMessage), 1 + 4 + payload.getSerializedSize) :
        BufferReader (PennChordMessage × UInt32)) bytes := by
  rw [deserialize, Reader.bind_of_ok (readU8_writeU8 _ t),
    Reader.bind_of_ok (readNtohU32_writeHtonU32 _ transactionId)]

theorem roundTrips_of_ne {m : PennChordMessage} (hm : m.encodedSize ≤ 65507)
    (hjoin : m.payload ≠ .joinChord) : m.RoundTrips := by
  refine ⟨length_serialize hm, fun rest => ?_⟩
  have hread : deserialize (m.serialize ++ rest) = .ok ((m, m.getSerializedSize), rest) := by
    rw [serialize, List.append_assoc, List.append_assoc, deserialize_header,
      Reader.bind_of_ok
        (ChordPayload.deserialize_serialize (expressible_of_encodedSize hm) hjoin rest)]
    rfl
  exact ⟨hread, removeHeader_eq hread (length_serialize hm)⟩

theorem deserialize_joinChord (transactionId : UInt32) (rest : List UInt8) :
    deserialize (serialize ⟨transactionId, .joinChord⟩ ++ rest) = .error .missingReturn := by
  rw [serialize, List.append_assoc, List.append_assoc, deserialize_header]
  rfl

theorem not_roundTrips_joinChord (transactionId : UInt32) :
    ¬ RoundTrips ⟨transactionId, .joinChord⟩ := by
  rintro ⟨-, h⟩
  have hread := (h []).1
  rw [deserialize_joinChord] at hread
  cases hread

theorem reproduced_of_ne {t : UInt8} {tail : List UInt8} (hlo : 1 ≤ t) (hhi : t ≤ 16)
    (hshort : deserialize (t :: tail) ≠ .error .pastEnd) (hjoin : t ≠ 3) :
    Reproduced (t :: tail) := by
  have hfails : Reader.FailsOnly (do
      let transactionId ← readNtohU32
      let payload ← ChordPayload.deserialize t
      pure ((⟨transactionId, payload⟩ : PennChordMessage),
        1 + 4 + payload.getSerializedSize)) .pastEnd :=
    readNtohU32_failsOnly.bind fun _ =>
      (ChordPayload.deserialize_failsOnly hlo hhi hjoin).bind fun _ => .pure _
  have hhead : deserialize (t :: tail) = _ := Reader.bind_of_ok (readU8_writeU8 tail t)
  cases hread : deserialize (t :: tail) with
  | error e =>
      rw [hread] at hshort hhead
      exact absurd (congrArg Except.error (hfails _ _ hhead.symm)) hshort
  | ok p =>
      obtain ⟨⟨m, size⟩, rest⟩ := p
      refine ⟨m, size, rest, hread, ?_⟩
      rw [hhead] at hread
      simp only [Reader.bind_eq_ok, Reader.pure_eq_ok, readNtohU32_inverts.eq_ok] at hread
      obtain ⟨transactionId, _, ⟨-, rfl⟩, payload, _, hpayload, heq, rfl⟩ := hread
      obtain ⟨⟨htype, -⟩, rfl⟩ := ChordPayload.deserialize_yields t _ _ _ hpayload
      obtain ⟨rfl, -⟩ := Prod.ext_iff.mp heq
      simp only [serialize, htype, writeU8, List.append_assoc, List.cons_append, List.nil_append]

theorem not_reproduced_joinChord (tail : List UInt8) : ¬ Reproduced (3 :: tail) := by
  rintro ⟨m, size, rest, hread, -⟩
  have hhead : deserialize (3 :: tail) = _ := Reader.bind_of_ok (readU8_writeU8 tail 3)
  rw [hhead] at hread
  obtain ⟨transactionId, mid, -, hpayload⟩ := Reader.bind_eq_ok.mp hread
  obtain ⟨payload, mid, hfail, -⟩ := Reader.bind_eq_ok.mp hpayload
  cases hfail

/-- The encoding and the decoding of messages undo each other, except on `JOIN_CHORD`. -/
theorem roundTrip_iff (m : PennChordMessage) (t : UInt8) (tail : List UInt8) :
    (m.encodedSize ≤ 65507 → (m.RoundTrips ↔ m.payload ≠ .joinChord)) ∧
    (1 ≤ t → t ≤ 16 → deserialize (t :: tail) ≠ .error .pastEnd →
      (Reproduced (t :: tail) ↔ t ≠ 3)) := by
  constructor
  · intro hm
    constructor
    · rintro h hjoin
      obtain ⟨transactionId, payload⟩ := m
      subst hjoin
      exact not_roundTrips_joinChord transactionId h
    · exact roundTrips_of_ne hm
  · intro hlo hhi hshort
    constructor
    · rintro h rfl
      exact not_reproduced_joinChord tail h
    · exact reproduced_of_ne hlo hhi hshort

/-- A message with three fields of different byte orders, and five bytes of type 6. -/
theorem roundTrip_findFinger :
    RoundTrips ⟨7, .findFinger ⟨0x0a000001⟩ (Vector.ofFn fun i => UInt8.ofNat i) 1⟩ ∧
      Reproduced [6, 0, 0, 0, 7] := by
  have htrip := roundTrip_iff
    ⟨7, .findFinger ⟨0x0a000001⟩ (Vector.ofFn fun i => UInt8.ofNat i) 1⟩ 6 [0, 0, 0, 7]
  exact ⟨(htrip.1 (by decide)).mpr (by decide),
    (htrip.2 (by decide) (by decide) nofun).mpr (by decide)⟩

/-- `JOIN_CHORD` is five bytes, and what comes back is undefined. -/
theorem joinChord_not_roundTrip :
    encodedSize ⟨7, .joinChord⟩ = 5 ∧ ¬ RoundTrips ⟨7, .joinChord⟩ :=
  ⟨rfl, not_roundTrips_joinChord 7⟩

end PennChordMessage

end PennSearch
