import Mathlib.Algebra.Order.BigOperators.Group.List
import PennSearch.Buffer
import PennSearch.Search.Message

/-!
# The encoding of search messages

`GetSerializedSize`, `Serialize` and `Deserialize` of `PennSearchMessage`. The
lists of a payload are counted, written and read in loops over a `uint16_t`
index, which do not end on 65536 entries; and `Deserialize` pushes what it reads
on the vectors that the object has. On an object with empty vectors, what comes
out is the message that was written.
-/

namespace PennSearch

open Wire BufferIterator

/-! ## Lists of strings -/

def addEntries (l : List CxxString) (size : UInt32) : Except WireFault UInt32 :=
  CountedLoop.overList 16 l (fun s size => .ok (size + UInt32.ofNat (2 + s.length)))
    (.error .diverges) size

theorem addEntries_eq {l : List CxxString} (hl : l.length < 65536) (size : UInt32) :
    addEntries l size = .ok (size + UInt32.ofNat (entriesSize l)) := by
  rw [addEntries, CountedLoop.overList_eq_foldlM hl]
  clear hl
  induction l generalizing size with
  | nil =>
      rw [entriesSize_nil, show UInt32.ofNat 0 = 0 from rfl, UInt32.add_zero]
      rfl
  | cons s l ih =>
      rw [entriesSize_cons, UInt32.ofNat_add, ← UInt32.add_assoc]
      exact ih _

theorem addEntries_of_le {l : List CxxString} (hl : 65536 ≤ l.length) (size : UInt32) :
    addEntries l size = .error .diverges := by
  apply CountedLoop.overList_of_le hl
  intro s size
  exact ⟨size + UInt32.ofNat (2 + s.length), rfl⟩

/-- The list and its strings have lengths that 16 bits can express. -/
def ListExpressible (l : List CxxString) : Prop := l.length < 65536 ∧ ∀ s ∈ l, s.length < 65536

abbrev listBytes : List CxxString → List UInt8 := vectorBytes writeString

abbrev writeList : List CxxString → Except WireFault (List UInt8) := writeVector writeString

abbrev readList : List CxxString → BufferReader (List CxxString) := readVector readString

theorem writeList_eq {l : List CxxString} (hl : l.length < 65536) :
    writeList l = .ok (listBytes l) := writeVector_eq hl

theorem readList_inverts : Reader.Inverts (readList []) listBytes ListExpressible :=
  readVector_inverts readString_inverts

theorem readList_failsOnly (held : List CxxString) :
    Reader.FailsOnly (readList held) .pastEnd :=
  readVector_failsOnly readString_failsOnly held

theorem length_listBytes {l : List CxxString} (hl : ∀ s ∈ l, s.length < 65536) :
    (listBytes l).length = 2 + entriesSize l := by
  have hmap : (l.map fun s => (writeString s).length) = l.map fun s => 2 + s.length :=
    List.map_congr_left fun s hs => length_writeString (hl s hs)
  rw [listBytes, vectorBytes, List.length_append, length_writeU16, List.length_flatMap, hmap,
    entriesSize]

theorem listExpressible_of_entriesSize {l : List CxxString} (hl : entriesSize l ≤ 65507) :
    ListExpressible l := by
  refine ⟨?_, fun s hs => ?_⟩
  · have hlen := length_le_entriesSize l
    omega
  · have hmem : 2 + s.length ≤ entriesSize l :=
      List.single_le_sum (by simp) _ (List.mem_map_of_mem hs)
    omega

/-! ## Payload structures -/

/-- `StoreList`; `PassKeys` has the same fields. -/
structure KeyDocs where
  key : CxxString
  docVector : List CxxString

/-- `SearchInitial`. -/
structure KeyQuery where
  initiatorAddress : Ipv4Address
  keyList : List CxxString

/-- `SearchComplete`. -/
structure KeyDocLists where
  keyList : List CxxString
  docList : List CxxString

/-- `SearchBegin`; `Search` has the same fields. -/
structure DocQuery extends KeyDocLists where
  initiatorAddress : Ipv4Address

namespace KeyDocs

def getSerializedSize (p : KeyDocs) : Except WireFault UInt32 :=
  addEntries p.docVector (UInt32.ofNat (2 + p.key.length + 2))

def serialize (p : KeyDocs) : Except WireFault (List UInt8) := do
  let docs ← writeList p.docVector
  pure (writeString p.key ++ docs)

/-- `Deserialize`, into a structure that holds another list. -/
def deserialize (held : KeyDocs) : BufferReader KeyDocs := do
  let key ← readString
  let docVector ← readList held.docVector
  pure { key := key, docVector := docVector }

def bytes (p : KeyDocs) : List UInt8 := writeString p.key ++ listBytes p.docVector

def Expressible (p : KeyDocs) : Prop := p.key.length < 65536 ∧ ListExpressible p.docVector

def encodedSize (p : KeyDocs) : ℕ := 2 + p.key.length + 2 + entriesSize p.docVector

theorem getSerializedSize_eq {p : KeyDocs} (hp : p.Expressible) :
    p.getSerializedSize = .ok (UInt32.ofNat p.encodedSize) := by
  rw [getSerializedSize, addEntries_eq hp.2.1, encodedSize, ← UInt32.ofNat_add]

theorem serialize_eq {p : KeyDocs} (hp : p.Expressible) : p.serialize = .ok p.bytes := by
  rw [serialize, writeList_eq hp.2.1]
  rfl

theorem length_bytes {p : KeyDocs} (hp : p.Expressible) : p.bytes.length = p.encodedSize := by
  rw [bytes, List.length_append, length_writeString hp.1, length_listBytes hp.2.2, encodedSize]
  omega

theorem deserialize_inverts {held : KeyDocs} (h : held.docVector = []) :
    Reader.Inverts (deserialize held) bytes Expressible := by
  intro input p rest
  simp only [deserialize, h, Reader.bind_eq_ok, Reader.pure_eq_ok, readString_inverts.eq_ok,
    readList_inverts.eq_ok]
  constructor
  · rintro ⟨key, _, ⟨hkey, rfl⟩, docs, _, ⟨hdocs, rfl⟩, rfl, rfl⟩
    exact ⟨⟨hkey, hdocs⟩, (List.append_assoc _ _ _).symm⟩
  · rintro ⟨⟨hkey, hdocs⟩, rfl⟩
    exact ⟨p.key, _, ⟨hkey, List.append_assoc _ _ _⟩, p.docVector, _, ⟨hdocs, rfl⟩, rfl, rfl⟩

theorem deserialize_failsOnly (held : KeyDocs) :
    Reader.FailsOnly (deserialize held) .pastEnd :=
  readString_failsOnly.bind fun _ => (readList_failsOnly _).bind fun _ => .pure _

end KeyDocs

namespace KeyQuery

def getSerializedSize (p : KeyQuery) : Except WireFault UInt32 :=
  addEntries p.keyList (UInt32.ofNat (4 + 2))

def serialize (p : KeyQuery) : Except WireFault (List UInt8) := do
  let keys ← writeList p.keyList
  pure (writeAddress p.initiatorAddress ++ keys)

def deserialize (held : KeyQuery) : BufferReader KeyQuery := do
  let initiatorAddress ← readAddress
  let keyList ← readList held.keyList
  pure { initiatorAddress := initiatorAddress, keyList := keyList }

def bytes (p : KeyQuery) : List UInt8 := writeAddress p.initiatorAddress ++ listBytes p.keyList

def Expressible (p : KeyQuery) : Prop := ListExpressible p.keyList

def encodedSize (p : KeyQuery) : ℕ := 4 + 2 + entriesSize p.keyList

theorem getSerializedSize_eq {p : KeyQuery} (hp : p.Expressible) :
    p.getSerializedSize = .ok (UInt32.ofNat p.encodedSize) := by
  rw [getSerializedSize, addEntries_eq hp.1, encodedSize, ← UInt32.ofNat_add]

theorem serialize_eq {p : KeyQuery} (hp : p.Expressible) : p.serialize = .ok p.bytes := by
  rw [serialize, writeList_eq hp.1]
  rfl

theorem length_bytes {p : KeyQuery} (hp : p.Expressible) : p.bytes.length = p.encodedSize := by
  rw [bytes, List.length_append, length_writeAddress, length_listBytes hp.2, encodedSize]
  omega

theorem deserialize_inverts {held : KeyQuery} (h : held.keyList = []) :
    Reader.Inverts (deserialize held) bytes Expressible := by
  intro input p rest
  simp only [deserialize, h, Reader.bind_eq_ok, Reader.pure_eq_ok, readAddress_inverts.eq_ok,
    readList_inverts.eq_ok]
  constructor
  · rintro ⟨a, _, ⟨-, rfl⟩, keys, _, ⟨hkeys, rfl⟩, rfl, rfl⟩
    exact ⟨hkeys, (List.append_assoc _ _ _).symm⟩
  · rintro ⟨hkeys, rfl⟩
    exact ⟨p.initiatorAddress, _, ⟨trivial, List.append_assoc _ _ _⟩, p.keyList, _,
      ⟨hkeys, rfl⟩, rfl, rfl⟩

theorem deserialize_failsOnly (held : KeyQuery) :
    Reader.FailsOnly (deserialize held) .pastEnd :=
  readAddress_failsOnly.bind fun _ => (readList_failsOnly _).bind fun _ => .pure _

end KeyQuery

namespace KeyDocLists

def getSerializedSize (p : KeyDocLists) : Except WireFault UInt32 := do
  let size ← addEntries p.keyList (UInt32.ofNat (2 + 2))
  addEntries p.docList size

def serialize (p : KeyDocLists) : Except WireFault (List UInt8) := do
  let keys ← writeList p.keyList
  let docs ← writeList p.docList
  pure (keys ++ docs)

def deserialize (held : KeyDocLists) : BufferReader KeyDocLists := do
  let keyList ← readList held.keyList
  let docList ← readList held.docList
  pure { keyList := keyList, docList := docList }

def bytes (p : KeyDocLists) : List UInt8 := listBytes p.keyList ++ listBytes p.docList

def Expressible (p : KeyDocLists) : Prop := ListExpressible p.keyList ∧ ListExpressible p.docList

def encodedSize (p : KeyDocLists) : ℕ := 2 + 2 + entriesSize p.keyList + entriesSize p.docList

theorem getSerializedSize_eq {p : KeyDocLists} (hp : p.Expressible) :
    p.getSerializedSize = .ok (UInt32.ofNat p.encodedSize) := by
  rw [getSerializedSize, addEntries_eq hp.1.1, ← UInt32.ofNat_add]
  refine (addEntries_eq hp.2.1 _).trans ?_
  rw [← UInt32.ofNat_add, encodedSize]

theorem serialize_eq {p : KeyDocLists} (hp : p.Expressible) : p.serialize = .ok p.bytes := by
  rw [serialize, writeList_eq hp.1.1, writeList_eq hp.2.1]
  rfl

theorem length_bytes {p : KeyDocLists} (hp : p.Expressible) :
    p.bytes.length = p.encodedSize := by
  rw [bytes, List.length_append, length_listBytes hp.1.2, length_listBytes hp.2.2, encodedSize]
  omega

theorem deserialize_inverts {held : KeyDocLists} (hk : held.keyList = []) (hd : held.docList = []) :
    Reader.Inverts (deserialize held) bytes Expressible := by
  intro input p rest
  simp only [deserialize, hk, hd, Reader.bind_eq_ok, Reader.pure_eq_ok, readList_inverts.eq_ok]
  constructor
  · rintro ⟨keys, _, ⟨hkeys, rfl⟩, docs, _, ⟨hdocs, rfl⟩, rfl, rfl⟩
    exact ⟨⟨hkeys, hdocs⟩, (List.append_assoc _ _ _).symm⟩
  · rintro ⟨⟨hkeys, hdocs⟩, rfl⟩
    exact ⟨p.keyList, _, ⟨hkeys, List.append_assoc _ _ _⟩, p.docList, _, ⟨hdocs, rfl⟩, rfl, rfl⟩

theorem deserialize_failsOnly (held : KeyDocLists) :
    Reader.FailsOnly (deserialize held) .pastEnd :=
  (readList_failsOnly _).bind fun _ => (readList_failsOnly _).bind fun _ => .pure _

end KeyDocLists

namespace DocQuery

def getSerializedSize (p : DocQuery) : Except WireFault UInt32 := do
  let size ← addEntries p.keyList (UInt32.ofNat (4 + 2 + 2))
  addEntries p.docList size

def serialize (p : DocQuery) : Except WireFault (List UInt8) := do
  let keys ← writeList p.keyList
  let docs ← writeList p.docList
  pure (writeAddress p.initiatorAddress ++ keys ++ docs)

def deserialize (held : DocQuery) : BufferReader DocQuery := do
  let initiatorAddress ← readAddress
  let keyList ← readList held.keyList
  let docList ← readList held.docList
  pure { keyList := keyList, docList := docList, initiatorAddress := initiatorAddress }

def bytes (p : DocQuery) : List UInt8 :=
  writeAddress p.initiatorAddress ++ listBytes p.keyList ++ listBytes p.docList

def Expressible (p : DocQuery) : Prop := ListExpressible p.keyList ∧ ListExpressible p.docList

def encodedSize (p : DocQuery) : ℕ := 4 + 2 + 2 + entriesSize p.keyList + entriesSize p.docList

theorem getSerializedSize_eq {p : DocQuery} (hp : p.Expressible) :
    p.getSerializedSize = .ok (UInt32.ofNat p.encodedSize) := by
  rw [getSerializedSize, addEntries_eq hp.1.1, ← UInt32.ofNat_add]
  refine (addEntries_eq hp.2.1 _).trans ?_
  rw [← UInt32.ofNat_add, encodedSize]

theorem serialize_eq {p : DocQuery} (hp : p.Expressible) : p.serialize = .ok p.bytes := by
  rw [serialize, writeList_eq hp.1.1, writeList_eq hp.2.1]
  rfl

theorem length_bytes {p : DocQuery} (hp : p.Expressible) : p.bytes.length = p.encodedSize := by
  rw [bytes, List.length_append, List.length_append, length_writeAddress,
    length_listBytes hp.1.2, length_listBytes hp.2.2, encodedSize]
  omega

theorem deserialize_inverts {held : DocQuery} (hk : held.keyList = []) (hd : held.docList = []) :
    Reader.Inverts (deserialize held) bytes Expressible := by
  intro input p rest
  simp only [deserialize, hk, hd, Reader.bind_eq_ok, Reader.pure_eq_ok, readAddress_inverts.eq_ok,
    readList_inverts.eq_ok]
  constructor
  · rintro ⟨a, _, ⟨-, rfl⟩, keys, _, ⟨hkeys, rfl⟩, docs, _, ⟨hdocs, rfl⟩, rfl, rfl⟩
    exact ⟨⟨hkeys, hdocs⟩, by simp only [bytes, List.append_assoc]⟩
  · rintro ⟨⟨hkeys, hdocs⟩, rfl⟩
    refine ⟨p.initiatorAddress, _, ⟨trivial, ?_⟩, p.keyList, _, ⟨hkeys, rfl⟩, p.docList, _,
      ⟨hdocs, rfl⟩, rfl, rfl⟩
    simp only [bytes, List.append_assoc]

theorem deserialize_failsOnly (held : DocQuery) :
    Reader.FailsOnly (deserialize held) .pastEnd :=
  readAddress_failsOnly.bind fun _ => (readList_failsOnly _).bind fun _ =>
    (readList_failsOnly _).bind fun _ => .pure _

end DocQuery

/-! ## Messages -/

namespace SearchPayload

def messageType : SearchPayload → UInt8
  | pingReq _ => 1
  | pingRsp _ => 2
  | storeList _ _ => 3
  | searchInitial _ _ => 4
  | searchBegin _ _ _ => 5
  | search _ _ _ => 6
  | searchComplete _ _ => 7
  | passKeys _ _ => 8

def getSerializedSize : SearchPayload → Except WireFault UInt32
  | pingReq pingMessage => .ok (UInt32.ofNat (2 + pingMessage.length))
  | pingRsp pingMessage => .ok (UInt32.ofNat (2 + pingMessage.length))
  | storeList key docVector => KeyDocs.getSerializedSize ⟨key, docVector⟩
  | searchInitial initiatorAddress keyList => KeyQuery.getSerializedSize ⟨initiatorAddress, keyList⟩
  | searchBegin initiatorAddress keyList docList =>
      DocQuery.getSerializedSize ⟨⟨keyList, docList⟩, initiatorAddress⟩
  | search initiatorAddress keyList docList =>
      DocQuery.getSerializedSize ⟨⟨keyList, docList⟩, initiatorAddress⟩
  | searchComplete keyList docList => KeyDocLists.getSerializedSize ⟨keyList, docList⟩
  | passKeys key docVector => KeyDocs.getSerializedSize ⟨key, docVector⟩

def serialize : SearchPayload → Except WireFault (List UInt8)
  | pingReq pingMessage => .ok (writeString pingMessage)
  | pingRsp pingMessage => .ok (writeString pingMessage)
  | storeList key docVector => KeyDocs.serialize ⟨key, docVector⟩
  | searchInitial initiatorAddress keyList => KeyQuery.serialize ⟨initiatorAddress, keyList⟩
  | searchBegin initiatorAddress keyList docList =>
      DocQuery.serialize ⟨⟨keyList, docList⟩, initiatorAddress⟩
  | search initiatorAddress keyList docList =>
      DocQuery.serialize ⟨⟨keyList, docList⟩, initiatorAddress⟩
  | searchComplete keyList docList => KeyDocLists.serialize ⟨keyList, docList⟩
  | passKeys key docVector => KeyDocs.serialize ⟨key, docVector⟩

def Expressible : SearchPayload → Prop
  | pingReq pingMessage => pingMessage.length < 65536
  | pingRsp pingMessage => pingMessage.length < 65536
  | storeList key docVector => KeyDocs.Expressible ⟨key, docVector⟩
  | searchInitial initiatorAddress keyList => KeyQuery.Expressible ⟨initiatorAddress, keyList⟩
  | searchBegin initiatorAddress keyList docList =>
      DocQuery.Expressible ⟨⟨keyList, docList⟩, initiatorAddress⟩
  | search initiatorAddress keyList docList =>
      DocQuery.Expressible ⟨⟨keyList, docList⟩, initiatorAddress⟩
  | searchComplete keyList docList => KeyDocLists.Expressible ⟨keyList, docList⟩
  | passKeys key docVector => KeyDocs.Expressible ⟨key, docVector⟩

def bytes : SearchPayload → List UInt8
  | pingReq pingMessage => writeString pingMessage
  | pingRsp pingMessage => writeString pingMessage
  | storeList key docVector => KeyDocs.bytes ⟨key, docVector⟩
  | searchInitial initiatorAddress keyList => KeyQuery.bytes ⟨initiatorAddress, keyList⟩
  | searchBegin initiatorAddress keyList docList =>
      DocQuery.bytes ⟨⟨keyList, docList⟩, initiatorAddress⟩
  | search initiatorAddress keyList docList =>
      DocQuery.bytes ⟨⟨keyList, docList⟩, initiatorAddress⟩
  | searchComplete keyList docList => KeyDocLists.bytes ⟨keyList, docList⟩
  | passKeys key docVector => KeyDocs.bytes ⟨key, docVector⟩

def encodedSize : SearchPayload → ℕ
  | pingReq pingMessage => 2 + pingMessage.length
  | pingRsp pingMessage => 2 + pingMessage.length
  | storeList key docVector => KeyDocs.encodedSize ⟨key, docVector⟩
  | searchInitial initiatorAddress keyList => KeyQuery.encodedSize ⟨initiatorAddress, keyList⟩
  | searchBegin initiatorAddress keyList docList =>
      DocQuery.encodedSize ⟨⟨keyList, docList⟩, initiatorAddress⟩
  | search initiatorAddress keyList docList =>
      DocQuery.encodedSize ⟨⟨keyList, docList⟩, initiatorAddress⟩
  | searchComplete keyList docList => KeyDocLists.encodedSize ⟨keyList, docList⟩
  | passKeys key docVector => KeyDocs.encodedSize ⟨key, docVector⟩

variable {p : SearchPayload}

theorem getSerializedSize_eq (hp : p.Expressible) :
    p.getSerializedSize = .ok (UInt32.ofNat p.encodedSize) := by
  cases p with
  | pingReq pingMessage => rfl
  | pingRsp pingMessage => rfl
  | storeList key docVector => exact KeyDocs.getSerializedSize_eq hp
  | searchInitial initiator keyList => exact KeyQuery.getSerializedSize_eq hp
  | searchBegin initiator keyList docList => exact DocQuery.getSerializedSize_eq hp
  | search initiator keyList docList => exact DocQuery.getSerializedSize_eq hp
  | searchComplete keyList docList => exact KeyDocLists.getSerializedSize_eq hp
  | passKeys key docVector => exact KeyDocs.getSerializedSize_eq hp

theorem serialize_eq (hp : p.Expressible) : p.serialize = .ok p.bytes := by
  cases p with
  | pingReq pingMessage => rfl
  | pingRsp pingMessage => rfl
  | storeList key docVector => exact KeyDocs.serialize_eq hp
  | searchInitial initiator keyList => exact KeyQuery.serialize_eq hp
  | searchBegin initiator keyList docList => exact DocQuery.serialize_eq hp
  | search initiator keyList docList => exact DocQuery.serialize_eq hp
  | searchComplete keyList docList => exact KeyDocLists.serialize_eq hp
  | passKeys key docVector => exact KeyDocs.serialize_eq hp

theorem length_bytes (hp : p.Expressible) : p.bytes.length = p.encodedSize := by
  cases p with
  | pingReq pingMessage => exact length_writeString hp
  | pingRsp pingMessage => exact length_writeString hp
  | storeList key docVector => exact KeyDocs.length_bytes hp
  | searchInitial initiator keyList => exact KeyQuery.length_bytes hp
  | searchBegin initiator keyList docList => exact DocQuery.length_bytes hp
  | search initiator keyList docList => exact DocQuery.length_bytes hp
  | searchComplete keyList docList => exact KeyDocLists.length_bytes hp
  | passKeys key docVector => exact KeyDocs.length_bytes hp

theorem expressible_of_encodedSize (hp : p.encodedSize ≤ 65507) : p.Expressible := by
  cases p with
  | pingReq pingMessage => simp only [encodedSize, Expressible] at hp ⊢; omega
  | pingRsp pingMessage => simp only [encodedSize, Expressible] at hp ⊢; omega
  | storeList key docVector =>
      simp only [encodedSize, KeyDocs.encodedSize] at hp
      exact ⟨by simp only; omega, listExpressible_of_entriesSize (by simp only; omega)⟩
  | searchInitial initiator keyList =>
      simp only [encodedSize, KeyQuery.encodedSize] at hp
      exact listExpressible_of_entriesSize (by simp only; omega)
  | searchBegin initiator keyList docList =>
      simp only [encodedSize, DocQuery.encodedSize] at hp
      exact ⟨listExpressible_of_entriesSize (by simp only; omega),
        listExpressible_of_entriesSize (by simp only; omega)⟩
  | search initiator keyList docList =>
      simp only [encodedSize, DocQuery.encodedSize] at hp
      exact ⟨listExpressible_of_entriesSize (by simp only; omega),
        listExpressible_of_entriesSize (by simp only; omega)⟩
  | searchComplete keyList docList =>
      simp only [encodedSize, KeyDocLists.encodedSize] at hp
      exact ⟨listExpressible_of_entriesSize (by simp only; omega),
        listExpressible_of_entriesSize (by simp only; omega)⟩
  | passKeys key docVector =>
      simp only [encodedSize, KeyDocs.encodedSize] at hp
      exact ⟨by simp only; omega, listExpressible_of_entriesSize (by simp only; omega)⟩

end SearchPayload

namespace PennSearchMessage

def getSerializedSize (m : PennSearchMessage) : Except WireFault UInt32 := do
  let size ← m.payload.getSerializedSize
  pure (1 + 4 + size)

def serialize (m : PennSearchMessage) : Except WireFault (List UInt8) := do
  let payload ← m.payload.serialize
  pure (writeU8 m.payload.messageType ++ writeHtonU32 m.transactionId ++ payload)

theorem serializedSize_eq (m : PennSearchMessage) :
    m.serializedSize = 5 + m.payload.encodedSize := by
  obtain ⟨tx, p⟩ := m
  cases p <;> rfl

theorem expressible_of_fits {m : PennSearchMessage} (hm : m.fits = true) :
    m.payload.Expressible := by
  have hsize : m.serializedSize ≤ 65507 := of_decide_eq_true hm
  rw [serializedSize_eq] at hsize
  apply SearchPayload.expressible_of_encodedSize
  omega

end PennSearchMessage

structure PennSearchMessageObject where
  messageType : UInt8
  transactionId : UInt32
  pingReq : CxxString
  pingRsp : CxxString
  storeList : KeyDocs
  searchInitial : KeyQuery
  searchBegin : DocQuery
  search : DocQuery
  searchComplete : KeyDocLists
  passKeys : KeyDocs

namespace PennSearchMessageObject

def payload? (o : PennSearchMessageObject) : Option SearchPayload :=
  match o.messageType.toNat with
  | 1 => some (.pingReq o.pingReq)
  | 2 => some (.pingRsp o.pingRsp)
  | 3 => some (.storeList o.storeList.key o.storeList.docVector)
  | 4 => some (.searchInitial o.searchInitial.initiatorAddress o.searchInitial.keyList)
  | 5 => some (.searchBegin o.searchBegin.initiatorAddress o.searchBegin.keyList
      o.searchBegin.docList)
  | 6 => some (.search o.search.initiatorAddress o.search.keyList o.search.docList)
  | 7 => some (.searchComplete o.searchComplete.keyList o.searchComplete.docList)
  | 8 => some (.passKeys o.passKeys.key o.passKeys.docVector)
  | _ => none

def message? (o : PennSearchMessageObject) : Option PennSearchMessage :=
  o.payload?.map fun payload => { transactionId := o.transactionId, payload := payload }

/-- The vectors of an object that its constructor made are empty. -/
structure Fresh (o : PennSearchMessageObject) : Prop where
  storeList : o.storeList.docVector = []
  searchInitial : o.searchInitial.keyList = []
  searchBegin : o.searchBegin.keyList = [] ∧ o.searchBegin.docList = []
  search : o.search.keyList = [] ∧ o.search.docList = []
  searchComplete : o.searchComplete.keyList = [] ∧ o.searchComplete.docList = []
  passKeys : o.passKeys.docVector = []

/-- The payload part of `Deserialize`, with the size that it adds. -/
def deserializePayload (o : PennSearchMessageObject) :
    BufferReader (PennSearchMessageObject × UInt32) :=
  match o.messageType.toNat with
  | 1 => do
      let pingReq ← readString
      pure ({ o with pingReq := pingReq }, UInt32.ofNat (2 + pingReq.length))
  | 2 => do
      let pingRsp ← readString
      pure ({ o with pingRsp := pingRsp }, UInt32.ofNat (2 + pingRsp.length))
  | 3 => do
      let storeList ← o.storeList.deserialize
      let size ← Reader.ofExcept storeList.getSerializedSize
      pure ({ o with storeList := storeList }, size)
  | 4 => do
      let searchInitial ← o.searchInitial.deserialize
      let size ← Reader.ofExcept searchInitial.getSerializedSize
      pure ({ o with searchInitial := searchInitial }, size)
  | 5 => do
      let searchBegin ← o.searchBegin.deserialize
      let size ← Reader.ofExcept searchBegin.getSerializedSize
      pure ({ o with searchBegin := searchBegin }, size)
  | 6 => do
      let search ← o.search.deserialize
      let size ← Reader.ofExcept search.getSerializedSize
      pure ({ o with search := search }, size)
  | 7 => do
      let searchComplete ← o.searchComplete.deserialize
      let size ← Reader.ofExcept searchComplete.getSerializedSize
      pure ({ o with searchComplete := searchComplete }, size)
  | 8 => do
      let passKeys ← o.passKeys.deserialize
      let size ← Reader.ofExcept passKeys.getSerializedSize
      pure ({ o with passKeys := passKeys }, size)
  | _ => Reader.fail .unknownType

/-- `Deserialize` into an object, with what it returns. -/
def deserialize (o : PennSearchMessageObject) :
    BufferReader (PennSearchMessageObject × UInt32) := do
  let messageType ← readU8
  let transactionId ← readNtohU32
  let (o', size) ←
    deserializePayload { o with messageType := messageType, transactionId := transactionId }
  pure (o', 1 + 4 + size)

def assign (o : PennSearchMessageObject) : SearchPayload → PennSearchMessageObject
  | .pingReq pingMessage => { o with pingReq := pingMessage }
  | .pingRsp pingMessage => { o with pingRsp := pingMessage }
  | .storeList key docVector => { o with storeList := ⟨key, docVector⟩ }
  | .searchInitial initiatorAddress keyList =>
      { o with searchInitial := ⟨initiatorAddress, keyList⟩ }
  | .searchBegin initiatorAddress keyList docList =>
      { o with searchBegin := ⟨⟨keyList, docList⟩, initiatorAddress⟩ }
  | .search initiatorAddress keyList docList =>
      { o with search := ⟨⟨keyList, docList⟩, initiatorAddress⟩ }
  | .searchComplete keyList docList => { o with searchComplete := ⟨keyList, docList⟩ }
  | .passKeys key docVector => { o with passKeys := ⟨key, docVector⟩ }

theorem message?_assign {o : PennSearchMessageObject} {p : SearchPayload}
    (hp : p.messageType = o.messageType) :
    (o.assign p).message? = some { transactionId := o.transactionId, payload := p } := by
  obtain ⟨t, tx, pingReq, pingRsp, storeList, searchInitial, searchBegin, search,
    searchComplete, passKeys⟩ := o
  subst hp
  cases p <;> rfl

section Sized

variable {α β : Type} {r : BufferReader α} {w : α → List UInt8} {P : α → Prop}
  {size : α → Except WireFault UInt32} {total : α → UInt32} {f : α → β}

/-- Where the size of every structure that can be read is defined, computing it
after the reading is a function of what was read. -/
theorem sized_eq (hr : Reader.Inverts r w P) (hsize : ∀ a, P a → size a = .ok (total a)) :
    (do
        let a ← r
        let n ← Reader.ofExcept (size a)
        pure (f a, n) : BufferReader (β × UInt32)) =
      (do
        let a ← r
        pure (f a, total a)) := by
  apply hr.bind_congr
  intro a ha
  rw [hsize a ha, Reader.ofExcept_ok, pure_bind]

end Sized

variable {o : PennSearchMessageObject}

theorem deserializePayload_bytes (ho : o.Fresh) {p : SearchPayload} (hp : p.Expressible)
    (htype : p.messageType = o.messageType) (rest : List UInt8) :
    deserializePayload o (p.bytes ++ rest) =
      .ok ((o.assign p, UInt32.ofNat p.encodedSize), rest) := by
  obtain ⟨t, tx, pingReq, pingRsp, storeList, searchInitial, searchBegin, search,
    searchComplete, passKeys⟩ := o
  subst htype
  cases p with
  | pingReq pingMessage => exact Reader.bind_of_ok (readString_writeString rest hp)
  | pingRsp pingMessage => exact Reader.bind_of_ok (readString_writeString rest hp)
  | storeList key docVector =>
      have hr := KeyDocs.deserialize_inverts ho.storeList
      refine (congrFun (sized_eq hr fun _ => KeyDocs.getSerializedSize_eq) _).trans ?_
      exact Reader.bind_of_ok (hr.read_write hp rest)
  | searchInitial initiator keyList =>
      have hr := KeyQuery.deserialize_inverts ho.searchInitial
      refine (congrFun (sized_eq hr fun _ => KeyQuery.getSerializedSize_eq) _).trans ?_
      exact Reader.bind_of_ok (hr.read_write hp rest)
  | searchBegin initiator keyList docList =>
      have hr := DocQuery.deserialize_inverts ho.searchBegin.1 ho.searchBegin.2
      refine (congrFun (sized_eq hr fun _ => DocQuery.getSerializedSize_eq) _).trans ?_
      exact Reader.bind_of_ok (hr.read_write hp rest)
  | search initiator keyList docList =>
      have hr := DocQuery.deserialize_inverts ho.search.1 ho.search.2
      refine (congrFun (sized_eq hr fun _ => DocQuery.getSerializedSize_eq) _).trans ?_
      exact Reader.bind_of_ok (hr.read_write hp rest)
  | searchComplete keyList docList =>
      have hr := KeyDocLists.deserialize_inverts ho.searchComplete.1 ho.searchComplete.2
      refine (congrFun (sized_eq hr fun _ => KeyDocLists.getSerializedSize_eq) _).trans ?_
      exact Reader.bind_of_ok (hr.read_write hp rest)
  | passKeys key docVector =>
      have hr := KeyDocs.deserialize_inverts ho.passKeys
      refine (congrFun (sized_eq hr fun _ => KeyDocs.getSerializedSize_eq) _).trans ?_
      exact Reader.bind_of_ok (hr.read_write hp rest)

theorem deserializePayload_yields (ho : o.Fresh) :
    Reader.Yields (deserializePayload o) fun input out rest =>
      ∃ p : SearchPayload, p.Expressible ∧ p.messageType = o.messageType ∧
        out = (o.assign p, UInt32.ofNat p.encodedSize) ∧ input = p.bytes ++ rest := by
  unfold deserializePayload
  split <;> rename_i ht <;> intro input out rest h
  · obtain ⟨s, hs, rfl, rfl⟩ := readString_inverts.bind_pure_eq_ok.mp h
    exact ⟨.pingReq s, hs, UInt8.toNat_inj.mp ht.symm, rfl, rfl⟩
  · obtain ⟨s, hs, rfl, rfl⟩ := readString_inverts.bind_pure_eq_ok.mp h
    exact ⟨.pingRsp s, hs, UInt8.toNat_inj.mp ht.symm, rfl, rfl⟩
  · have hr := KeyDocs.deserialize_inverts ho.storeList
    rw [sized_eq hr fun _ => KeyDocs.getSerializedSize_eq, hr.bind_pure_eq_ok] at h
    obtain ⟨q, hq, rfl, rfl⟩ := h
    exact ⟨.storeList q.key q.docVector, hq, UInt8.toNat_inj.mp ht.symm, rfl, rfl⟩
  · have hr := KeyQuery.deserialize_inverts ho.searchInitial
    rw [sized_eq hr fun _ => KeyQuery.getSerializedSize_eq, hr.bind_pure_eq_ok] at h
    obtain ⟨q, hq, rfl, rfl⟩ := h
    exact ⟨.searchInitial q.initiatorAddress q.keyList, hq, UInt8.toNat_inj.mp ht.symm, rfl, rfl⟩
  · have hr := DocQuery.deserialize_inverts ho.searchBegin.1 ho.searchBegin.2
    rw [sized_eq hr fun _ => DocQuery.getSerializedSize_eq, hr.bind_pure_eq_ok] at h
    obtain ⟨q, hq, rfl, rfl⟩ := h
    exact ⟨.searchBegin q.initiatorAddress q.keyList q.docList, hq,
      UInt8.toNat_inj.mp ht.symm, rfl, rfl⟩
  · have hr := DocQuery.deserialize_inverts ho.search.1 ho.search.2
    rw [sized_eq hr fun _ => DocQuery.getSerializedSize_eq, hr.bind_pure_eq_ok] at h
    obtain ⟨q, hq, rfl, rfl⟩ := h
    exact ⟨.search q.initiatorAddress q.keyList q.docList, hq, UInt8.toNat_inj.mp ht.symm, rfl, rfl⟩
  · have hr := KeyDocLists.deserialize_inverts ho.searchComplete.1 ho.searchComplete.2
    rw [sized_eq hr fun _ => KeyDocLists.getSerializedSize_eq, hr.bind_pure_eq_ok] at h
    obtain ⟨q, hq, rfl, rfl⟩ := h
    exact ⟨.searchComplete q.keyList q.docList, hq, UInt8.toNat_inj.mp ht.symm, rfl, rfl⟩
  · have hr := KeyDocs.deserialize_inverts ho.passKeys
    rw [sized_eq hr fun _ => KeyDocs.getSerializedSize_eq, hr.bind_pure_eq_ok] at h
    obtain ⟨q, hq, rfl, rfl⟩ := h
    exact ⟨.passKeys q.key q.docVector, hq, UInt8.toNat_inj.mp ht.symm, rfl, rfl⟩
  · cases h

theorem deserializePayload_failsOnly (ho : o.Fresh) (hlo : 1 ≤ o.messageType)
    (hhi : o.messageType ≤ 8) : Reader.FailsOnly (deserializePayload o) .pastEnd := by
  rw [UInt8.le_iff_toNat_le] at hlo hhi
  unfold deserializePayload
  split
  · exact readString_failsOnly.bind fun _ => .pure _
  · exact readString_failsOnly.bind fun _ => .pure _
  · rw [sized_eq (KeyDocs.deserialize_inverts ho.storeList) fun _ => KeyDocs.getSerializedSize_eq]
    exact (KeyDocs.deserialize_failsOnly _).bind fun _ => .pure _
  · rw [sized_eq (KeyQuery.deserialize_inverts ho.searchInitial) fun _ =>
        KeyQuery.getSerializedSize_eq]
    exact (KeyQuery.deserialize_failsOnly _).bind fun _ => .pure _
  · rw [sized_eq (DocQuery.deserialize_inverts ho.searchBegin.1 ho.searchBegin.2) fun _ =>
        DocQuery.getSerializedSize_eq]
    exact (DocQuery.deserialize_failsOnly _).bind fun _ => .pure _
  · rw [sized_eq (DocQuery.deserialize_inverts ho.search.1 ho.search.2) fun _ =>
        DocQuery.getSerializedSize_eq]
    exact (DocQuery.deserialize_failsOnly _).bind fun _ => .pure _
  · rw [sized_eq (KeyDocLists.deserialize_inverts ho.searchComplete.1 ho.searchComplete.2) fun _ =>
        KeyDocLists.getSerializedSize_eq]
    exact (KeyDocLists.deserialize_failsOnly _).bind fun _ => .pure _
  · rw [sized_eq (KeyDocs.deserialize_inverts ho.passKeys) fun _ => KeyDocs.getSerializedSize_eq]
    exact (KeyDocs.deserialize_failsOnly _).bind fun _ => .pure _
  · have hone : (1 : UInt8).toNat = 1 := rfl
    have height : (8 : UInt8).toNat = 8 := rfl
    grind

def withHeader (o : PennSearchMessageObject) (t : UInt8) (transactionId : UInt32) :
    PennSearchMessageObject :=
  { o with messageType := t, transactionId := transactionId }

theorem Fresh.withHeader (ho : o.Fresh) (t : UInt8) (transactionId : UInt32) :
    (o.withHeader t transactionId).Fresh :=
  ⟨ho.storeList, ho.searchInitial, ho.searchBegin, ho.search, ho.searchComplete, ho.passKeys⟩

theorem deserialize_header (t : UInt8) (transactionId : UInt32) (bytes : List UInt8) :
    o.deserialize (writeU8 t ++ (writeHtonU32 transactionId ++ bytes)) =
      (do
        let out ← (o.withHeader t transactionId).deserializePayload
        pure (out.1, 1 + 4 + out.2) : BufferReader (PennSearchMessageObject × UInt32)) bytes := by
  rw [deserialize, Reader.bind_of_ok (readU8_writeU8 _ t),
    Reader.bind_of_ok (readNtohU32_writeHtonU32 _ transactionId)]
  rfl

end PennSearchMessageObject

namespace PennSearchMessage

open PennSearchMessageObject

def bytes (m : PennSearchMessage) : List UInt8 :=
  writeU8 m.payload.messageType ++ writeHtonU32 m.transactionId ++ m.payload.bytes

theorem serialize_eq {m : PennSearchMessage} (hm : m.payload.Expressible) :
    m.serialize = .ok m.bytes := by
  rw [serialize, SearchPayload.serialize_eq hm]
  rfl

theorem getSerializedSize_eq {m : PennSearchMessage} (hm : m.payload.Expressible) :
    m.getSerializedSize = .ok (UInt32.ofNat m.serializedSize) := by
  rw [getSerializedSize, SearchPayload.getSerializedSize_eq hm, serializedSize_eq,
    UInt32.ofNat_add]
  rfl

/-- `Serialize` fills exactly the bytes that `GetSerializedSize` asks for. -/
theorem length_bytes {m : PennSearchMessage} (hm : m.fits = true) :
    m.bytes.length = (UInt32.ofNat m.serializedSize).toNat := by
  have hfits : m.serializedSize ≤ 65507 := of_decide_eq_true hm
  have hsize : (UInt32.ofNat m.serializedSize).toNat = m.serializedSize :=
    UInt32.toNat_ofNat_of_lt' (hfits.trans_lt (by decide))
  rw [hsize, bytes, List.length_append, List.length_append, length_writeU8, length_writeHtonU32,
    SearchPayload.length_bytes (expressible_of_fits hm), serializedSize_eq]

theorem deserialize_bytes {m : PennSearchMessage} (hm : m.payload.Expressible)
    {o : PennSearchMessageObject} (ho : o.Fresh) (rest : List UInt8) :
    ∃ o', o.deserialize (m.bytes ++ rest) = .ok ((o', UInt32.ofNat m.serializedSize), rest) ∧
      o'.message? = some m := by
  obtain ⟨tx, p⟩ := m
  have hsize : 1 + 4 + UInt32.ofNat p.encodedSize =
      UInt32.ofNat (PennSearchMessage.serializedSize ⟨tx, p⟩) := by
    rw [serializedSize_eq, UInt32.ofNat_add]
    rfl
  refine ⟨(o.withHeader p.messageType tx).assign p, ?_, message?_assign rfl⟩
  rw [← hsize, bytes, List.append_assoc, List.append_assoc, deserialize_header]
  exact Reader.bind_of_ok (deserializePayload_bytes (ho.withHeader _ _) hm rfl rest)

theorem eq_bytes_of_deserialize {o : PennSearchMessageObject} (ho : o.Fresh) {t : UInt8}
    {tail : List UInt8} (hlo : 1 ≤ t) (hhi : t ≤ 8)
    (hshort : o.deserialize (t :: tail) ≠ .error .pastEnd) :
    ∃ o' size rest m, o.deserialize (t :: tail) = .ok ((o', size), rest) ∧
      o'.message? = some m ∧ m.payload.Expressible ∧ t :: tail = m.bytes ++ rest := by
  have hhead : o.deserialize (t :: tail) = _ := Reader.bind_of_ok (readU8_writeU8 tail t)
  have hfails : Reader.FailsOnly (do
      let tx ← readNtohU32
      let out ← (o.withHeader t tx).deserializePayload
      pure (out.1, 1 + 4 + out.2)) .pastEnd :=
    readNtohU32_failsOnly.bind fun tx =>
      (deserializePayload_failsOnly (ho.withHeader t tx) hlo hhi).bind fun _ => .pure _
  cases hread : o.deserialize (t :: tail) with
  | error e =>
      rw [hread] at hshort hhead
      exact absurd (congrArg Except.error (hfails _ _ hhead.symm)) hshort
  | ok p =>
      obtain ⟨⟨o', size⟩, rest⟩ := p
      rw [hhead] at hread
      simp only [Reader.bind_eq_ok, Reader.pure_eq_ok, readNtohU32_inverts.eq_ok] at hread
      obtain ⟨tx, _, ⟨-, rfl⟩, out, _, hpayload, hout, rfl⟩ := hread
      obtain ⟨p, hp, htype, rfl, rfl⟩ :=
        deserializePayload_yields (ho.withHeader t tx) _ _ _ hpayload
      obtain ⟨rfl, rfl⟩ := Prod.ext_iff.mp hout
      refine ⟨_, _, _, ⟨tx, p⟩, rfl, message?_assign htype, hp, ?_⟩
      have htype' : p.messageType = t := htype
      simp only [bytes, htype', writeU8, List.append_assoc, List.cons_append, List.nil_append]

/-- The encoding and the decoding of messages undo each other, on a fresh object. -/
theorem roundTrip_of_fresh :
    (∀ m : PennSearchMessage, m.serializedSize ≤ 65507 →
      ∃ size written, m.getSerializedSize = .ok size ∧ m.serialize = .ok written ∧
        written.length = size.toNat ∧
        ∀ o : PennSearchMessageObject, o.Fresh → ∀ rest : List UInt8, ∃ o',
          o.deserialize (written ++ rest) = .ok ((o', size), rest) ∧ o'.message? = some m) ∧
    ∀ o : PennSearchMessageObject, o.Fresh → ∀ (t : UInt8) (tail : List UInt8), 1 ≤ t → t ≤ 8 →
      o.deserialize (t :: tail) ≠ .error .pastEnd →
        ∃ o' size rest m written, o.deserialize (t :: tail) = .ok ((o', size), rest) ∧
          o'.message? = some m ∧ m.serialize = .ok written ∧ t :: tail = written ++ rest := by
  constructor
  · intro m hm
    have hfits : m.fits = true := decide_eq_true hm
    have hp := expressible_of_fits hfits
    exact ⟨_, m.bytes, getSerializedSize_eq hp, serialize_eq hp, length_bytes hfits,
      fun o ho => deserialize_bytes hp ho⟩
  · intro o ho t tail hlo hhi hshort
    obtain ⟨o', size, rest, m, hread, hmsg, hp, htail⟩ :=
      eq_bytes_of_deserialize ho hlo hhi hshort
    exact ⟨o', size, rest, m, m.bytes, hread, hmsg, serialize_eq hp, htail⟩

end PennSearchMessage

end PennSearch
