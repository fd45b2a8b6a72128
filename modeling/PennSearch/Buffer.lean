import PennSearch.Digest
import PennSearch.Library.Wire

/-!
# Packet buffers

`Buffer::Iterator` of ns-3 as readers and writers of bytes, with one lemma for
each reader: it undoes its writer, and fails only past the end of the buffer. The
fixed-width fields of a message are in the byte order that the method names; a
string is its bytes after a 16-bit length, and a vector of strings its entries
after a 16-bit count.
-/

namespace PennSearch

open Wire

inductive WireFault
  /-- A read past the end of the buffer, which an assertion of ns-3 forbids. -/
  | pastEnd
  /-- `NS_ASSERT (false)`, on a message type that no constructor of the enumeration has. -/
  | unknownType
  /-- The end of a function that has a result, without a `return`. -/
  | missingReturn
  /-- A `uint16_t` loop counter that never reaches the size of its vector. -/
  | diverges
deriving DecidableEq

/-- A `Buffer::Iterator` that reads. -/
abbrev BufferReader := Reader WireFault

namespace BufferIterator

/-! ## Fixed-width fields -/

def writeU8 (data : UInt8) : List UInt8 := [data]

/-- `WriteU16`: the low byte first. -/
def writeU16 (data : UInt16) : List UInt8 := leBytes 2 data.toNat

/-- `WriteU64`: the low byte first. -/
def writeU64 (data : UInt64) : List UInt8 := leBytes 8 data.toNat

/-- `WriteHtonU32`: the high byte first. -/
def writeHtonU32 (data : UInt32) : List UInt8 := (leBytes 4 data.toNat).reverse

/-- `Write`: the first `size` bytes of `buffer`. -/
def write (buffer : List UInt8) (size : UInt32) : List UInt8 := buffer.take size.toNat

def read (size : ℕ) : BufferReader (List UInt8) := Reader.take .pastEnd size

def readU8 : BufferReader UInt8 := do
  let bytes ← read 1
  pure (UInt8.ofNat (leValue bytes))

def readU16 : BufferReader UInt16 := do
  let bytes ← read 2
  pure (UInt16.ofNat (leValue bytes))

def readU64 : BufferReader UInt64 := do
  let bytes ← read 8
  pure (UInt64.ofNat (leValue bytes))

def readNtohU32 : BufferReader UInt32 := do
  let bytes ← read 4
  pure (UInt32.ofNat (leValue bytes.reverse))

theorem readU8_inverts : Reader.Inverts readU8 writeU8 fun _ => True := by
  apply Reader.take_map_inverts
  · intro a
    rfl
  · intro a
    simp [writeU8, leValue]
  · intro bytes h
    obtain ⟨b, rfl⟩ := List.length_eq_one_iff.mp h
    simp [writeU8, leValue]

theorem readU16_inverts : Reader.Inverts readU16 writeU16 fun _ => True :=
  Reader.le_inverts WireFault.pastEnd 2 UInt16.toNat_lt (fun _ => UInt16.ofNat_toNat) fun _ h =>
    UInt16.toNat_ofNat_of_lt' h

theorem readU64_inverts : Reader.Inverts readU64 writeU64 fun _ => True :=
  Reader.le_inverts WireFault.pastEnd 8 UInt64.toNat_lt (fun _ => UInt64.ofNat_toNat) fun _ h =>
    UInt64.toNat_ofNat_of_lt' h

theorem readNtohU32_inverts : Reader.Inverts readNtohU32 writeHtonU32 fun _ => True :=
  Reader.be_inverts WireFault.pastEnd 4 UInt32.toNat_lt (fun _ => UInt32.ofNat_toNat) fun _ h =>
    UInt32.toNat_ofNat_of_lt' h

theorem readU8_failsOnly : Reader.FailsOnly readU8 .pastEnd :=
  (Reader.FailsOnly.take _ 1).bind fun _ => .pure _

theorem readU16_failsOnly : Reader.FailsOnly readU16 .pastEnd :=
  (Reader.FailsOnly.take _ 2).bind fun _ => .pure _

theorem readU64_failsOnly : Reader.FailsOnly readU64 .pastEnd :=
  (Reader.FailsOnly.take _ 8).bind fun _ => .pure _

theorem readNtohU32_failsOnly : Reader.FailsOnly readNtohU32 .pastEnd :=
  (Reader.FailsOnly.take _ 4).bind fun _ => .pure _

/-! ## Addresses, digests and strings -/

/-- `WriteHtonU32` of `Ipv4Address::Get`. -/
def writeAddress (a : Ipv4Address) : List UInt8 := writeHtonU32 a.address

/-- `Ipv4Address` of `ReadNtohU32`. -/
def readAddress : BufferReader Ipv4Address := do
  let address ← readNtohU32
  pure ⟨address⟩

def writeDigest (digest : Digest) : List UInt8 := write digest.toList 20

def readDigest : BufferReader Digest := do
  let bytes ← read 20
  pure (Vector.ofFn fun i => bytes.getD i 0)

/-- The length and the bytes of a string: `WriteU16` of `length ()`, which keeps its
low 16 bits, and `Write` of `c_str ()`. -/
def writeString (s : CxxString) : List UInt8 :=
  writeU16 (UInt16.ofNat s.length) ++ write s (UInt32.ofNat s.length)

/-- `ReadU16` and `Read`, and the string made of what was read. -/
def readString : BufferReader CxxString := do
  let length ← readU16
  read length.toNat

theorem readAddress_inverts : Reader.Inverts readAddress writeAddress fun _ => True :=
  readNtohU32_inverts.map (fun _ _ => ⟨trivial, rfl⟩) fun _ _ => ⟨trivial, rfl⟩

theorem writeDigest_eq (digest : Digest) : writeDigest digest = digest.toList :=
  List.take_of_length_le (by simp)

theorem readDigest_inverts : Reader.Inverts readDigest writeDigest fun _ => True := by
  apply Reader.take_map_inverts
  · intro digest
    simp [writeDigest_eq]
  · intro digest
    ext i hi
    simp [writeDigest_eq]
  · intro bytes h
    rw [writeDigest_eq]
    apply List.ext_getElem
    · simp [h]
    · intro i hi hi'
      simp [hi']

theorem writeString_eq {s : CxxString} (hs : s.length < 65536) :
    writeString s = writeU16 (UInt16.ofNat s.length) ++ s := by
  have hlen : (UInt32.ofNat s.length).toNat = s.length := by
    apply UInt32.toNat_ofNat_of_lt'
    exact hs.trans (by decide)
  rw [writeString, write, hlen, List.take_length]

theorem readString_inverts :
    Reader.Inverts readString writeString fun s => s.length < 65536 := by
  intro bytes s rest
  rw [readString, Reader.bind_eq_ok]
  constructor
  · rintro ⟨length, mid, hlength, hread⟩
    obtain ⟨-, rfl⟩ := readU16_inverts.eq_ok.mp hlength
    obtain ⟨hlen, rfl⟩ := (Reader.take_inverts _ _).eq_ok.mp hread
    have hlt : s.length < 65536 := hlen ▸ length.toNat_lt
    refine ⟨hlt, ?_⟩
    rw [writeString_eq hlt, hlen, UInt16.ofNat_toNat, List.append_assoc]
  · rintro ⟨hlt, rfl⟩
    refine ⟨UInt16.ofNat s.length, s ++ rest, ?_, ?_⟩
    · rw [writeString_eq hlt, List.append_assoc]
      exact readU16_inverts.read_write trivial _
    · rw [UInt16.toNat_ofNat_of_lt' hlt]
      exact (Reader.take_inverts _ _).read_write rfl rest

theorem readAddress_failsOnly : Reader.FailsOnly readAddress .pastEnd :=
  readNtohU32_failsOnly.bind fun _ => .pure _

theorem readDigest_failsOnly : Reader.FailsOnly readDigest .pastEnd :=
  (Reader.FailsOnly.take _ 20).bind fun _ => .pure _

theorem readString_failsOnly : Reader.FailsOnly readString .pastEnd :=
  readU16_failsOnly.bind fun _ => .take _ _

section RoundTrip

variable (rest : List UInt8)

@[simp] theorem readU8_writeU8 (data : UInt8) :
    readU8 (writeU8 data ++ rest) = .ok (data, rest) := readU8_inverts.read_write trivial rest

@[simp] theorem readU16_writeU16 (data : UInt16) :
    readU16 (writeU16 data ++ rest) = .ok (data, rest) := readU16_inverts.read_write trivial rest

@[simp] theorem readNtohU32_writeHtonU32 (data : UInt32) :
    readNtohU32 (writeHtonU32 data ++ rest) = .ok (data, rest) :=
  readNtohU32_inverts.read_write trivial rest

@[simp] theorem readAddress_writeAddress (a : Ipv4Address) :
    readAddress (writeAddress a ++ rest) = .ok (a, rest) :=
  readAddress_inverts.read_write trivial rest

@[simp] theorem readDigest_writeDigest (digest : Digest) :
    readDigest (writeDigest digest ++ rest) = .ok (digest, rest) :=
  readDigest_inverts.read_write trivial rest

@[simp] theorem readString_writeString {s : CxxString} (hs : s.length < 65536) :
    readString (writeString s ++ rest) = .ok (s, rest) := readString_inverts.read_write hs rest

end RoundTrip

/-! ## Vectors -/

section Vectors

variable {α : Type} (w : α → List UInt8) (r : BufferReader α)

/-- The size of a vector, and its elements one after the other, in a loop over a
`uint16_t` index. -/
def writeVector (v : List α) : Except WireFault (List UInt8) :=
  CountedLoop.overList 16 v (fun a written => .ok (written ++ w a)) (.error .diverges)
    (writeU16 (UInt16.ofNat v.length))

/-- A size, and as many elements, which `push_back` adds to what the vector held. -/
def readVector (held : List α) : BufferReader (List α) := do
  let size ← readU16
  CountedLoop.counted 16 size.toNat (fun _ => Reader.pushBack r) (Reader.fail .diverges) held

def vectorBytes (v : List α) : List UInt8 := writeU16 (UInt16.ofNat v.length) ++ v.flatMap w

variable {w r} {P : α → Prop} {v held : List α}

theorem foldlM_append (written : List UInt8) :
    v.foldlM (fun (written : List UInt8) a => Except.ok (ε := WireFault) (written ++ w a)) written =
      .ok (written ++ v.flatMap w) := by
  induction v generalizing written with
  | nil =>
      rw [List.flatMap_nil, List.append_nil]
      rfl
  | cons a v ih =>
      rw [List.flatMap_cons, ← List.append_assoc]
      exact ih (written ++ w a)

theorem writeVector_eq (hv : v.length < 65536) : writeVector w v = .ok (vectorBytes w v) := by
  rw [writeVector, CountedLoop.overList_eq_foldlM hv, foldlM_append, vectorBytes]

/-- With 65536 elements or more the index wraps around and the loop does not end. -/
theorem writeVector_of_le (hv : 65536 ≤ v.length) : writeVector w v = .error .diverges :=
  CountedLoop.overList_of_le hv (fun a written => ⟨written ++ w a, rfl⟩) _

theorem readVector_eq_ok (hr : Reader.Inverts r w P) {bytes rest : List UInt8} :
    readVector r held bytes = .ok (v, rest) ↔
      ∃ l : List α, (l.length < 65536 ∧ ∀ a ∈ l, P a) ∧ v = held ++ l ∧
        bytes = vectorBytes w l ++ rest := by
  rw [readVector, Reader.bind_eq_ok]
  constructor
  · rintro ⟨size, mid, hsize, hloop⟩
    obtain ⟨-, rfl⟩ := readU16_inverts.eq_ok.mp hsize
    rw [CountedLoop.counted_eq_foldlM size.toNat_lt, Reader.foldlM_pushBack hr] at hloop
    obtain ⟨l, hl, hP, rfl, rfl⟩ := hloop
    rw [List.length_finRange] at hl
    refine ⟨l, ⟨hl ▸ size.toNat_lt, hP⟩, rfl, ?_⟩
    rw [vectorBytes, hl, UInt16.ofNat_toNat, List.append_assoc]
  · rintro ⟨l, ⟨hl, hP⟩, rfl, rfl⟩
    refine ⟨UInt16.ofNat l.length, l.flatMap w ++ rest, ?_, ?_⟩
    · rw [vectorBytes, List.append_assoc]
      exact readU16_writeU16 _ _
    · have hsize : (UInt16.ofNat l.length).toNat = l.length := UInt16.toNat_ofNat_of_lt' hl
      rw [hsize, CountedLoop.counted_eq_foldlM hl, Reader.foldlM_pushBack hr]
      exact ⟨l, List.length_finRange.symm, hP, rfl, rfl⟩

theorem readVector_inverts (hr : Reader.Inverts r w P) :
    Reader.Inverts (readVector r []) (vectorBytes w) fun v => v.length < 65536 ∧ ∀ a ∈ v, P a := by
  intro bytes v rest
  rw [readVector_eq_ok hr]
  constructor
  · rintro ⟨l, hl, rfl, rfl⟩
    exact ⟨hl, rfl⟩
  · rintro ⟨hv, rfl⟩
    exact ⟨v, hv, rfl, rfl⟩

theorem readVector_failsOnly (hr : Reader.FailsOnly r .pastEnd) (held : List α) :
    Reader.FailsOnly (readVector r held) .pastEnd := by
  refine readU16_failsOnly.bind fun size => ?_
  rw [CountedLoop.counted_eq_foldlM size.toNat_lt]
  exact Reader.FailsOnly.foldlM (fun v _ => hr.pushBack v) _ held

end Vectors

/-! ## Lengths -/

@[simp] theorem length_writeU8 (data : UInt8) : (writeU8 data).length = 1 := rfl

@[simp] theorem length_writeU16 (data : UInt16) : (writeU16 data).length = 2 :=
  length_leBytes 2 _

@[simp] theorem length_writeU64 (data : UInt64) : (writeU64 data).length = 8 :=
  length_leBytes 8 _

@[simp] theorem length_writeHtonU32 (data : UInt32) : (writeHtonU32 data).length = 4 := by
  rw [writeHtonU32, List.length_reverse, length_leBytes]

@[simp] theorem length_writeAddress (a : Ipv4Address) : (writeAddress a).length = 4 :=
  length_writeHtonU32 _

@[simp] theorem length_writeDigest (digest : Digest) : (writeDigest digest).length = 20 := by
  simp [writeDigest_eq]

theorem length_writeString {s : CxxString} (hs : s.length < 65536) :
    (writeString s).length = 2 + s.length := by
  rw [writeString_eq hs, List.length_append, length_writeU16]

end BufferIterator

/-- `Packet::RemoveHeader`: the header that `Deserialize` fills, and the bytes left
once as many as it returns are dropped. The iterator that `Deserialize` moves is
its own. -/
def removeHeader {α : Type} (deserialize : BufferReader (α × UInt32)) (packet : List UInt8) :
    Except WireFault (α × List UInt8) := do
  let ((header, deserialized), _) ← deserialize packet
  pure (header, packet.drop deserialized.toNat)

theorem removeHeader_eq {α : Type} {deserialize : BufferReader (α × UInt32)} {header : α}
    {written rest : List UInt8} {size : UInt32}
    (h : deserialize (written ++ rest) = .ok ((header, size), rest))
    (hsize : written.length = size.toNat) :
    removeHeader deserialize (written ++ rest) = .ok (header, rest) := by
  rw [removeHeader, h]
  show Except.ok (header, (written ++ rest).drop size.toNat) = _
  rw [← hsize, List.drop_left]

end PennSearch
