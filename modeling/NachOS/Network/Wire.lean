import NachOS.Lib.Memory

/-!
# Packets (network/post.cc:33-41,299-327, machine/network.cc:85-103,149-173)

A message travels as `PacketHeader`, `MailHeader` and the data, each header being
copied into the packet byte for byte. `PostOfficeOutput::Send` joins the mail
header to the data, `NetworkOutput::Send` joins the packet header to that, and
`PostOfficeInput` takes the two apart again. The two headers have the same layout,
three 32-bit words, and share a type here.

Packets have a fixed size on the wire; what follows the data in a buffer that was
just allocated is whatever was there before.
-/
namespace NachOS.Network
open NachOS.Lib

/-- `NetworkAddress` and `MailBoxAddress` (machine/network.h:24, network/post.h:39). -/
abbrev NetworkAddress := CInt

abbrev MailBoxAddress := CInt

structure Header where
  to_ : CInt
  from_ : CInt
  length : BitVec 32
  deriving DecidableEq

abbrev PacketHeader := Header

abbrev MailHeader := Header

/-- `sizeof(PacketHeader)` and `sizeof(MailHeader)`. -/
def HeaderSize : Nat := 12

def MaxWireSize : Nat := 64

def MaxPacketSize : Nat := MaxWireSize - HeaderSize

def MaxMailSize : Nat := MaxPacketSize - HeaderSize

namespace Header

/-- `*(PacketHeader *)buffer`, `*(MailHeader *)buffer`. -/
def load (b : Buf) : Header := ⟨word b 0, word b 4, word b 8⟩

def store (h : Header) (b : Buf) : Buf :=
  setWord (setWord (setWord b 0 h.to_) 4 h.from_) 8 h.length

variable {h : Header} {b c : Buf}

theorem load_congr (same : ∀ i < HeaderSize, b i = c i) : load b = load c := by
  have words : ∀ a, a + 4 ≤ HeaderSize → word b a = word c a :=
    fun a ha => word_congr fun k _ hk => same k (by omega)
  unfold load
  rw [words 0 (by decide), words 4 (by decide), words 8 (by decide)]

@[simp] theorem load_store : load (h.store b) = h := by
  have to_ : word (h.store b) 0 = h.to_ :=
    (word_setWord_of_disjoint (by omega)).trans
      ((word_setWord_of_disjoint (by omega)).trans (word_setWord _ _ _))
  have from_ : word (h.store b) 4 = h.from_ :=
    (word_setWord_of_disjoint (by omega)).trans (word_setWord _ _ _)
  have length : word (h.store b) 8 = h.length := word_setWord _ _ _
  unfold load
  rw [to_, from_, length]

end Header

/-- The buffer behind a header. -/
def payload (b : Buf) : Buf := fun i => b (HeaderSize + i)

/-- A header followed by `n` bytes of data, in a new buffer that held `heap`. -/
def join (h : Header) (data : Buf) (n : Nat) (heap : Buf) : Buf :=
  blit (h.store heap) HeaderSize data n

section Join

variable {h : Header} {data heap : Buf} {n : Nat}

@[simp] theorem load_join : Header.load (join h data n heap) = h := by
  have same : Header.load (join h data n heap) = Header.load (h.store heap) :=
    Header.load_congr fun i hi => blit_outside (.inl hi)
  rw [same, Header.load_store]

theorem payload_join {i : Nat} (hi : i < n) : payload (join h data n heap) i = data i := by
  unfold payload join
  rw [blit_inside (by omega) (by omega), Nat.add_sub_cancel_left]

end Join

structure Mail where
  pktHdr : PacketHeader
  mailHdr : MailHeader
  data : List Byte
  deriving DecidableEq

namespace Mail

/-- The constructor of `Mail`, past its assertion on the length. -/
def new (pktH : PacketHeader) (mailH : MailHeader) (msgData : Buf) : Mail where
  pktHdr := pktH
  mailHdr := mailH
  data := (List.range mailH.length.toNat).map msgData

/-- The mail in a buffer that holds a mail header and the data. -/
def ofBuffer (pktHdr : PacketHeader) (buffer : Buf) : Mail :=
  new pktHdr (Header.load buffer) (payload buffer)

/-- The mail in a packet as it comes from the wire. -/
def ofWire (wire : Buf) : Mail := ofBuffer (Header.load wire) (payload wire)

theorem new_congr {pktH : PacketHeader} {mailH : MailHeader} {b c : Buf}
    (same : ∀ i < mailH.length.toNat, b i = c i) : new pktH mailH b = new pktH mailH c := by
  unfold new
  rw [List.map_congr_left fun i hi => same i (List.mem_range.mp hi)]

/-- Only the mail header and the data it announces count. -/
theorem ofBuffer_congr {pktHdr : PacketHeader} {b c : Buf}
    (same : ∀ i < HeaderSize + (Header.load b).length.toNat, b i = c i) :
    ofBuffer pktHdr b = ofBuffer pktHdr c := by
  have headers : Header.load b = Header.load c := Header.load_congr fun i hi => same i (by omega)
  unfold ofBuffer
  rw [← headers]
  refine new_congr fun i hi => ?_
  unfold payload
  exact same _ (by omega)

end Mail

/-- What `PostOfficeOutput::Send` passes to the network: its arguments once the
assertions hold, with the contents of the two buffers it and the network allocate.
The box is one that the receiver has. -/
structure SendRequest (numBoxes : NetworkAddress → Int) where
  to_ : NetworkAddress
  hostName : NetworkAddress
  mailHdr : MailHeader
  data : Buf
  heap : Buf
  wireHeap : Buf
  fits : mailHdr.length.toNat ≤ MaxMailSize
  addressed : 0 ≤ mailHdr.to_.toInt ∧ mailHdr.to_.toInt < numBoxes to_

namespace SendRequest

variable {numBoxes : NetworkAddress → Int}

/-- The packet header as `Send` fills it in. -/
def pktHdr (r : SendRequest numBoxes) : PacketHeader where
  to_ := r.to_
  from_ := r.hostName
  length := r.mailHdr.length + BitVec.ofNat 32 HeaderSize

/-- The mail header and the data, concatenated by `PostOfficeOutput::Send`. -/
def buffer (r : SendRequest numBoxes) : Buf := join r.mailHdr r.data r.mailHdr.length.toNat r.heap

/-- The packet that `NetworkOutput::Send` gives to the socket. -/
def wire (r : SendRequest numBoxes) : Buf := join r.pktHdr r.buffer r.pktHdr.length.toNat r.wireHeap

/-- The message that was sent. -/
def mail (r : SendRequest numBoxes) : Mail := .new r.pktHdr r.mailHdr r.data

theorem pktHdr_length (r : SendRequest numBoxes) :
    r.pktHdr.length.toNat = HeaderSize + r.mailHdr.length.toNat := by
  have fits := r.fits
  unfold pktHdr MaxMailSize MaxPacketSize MaxWireSize HeaderSize at *
  simp only [BitVec.toNat_add, BitVec.toNat_ofNat]
  omega

/-- What comes off the wire is what was sent. -/
theorem ofWire_wire (r : SendRequest numBoxes) : Mail.ofWire r.wire = r.mail := by
  have inner : Header.load r.buffer = r.mailHdr := load_join
  have outer : Header.load r.wire = r.pktHdr := load_join
  have data : ∀ i < HeaderSize + (Header.load r.buffer).length.toNat,
      r.buffer i = payload r.wire i := by
    intro i hi
    rw [inner, ← r.pktHdr_length] at hi
    exact (payload_join hi).symm
  unfold Mail.ofWire
  rw [outer, ← Mail.ofBuffer_congr data]
  unfold Mail.ofBuffer
  rw [inner]
  exact Mail.new_congr fun i hi => payload_join hi

end SendRequest

end NachOS.Network
