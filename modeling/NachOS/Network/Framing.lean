import NachOS.Network.Post

/-!
# Framing (network/post.cc:33-41,97-216,299-329, machine/network.cc:60-103,158-182)

A message is framed twice on its way out: `PostOfficeOutput::Send` puts the mail
header before the data, `NetworkOutput::Send` the packet header before both. On the
way in `NetworkInput::CallBack` takes the packet header off, and `PostalDelivery`
the mail header. Here each of these functions stands alone, with what it copies and
asserts and without the waiting; the post office module runs them as steps.
-/
namespace NachOS.Network
open NachOS.Lib NachOS.Threads

namespace PostOfficeOutput

/-- `pktHdr` once `Send` has filled it in. -/
def filled (hostName : NetworkAddress) (pktHdr : PacketHeader) (mailHdr : MailHeader) :
    PacketHeader :=
  { pktHdr with
    from_ := hostName
    length := mailHdr.length + BitVec.ofNat 32 HeaderSize }

/-- The arguments of `network->Send`; the new buffer held `heap`. -/
def send (hostName : NetworkAddress) (pktHdr : PacketHeader) (mailHdr : MailHeader)
    (data heap : Buf) : Except RequestFault (PacketHeader × Buf) :=
  if mailHdr.length.toNat ≤ MaxMailSize ∧ 0 ≤ mailHdr.to_.toInt then
    .ok (filled hostName pktHdr mailHdr, join mailHdr data mailHdr.length.toNat heap)
  else .error .refused

end PostOfficeOutput

/-- What `NetworkOutput::Send` gives to the socket when the packet is not lost and
`sendBusy` is clear; the new buffer held `heap`. -/
def NetworkOutput.packet (hostName : NetworkAddress) (hdr : PacketHeader) (data heap : Buf) :
    Except RequestFault Buf :=
  if 0 < hdr.length.toNat ∧ hdr.length.toNat ≤ MaxPacketSize ∧ hdr.from_ = hostName then
    .ok (join hdr data hdr.length.toNat heap)
  else .error .refused

/-- The packet for a message, built by the two functions in turn. -/
def transmit (hostName : NetworkAddress) (pktHdr : PacketHeader) (mailHdr : MailHeader)
    (data heap wireHeap : Buf) : Except RequestFault Buf := do
  let (hdr, buffer) ← PostOfficeOutput.send hostName pktHdr mailHdr data heap
  NetworkOutput.packet hostName hdr buffer wireHeap

/-- The packet that the device has buffered; there is none when the length is 0. -/
structure NetworkInput where
  inHdr : PacketHeader
  inbox : Buf

namespace NetworkInput

/-- `NetworkInput::CallBack`, with the packet that the poll finds. -/
def callBack (n : NetworkInput) (hostName : NetworkAddress) (packet : Option Buf) :
    Except RequestFault NetworkInput :=
  if n.inHdr.length.toNat ≠ 0 then .ok n
  else
    match packet with
    | none => .ok n
    | some buffer =>
      let inHdr := Header.load buffer
      if inHdr.to_ = hostName ∧ inHdr.length.toNat ≤ MaxPacketSize then
        .ok ⟨inHdr, blit n.inbox 0 (payload buffer) inHdr.length.toNat⟩
      else .error .refused

/-- `NetworkInput::Receive`: the header, the caller's buffer and the device after it. -/
def receive (n : NetworkInput) (data : Buf) : PacketHeader × Buf × NetworkInput :=
  (n.inHdr,
    if n.inHdr.length.toNat ≠ 0 then blit data 0 n.inbox n.inHdr.length.toNat else data,
    { n with inHdr := { n.inHdr with length := 0 } })

end NetworkInput

namespace MailBox

/-- `MailBox::Put`, with the assertion of the constructor of `Mail`. -/
def put (messages : List Mail) (pktHdr : PacketHeader) (mailHdr : MailHeader) (data : Buf) :
    Except RequestFault (List Mail) :=
  if mailHdr.length.toNat ≤ MaxMailSize then .ok (messages ++ [.new pktHdr mailHdr data])
  else .error .refused

/-- `MailBox::Get` into a buffer that held `data`; on an empty box it waits. -/
def get (messages : List Mail) (data : Buf) :
    Option ((PacketHeader × MailHeader × Buf) × List Mail) :=
  match messages with
  | [] => none
  | mail :: rest =>
    some ((mail.pktHdr, mail.mailHdr,
      blit data 0 (fun i => mail.data.getD i 0) mail.mailHdr.length.toNat), rest)

end MailBox

/-- One message in `PostOfficeInput::PostalDelivery`, after `network->Receive`. -/
def PostOfficeInput.postalDelivery (numBoxes : Int) (boxes : MailBoxAddress → List Mail)
    (pktHdr : PacketHeader) (buffer : Buf) : Except RequestFault (MailBoxAddress → List Mail) :=
  let mailHdr := Header.load buffer
  if 0 ≤ mailHdr.to_.toInt ∧ mailHdr.to_.toInt < numBoxes ∧
      mailHdr.length.toNat ≤ MaxMailSize then do
    let messages ← MailBox.put (boxes mailHdr.to_) pktHdr mailHdr (payload buffer)
    .ok (Function.update boxes mailHdr.to_ messages)
  else .error .refused

/-- A packet from the socket to its mailbox; `buffer` is the worker's. -/
def deliver (n : NetworkInput) (buffer : Buf) (hostName : NetworkAddress) (numBoxes : Int)
    (boxes : MailBoxAddress → List Mail) (wire : Buf) :
    Except RequestFault (MailBoxAddress → List Mail) := do
  let n ← n.callBack hostName (some wire)
  let (pktHdr, buffer, _) := n.receive buffer
  PostOfficeInput.postalDelivery numBoxes boxes pktHdr buffer

section Sender

variable {hostName : NetworkAddress} {pktHdr : PacketHeader} {mailHdr : MailHeader}
  {data heap wireHeap : Buf}

variable (hostName pktHdr) in
theorem filled_length (short : mailHdr.length.toNat ≤ MaxMailSize) :
    (PostOfficeOutput.filled hostName pktHdr mailHdr).length.toNat =
      mailHdr.length.toNat + HeaderSize := by
  unfold PostOfficeOutput.filled MaxMailSize MaxPacketSize MaxWireSize HeaderSize at *
  simp only [BitVec.toNat_add, BitVec.toNat_ofNat]
  omega

variable (hostName pktHdr) in
theorem filled_short (short : mailHdr.length.toNat ≤ MaxMailSize) :
    (PostOfficeOutput.filled hostName pktHdr mailHdr).length.toNat ≤ MaxPacketSize := by
  rw [filled_length hostName pktHdr short]
  unfold MaxMailSize MaxPacketSize MaxWireSize HeaderSize at *
  omega

/-- The two frames around a message. -/
def framed (hostName : NetworkAddress) (pktHdr : PacketHeader) (mailHdr : MailHeader)
    (data heap wireHeap : Buf) : Buf :=
  let hdr := PostOfficeOutput.filled hostName pktHdr mailHdr
  join hdr (join mailHdr data mailHdr.length.toNat heap) hdr.length.toNat wireHeap

theorem transmit_ok (short : mailHdr.length.toNat ≤ MaxMailSize)
    (addressed : 0 ≤ mailHdr.to_.toInt) :
    transmit hostName pktHdr mailHdr data heap wireHeap =
      .ok (framed hostName pktHdr mailHdr data heap wireHeap) := by
  have positive : 0 < (PostOfficeOutput.filled hostName pktHdr mailHdr).length.toNat := by
    rw [filled_length hostName pktHdr short]
    unfold HeaderSize
    omega
  unfold transmit PostOfficeOutput.send
  rw [if_pos ⟨short, addressed⟩]
  exact if_pos ⟨positive, filled_short hostName pktHdr short, rfl⟩

theorem transmit_refused (negative : mailHdr.to_.toInt < 0) :
    transmit hostName pktHdr mailHdr data heap wireHeap = .error .refused := by
  have unaddressed : ¬ (mailHdr.length.toNat ≤ MaxMailSize ∧ 0 ≤ mailHdr.to_.toInt) := by omega
  unfold transmit PostOfficeOutput.send
  rw [if_neg unaddressed]
  rfl

/-- What the assertions of the two functions let through. -/
theorem transmit_accepted {wire : Buf}
    (accepted : transmit hostName pktHdr mailHdr data heap wireHeap = .ok wire) :
    mailHdr.length.toNat ≤ MaxMailSize ∧ 0 ≤ mailHdr.to_.toInt ∧
      wire = framed hostName pktHdr mailHdr data heap wireHeap := by
  by_cases passes : mailHdr.length.toNat ≤ MaxMailSize ∧ 0 ≤ mailHdr.to_.toInt
  · obtain ⟨short, addressed⟩ := passes
    rw [transmit_ok short addressed] at accepted
    cases accepted
    exact ⟨short, addressed, rfl⟩
  · unfold transmit PostOfficeOutput.send at accepted
    rw [if_neg passes] at accepted
    cases accepted

/-- A request of the post office machine goes out as the same packet. -/
theorem SendRequest.transmit_eq {numBoxes : NetworkAddress → Int} (r : SendRequest numBoxes)
    (from_ : CInt) (length : BitVec 32) :
    transmit r.hostName ⟨r.to_, from_, length⟩ r.mailHdr r.data r.heap r.wireHeap = .ok r.wire :=
  transmit_ok r.fits r.addressed.1

theorem Header.store_congr {h : Header} {b c : Buf} {i : Nat} (hi : i < HeaderSize) :
    h.store b i = h.store c i := by
  unfold HeaderSize at hi
  unfold store setWord
  refine blit_congr_dst fun last => ?_
  refine blit_congr_dst fun middle => ?_
  exact blit_congr_dst fun first => by omega

/-- A frame says nothing about what its buffer held before. -/
theorem join_congr {h : Header} {b c heap heap' : Buf} {n i : Nat} (same : ∀ k < n, b k = c k)
    (hi : i < HeaderSize + n) : join h b n heap i = join h c n heap' i := by
  unfold join
  rw [blit_congr same]
  exact blit_congr_dst fun outside => Header.store_congr (by omega)

/-- Every byte up to the end of the data is written by the sender. -/
theorem framed_congr (short : mailHdr.length.toNat ≤ MaxMailSize) {heap' wireHeap' : Buf} {i : Nat}
    (hi : i < HeaderSize + (PostOfficeOutput.filled hostName pktHdr mailHdr).length.toNat) :
    framed hostName pktHdr mailHdr data heap' wireHeap' i =
      framed hostName pktHdr mailHdr data heap wireHeap i := by
  refine join_congr (fun k hk => ?_) hi
  rw [filled_length hostName pktHdr short] at hk
  exact join_congr (fun _ _ => rfl) (by omega)

end Sender

/-- Only the two headers and the data they announce count. -/
theorem Mail.ofWire_congr {b c : Buf}
    (same : ∀ i < HeaderSize + (HeaderSize + (Header.load (payload b)).length.toNat), b i = c i) :
    ofWire b = ofWire c := by
  have headers : Header.load b = Header.load c := Header.load_congr fun i hi => same i (by omega)
  unfold ofWire
  rw [← headers]
  refine ofBuffer_congr fun i hi => ?_
  unfold payload
  exact same _ (by omega)

section Receiver

variable {n : NetworkInput} {hostName : NetworkAddress} {numBoxes : Int}
  {boxes : MailBoxAddress → List Mail} {pktHdr : PacketHeader} {buffer wire : Buf}

/-- The boxes once a mail is put in its own. -/
def withMail (boxes : MailBoxAddress → List Mail) (mail : Mail) : MailBoxAddress → List Mail :=
  Function.update boxes mail.mailHdr.to_ (boxes mail.mailHdr.to_ ++ [mail])

/-- The assertions of `PostalDelivery`. -/
def Legal (numBoxes : Int) (mailHdr : MailHeader) : Prop :=
  0 ≤ mailHdr.to_.toInt ∧ mailHdr.to_.toInt < numBoxes ∧ mailHdr.length.toNat ≤ MaxMailSize

theorem postalDelivery_ok (legal : Legal numBoxes (Header.load buffer)) :
    PostOfficeInput.postalDelivery numBoxes boxes pktHdr buffer =
      .ok (withMail boxes (.ofBuffer pktHdr buffer)) := by
  obtain ⟨addressed, known, short⟩ := legal
  unfold PostOfficeInput.postalDelivery MailBox.put
  simp only
  rw [if_pos (And.intro addressed (And.intro known short)), if_pos short]
  rfl

theorem postalDelivery_refused (illegal : ¬ Legal numBoxes (Header.load buffer)) :
    PostOfficeInput.postalDelivery numBoxes boxes pktHdr buffer = .error .refused :=
  if_neg illegal

variable (buffer) in
/-- What the device and then the worker hold of a packet. -/
theorem receive_callBack (empty : n.inHdr.length.toNat = 0)
    (fits : (Header.load wire).to_ = hostName ∧ (Header.load wire).length.toNat ≤ MaxPacketSize)
    (filled : (Header.load wire).length.toNat ≠ 0) :
    ∃ n' contents rest, n.callBack hostName (some wire) = .ok n' ∧
      n'.receive buffer = (Header.load wire, contents, rest) ∧
      ∀ i < (Header.load wire).length.toNat, contents i = payload wire i := by
  unfold NetworkInput.callBack
  rw [if_neg (not_not_intro empty)]
  refine ⟨_, _, _, if_pos fits, rfl, fun i hi => ?_⟩
  simp only
  rw [if_pos filled, blit_inside (Nat.zero_le i) (by omega), blit_inside (by omega) (by omega)]
  rfl

theorem deliver_of_callBack {n' n'' : NetworkInput} {contents : Buf}
    (taken : n.callBack hostName (some wire) = .ok n')
    (received : n'.receive buffer = (pktHdr, contents, n'')) :
    deliver n buffer hostName numBoxes boxes wire =
      PostOfficeInput.postalDelivery numBoxes boxes pktHdr contents := by
  unfold deliver
  rw [taken]
  simp only [Bind.bind, Except.bind, received]

variable (numBoxes boxes buffer) in
/-- A packet whose two lengths match goes to its box as it was on the wire. -/
theorem deliver_eq (empty : n.inHdr.length.toNat = 0)
    (fits : (Header.load wire).to_ = hostName ∧ (Header.load wire).length.toNat ≤ MaxPacketSize)
    (lengths : (Header.load wire).length.toNat =
      (Header.load (payload wire)).length.toNat + HeaderSize) :
    (Legal numBoxes (Header.load (payload wire)) →
      deliver n buffer hostName numBoxes boxes wire = .ok (withMail boxes (.ofWire wire))) ∧
    (¬ Legal numBoxes (Header.load (payload wire)) →
      deliver n buffer hostName numBoxes boxes wire = .error .refused) := by
  have filled : (Header.load wire).length.toNat ≠ 0 := by
    unfold HeaderSize at lengths
    omega
  obtain ⟨n', contents, rest, taken, received, same⟩ :=
    receive_callBack buffer empty fits filled
  have header : Header.load (payload wire) = Header.load contents :=
    Header.load_congr fun i hi => (same i (by omega)).symm
  have mail : Mail.ofWire wire = .ofBuffer (Header.load wire) contents :=
    Mail.ofBuffer_congr fun i hi => (same i (by omega)).symm
  rw [deliver_of_callBack taken received, header, mail]
  exact ⟨postalDelivery_ok, postalDelivery_refused⟩

/-- `Get` gives the caller what the mail was made of. -/
theorem get_new {mailHdr : MailHeader} {data out : Buf} {rest : List Mail} :
    MailBox.get (.new pktHdr mailHdr data :: rest) out =
      some ((pktHdr, mailHdr, blit out 0 data mailHdr.length.toNat), rest) := by
  have bytes : ∀ i < mailHdr.length.toNat,
      (Mail.new pktHdr mailHdr data).data.getD i 0 = data i := by
    intro i hi
    simp [Mail.new, List.getD, hi]
  have copied : blit out 0 (fun i => (Mail.new pktHdr mailHdr data).data.getD i 0)
      mailHdr.length.toNat = blit out 0 data mailHdr.length.toNat := blit_congr bytes
  rw [← copied]
  rfl

end Receiver

section Machine

variable {Thread : Type} [DecidableEq Thread] {i : PostInput Thread} {nBoxes : Int}

namespace PostInput

/-- The device of the machine's input side. -/
def network (i : PostInput Thread) : NetworkInput := ⟨i.inHdr, i.inbox⟩

/-- The worker hands the letter that `PostalDelivery` puts to the list of its box. -/
def Appends (i : PostInput Thread) (nBoxes : Int) (letter : Letter) : Prop :=
  i.workerStep nBoxes =
    (SynchState.next (.append none letter) (i.boxes letter.mail.mailHdr.to_)).map fun messages =>
      .ok (i.posted letter.mail.mailHdr.to_ messages)

theorem workerStep_delivering {pktHdr : PacketHeader} (worker : i.worker = .delivering pktHdr)
    (boxes : MailBoxAddress → List Mail) :
    (PostOfficeInput.postalDelivery nBoxes boxes pktHdr i.buffer =
        .ok (withMail boxes (i.newLetter pktHdr).mail) ∧ i.Appends nBoxes (i.newLetter pktHdr)) ∨
    (PostOfficeInput.postalDelivery nBoxes boxes pktHdr i.buffer = .error .refused ∧
      i.workerStep nBoxes = some (.error .refused)) := by
  unfold Appends workerStep
  rw [worker]
  by_cases legal : 0 ≤ (Header.load i.buffer).to_.toInt ∧
      (Header.load i.buffer).to_.toInt < nBoxes ∧
      (Header.load i.buffer).length.toNat ≤ MaxMailSize
  · exact .inl ⟨postalDelivery_ok legal, if_pos legal⟩
  · exact .inr ⟨postalDelivery_refused legal, if_neg legal⟩

/-- What the device takes in, the next two steps of the worker deliver: the letter that they
append is the mail that `deliver` puts in the box, and they stop where it does. -/
theorem fetched_delivers {hostName : NetworkAddress} {wire : Buf} {i' : PostInput Thread}
    (taken : i.network.callBack hostName (some wire) = .ok i'.network) (same : i'.buffer = i.buffer)
    (boxes : MailBoxAddress → List Mail) :
    (deliver i.network i.buffer hostName nBoxes boxes wire =
        .ok (withMail boxes (i'.fetched.newLetter i'.inHdr).mail) ∧
      i'.fetched.Appends nBoxes (i'.fetched.newLetter i'.inHdr)) ∨
    (deliver i.network i.buffer hostName nBoxes boxes wire = .error .refused ∧
      i'.fetched.workerStep nBoxes = some (.error .refused)) := by
  have worker : i'.fetched.worker = .delivering i'.inHdr := rfl
  have received : i'.network.receive i.buffer =
      (i'.inHdr, i'.fetched.buffer, i'.fetched.network) := by
    rw [← same]
    rfl
  rw [deliver_of_callBack taken received]
  exact workerStep_delivering worker boxes

omit [DecidableEq Thread] in
variable (i) in
/-- The interrupt handler of the machine is `CallBack` on its device. -/
theorem poll_callBack {hostName a : NetworkAddress} {socket : NetworkAddress → List Buf}
    {wire : Buf} {rest : List Buf} (front : socket a = wire :: rest) :
    (∃ i', i.poll hostName socket (some a) = some (.ok i') ∧
      i.network.callBack hostName (some wire) = .ok i'.network ∧ i'.buffer = i.buffer) ∨
    (i.poll hostName socket (some a) = some (.error .refused) ∧
      i.network.callBack hostName (some wire) = .error .refused) := by
  unfold poll NetworkInput.callBack network
  by_cases full : i.inHdr.length.toNat ≠ 0
  · rw [if_pos full, if_pos full]
    exact .inl ⟨i, rfl, rfl, rfl⟩
  · rw [if_neg full, if_neg full]
    simp only [front]
    by_cases fits : (Header.load wire).to_ = hostName ∧
        (Header.load wire).length.toNat ≤ MaxPacketSize
    · rw [if_pos fits, if_pos fits]
      exact .inl ⟨_, rfl, rfl, rfl⟩
    · rw [if_neg fits, if_neg fits]
      exact .inr ⟨rfl, rfl⟩

/-- A packet that a poll finds goes through the steps of the machine as through `deliver`. -/
theorem poll_delivers {hostName a : NetworkAddress} {socket : NetworkAddress → List Buf}
    {wire : Buf} {rest : List Buf} (front : socket a = wire :: rest)
    (boxes : MailBoxAddress → List Mail) :
    (∃ i', i.poll hostName socket (some a) = some (.ok i') ∧
      ((deliver i.network i.buffer hostName nBoxes boxes wire =
          .ok (withMail boxes (i'.fetched.newLetter i'.inHdr).mail) ∧
        i'.fetched.Appends nBoxes (i'.fetched.newLetter i'.inHdr)) ∨
      (deliver i.network i.buffer hostName nBoxes boxes wire = .error .refused ∧
        i'.fetched.workerStep nBoxes = some (.error .refused)))) ∨
    (i.poll hostName socket (some a) = some (.error .refused) ∧
      deliver i.network i.buffer hostName nBoxes boxes wire = .error .refused) := by
  rcases i.poll_callBack front with ⟨i', polled, taken, same⟩ | ⟨polled, refused⟩
  · exact .inl ⟨i', polled, fetched_delivers taken same boxes⟩
  · refine .inr ⟨polled, ?_⟩
    unfold deliver
    rw [refused]
    rfl

end PostInput

end Machine

section RoundTrip

variable {hostName : NetworkAddress} {pktHdr : PacketHeader} {mailHdr : MailHeader}
  {data heap wireHeap received : Buf}

/-- What a packet says that is as the sender built it up to the end of the data. -/
theorem unframed (short : mailHdr.length.toNat ≤ MaxMailSize) (addressed : 0 ≤ mailHdr.to_.toInt)
    (same : ∀ i < HeaderSize + (PostOfficeOutput.filled hostName pktHdr mailHdr).length.toNat,
      received i = framed hostName pktHdr mailHdr data heap wireHeap i) :
    Header.load received = PostOfficeOutput.filled hostName pktHdr mailHdr ∧
    Header.load (payload received) = mailHdr ∧
    Mail.ofWire received =
      .new (PostOfficeOutput.filled hostName pktHdr mailHdr) mailHdr data := by
  rw [filled_length hostName pktHdr short] at same
  let r : SendRequest fun _ => mailHdr.to_.toInt + 1 :=
    ⟨pktHdr.to_, hostName, mailHdr, data, heap, wireHeap, short, addressed, by omega⟩
  have mail : Mail.ofWire r.wire = r.mail := r.ofWire_wire
  have inner : Header.load (payload r.wire) = mailHdr := congrArg Mail.mailHdr mail
  have congr : Mail.ofWire r.wire = Mail.ofWire received := by
    refine Mail.ofWire_congr fun i hi => (same i ?_).symm
    rw [inner] at hi
    omega
  have whole : Mail.ofWire received = r.mail := congr.symm.trans mail
  exact ⟨congrArg Mail.pktHdr whole, congrArg Mail.mailHdr whole, whole⟩

/-- A packet as the sender built it is put in its box, if the receiver has that box. -/
theorem deliver_framed {n : NetworkInput} {buffer : Buf} {numBoxes : Int}
    {boxes : MailBoxAddress → List Mail} (short : mailHdr.length.toNat ≤ MaxMailSize)
    (addressed : 0 ≤ mailHdr.to_.toInt) (empty : n.inHdr.length.toNat = 0)
    (same : ∀ i < HeaderSize + (PostOfficeOutput.filled hostName pktHdr mailHdr).length.toNat,
      received i = framed hostName pktHdr mailHdr data heap wireHeap i) :
    (mailHdr.to_.toInt < numBoxes →
      deliver n buffer pktHdr.to_ numBoxes boxes received =
        .ok (withMail boxes
          (.new (PostOfficeOutput.filled hostName pktHdr mailHdr) mailHdr data))) ∧
    (numBoxes ≤ mailHdr.to_.toInt →
      deliver n buffer pktHdr.to_ numBoxes boxes received = .error .refused) := by
  obtain ⟨outer, inner, mail⟩ := unframed short addressed same
  have fits : (Header.load received).to_ = pktHdr.to_ ∧
      (Header.load received).length.toNat ≤ MaxPacketSize := by
    rw [outer]
    exact ⟨rfl, filled_short hostName pktHdr short⟩
  have lengths : (Header.load received).length.toNat =
      (Header.load (payload received)).length.toNat + HeaderSize := by
    rw [outer, inner, filled_length hostName pktHdr short]
  obtain ⟨accepted, refused⟩ := deliver_eq numBoxes boxes buffer empty fits lengths
  rw [inner] at accepted refused
  rw [mail] at accepted
  constructor
  · intro known
    exact accepted ⟨addressed, known, short⟩
  · intro unknown
    exact refused fun legal => absurd legal.2.1 (by omega)

end RoundTrip

/-- A message, at every length up to the largest, comes out of `Get` as it went into
`Send`, with a packet header that names the sender and counts the mail header. The
two frames fit on the wire; of the packet the receiver reads only bytes that the
sender wrote. An assertion stops a message to a negative box at the sender, and one
to a box that the receiver does not have at the receiver. -/
theorem framing_round_trip (hostName : NetworkAddress) (pktHdr : PacketHeader)
    (mailHdr : MailHeader) (data heap wireHeap : Buf)
    (short : mailHdr.length.toNat ≤ MaxMailSize) :
    ∃ hdr : PacketHeader,
      hdr.to_ = pktHdr.to_ ∧ hdr.from_ = hostName ∧
      hdr.length.toNat = mailHdr.length.toNat + HeaderSize ∧
      hdr.length.toNat ≤ MaxPacketSize ∧ HeaderSize + hdr.length.toNat ≤ MaxWireSize ∧
      (mailHdr.to_.toInt < 0 →
        transmit hostName pktHdr mailHdr data heap wireHeap = .error .refused) ∧
      (0 ≤ mailHdr.to_.toInt →
        ∃ wire, transmit hostName pktHdr mailHdr data heap wireHeap = .ok wire ∧
          (∀ heap' wireHeap', ∃ wire',
            transmit hostName pktHdr mailHdr data heap' wireHeap' = .ok wire' ∧
            ∀ i < HeaderSize + hdr.length.toNat, wire' i = wire i) ∧
          ∀ received : Buf, (∀ i < HeaderSize + hdr.length.toNat, received i = wire i) →
            ∀ (n : NetworkInput) (buffer : Buf) (numBoxes : Int)
              (boxes : MailBoxAddress → List Mail), n.inHdr.length.toNat = 0 →
              (mailHdr.to_.toInt < numBoxes →
                deliver n buffer pktHdr.to_ numBoxes boxes received =
                  .ok (withMail boxes (.new hdr mailHdr data))) ∧
              (numBoxes ≤ mailHdr.to_.toInt →
                deliver n buffer pktHdr.to_ numBoxes boxes received = .error .refused)) ∧
      ∀ (rest : List Mail) (out : Buf),
        MailBox.get (.new hdr mailHdr data :: rest) out =
          some ((hdr, mailHdr, blit out 0 data mailHdr.length.toNat), rest) := by
  have fits := filled_short hostName pktHdr short
  refine ⟨PostOfficeOutput.filled hostName pktHdr mailHdr, rfl, rfl,
    filled_length hostName pktHdr short, fits, ?_, transmit_refused, ?_, fun _ _ => get_new⟩
  · unfold MaxPacketSize MaxWireSize HeaderSize at *
    omega
  · intro addressed
    refine ⟨_, transmit_ok short addressed, ?_, ?_⟩
    · intro heap' wireHeap'
      exact ⟨_, transmit_ok short addressed, fun i hi => framed_congr short hi⟩
    · intro received same n buffer numBoxes boxes empty
      exact deliver_framed short addressed empty same

/-- The largest message, to the last of four boxes, with the rest of the packet unknown. -/
theorem framing_round_trip_largest :
    ∃ (hdr : PacketHeader) (wire : Buf),
      transmit 0 ⟨1, 0, 0⟩ ⟨3, 2, 40⟩ (BitVec.ofNat 8) (fun _ => 7) (fun _ => 9) = .ok wire ∧
      hdr.from_ = 0 ∧ hdr.length.toNat = 52 ∧
      deliver ⟨⟨0, 0, 0⟩, fun _ => 0⟩ (fun _ => 0) 1 4 (fun _ => []) wire =
        .ok (withMail (fun _ => []) (.new hdr ⟨3, 2, 40⟩ (BitVec.ofNat 8))) := by
  obtain ⟨hdr, _, sender, length, _, _, _, delivered, _⟩ :=
    framing_round_trip 0 ⟨1, 0, 0⟩ ⟨3, 2, 40⟩ (BitVec.ofNat 8) (fun _ => 7) (fun _ => 9)
      (by decide)
  obtain ⟨wire, built, _, received⟩ := delivered (by decide)
  exact ⟨hdr, wire, built, sender, length,
    (received wire (fun _ _ => rfl) _ _ 4 _ (by decide)).1 (by decide)⟩

/-- A message that the sender's assertions let through passes those of the receiver exactly
if the receiver has the box: the sender does not know how many there are. -/
theorem accepted_message_delivered_iff (hostName : NetworkAddress) (pktHdr : PacketHeader)
    (mailHdr : MailHeader) (data heap wireHeap wire : Buf)
    (accepted : transmit hostName pktHdr mailHdr data heap wireHeap = .ok wire)
    (n : NetworkInput) (empty : n.inHdr.length.toNat = 0) (buffer : Buf) (numBoxes : Int)
    (boxes : MailBoxAddress → List Mail) :
    (∃ after, deliver n buffer pktHdr.to_ numBoxes boxes wire = .ok after) ↔
      mailHdr.to_.toInt < numBoxes := by
  obtain ⟨short, addressed, rfl⟩ := transmit_accepted accepted
  obtain ⟨delivered, refused⟩ := deliver_framed short addressed empty (fun _ _ => rfl)
  constructor
  · rintro ⟨after, passed⟩
    by_contra unknown
    rw [refused (by omega)] at passed
    cases passed
  · intro known
    exact ⟨_, delivered known⟩

theorem accepted_message_delivered_last_box :
    ∃ wire after, transmit 0 ⟨1, 0, 0⟩ ⟨3, 2, 40⟩ (BitVec.ofNat 8) (fun _ => 7) (fun _ => 9) =
        .ok wire ∧
      deliver ⟨⟨0, 0, 0⟩, fun _ => 0⟩ (fun _ => 0) 1 4 (fun _ => []) wire = .ok after := by
  have accepted : transmit 0 ⟨1, 0, 0⟩ ⟨3, 2, 40⟩ (BitVec.ofNat 8) (fun _ => 7) (fun _ => 9) =
      .ok (framed 0 ⟨1, 0, 0⟩ ⟨3, 2, 40⟩ (BitVec.ofNat 8) (fun _ => 7) (fun _ => 9)) :=
    transmit_ok (by decide) (by decide)
  obtain ⟨after, delivered⟩ := (accepted_message_delivered_iff 0 ⟨1, 0, 0⟩ ⟨3, 2, 40⟩
    (BitVec.ofNat 8) (fun _ => 7) (fun _ => 9) _ accepted ⟨⟨0, 0, 0⟩, fun _ => 0⟩ (by decide)
    (fun _ => 0) 4 (fun _ => [])).mpr (by decide)
  exact ⟨_, after, accepted, delivered⟩

/-- A message to box 1 of a machine that has box 0 only. -/
theorem accepted_message_aborts_receiver :
    ∃ wire, transmit 0 ⟨1, 0, 0⟩ ⟨1, 0, 0⟩ (fun _ => 0) (fun _ => 0) (fun _ => 0) = .ok wire ∧
      deliver ⟨⟨0, 0, 0⟩, fun _ => 0⟩ (fun _ => 0) 1 1 (fun _ => []) wire = .error .refused := by
  have refused : deliver ⟨⟨0, 0, 0⟩, fun _ => 0⟩ (fun _ => 0) (⟨1, 0, 0⟩ : PacketHeader).to_ 1
      (fun _ => []) (framed 0 ⟨1, 0, 0⟩ ⟨1, 0, 0⟩ (fun _ => 0) (fun _ => 0) (fun _ => 0)) =
      .error .refused :=
    (deliver_framed (by decide) (by decide) (by decide) (fun _ _ => rfl)).2 (by decide)
  exact ⟨_, transmit_ok (by decide) (by decide), refused⟩

end NachOS.Network
