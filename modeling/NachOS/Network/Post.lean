import NachOS.Network.Wire
import NachOS.Threads.Driver
import NachOS.Lib.Handover

/-!
# The post office (network/post.cc:97-254,299-343, machine/network.cc:60-177)

Every machine sends through `PostOfficeOutput::Send`, a driver in the sense of the
driver module, and receives through `NetworkInput`, a buffer for one packet that an
interrupt fills from the host's socket; the postal worker, a thread of its own,
takes each packet out of the buffer and puts it in a mailbox, a synchronized list,
from which `PostOfficeInput::Receive` takes it.

The machines are the network addresses. The packets a machine has put on the
network stay recorded at the sender; the socket of a receiver holds, for each
sender, those addressed to it that it has not read, oldest first: the host's
datagram sockets are reliable and keep the order of each sender. Which sender's
packet a poll finds, and which packets are dropped, is left open. Messages to a
box that the receiver does not have are left out (`SendRequest`).

`sendBusy` is never set, so the flag of the driver is not either. A step is what
happens between two points where simulated time advances: `NetworkInput::Receive`
is one step, and so is the interrupt handler.
-/
namespace NachOS.Network
open NachOS.Lib NachOS.Threads

/-- A `Mail` object on the heap, told apart from the others by its address. -/
structure Letter where
  address : Nat
  mail : Mail
  deriving DecidableEq

/-- `NetworkOutput`: the packets it was given, and those it put on the network,
with their destination. -/
structure Outlet where
  count : Nat
  wires : List (NetworkAddress × Buf)

variable {numBoxes : NetworkAddress → Int}

/-- `NetworkOutput::Send` past the test of `sendBusy`; `drops` are the decisions of
the random number generator. -/
def NetworkOutput.send (drops : Nat → Bool) (hostName : NetworkAddress)
    (r : SendRequest numBoxes) (d : Outlet) : Option (Bool × Outlet) :=
  if 0 < r.pktHdr.length.toNat ∧ r.pktHdr.length.toNat ≤ MaxPacketSize ∧
      r.pktHdr.from_ = hostName then
    if drops d.count then some (false, { d with count := d.count + 1 })
    else some (true, ⟨d.count + 1, d.wires ++ [(r.pktHdr.to_, r.wire)]⟩)
  else none

/-- Where the postal worker stands in `PostOfficeInput::PostalDelivery`. -/
inductive WorkerPc where
  /-- Before or in `messageAvailable->P()`. -/
  | waiting
  /-- Before `network->Receive(buffer)`. -/
  | receiving
  /-- Before the mail header is looked at. -/
  | delivering (pktHdr : PacketHeader)
  /-- In `boxes[mailHdr.to].Put`. -/
  | putting (box : MailBoxAddress)
  deriving DecidableEq

/-- Where a thread stands in `PostOfficeInput::Receive`. -/
inductive ReceivePc where
  | idle
  /-- In `messages->RemoveFront()`, no message taken yet. -/
  | getting (box : MailBoxAddress)
  /-- A message is taken off the list. -/
  | holding (box : MailBoxAddress) (position : Nat) (letter : Letter)
  deriving DecidableEq

structure PostInput (Thread : Type) where
  inHdr : PacketHeader
  inbox : Buf
  messageAvailable : SemState Unit
  worker : WorkerPc
  /-- The worker's buffer. -/
  buffer : Buf
  /-- The mailboxes; the worker is the thread `none`. -/
  boxes : MailBoxAddress → SynchState (Option Thread) Letter
  pc : Thread → ReceivePc
  /-- How many `Mail` objects have been allocated. -/
  letters : Nat
  /-- How many packets of each sender have been read. -/
  taken : NetworkAddress → Nat
  /-- The mail in the packets read, in that order. -/
  read : List Mail
  /-- What the calls of `Receive` returned, by box. -/
  returned : MailBoxAddress → List (Nat × Letter)

structure PostHost (numBoxes : NetworkAddress → Int) (Thread : Type) where
  output : Driver Thread (SendRequest numBoxes) Bool Outlet
  input : PostInput Thread

abbrev PostSystem (numBoxes : NetworkAddress → Int) (Thread : Type) :=
  NetworkAddress → PostHost numBoxes Thread

inductive PostEvent (Thread : Type) where
  /-- `PostOfficeOutput::Send` is called, with what its new buffers hold. -/
  | send (a : NetworkAddress) (t : Thread) (to_ : NetworkAddress) (mailHdr : MailHeader)
      (data heap wireHeap : Buf)
  | sendStep (a : NetworkAddress) (t : Thread)
  | sendInterrupt (a : NetworkAddress) (serial : Nat)
  /-- The interrupt of `NetworkInput`, with the sender whose packet it finds. -/
  | poll (b : NetworkAddress) (sender : Option NetworkAddress)
  | worker (b : NetworkAddress)
  /-- `PostOfficeInput::Receive` is called. -/
  | receive (b : NetworkAddress) (t : Thread) (box : MailBoxAddress)
  | receiveStep (b : NetworkAddress) (t : Thread)

section Machine

variable {Thread : Type} [DecidableEq Thread]

namespace PostInput

def initial (inbox buffer : Buf) : PostInput Thread where
  inHdr := ⟨0, 0, 0⟩
  inbox := inbox
  messageAvailable := .initial 0
  worker := .waiting
  buffer := buffer
  boxes := fun _ => .initial
  pc := fun _ => .idle
  letters := 0
  taken := fun _ => 0
  read := []
  returned := fun _ => []

def setBox (i : PostInput Thread) (box : MailBoxAddress)
    (messages : SynchState (Option Thread) Letter) : PostInput Thread :=
  { i with boxes := Function.update i.boxes box messages }

/-- `NetworkInput::CallBack` once the packet is read, up to `callWhenAvail->CallBack()`. -/
def arrived (i : PostInput Thread) (sender : NetworkAddress) (wire : Buf) : PostInput Thread :=
  let inHdr := Header.load wire
  { i with
    inHdr
    inbox := blit i.inbox 0 (payload wire) inHdr.length.toNat
    messageAvailable := i.messageAvailable.signal
    taken := Function.update i.taken sender (i.taken sender + 1)
    read := i.read ++ [.ofWire wire] }

/-- `NetworkInput::CallBack` on a machine whose socket holds `socket` for each sender. -/
def poll (i : PostInput Thread) (hostName : NetworkAddress)
    (socket : NetworkAddress → List Buf) (sender : Option NetworkAddress) :
    Option (Except RequestFault (PostInput Thread)) :=
  if i.inHdr.length.toNat ≠ 0 then some (.ok i)
  else
    match sender with
    | none => some (.ok i)
    | some a =>
      match socket a with
      | [] => none
      | wire :: _ =>
        let inHdr := Header.load wire
        if inHdr.to_ = hostName ∧ inHdr.length.toNat ≤ MaxPacketSize then
          some (.ok (i.arrived a wire))
        else some (.error .refused)

/-- `pktHdr = network->Receive(buffer)`. -/
def fetched (i : PostInput Thread) : PostInput Thread :=
  { i with
    inHdr := { i.inHdr with length := 0 }
    buffer := if i.inHdr.length.toNat ≠ 0 then blit i.buffer 0 i.inbox i.inHdr.length.toNat
      else i.buffer
    worker := .delivering i.inHdr }

/-- The letter that `MailBox::Put` allocates. -/
def newLetter (i : PostInput Thread) (pktHdr : PacketHeader) : Letter :=
  ⟨i.letters, .ofBuffer pktHdr i.buffer⟩

/-- `messages->Append(mail)` is called on the box. -/
def posted (i : PostInput Thread) (box : MailBoxAddress)
    (messages : SynchState (Option Thread) Letter) : PostInput Thread :=
  { i.setBox box messages with
    letters := i.letters + 1
    worker := .putting box }

/-- A pass of `messageAvailable->P()` left the semaphore as `sem`. -/
def waited (i : PostInput Thread) (sem : SemState Unit) : PostInput Thread :=
  { i with
    messageAvailable := sem
    worker := if sem.phase () = .running then .receiving else .waiting }

/-- The next step of the postal worker on a machine with `nBoxes` boxes. -/
def workerStep (i : PostInput Thread) (nBoxes : Int) :
    Option (Except RequestFault (PostInput Thread)) :=
  match i.worker with
  | .waiting => (i.messageAvailable.pass ()).map fun sem => .ok (i.waited sem)
  | .receiving => some (.ok i.fetched)
  | .delivering pktHdr =>
    let mailHdr := Header.load i.buffer
    if 0 ≤ mailHdr.to_.toInt ∧ mailHdr.to_.toInt < nBoxes ∧
        mailHdr.length.toNat ≤ MaxMailSize then
      (SynchState.next (.append none (i.newLetter pktHdr)) (i.boxes mailHdr.to_)).map
        fun messages => .ok (i.posted mailHdr.to_ messages)
    else some (.error .refused)
  | .putting box =>
    if (i.boxes box).pc none = .idle ∧ (i.boxes box).listEmpty.AtRest none then
      some (.ok { i with worker := .waiting })
    else
      (SynchState.next (.step none) (i.boxes box)).map fun messages => .ok (i.setBox box messages)

/-- `RemoveFront` hands its letter over when it takes it off the list. -/
def handedOver (before after : SynchState (Option Thread) Letter) (t : Thread)
    (box : MailBoxAddress) (pc : ReceivePc) : ReceivePc :=
  match before.pc (some t), after.pc (some t) with
  | .removeTake, .removeRelease letter => .holding box before.removed.length letter
  | _, _ => pc

def got (i : PostInput Thread) (t : Thread) (box : MailBoxAddress)
    (messages : SynchState (Option Thread) Letter) : PostInput Thread :=
  { i.setBox box messages with
    pc := Function.update i.pc t (handedOver (i.boxes box) messages t box (i.pc t)) }

def returns (i : PostInput Thread) (t : Thread) (box : MailBoxAddress) (position : Nat)
    (letter : Letter) : PostInput Thread :=
  { i with
    pc := Function.update i.pc t .idle
    returned := Function.update i.returned box (i.returned box ++ [(position, letter)]) }

/-- The next step of `RemoveFront` on the box. -/
def getStep (i : PostInput Thread) (t : Thread) (box : MailBoxAddress) :
    Option (Except RequestFault (PostInput Thread)) :=
  (SynchState.next (.step (some t)) (i.boxes box)).map fun messages => .ok (i.got t box messages)

/-- The next step of a thread inside `Receive`: `RemoveFront`, then, once that has
returned, the copy of the message and the assertion on its length. -/
def receiveStep (i : PostInput Thread) (t : Thread) :
    Option (Except RequestFault (PostInput Thread)) :=
  match i.pc t with
  | .idle => none
  | .getting box => i.getStep t box
  | .holding box position letter =>
    if (i.boxes box).pc (some t) = .idle ∧ (i.boxes box).listEmpty.AtRest (some t) then
      if letter.mail.mailHdr.length.toNat ≤ MaxMailSize then
        some (.ok (i.returns t box position letter))
      else some (.error .refused)
    else i.getStep t box

/-- `PostOfficeInput::Receive` is called on a machine with `nBoxes` boxes. -/
def receive (i : PostInput Thread) (nBoxes : Int) (t : Thread) (box : MailBoxAddress) :
    Option (Except RequestFault (PostInput Thread)) :=
  if 0 ≤ box.toInt ∧ box.toInt < nBoxes then
    (SynchState.next (.removeFront (some t)) (i.boxes box)).map fun messages =>
      .ok { i.setBox box messages with pc := Function.update i.pc t (.getting box) }
  else some (.error .refused)

end PostInput

namespace PostSystem

def setOutput (s : PostSystem numBoxes Thread) (a : NetworkAddress)
    (output : Driver Thread (SendRequest numBoxes) Bool Outlet) : PostSystem numBoxes Thread :=
  Function.update s a { s a with output }

def setInput (s : PostSystem numBoxes Thread) (b : NetworkAddress) (input : PostInput Thread) :
    PostSystem numBoxes Thread :=
  Function.update s b { s b with input }

/-- The packets from `a` that wait in the socket of `b`. -/
def socket (s : PostSystem numBoxes Thread) (a b : NetworkAddress) : List Buf :=
  (((s a).output.device.wires.filter (·.1 = b)).drop ((s b).input.taken a)).map Prod.snd

variable (drops : NetworkAddress → Nat → Bool)

/-- A step of `PostOfficeOutput::Send` or of the interrupt of `NetworkOutput` on `a`. -/
def outputStep (s : PostSystem numBoxes Thread) (a : NetworkAddress)
    (e : DriverEvent Thread (SendRequest numBoxes)) :
    Option (Except RequestFault (PostSystem numBoxes Thread)) :=
  ((s a).output.step (NetworkOutput.send (drops a) a) false e).map (Except.map (s.setOutput a))

/-- The outcome of a step of the input side of `b`. -/
def inputStep (s : PostSystem numBoxes Thread) (b : NetworkAddress)
    (result : Option (Except RequestFault (PostInput Thread))) :
    Option (Except RequestFault (PostSystem numBoxes Thread)) :=
  result.map (Except.map (s.setInput b))

/-- `none` when the event cannot happen, an error when an assertion fails. A thread
is in one call at a time. -/
def step : PostEvent Thread → PostSystem numBoxes Thread →
    Option (Except RequestFault (PostSystem numBoxes Thread))
  | .send a t to_ mailHdr data heap wireHeap, s =>
    if (s a).input.pc t = .idle then
      if valid : mailHdr.length.toNat ≤ MaxMailSize ∧ 0 ≤ mailHdr.to_.toInt then
        if known : mailHdr.to_.toInt < numBoxes to_ then
          s.outputStep drops a
            (.call t ⟨to_, a, mailHdr, data, heap, wireHeap, valid.1, valid.2, known⟩)
        else none
      else some (.error .refused)
    else none
  | .sendStep a t, s => s.outputStep drops a (.step t)
  | .sendInterrupt a serial, s => s.outputStep drops a (.interrupt serial)
  | .poll b sender, s => s.inputStep b ((s b).input.poll b (fun a => s.socket a b) sender)
  | .worker b, s => s.inputStep b ((s b).input.workerStep (numBoxes b))
  | .receive b t box, s =>
    match (s b).output.pc t, (s b).input.pc t with
    | .idle, .idle => s.inputStep b ((s b).input.receive (numBoxes b) t box)
    | _, _ => none
  | .receiveStep b t, s => s.inputStep b ((s b).input.receiveStep t)

end PostSystem

/-- All interleavings of senders, postal workers, receivers and interrupts on all
machines, for one sequence of drop decisions of each. -/
def postMachine (numBoxes : NetworkAddress → Int) (Thread : Type) [DecidableEq Thread]
    (drops : NetworkAddress → Nat → Bool) :
    Machine (PostSystem numBoxes Thread) (PostEvent Thread) where
  init s := ∀ a, ∃ inbox buffer, s a = ⟨.initial ⟨0, []⟩, .initial inbox buffer⟩
  next e s := (PostSystem.step drops e s).bind Except.toOption

/-- The mailbox whose code a thread is in. -/
def ReceivePc.box : ReceivePc → Option MailBoxAddress
  | idle => none
  | getting box | holding box _ _ => some box

theorem ReceivePc.box_eq_some {pc : ReceivePc} {box : MailBoxAddress} (h : pc.box = some box) :
    pc = .getting box ∨ ∃ position letter, pc = .holding box position letter := by
  cases pc with
  | idle => cases h
  | getting box' =>
    cases h
    exact .inl rfl
  | holding box' position letter =>
    cases h
    exact .inr ⟨position, letter, rfl⟩

namespace PostInput

variable {i i' : PostInput Thread}

/-- Everything a step of the postal worker or of a receiver can do. -/
inductive Effect (i : PostInput Thread) : PostInput Thread → Prop
  | pass (worker : i.worker = .waiting) (available : i.messageAvailable.sem.value ≠ 0)
      (step : i.messageAvailable.pass () = some (i.messageAvailable.consumed ())) :
      Effect i { i with
        messageAvailable := i.messageAvailable.consumed ()
        worker := .receiving }
  | sleep (step : i.messageAvailable.pass () = some (i.messageAvailable.slept ())) :
      Effect i { i with messageAvailable := i.messageAvailable.slept () }
  | fetch (worker : i.worker = .receiving) : Effect i i.fetched
  | post (pktHdr : PacketHeader) (messages : SynchState (Option Thread) Letter)
      (worker : i.worker = .delivering pktHdr)
      (step : SynchState.next (.append none (i.newLetter pktHdr))
        (i.boxes (Header.load i.buffer).to_) = some messages) :
      Effect i (i.posted (Header.load i.buffer).to_ messages)
  | put (box : MailBoxAddress) (messages : SynchState (Option Thread) Letter)
      (worker : i.worker = .putting box)
      (step : SynchState.next (.step none) (i.boxes box) = some messages) :
      Effect i (i.setBox box messages)
  | done (box : MailBoxAddress) (worker : i.worker = .putting box)
      (idle : (i.boxes box).pc none = .idle) (rest : (i.boxes box).listEmpty.AtRest none) :
      Effect i { i with worker := .waiting }
  | call (t : Thread) (box : MailBoxAddress) (messages : SynchState (Option Thread) Letter)
      (pc : i.pc t = .idle)
      (step : SynchState.next (.removeFront (some t)) (i.boxes box) = some messages) :
      Effect i { i.setBox box messages with pc := Function.update i.pc t (.getting box) }
  | get (t : Thread) (box : MailBoxAddress) (messages : SynchState (Option Thread) Letter)
      (pc : (i.pc t).box = some box)
      (step : SynchState.next (.step (some t)) (i.boxes box) = some messages) :
      Effect i (i.got t box messages)
  | returns (t : Thread) (box : MailBoxAddress) (position : Nat) (letter : Letter)
      (pc : i.pc t = .holding box position letter) : Effect i (i.returns t box position letter)

theorem workerStep_effect {nBoxes : Int} (h : i.workerStep nBoxes = some (.ok i')) :
    i.Effect i' := by
  unfold workerStep at h
  split at h
  next worker =>
    obtain ⟨sem, pass, h⟩ := Option.map_eq_some_iff.mp h
    cases h
    rcases SemState.pass_cases pass with ⟨available, rfl⟩ | ⟨_, rfl⟩
    · simpa [waited, SemState.consumed] using Effect.pass worker available pass
    · simpa [waited, SemState.slept, ← worker] using Effect.sleep pass
  next worker =>
    cases h
    exact .fetch worker
  next pktHdr worker =>
    simp only at h
    split at h
    · obtain ⟨messages, step, h⟩ := Option.map_eq_some_iff.mp h
      cases h
      exact .post pktHdr messages worker step
    · cases h
  next box worker =>
    split at h
    next returned =>
      cases h
      exact .done box worker returned.1 returned.2
    · obtain ⟨messages, step, h⟩ := Option.map_eq_some_iff.mp h
      cases h
      exact .put box messages worker step

theorem getStep_effect {t : Thread} {box : MailBoxAddress} (pc : (i.pc t).box = some box)
    (h : i.getStep t box = some (.ok i')) : i.Effect i' := by
  obtain ⟨messages, step, h⟩ := Option.map_eq_some_iff.mp h
  cases h
  exact .get t box messages pc step

theorem receiveStep_effect {t : Thread} (h : i.receiveStep t = some (.ok i')) : i.Effect i' := by
  unfold receiveStep at h
  split at h
  · cases h
  next box pc => exact getStep_effect (by simp [pc, ReceivePc.box]) h
  next box position letter pc =>
    split at h
    · split at h
      · cases h
        exact .returns t box position letter pc
      · cases h
    · exact getStep_effect (by simp [pc, ReceivePc.box]) h

theorem receive_effect {nBoxes : Int} {t : Thread} {box : MailBoxAddress} (pc : i.pc t = .idle)
    (h : i.receive nBoxes t box = some (.ok i')) : i.Effect i' := by
  unfold receive at h
  split at h
  · obtain ⟨messages, step, h⟩ := Option.map_eq_some_iff.mp h
    cases h
    exact .call t box messages pc step
  · cases h

end PostInput

namespace PostSystem

variable {drops : NetworkAddress → Nat → Bool} {s s' : PostSystem numBoxes Thread}

variable (drops) in
/-- Everything one event can do. -/
inductive Effect (s : PostSystem numBoxes Thread) : PostSystem numBoxes Thread → Prop
  | output (a : NetworkAddress) (e : DriverEvent Thread (SendRequest numBoxes))
      (out : Driver Thread (SendRequest numBoxes) Bool Outlet)
      (own : ∀ t r, e = .call t r → r.hostName = a)
      (step : (s a).output.step (NetworkOutput.send (drops a) a) false e = some (.ok out)) :
      Effect s (s.setOutput a out)
  | quiet : Effect s s
  | arrive (a b : NetworkAddress) (wire : Buf) (rest : List Buf)
      (empty : (s b).input.inHdr.length.toNat = 0) (front : s.socket a b = wire :: rest) :
      Effect s (s.setInput b ((s b).input.arrived a wire))
  | input (b : NetworkAddress) (i : PostInput Thread) (effect : (s b).input.Effect i) :
      Effect s (s.setInput b i)

omit [DecidableEq Thread] in
theorem setInput_self {b : NetworkAddress} : s.setInput b (s b).input = s :=
  Function.update_eq_self b s

omit [DecidableEq Thread] in
theorem inputStep_ok {b : NetworkAddress} {result : Option (Except RequestFault (PostInput Thread))}
    (h : s.inputStep b result = some (.ok s')) :
    ∃ i, result = some (.ok i) ∧ s' = s.setInput b i := by
  obtain ⟨outcome, rfl, h⟩ := Option.map_eq_some_iff.mp h
  cases outcome with
  | error fault => cases h
  | ok i =>
    cases h
    exact ⟨i, rfl, rfl⟩

theorem outputStep_effect {a : NetworkAddress} {e : DriverEvent Thread (SendRequest numBoxes)}
    (own : ∀ t r, e = .call t r → r.hostName = a) (h : s.outputStep drops a e = some (.ok s')) :
    s.Effect drops s' := by
  obtain ⟨outcome, step, h⟩ := Option.map_eq_some_iff.mp h
  cases outcome with
  | error fault => cases h
  | ok out =>
    cases h
    exact .output a e out own step

theorem poll_effect {b : NetworkAddress} {sender : Option NetworkAddress} {i : PostInput Thread}
    (h : (s b).input.poll b (fun a => s.socket a b) sender = some (.ok i)) :
    s.Effect drops (s.setInput b i) := by
  have unchanged : s.Effect drops (s.setInput b (s b).input) := by
    rw [setInput_self]
    exact .quiet
  unfold PostInput.poll at h
  split at h
  · cases h
    exact unchanged
  next empty =>
    split at h
    · cases h
      exact unchanged
    next a =>
      split at h
      · cases h
      next wire rest front =>
        simp only at h
        split at h
        · cases h
          exact .arrive a b wire rest (not_not.mp empty) front
        · cases h

theorem step_effect {e : PostEvent Thread} (h : step drops e s = some (.ok s')) :
    s.Effect drops s' := by
  cases e with
  | send a t to_ mailHdr data heap wireHeap =>
    simp only [step] at h
    split at h
    · split at h
      · split at h
        · refine outputStep_effect (fun u r same => ?_) h
          cases same
          rfl
        · cases h
      · cases h
    · cases h
  | sendStep a t => exact outputStep_effect (by simp) h
  | sendInterrupt a serial => exact outputStep_effect (by simp) h
  | poll b sender =>
    obtain ⟨i, polled, rfl⟩ := inputStep_ok h
    exact poll_effect polled
  | worker b =>
    obtain ⟨i, stepped, rfl⟩ := inputStep_ok h
    exact .input b i (PostInput.workerStep_effect stepped)
  | receive b t box =>
    simp only [step] at h
    split at h
    next pc =>
      obtain ⟨i, received, rfl⟩ := inputStep_ok h
      exact .input b i (PostInput.receive_effect pc received)
    · cases h
  | receiveStep b t =>
    obtain ⟨i, received, rfl⟩ := inputStep_ok h
    exact .input b i (PostInput.receiveStep_effect received)

theorem next_effect {e : PostEvent Thread}
    (h : (postMachine numBoxes Thread drops).next e s = some s') : s.Effect drops s' :=
  step_effect (Exec.bind_toOption_eq_some.mp h)

omit [DecidableEq Thread] in
@[simp] theorem setInput_output {a b : NetworkAddress} {i : PostInput Thread} :
    (s.setInput b i a).output = (s a).output := by
  unfold setInput
  by_cases h : a = b
  · rw [h, Function.update_self]
  · rw [Function.update_of_ne h]

omit [DecidableEq Thread] in
@[simp] theorem setOutput_input {a b : NetworkAddress}
    {out : Driver Thread (SendRequest numBoxes) Bool Outlet} :
    (s.setOutput a out b).input = (s b).input := by
  unfold setOutput
  by_cases h : b = a
  · rw [h, Function.update_self]
  · rw [Function.update_of_ne h]

end PostSystem

/-- All interleavings of `PostOfficeOutput::Send` on one machine. -/
def sendMachine (numBoxes : NetworkAddress → Int) (Thread : Type) [DecidableEq Thread]
    (drops : Nat → Bool) (hostName : NetworkAddress) :
    Machine (Driver Thread (SendRequest numBoxes) Bool Outlet)
      (DriverEvent Thread (SendRequest numBoxes)) :=
  driverMachine (NetworkOutput.send drops hostName) false ⟨0, []⟩

variable (numBoxes Thread) in
/-- The sending side of each machine is run as a driver. -/
def postOutput (drops : NetworkAddress → Nat → Bool) (a : NetworkAddress) :
    Machine.Projection (postMachine numBoxes Thread drops)
      (sendMachine numBoxes Thread (drops a) a) where
  abs s := (s a).output
  init := by
    intro s h
    obtain ⟨inbox, buffer, ha⟩ := h a
    rw [ha]
    rfl
  step := by
    intro e s s' h
    cases PostSystem.next_effect h with
    | output a' e out _ step =>
      by_cases ha : a' = a
      · subst ha
        refine .inr ⟨e, ?_⟩
        simp only [PostSystem.setOutput, Function.update_self]
        exact Exec.bind_toOption_eq_some.mpr step
      · simp [PostSystem.setOutput, Function.update_of_ne (Ne.symm ha)]
    | quiet => exact .inl rfl
    | arrive | input => simp

/-- A step of the worker or of a receiver is at most one step on each mailbox. -/
theorem PostInput.Effect.box {i i' : PostInput Thread} (h : i.Effect i') (box : MailBoxAddress) :
    i'.boxes box = i.boxes box ∨
      ∃ e, (synchMachine (Option Thread) Letter).next e (i.boxes box) = some (i'.boxes box) := by
  -- The mailbox that the step is on is `target`.
  have on : ∀ (target : MailBoxAddress) (e : SynchEvent (Option Thread) Letter)
      (messages : SynchState (Option Thread) Letter),
      SynchState.next e (i.boxes target) = some messages →
      Function.update i.boxes target messages box = i.boxes box ∨
        ∃ e, (synchMachine (Option Thread) Letter).next e (i.boxes box) =
          some (Function.update i.boxes target messages box) := by
    intro target e messages step
    by_cases hb : box = target
    · subst hb
      rw [Function.update_self]
      exact .inr ⟨e, step⟩
    · exact .inl (Function.update_of_ne hb _ _)
  cases h with
  | post pktHdr messages worker step => exact on _ _ messages step
  | put target messages worker step => exact on target _ messages step
  | call t target messages pc step => exact on target _ messages step
  | get t target messages pc step => exact on target _ messages step
  | pass | sleep | fetch | done | returns => exact .inl rfl

/-- The postal worker alone waits on `messageAvailable`. -/
theorem PostInput.Effect.available {i i' : PostInput Thread} (h : i.Effect i') :
    i'.messageAvailable = i.messageAvailable ∨
      ∃ e, (semMachine Unit 0).next e i.messageAvailable = some i'.messageAvailable := by
  cases h with
  | pass _ _ step | sleep step =>
    exact .inr (SemState.pass_next step)
  | fetch | post | put | done | call | get | returns => exact .inl rfl

variable (numBoxes) in
/-- A part of the receiving side of a machine that is run as a machine of its own. -/
def postInput {τ δ : Type} {N : Machine τ δ} (drops : NetworkAddress → Nat → Bool)
    (b : NetworkAddress) (part : PostInput Thread → τ)
    (initial : ∀ inbox buffer, N.init (part (.initial inbox buffer)))
    (arrived : ∀ i a wire, part (i.arrived a wire) = part i ∨
      ∃ d, N.next d (part i) = some (part (i.arrived a wire)))
    (effect : ∀ i i', i.Effect i' → part i' = part i ∨ ∃ d, N.next d (part i) = some (part i')) :
    Machine.Projection (postMachine numBoxes Thread drops) N where
  abs s := part (s b).input
  init := by
    intro s h
    obtain ⟨inbox, buffer, hb⟩ := h b
    rw [hb]
    exact initial inbox buffer
  step := by
    intro e s s' h
    cases PostSystem.next_effect h with
    | output => simp
    | quiet => exact .inl rfl
    | arrive a b' wire =>
      by_cases hb : b = b'
      · subst hb
        simp only [PostSystem.setInput, Function.update_self]
        exact arrived _ a wire
      · simp [PostSystem.setInput, Function.update_of_ne hb]
    | input b' i step =>
      by_cases hb : b = b'
      · subst hb
        simp only [PostSystem.setInput, Function.update_self]
        exact effect _ i step
      · simp [PostSystem.setInput, Function.update_of_ne hb]

variable (numBoxes Thread) in
/-- Each mailbox is run as a synchronized list. -/
def postBox (drops : NetworkAddress → Nat → Bool) (b : NetworkAddress) (box : MailBoxAddress) :
    Machine.Projection (postMachine numBoxes Thread drops)
      (synchMachine (Option Thread) Letter) :=
  postInput numBoxes drops b (fun i => i.boxes box) (fun _ _ => rfl)
    (fun _ _ _ => .inl rfl) (fun _ _ effect => effect.box box)

variable (numBoxes Thread) in
/-- `messageAvailable` is run as a semaphore of initial value 0. -/
def postAvailable (drops : NetworkAddress → Nat → Bool) (b : NetworkAddress) :
    Machine.Projection (postMachine numBoxes Thread drops) (semMachine Unit 0) :=
  postInput numBoxes drops b PostInput.messageAvailable (fun _ _ => rfl)
    (fun _ _ _ => .inr ⟨.v, rfl⟩) (fun _ _ effect => effect.available)

end Machine

end NachOS.Network
