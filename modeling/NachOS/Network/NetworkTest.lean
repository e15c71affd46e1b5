import NachOS.Network.PostOffice

/-!
# The network test (threads/kernel.cc:107-108,188-250)

The machines 0 and 1 send each other a message, wait for the message of the other one,
acknowledge it, and wait for the acknowledgement of their own. The main thread of each is
the only one that calls the post office; everything else that the post offices do goes on
between its calls, and packets may be lost.
-/
namespace NachOS.Network
open NachOS.Lib NachOS.Threads

/-- `new PostOfficeInput(10)`. -/
def kernelBoxes : NetworkAddress → Int := fun _ => 10

/-- A string literal and its terminator. -/
def cString (text : String) : List Byte :=
  text.toList.map (fun c => BitVec.ofNat 8 c.toNat) ++ [0]

/-- What `operator<<` prints of a `char *`. -/
def cText (data : List Byte) : String :=
  String.ofList ((data.takeWhile (· ≠ 0)).map fun b => Char.ofNat b.toNat)

namespace NetworkTest

def data : List Byte := cString "Hello there!"

def ack : List Byte := cString "Got it!"

def farHost (hostName : NetworkAddress) : NetworkAddress := if hostName = 0 then 1 else 0

/-- The arguments of a call of `Send`. -/
structure Outgoing where
  to_ : NetworkAddress
  mailHdr : MailHeader
  data : List Byte

def firstMessage (hostName : NetworkAddress) : Outgoing where
  to_ := farHost hostName
  mailHdr := ⟨0, 1, BitVec.ofNat 32 data.length⟩
  data := data

/-- The answer to a message, to the mailbox that it names. -/
def acknowledgement (received : Mail) : Outgoing where
  to_ := received.pktHdr.from_
  mailHdr := ⟨received.mailHdr.from_, 1, BitVec.ofNat 32 ack.length⟩
  data := ack

/-- The line printed for a message. -/
def got (received : Mail) : String :=
  "Got: " ++ cText received.data ++ " : from " ++ toString received.pktHdr.from_.toInt ++
    ", box " ++ toString received.mailHdr.from_.toInt ++ "\n"

/-- Where the main thread of a machine stands in `Kernel::NetworkTest`. -/
inductive Pc where
  | start
  /-- In the first `Send`. -/
  | sending
  /-- In `Receive(0, ..)`. -/
  | receiving
  /-- In the second `Send`. -/
  | acknowledging (first : Mail)
  /-- In `Receive(1, ..)`. -/
  | awaiting (first : Mail)
  | done (first second : Mail)
  deriving DecidableEq

/-- What the machine has printed. -/
def Pc.printed : Pc → String
  | start | sending | receiving => ""
  | acknowledging first | awaiting first => got first
  | done first second => got first ++ got second

end NetworkTest

structure NetworkTest where
  post : PostSystem kernelBoxes Unit
  pc : NetworkAddress → NetworkTest.Pc

inductive NetworkTestEvent where
  /-- The post offices go on. -/
  | post (e : PostEvent Unit)
  /-- The test goes on with its next call; what the buffers of a `Send` hold. -/
  | test (a : NetworkAddress) (heap wireHeap : Buf)

/-- A call of the post office, as against a step inside it. -/
def PostEvent.calls {Thread : Type} : PostEvent Thread → Bool
  | .send .. | .receive .. => true
  | .sendStep .. | .sendInterrupt .. | .poll .. | .worker .. | .receiveStep .. => false

namespace NetworkTest

variable (drops : NetworkAddress → Nat → Bool)

/-- A call of the post office, after which the test is at `pc`; an error when an assertion
on its arguments fails. -/
def call (s : NetworkTest) (a : NetworkAddress) (pc : Pc) (e : PostEvent Unit) :
    Option (Except RequestFault NetworkTest) :=
  (PostSystem.step drops e s.post).map
    (Except.map fun post => { post, pc := Function.update s.pc a pc })

def send (s : NetworkTest) (a : NetworkAddress) (m : Outgoing) (heap wireHeap : Buf) (pc : Pc) :
    Option (Except RequestFault NetworkTest) :=
  s.call drops a pc (.send a () m.to_ m.mailHdr (fun i => m.data.getD i 0) heap wireHeap)

def receive (s : NetworkTest) (a : NetworkAddress) (box : MailBoxAddress) (pc : Pc) :
    Option (Except RequestFault NetworkTest) :=
  s.call drops a pc (.receive a () box)

/-- The call of `Send` has returned. -/
def sent (s : NetworkTest) (a : NetworkAddress) : Bool :=
  match (s.post a).output.pc () with
  | .idle => true
  | _ => false

/-- What the call of `Receive` on `box` returned, once it has. -/
def received (s : NetworkTest) (a : NetworkAddress) (box : MailBoxAddress) : Option Mail :=
  if (s.post a).input.pc () = .idle then
    ((s.post a).input.returned box).getLast?.map fun given => given.2.mail
  else none

/-- `Kernel::NetworkTest`, from the return of one call to the next call. -/
def testStep (s : NetworkTest) (a : NetworkAddress) (heap wireHeap : Buf) :
    Option (Except RequestFault NetworkTest) :=
  match s.pc a with
  | .start =>
    if a = 0 ∨ a = 1 then s.send drops a (firstMessage a) heap wireHeap .sending else none
  | .sending =>
    if s.sent a then s.receive drops a 0 .receiving else none
  | .receiving =>
    (s.received a 0).bind fun first =>
      s.send drops a (acknowledgement first) heap wireHeap (.acknowledging first)
  | .acknowledging first =>
    if s.sent a then s.receive drops a 1 (.awaiting first) else none
  | .awaiting first =>
    (s.received a 1).map fun second =>
      .ok { s with pc := Function.update s.pc a (.done first second) }
  | .done _ _ => none

/-- `none` when the event cannot happen, an error when an assertion fails. -/
def step : NetworkTestEvent → NetworkTest → Option (Except RequestFault NetworkTest)
  | .post e, s =>
    if e.calls then none
    else (PostSystem.step drops e s.post).map (Except.map fun post => { s with post })
  | .test a heap wireHeap, s => s.testStep drops a heap wireHeap

def next (e : NetworkTestEvent) (s : NetworkTest) : Option NetworkTest :=
  (step drops e s).bind Except.toOption

end NetworkTest

/-- The test on both machines, for one sequence of drop decisions of each. -/
def networkTestMachine (drops : NetworkAddress → Nat → Bool) :
    Machine NetworkTest NetworkTestEvent where
  init s := (postMachine kernelBoxes Unit drops).init s.post ∧ ∀ a, s.pc a = .start
  next := NetworkTest.next drops

namespace NetworkTest

variable {drops : NetworkAddress → Nat → Bool} {s s' : NetworkTest}

theorem call_eq_ok {a : NetworkAddress} {pc : Pc} {e : PostEvent Unit} :
    s.call drops a pc e = some (.ok s') ↔
      ∃ post, (postMachine kernelBoxes Unit drops).next e s.post = some post ∧
        { post, pc := Function.update s.pc a pc } = s' := by
  unfold call postMachine
  simp only [Exec.map_eq_some_ok, Exec.bind_toOption_eq_some]

theorem next_post_eq_some {e : PostEvent Unit} :
    s.next drops (.post e) = some s' ↔ e.calls = false ∧
      ∃ post, (postMachine kernelBoxes Unit drops).next e s.post = some post ∧
        { s with post } = s' := by
  unfold next step postMachine
  rw [Exec.bind_toOption_eq_some, Option.ite_none_left_eq_some]
  simp only [Exec.map_eq_some_ok, Exec.bind_toOption_eq_some, Bool.not_eq_true]

theorem next_test_eq_some {a : NetworkAddress} {heap wireHeap : Buf} :
    s.next drops (.test a heap wireHeap) = some s' ↔
      s.testStep drops a heap wireHeap = some (.ok s') :=
  Exec.bind_toOption_eq_some

/-- The sending side of a machine that only the main thread uses. -/
abbrev Sender := Driver Unit (SendRequest kernelBoxes) Bool Outlet

/-- The messages that were sent, and the one that is about to be. -/
def outgoing (d : Sender) : List Mail :=
  d.calls.map (fun c => c.request.mail) ++
    match d.pc () with
    | .acquiring request => [request.mail]
    | _ => []

section Sending

variable {perform : SendRequest kernelBoxes → Outlet → Option (Bool × Outlet)} {d d' : Sender}

theorem body_outgoing (h : d.body perform false () = some (.ok d')) : outgoing d' = outgoing d := by
  unfold Driver.body at h
  split at h
  next => cases h
  next request pc =>
    obtain ⟨_, _, h⟩ := Exec.bind_eq_ok.mp (Option.some.inj h)
    split at h
    next => cases h
    next =>
      cases h
      simp [outgoing, Driver.issued, pc]
  next serial call pc =>
    obtain ⟨exchange, _, h⟩ := Option.map_eq_some_iff.mp h
    cases h
    by_cases completed : exchange.waiting () = none
    · simp [outgoing, Driver.waited, completed, pc]
    · simp [outgoing, Driver.waited, completed, pc]
  next serial call pc =>
    obtain ⟨_, called, h⟩ := Option.map_eq_some_iff.mp h
    obtain ⟨lock, _, rfl⟩ := Option.map_eq_some_iff.mp called
    cases h
    simp [outgoing, Driver.locked, pc]
  next serial call pc =>
    cases h
    simp [outgoing, Driver.returns, pc]

theorem step_outgoing (h : d.step perform false (.step ()) = some (.ok d')) :
    outgoing d' = outgoing d := by
  simp only [Driver.step] at h
  split at h
  next => exact body_outgoing h
  next =>
    obtain ⟨e, _, h⟩ := Option.bind_eq_some_iff.mp h
    obtain ⟨_, called, h⟩ := Option.map_eq_some_iff.mp h
    obtain ⟨lock, _, rfl⟩ := Option.map_eq_some_iff.mp called
    cases h
    simp [outgoing, Driver.locked]

theorem interrupt_outgoing {serial : Nat}
    (h : d.step perform false (.interrupt serial) = some (.ok d')) : outgoing d' = outgoing d := by
  obtain ⟨exchange, _, h⟩ := Option.map_eq_some_iff.mp h
  cases h
  rfl

theorem call_outgoing {request : SendRequest kernelBoxes}
    (h : d.step perform false (.call () request) = some (.ok d')) :
    outgoing d' = outgoing d ++ [request.mail] := by
  simp only [Driver.step] at h
  split at h
  next pc =>
    obtain ⟨_, called, h⟩ := Option.map_eq_some_iff.mp h
    obtain ⟨lock, _, rfl⟩ := Option.map_eq_some_iff.mp called
    cases h
    simp [outgoing, Driver.locked, pc]
  next => cases h

end Sending

/-- A step inside the post office leaves what each machine has to send. -/
theorem post_outgoing {e : PostEvent Unit} {post : PostSystem kernelBoxes Unit}
    (inside : e.calls = false)
    (h : (postMachine kernelBoxes Unit drops).next e s.post = some post) (a : NetworkAddress) :
    outgoing (post a).output = outgoing (s.post a).output := by
  have step := Exec.bind_toOption_eq_some.mp h
  -- A step of the sending side of `b`.
  have sends : ∀ b event, (∀ d', (s.post b).output.step (NetworkOutput.send (drops b) b) false
      event = some (.ok d') → outgoing d' = outgoing (s.post b).output) →
      s.post.outputStep drops b event = some (.ok post) →
      outgoing (post a).output = outgoing (s.post a).output := by
    intro b event same step
    obtain ⟨outcome, own, step⟩ := Option.map_eq_some_iff.mp step
    cases outcome with
    | error fault => cases step
    | ok d' =>
      cases step
      by_cases ha : a = b
      · subst ha
        simpa [PostSystem.setOutput] using same d' own
      · simp [PostSystem.setOutput, Function.update_of_ne ha]
  -- A step of the receiving side.
  have receives : ∀ b result, s.post.inputStep b result = some (.ok post) →
      outgoing (post a).output = outgoing (s.post a).output := by
    intro b result step
    obtain ⟨i, _, rfl⟩ := PostSystem.inputStep_ok step
    rw [PostSystem.setInput_output]
  cases e with
  | send => cases inside
  | receive => cases inside
  | sendStep b t => exact sends b _ (fun d' => step_outgoing) step
  | sendInterrupt b serial => exact sends b _ (fun d' => interrupt_outgoing) step
  | poll b sender => exact receives b _ step
  | worker b => exact receives b _ step
  | receiveStep b t => exact receives b _ step

/-- The message that a machine puts together from the arguments of `Send`. -/
def Outgoing.mail (m : Outgoing) (hostName : NetworkAddress) : Mail where
  pktHdr := ⟨m.to_, hostName, m.mailHdr.length + BitVec.ofNat 32 HeaderSize⟩
  mailHdr := m.mailHdr
  data := m.data

/-- The first message of a machine, and the other one's acknowledgement of it. -/
def hello (hostName : NetworkAddress) : Mail := (firstMessage hostName).mail hostName

def answer (hostName : NetworkAddress) : Mail :=
  (acknowledgement (hello (farHost hostName))).mail hostName

/-- What a machine has sent or is about to send. -/
def Pc.outgoing (a : NetworkAddress) : Pc → List Mail
  | start => []
  | sending | receiving => [hello a]
  | acknowledging first | awaiting first | done first _ => [hello a, (acknowledgement first).mail a]

/-- What the machine has received. -/
def Pc.Heard (a : NetworkAddress) : Pc → Prop
  | start | sending | receiving => True
  | acknowledging first | awaiting first => first = hello (farHost a)
  | done first second => first = hello (farHost a) ∧ second = answer (farHost a)

/-- The invariant of the test. -/
structure Correct (s : NetworkTest) : Prop where
  outgoing : ∀ a, outgoing (s.post a).output = (s.pc a).outgoing a
  heard : ∀ a, (s.pc a).Heard a
  machines : ∀ a, s.pc a ≠ .start → a = 0 ∨ a = 1

theorem range_getD {α : Type} (l : List α) (default : α) :
    (List.range l.length).map (fun i => l.getD i default) = l := by
  apply List.ext_getElem
  · simp
  · intro i h₁ h₂
    simp [List.getD_eq_getElem?_getD, h₂]

/-- The request behind a call of `Send` carries the message. -/
theorem request_mail {m : Outgoing} {a : NetworkAddress} {heap wireHeap : Buf}
    (length : m.mailHdr.length.toNat = m.data.length) (fits : m.mailHdr.length.toNat ≤ MaxMailSize)
    (addressed : 0 ≤ m.mailHdr.to_.toInt ∧ m.mailHdr.to_.toInt < kernelBoxes m.to_) :
    (SendRequest.mk m.to_ a m.mailHdr (fun i => m.data.getD i 0) heap wireHeap fits
      addressed).mail = m.mail a := by
  unfold SendRequest.mail Mail.new Outgoing.mail
  simp only [length, range_getD]
  rfl

/-- A call of `Send` on `a`. -/
theorem send_outgoing {m : Outgoing} {a : NetworkAddress} {heap wireHeap : Buf} {pc : Pc}
    (length : m.mailHdr.length.toNat = m.data.length)
    (h : s.send drops a m heap wireHeap pc = some (.ok s')) :
    (∀ b, outgoing (s'.post b).output =
      if b = a then outgoing (s.post a).output ++ [m.mail a] else outgoing (s.post b).output) ∧
    s'.pc = Function.update s.pc a pc := by
  obtain ⟨post, step, rfl⟩ := call_eq_ok.mp h
  refine ⟨?_, rfl⟩
  intro b
  have step := Exec.bind_toOption_eq_some.mp step
  simp only [PostSystem.step] at step
  split at step
  next =>
    split at step
    next valid =>
      split at step
      next known =>
        obtain ⟨outcome, own, step⟩ := Option.map_eq_some_iff.mp step
        cases outcome with
        | error fault => cases step
        | ok d' =>
          cases step
          have sent := call_outgoing own
          rw [request_mail length] at sent
          by_cases hb : b = a
          · subst hb
            simpa [PostSystem.setOutput] using sent
          · simp [PostSystem.setOutput, hb]
      next => cases step
    next => cases step
  next => cases step

/-- A call of `Receive` on `a`. -/
theorem receive_outgoing {a : NetworkAddress} {box : MailBoxAddress} {pc : Pc}
    (h : s.receive drops a box pc = some (.ok s')) :
    (∀ b, outgoing (s'.post b).output = outgoing (s.post b).output) ∧
    s'.pc = Function.update s.pc a pc := by
  obtain ⟨post, step, rfl⟩ := call_eq_ok.mp h
  refine ⟨?_, rfl⟩
  intro b
  have step := Exec.bind_toOption_eq_some.mp step
  simp only [PostSystem.step] at step
  split at step
  next =>
    obtain ⟨i, _, rfl⟩ := PostSystem.inputStep_ok step
    rw [PostSystem.setInput_output]
  next => cases step

/-- A message that `Receive` returned was sent to the box, and not dropped. -/
theorem received_call {a : NetworkAddress} {box : MailBoxAddress} {m : Mail}
    (reached : (postMachine kernelBoxes Unit drops).Reachable s.post)
    (h : s.received a box = some m) :
    m.mailHdr.to_ = box ∧ ∃ c ∈ (s.post m.pktHdr.from_).output.calls,
      c.reply = true ∧ c.request.to_ = a ∧ c.request.mail = m := by
  have inv := PostInvariant.of_reachable reached
  obtain ⟨-, h⟩ := Option.ite_none_right_eq_some.mp h
  obtain ⟨⟨k, letter⟩, last, rfl⟩ := Option.map_eq_some_iff.mp h
  have given : (k, letter) ∈ (s.post a).input.returned box := List.mem_of_getLast? last
  have taken := ((inv.receiving a).accounted box).gave k letter given
  have order : ((s.post a).input.boxes box).appended = _ ++ _ := (SynchInvariant.of_reachable
    ((postBox kernelBoxes Unit drops a box).reachable reached)).order
  have boxed : letter.mail ∈ ((s.post a).input.boxes box).appended.map Letter.mail := by
    rw [order]
    exact List.mem_map_of_mem (List.mem_append_left _ (List.mem_of_getElem? taken))
  have read : letter.mail ∈ (s.post a).input.read.filter (·.mailHdr.to_ = box) := by
    rw [(inv.delivery a).delivered box]
    exact List.mem_append_left _ boxed
  obtain ⟨read, to_⟩ := List.mem_filter.mp read
  refine ⟨by simpa using to_, ?_⟩
  have sender : letter.mail ∈
      (s.post a).input.read.filter (·.pktHdr.from_ = letter.mail.pktHdr.from_) :=
    List.mem_filter.mpr ⟨read, by simp⟩
  rw [(inv.order letter.mail.pktHdr.from_ a).2] at sender
  obtain ⟨r, network, mail⟩ := List.mem_map.mp sender
  obtain ⟨c, called, rfl⟩ := List.mem_map.mp (List.mem_of_mem_take network)
  obtain ⟨called, kept⟩ := List.mem_filter.mp called
  simp only [Bool.decide_and, Bool.and_eq_true, decide_eq_true_eq] at kept
  exact ⟨c, called, by simpa using kept.2, kept.1, mail⟩

theorem firstMessage_length (a : NetworkAddress) :
    (firstMessage a).mailHdr.length.toNat = (firstMessage a).data.length := by
  change (BitVec.ofNat 32 data.length).toNat = data.length
  decide

theorem acknowledgement_length (m : Mail) :
    (acknowledgement m).mailHdr.length.toNat = (acknowledgement m).data.length := by
  change (BitVec.ofNat 32 ack.length).toNat = ack.length
  decide

theorem farHost_farHost {a : NetworkAddress} (machine : a = 0 ∨ a = 1) :
    farHost (farHost a) = a := by
  rcases machine with rfl | rfl
  · decide
  · decide

/-- What a machine may have sent: its first message, or the acknowledgement that it
sends once it has heard the other one. -/
theorem Correct.sent (h : s.Correct) {b : NetworkAddress} {m : Mail}
    (member : m ∈ NetworkTest.outgoing (s.post b).output) :
    (b = 0 ∨ b = 1) ∧ (m = hello b ∨
      m = answer b ∧ (s.pc b ≠ .start ∧ s.pc b ≠ .sending ∧ s.pc b ≠ .receiving)) := by
  have heard := h.heard b
  have machine := h.machines b
  rw [h.outgoing b] at member
  cases at_b : s.pc b with
  | start => simp [at_b, Pc.outgoing] at member
  | sending =>
    rw [at_b] at member
    exact ⟨machine (by simp [at_b]), .inl (List.mem_singleton.mp member)⟩
  | receiving =>
    rw [at_b] at member
    exact ⟨machine (by simp [at_b]), .inl (List.mem_singleton.mp member)⟩
  | acknowledging first =>
    rw [at_b] at member heard
    cases heard
    refine ⟨machine (by simp [at_b]), ?_⟩
    simpa [Pc.outgoing, answer] using member
  | awaiting first =>
    rw [at_b] at member heard
    cases heard
    refine ⟨machine (by simp [at_b]), ?_⟩
    simpa [Pc.outgoing, answer] using member
  | done first second =>
    rw [at_b] at member heard
    cases heard.1
    refine ⟨machine (by simp [at_b]), ?_⟩
    simpa [Pc.outgoing, answer] using member

/-- The sender of a message that was received, and its call of `Send`. -/
theorem Correct.received (h : s.Correct)
    (reached : (postMachine kernelBoxes Unit drops).Reachable s.post) {a : NetworkAddress}
    {box : MailBoxAddress} {m : Mail} (got : s.received a box = some m) :
    ∃ b, (b = 0 ∨ b = 1) ∧ a = farHost b ∧
      (∃ c ∈ (s.post b).output.calls, c.reply = true ∧ c.request.mail = m) ∧
      (box = 0 ∧ m = hello b ∨ box = 1 ∧ m = answer b ∧
        (s.pc b ≠ .start ∧ s.pc b ≠ .sending ∧ s.pc b ≠ .receiving)) := by
  obtain ⟨to_, c, called, kept, host, mail⟩ := received_call reached got
  have member : c.request.mail ∈ NetworkTest.outgoing (s.post m.pktHdr.from_).output :=
    List.mem_append_left _ (List.mem_map_of_mem (f := fun c => c.request.mail) called)
  rw [mail] at member
  obtain ⟨machine, cases⟩ := h.sent member
  have addressed : m.pktHdr.to_ = a := by
    rw [← mail]
    exact host
  refine ⟨m.pktHdr.from_, machine, ?_, ⟨c, called, kept, mail⟩, ?_⟩
  · rw [← addressed]
    rcases cases with first | ⟨second, -⟩
    · rw [first]
      rfl
    · rw [second]
      rfl
  · rcases cases with first | ⟨second, later⟩
    · refine .inl ⟨?_, first⟩
      rw [← to_, first]
      rfl
    · refine .inr ⟨?_, second, later⟩
      rw [← to_, second]
      rfl

/-- The test went on on `a`, and sent what its new place says. -/
theorem Correct.moved (h : s.Correct) {a : NetworkAddress} {pc : Pc}
    (pcs : s'.pc = Function.update s.pc a pc)
    (sends : ∀ b, NetworkTest.outgoing (s'.post b).output =
      if b = a then pc.outgoing a else NetworkTest.outgoing (s.post b).output)
    (heard : pc.Heard a) (machine : a = 0 ∨ a = 1) : s'.Correct := by
  constructor
  · intro b
    rw [sends b, pcs]
    by_cases hb : b = a
    · subst hb
      rw [if_pos rfl, Function.update_self]
    · rw [if_neg hb, Function.update_of_ne hb]
      exact h.outgoing b
  · intro b
    rw [pcs]
    by_cases hb : b = a
    · subst hb
      rwa [Function.update_self]
    · rw [Function.update_of_ne hb]
      exact h.heard b
  · intro b
    rw [pcs]
    by_cases hb : b = a
    · subst hb
      intro _
      exact machine
    · rw [Function.update_of_ne hb]
      exact h.machines b

/-- `a` received a message of box 0 or of box 1. -/
theorem Correct.received_mail (h : s.Correct)
    (reached : (postMachine kernelBoxes Unit drops).Reachable s.post) {a : NetworkAddress}
    {box : MailBoxAddress} {m : Mail} (got : s.received a box = some m) :
    (box = 0 → m = hello (farHost a)) ∧ (box = 1 → m = answer (farHost a)) := by
  obtain ⟨b, machine, rfl, -, cases⟩ := h.received reached got
  rw [farHost_farHost machine]
  rcases cases with ⟨rfl, first⟩ | ⟨rfl, second, -⟩
  · exact ⟨fun _ => first, fun other => absurd other (by decide)⟩
  · exact ⟨fun other => absurd other (by decide), fun _ => second⟩

theorem testStep_correct {a : NetworkAddress} {heap wireHeap : Buf} (h : s.Correct)
    (reached : (postMachine kernelBoxes Unit drops).Reachable s.post)
    (step : s.testStep drops a heap wireHeap = some (.ok s')) : s'.Correct := by
  have outgoing := h.outgoing a
  have heard := h.heard a
  have machine := h.machines a
  unfold testStep at step
  split at step
  next at_a =>
    obtain ⟨machine, step⟩ := Option.ite_none_right_eq_some.mp step
    obtain ⟨sends, pcs⟩ := send_outgoing (firstMessage_length a) step
    rw [at_a] at outgoing
    rw [outgoing] at sends
    exact h.moved pcs sends trivial machine
  next at_a =>
    obtain ⟨-, step⟩ := Option.ite_none_right_eq_some.mp step
    obtain ⟨sends, pcs⟩ := receive_outgoing step
    rw [at_a] at outgoing
    refine h.moved pcs ?_ trivial (machine (by simp [at_a]))
    intro b
    rw [sends b]
    split
    next same => rw [same, outgoing]; rfl
    next => rfl
  next at_a =>
    obtain ⟨first, got, step⟩ := Option.bind_eq_some_iff.mp step
    obtain ⟨sends, pcs⟩ := send_outgoing (acknowledgement_length first) step
    rw [at_a] at outgoing
    rw [outgoing] at sends
    exact h.moved pcs sends ((h.received_mail reached got).1 rfl) (machine (by simp [at_a]))
  next first at_a =>
    obtain ⟨-, step⟩ := Option.ite_none_right_eq_some.mp step
    obtain ⟨sends, pcs⟩ := receive_outgoing step
    rw [at_a] at outgoing heard
    refine h.moved pcs ?_ heard (machine (by simp [at_a]))
    intro b
    rw [sends b]
    split
    next same => rw [same, outgoing]; rfl
    next => rfl
  next first at_a =>
    obtain ⟨second, got, step⟩ := Option.map_eq_some_iff.mp step
    cases step
    rw [at_a] at outgoing heard
    refine h.moved rfl ?_ ⟨heard, (h.received_mail reached got).2 rfl⟩ (machine (by simp [at_a]))
    intro b
    split
    next same => rw [same, outgoing]; rfl
    next => rfl
  next => cases step

/-- The post offices are run as such. -/
def postPart (drops : NetworkAddress → Nat → Bool) :
    Machine.Projection (networkTestMachine drops) (postMachine kernelBoxes Unit drops) where
  abs := NetworkTest.post
  init s h := h.1
  step := by
    intro e s s' h
    have called : ∀ {a pc event}, s.call drops a pc event = some (.ok s') →
        s'.post = s.post ∨
          ∃ e, (postMachine kernelBoxes Unit drops).next e s.post = some s'.post := by
      intro a pc event h
      obtain ⟨post, step, rfl⟩ := call_eq_ok.mp h
      exact .inr ⟨event, step⟩
    cases e with
    | post e =>
      obtain ⟨-, post, step, rfl⟩ := next_post_eq_some.mp h
      exact .inr ⟨e, step⟩
    | test a heap wireHeap =>
      have h := next_test_eq_some.mp h
      unfold testStep at h
      split at h
      next => exact called (Option.ite_none_right_eq_some.mp h).2
      next => exact called (Option.ite_none_right_eq_some.mp h).2
      next =>
        obtain ⟨first, _, h⟩ := Option.bind_eq_some_iff.mp h
        exact called h
      next => exact called (Option.ite_none_right_eq_some.mp h).2
      next =>
        obtain ⟨second, _, h⟩ := Option.map_eq_some_iff.mp h
        cases h
        exact .inl rfl
      next => cases h

theorem Correct.of_reachable (h : (networkTestMachine drops).Reachable s) : s.Correct := by
  induction h with
  | @init s h =>
    obtain ⟨posts, start⟩ := h
    constructor
    · intro a
      obtain ⟨inbox, buffer, ha⟩ := posts a
      rw [start a, ha]
      rfl
    · intro a
      rw [start a]
      trivial
    · intro a moved
      exact absurd (start a) moved
  | @step s s' e before _ happens correct =>
    cases e with
    | post e =>
      obtain ⟨inside, post, step, rfl⟩ := next_post_eq_some.mp happens
      constructor
      · intro a
        rw [post_outgoing inside step a]
        exact correct.outgoing a
      · exact correct.heard
      · exact correct.machines
    | test a heap wireHeap =>
      exact testStep_correct correct ((postPart drops).reachable before)
        (next_test_eq_some.mp happens)

/-- The messages received so far. -/
def Pc.first? : Pc → Option Mail
  | start | sending | receiving => none
  | acknowledging first | awaiting first | done first _ => some first

def Pc.second? : Pc → Option Mail
  | done _ second => some second
  | start | sending | receiving | acknowledging _ | awaiting _ => none

/-- `b` has put the message on the network. -/
def Delivered (s : NetworkTest) (b : NetworkAddress) (m : Mail) : Prop :=
  ∃ c ∈ (s.post b).output.calls, c.reply = true ∧ c.request.mail = m

/-- What is behind the messages that were received. -/
structure Causal (s : NetworkTest) : Prop where
  first : ∀ a, (s.pc a).first? ≠ none → s.Delivered (farHost a) (hello (farHost a))
  second : ∀ a, (s.pc a).second? ≠ none →
    s.Delivered (farHost a) (answer (farHost a)) ∧ (s.pc (farHost a)).first? ≠ none

theorem post_calls {e : PostEvent Unit} {post post' : PostSystem kernelBoxes Unit}
    (h : (postMachine kernelBoxes Unit drops).next e post = some post') (a : NetworkAddress) :
    (post a).output.calls <+: (post' a).output.calls := by
  cases PostSystem.next_effect h with
  | output b e out own step =>
    by_cases ha : a = b
    · subst ha
      simpa [PostSystem.setOutput] using (Driver.step_effect step).calls
    · simp [PostSystem.setOutput, ha]
  | quiet => exact List.prefix_rfl
  | arrive b c wire rest empty front => simp
  | input b i effect => simp

/-- What is on the network stays on record. -/
theorem Delivered.next {e : NetworkTestEvent} {b : NetworkAddress} {m : Mail}
    (h : s.Delivered b m) (step : (networkTestMachine drops).next e s = some s') :
    s'.Delivered b m := by
  obtain ⟨c, called, kept, mail⟩ := h
  rcases (postPart drops).step e s s' step with stays | ⟨d, moves⟩
  · refine ⟨c, ?_, kept, mail⟩
    change s'.post = s.post at stays
    rw [stays]
    exact called
  · exact ⟨c, (post_calls moves b).subset called, kept, mail⟩

/-- The messages that a step of the test received. -/
theorem testStep_received {a : NetworkAddress} {heap wireHeap : Buf}
    (step : s.testStep drops a heap wireHeap = some (.ok s')) :
    ∃ pc, s'.pc = Function.update s.pc a pc ∧
      (pc.first? = (s.pc a).first? ∨ (s.pc a).first? = none ∧ pc.first? = s.received a 0) ∧
      (pc.second? = (s.pc a).second? ∨ (s.pc a).first? ≠ none ∧ pc.second? = s.received a 1) := by
  unfold testStep at step
  split at step
  next at_a =>
    obtain ⟨-, step⟩ := Option.ite_none_right_eq_some.mp step
    obtain ⟨post, -, rfl⟩ := call_eq_ok.mp step
    exact ⟨_, rfl, .inl (by simp [at_a, Pc.first?]), .inl (by simp [at_a, Pc.second?])⟩
  next at_a =>
    obtain ⟨-, step⟩ := Option.ite_none_right_eq_some.mp step
    obtain ⟨post, -, rfl⟩ := call_eq_ok.mp step
    exact ⟨_, rfl, .inl (by simp [at_a, Pc.first?]), .inl (by simp [at_a, Pc.second?])⟩
  next at_a =>
    obtain ⟨first, got, step⟩ := Option.bind_eq_some_iff.mp step
    obtain ⟨post, -, rfl⟩ := call_eq_ok.mp step
    exact ⟨_, rfl, .inr ⟨by simp [at_a, Pc.first?], got.symm⟩, .inl (by simp [at_a, Pc.second?])⟩
  next first at_a =>
    obtain ⟨-, step⟩ := Option.ite_none_right_eq_some.mp step
    obtain ⟨post, -, rfl⟩ := call_eq_ok.mp step
    exact ⟨_, rfl, .inl (by simp [at_a, Pc.first?]), .inl (by simp [at_a, Pc.second?])⟩
  next first at_a =>
    obtain ⟨second, got, step⟩ := Option.map_eq_some_iff.mp step
    cases step
    exact ⟨_, rfl, .inl (by simp [at_a, Pc.first?]),
      .inr ⟨by simp [at_a, Pc.first?], got.symm⟩⟩
  next => cases step

/-- A machine that is past its first `Receive` stays so. -/
theorem first?_ne_none {e : NetworkTestEvent} (step : s.next drops e = some s')
    {b : NetworkAddress} (past : (s.pc b).first? ≠ none) : (s'.pc b).first? ≠ none := by
  cases e with
  | post e =>
    obtain ⟨-, post, -, rfl⟩ := next_post_eq_some.mp step
    exact past
  | test a heap wireHeap =>
    obtain ⟨pc, pcs, first, -⟩ := testStep_received (next_test_eq_some.mp step)
    rw [pcs]
    by_cases hb : b = a
    · subst hb
      rw [Function.update_self]
      rcases first with same | ⟨none, -⟩
      · rwa [same]
      · exact absurd none past
    · rwa [Function.update_of_ne hb]

theorem Causal.test {a : NetworkAddress} {heap wireHeap : Buf} (h : s.Causal) (correct : s.Correct)
    (reached : (postMachine kernelBoxes Unit drops).Reachable s.post)
    (step : s.testStep drops a heap wireHeap = some (.ok s')) : s'.Causal := by
  obtain ⟨pc, pcs, first, second⟩ := testStep_received step
  have stays : ∀ {b m}, s.Delivered b m → s'.Delivered b m := by
    intro b m delivered
    have next : (networkTestMachine drops).next (.test a heap wireHeap) s = some s' :=
      next_test_eq_some.mpr step
    exact delivered.next next
  have past : ∀ b, (s.pc b).first? ≠ none → (s'.pc b).first? ≠ none := by
    intro b
    have next : s.next drops (.test a heap wireHeap) = some s' := next_test_eq_some.mpr step
    exact first?_ne_none next
  constructor
  · intro b heard
    by_cases hb : b = a
    · subst hb
      rw [pcs, Function.update_self] at heard
      rcases first with same | ⟨-, got⟩
      · exact stays (h.first b (same ▸ heard))
      · rw [got] at heard
        obtain ⟨m, got⟩ := Option.ne_none_iff_exists'.mp heard
        obtain ⟨c, machine, rfl, delivered, cases⟩ := correct.received reached got
        rw [farHost_farHost machine]
        rcases cases with ⟨-, rfl⟩ | ⟨other, -⟩
        · exact stays delivered
        · exact absurd other (by decide)
    · rw [pcs, Function.update_of_ne hb] at heard
      exact stays (h.first b heard)
  · intro b heard
    by_cases hb : b = a
    · subst hb
      rw [pcs, Function.update_self] at heard
      rcases second with same | ⟨-, got⟩
      · obtain ⟨delivered, later⟩ := h.second b (same ▸ heard)
        exact ⟨stays delivered, past _ later⟩
      · rw [got] at heard
        obtain ⟨m, got⟩ := Option.ne_none_iff_exists'.mp heard
        obtain ⟨c, machine, rfl, delivered, cases⟩ := correct.received reached got
        rw [farHost_farHost machine]
        rcases cases with ⟨other, -⟩ | ⟨-, rfl, started, sending, receiving⟩
        · exact absurd other (by decide)
        · refine ⟨stays delivered, past _ ?_⟩
          cases at_c : s.pc c with
          | start => exact absurd at_c started
          | sending => exact absurd at_c sending
          | receiving => exact absurd at_c receiving
          | acknowledging | awaiting | done => simp [Pc.first?]
    · rw [pcs, Function.update_of_ne hb] at heard
      obtain ⟨delivered, later⟩ := h.second b heard
      exact ⟨stays delivered, past _ later⟩

theorem Causal.of_reachable (h : (networkTestMachine drops).Reachable s) : s.Causal := by
  induction h with
  | @init s h =>
    constructor
    · intro a heard
      rw [h.2 a] at heard
      exact absurd rfl heard
    · intro a heard
      rw [h.2 a] at heard
      exact absurd rfl heard
  | @step s s' e before _ happens causal =>
    cases e with
    | post e =>
      have stays : ∀ {b m}, s.Delivered b m → s'.Delivered b m := by
        intro b m delivered
        exact delivered.next happens
      have pcs : s'.pc = s.pc := by
        obtain ⟨-, post, -, rfl⟩ := next_post_eq_some.mp happens
        rfl
      constructor
      · rw [pcs]
        intro a heard
        exact stays (causal.first a heard)
      · rw [pcs]
        intro a heard
        obtain ⟨delivered, later⟩ := causal.second a heard
        exact ⟨stays delivered, later⟩
    | test a heap wireHeap =>
      exact causal.test (.of_reachable before) ((postPart drops).reachable before)
        (next_test_eq_some.mp happens)

/-- What the test is about to pass to `Send`. -/
def nextSend (s : NetworkTest) (a : NetworkAddress) : Option Outgoing :=
  match s.pc a with
  | .start => some (firstMessage a)
  | .receiving => (s.received a 0).map acknowledgement
  | .sending | .acknowledging _ | .awaiting _ | .done _ _ => none

/-- No assertion on the message fails, on this machine or on the one that it goes to. -/
def Outgoing.Accepted (m : Outgoing) : Prop :=
  m.mailHdr.length.toNat ≤ MaxMailSize ∧ 0 ≤ m.mailHdr.to_.toInt ∧
    m.mailHdr.to_.toInt < kernelBoxes m.to_

theorem Correct.accepted (h : s.Correct)
    (reached : (postMachine kernelBoxes Unit drops).Reachable s.post) {a : NetworkAddress}
    {m : Outgoing} (next : s.nextSend a = some m) : m.Accepted := by
  unfold nextSend at next
  split at next
  next =>
    cases next
    change (BitVec.ofNat 32 data.length).toNat ≤ MaxMailSize ∧ (0 : Int) ≤ 0 ∧ (0 : Int) < 10
    decide
  next =>
    obtain ⟨first, got, rfl⟩ := Option.map_eq_some_iff.mp next
    rw [(h.received_mail reached got).1 rfl]
    change (BitVec.ofNat 32 ack.length).toNat ≤ MaxMailSize ∧ (0 : Int) ≤ 1 ∧ (1 : Int) < 10
    decide
  all_goals cases next

/-- A call that an assertion stops has the arguments for it. -/
theorem call_refused (reached : (postMachine kernelBoxes Unit drops).Reachable s.post)
    {a : NetworkAddress} {pc : Pc} {e : PostEvent Unit} {fault : RequestFault}
    (failed : s.call drops a pc e = some (.error fault)) : e.Refused kernelBoxes :=
  PostSystem.step_error reached (Exec.map_eq_some_error.mp failed)

/-- The test passes nothing that `Send` or `Receive` refuses. -/
theorem Correct.testStep_ne_error (h : s.Correct)
    (reached : (postMachine kernelBoxes Unit drops).Reachable s.post) {a : NetworkAddress}
    {heap wireHeap : Buf} {fault : RequestFault} :
    s.testStep drops a heap wireHeap ≠ some (.error fault) := by
  intro failed
  unfold testStep at failed
  split at failed
  next at_a =>
    obtain ⟨-, failed⟩ := Option.ite_none_right_eq_some.mp failed
    have accepted := h.accepted reached (a := a) (by unfold nextSend; rw [at_a])
    exact call_refused reached failed ⟨accepted.1, accepted.2.1⟩
  next at_a =>
    obtain ⟨-, failed⟩ := Option.ite_none_right_eq_some.mp failed
    exact call_refused reached failed (show (0 : Int) ≤ 0 ∧ (0 : Int) < 10 by decide)
  next at_a =>
    obtain ⟨first, got, failed⟩ := Option.bind_eq_some_iff.mp failed
    have accepted := h.accepted reached (a := a) (by unfold nextSend; rw [at_a, got]; rfl)
    exact call_refused reached failed ⟨accepted.1, accepted.2.1⟩
  next first at_a =>
    obtain ⟨-, failed⟩ := Option.ite_none_right_eq_some.mp failed
    exact call_refused reached failed (show (0 : Int) ≤ 1 ∧ (1 : Int) < 10 by decide)
  next first at_a =>
    obtain ⟨second, -, failed⟩ := Option.map_eq_some_iff.mp failed
    cases failed
  next => cases failed

/-- No event of the two machines ends in an assertion that fails. -/
theorem Correct.step_ne_error (h : s.Correct)
    (reached : (postMachine kernelBoxes Unit drops).Reachable s.post) {e : NetworkTestEvent}
    {fault : RequestFault} : step drops e s ≠ some (.error fault) := by
  intro failed
  cases e with
  | post e =>
    obtain ⟨inside, failed⟩ := Option.ite_none_left_eq_some.mp failed
    have refused := PostSystem.step_error reached (Exec.map_eq_some_error.mp failed)
    cases e with
    | send | receive => exact inside rfl
    | sendStep | sendInterrupt | poll | worker | receiveStep => exact refused
  | test a heap wireHeap => exact h.testStep_ne_error reached failed

/-- The lines that the test prints on a machine. -/
def greeting (a : NetworkAddress) : String :=
  "Got: Hello there! : from " ++ toString (farHost a).toInt ++ ", box 1\n"

def confirmation (a : NetworkAddress) : String :=
  "Got: Got it! : from " ++ toString (farHost a).toInt ++ ", box 1\n"

theorem got_hello {a : NetworkAddress} (machine : a = 0 ∨ a = 1) :
    got (hello (farHost a)) = greeting a := by
  rcases machine with rfl | rfl
  · decide
  · decide

theorem got_answer {a : NetworkAddress} (machine : a = 0 ∨ a = 1) :
    got (answer (farHost a)) = confirmation a := by
  rcases machine with rfl | rfl
  · decide
  · decide

/-- What holds on a machine that runs the test. -/
structure Agrees (drops : NetworkAddress → Nat → Bool) (s : NetworkTest) (a : NetworkAddress) :
    Prop where
  printed : (s.pc a).printed = "" ∨ (s.pc a).printed = greeting a ∨
    (s.pc a).printed = greeting a ++ confirmation a
  /-- The greeting that was printed is the other machine's, and was not lost. -/
  heard : (s.pc a).printed ≠ "" → s.Delivered (farHost a) (hello (farHost a))
  /-- A machine that is done knows that its own greeting was read, and acknowledged. -/
  confirmed : (∃ first second, s.pc a = .done first second) →
    s.Delivered a (hello a) ∧ s.Delivered (farHost a) (answer (farHost a)) ∧
      (s.pc (farHost a)).printed ≠ ""
  /-- Each message is sent once, the acknowledgement after the greeting. -/
  sends : (s.post a).output.calls.map (fun c => c.request.mail) <+: [hello a, answer a]
  /-- No assertion of the post offices fails, inside them or in the calls of the test. -/
  unfailing : ∀ e fault, NetworkTest.step drops e s ≠ some (.error fault)
  /-- Nor will the message that the test passes to `Send` fail one on the other machine. -/
  accepted : ∀ m, s.nextSend a = some m → m.Accepted

theorem Correct.printed (h : s.Correct) {a : NetworkAddress} (machine : a = 0 ∨ a = 1) :
    (s.pc a).printed = match s.pc a with
      | .start | .sending | .receiving => ""
      | .acknowledging _ | .awaiting _ => greeting a
      | .done _ _ => greeting a ++ confirmation a := by
  have heard := h.heard a
  cases at_a : s.pc a with
  | start | sending | receiving => rfl
  | acknowledging first | awaiting first =>
    rw [at_a] at heard
    cases heard
    exact got_hello machine
  | done first second =>
    rw [at_a] at heard
    obtain ⟨rfl, rfl⟩ := heard
    change got _ ++ got _ = _
    rw [got_hello machine, got_answer machine]

theorem printed_first {pc : Pc} (printed : pc.printed ≠ "") : pc.first? ≠ none := by
  cases pc with
  | start | sending | receiving => exact absurd rfl printed
  | acknowledging | awaiting | done => simp [Pc.first?]

theorem Correct.first_printed (h : s.Correct) {a : NetworkAddress} (machine : a = 0 ∨ a = 1)
    (first : (s.pc a).first? ≠ none) : (s.pc a).printed ≠ "" := by
  rw [h.printed machine]
  have some : greeting a ≠ "" ∧ greeting a ++ confirmation a ≠ "" := by
    rcases machine with rfl | rfl
    · decide
    · decide
  cases at_a : s.pc a with
  | start | sending | receiving => simp [at_a, Pc.first?] at first
  | acknowledging | awaiting => exact some.1
  | done => exact some.2

theorem Correct.sends (h : s.Correct) (a : NetworkAddress) :
    (s.post a).output.calls.map (fun c => c.request.mail) <+: [hello a, answer a] := by
  have outgoing := h.outgoing a
  have heard := h.heard a
  have early : (s.post a).output.calls.map (fun c => c.request.mail) <+: (s.pc a).outgoing a := by
    rw [← outgoing]
    exact List.prefix_append _ _
  refine early.trans ?_
  cases at_a : s.pc a with
  | start => simp [Pc.outgoing]
  | sending | receiving => simp [Pc.outgoing]
  | acknowledging first | awaiting first =>
    rw [at_a] at heard
    cases heard
    exact List.prefix_rfl
  | done first second =>
    rw [at_a] at heard
    cases heard.1
    exact List.prefix_rfl

end NetworkTest

/-- In every interleaving of the two machines, their post offices and interrupts,
whatever packets are lost. -/
theorem network_test_agrees (drops : NetworkAddress → Nat → Bool) (s : NetworkTest)
    (reached : (networkTestMachine drops).Reachable s) (a : NetworkAddress)
    (machine : a = 0 ∨ a = 1) : s.Agrees drops a := by
  have correct := NetworkTest.Correct.of_reachable reached
  have causal := NetworkTest.Causal.of_reachable reached
  have posts := (NetworkTest.postPart drops).reachable reached
  have far : NetworkTest.farHost a = 0 ∨ NetworkTest.farHost a = 1 := by
    rcases machine with rfl | rfl
    · exact .inr rfl
    · exact .inl rfl
  exact {
    printed := by
      rw [correct.printed machine]
      split
      · exact .inl rfl
      · exact .inl rfl
      · exact .inl rfl
      · exact .inr (.inl rfl)
      · exact .inr (.inl rfl)
      · exact .inr (.inr rfl)
    heard := fun printed => causal.first a (NetworkTest.printed_first printed)
    confirmed := by
      intro ⟨first, second, at_a⟩
      obtain ⟨delivered, heard⟩ := causal.second a (by simp [at_a, NetworkTest.Pc.second?])
      have own := causal.first _ heard
      rw [NetworkTest.farHost_farHost machine] at own
      exact ⟨own, delivered, correct.first_printed far heard⟩
    sends := correct.sends a
    unfailing := fun e fault => correct.step_ne_error posts
    accepted := fun m => correct.accepted posts }

/-- A call of `Send` on `a` from its beginning to its return, as request number `serial`. -/
def testSend (a : NetworkAddress) (serial : Nat) : List NetworkTestEvent :=
  .test a (fun _ => 0) (fun _ => 0) :: List.replicate 3 (.post (.sendStep a ())) ++
    .post (.sendInterrupt a serial) :: List.replicate 4 (.post (.sendStep a ()))

/-- A packet from `b` is put in its box on `a`. -/
def testDelivery (a b : NetworkAddress) : List NetworkTestEvent :=
  [.post (.worker a), .post (.poll a (some b))] ++ List.replicate 9 (.post (.worker a))

/-- A call of `Receive` on `a`. -/
def testReceive (a : NetworkAddress) : List NetworkTestEvent :=
  .test a (fun _ => 0) (fun _ => 0) :: List.replicate 6 (.post (.receiveStep a ()))

/-- Machine 0 finishes the test. -/
def testRun : List NetworkTestEvent :=
  testSend 0 0 ++ testSend 1 0 ++ testDelivery 1 0 ++ testReceive 1 ++ testSend 1 1 ++
    testDelivery 0 1 ++ testReceive 0 ++ testSend 0 1 ++ testDelivery 0 1 ++ testReceive 0 ++
    [.test 0 (fun _ => 0) (fun _ => 0)]

def testStart : NetworkTest where
  post := fun _ => ⟨.initial ⟨0, []⟩, .initial (fun _ => 0) (fun _ => 0)⟩
  pc := fun _ => .start

theorem network_test_agrees_done :
    ∃ s, (networkTestMachine fun _ _ => false).run testRun testStart = some s ∧
      (s.pc 0).printed = NetworkTest.greeting 0 ++ NetworkTest.confirmation 0 ∧
      (s.pc 1).printed = NetworkTest.greeting 1 ∧ s.Agrees (fun _ _ => false) 0 := by
  have replay : ((networkTestMachine fun _ _ => false).run testRun testStart).map
      (fun s => ((s.pc 0).printed, (s.pc 1).printed)) =
      some (NetworkTest.greeting 0 ++ NetworkTest.confirmation 0, NetworkTest.greeting 1) := by
    decide +kernel
  obtain ⟨s, hs, view⟩ := Option.map_eq_some_iff.mp replay
  obtain ⟨first, second⟩ := Prod.mk.inj view
  have start : (networkTestMachine fun _ _ => false).Reachable testStart :=
    .init ⟨fun _ => ⟨_, _, rfl⟩, fun _ => rfl⟩
  exact ⟨s, hs, first, second,
    network_test_agrees _ s (start.run testRun hs) 0 (.inl rfl)⟩

end NachOS.Network
