import NachOS.Network.NetworkTest
import NachOS.Threads.Progress

/-!
# The network test completes

When no packet is lost, the two machines do not wait for each other forever: as long as one
of them is not done, some part of the two machines can go on. The locks, condition variables
and lists between the calls of the test are those of the post office, and what is shown of
them (nobody is forgotten) is put together here.

The first part follows the calls of the main thread on the receiving side.
-/
namespace NachOS.Network
open NachOS.Lib NachOS.Threads

/-- The machine on which an event happens. -/
def PostEvent.machine {Thread : Type} : PostEvent Thread → NetworkAddress
  | .send a _ _ _ _ _ _ | .sendStep a _ | .sendInterrupt a _ | .poll a _ | .worker a
  | .receive a _ _ | .receiveStep a _ => a

def NetworkTestEvent.machine : NetworkTestEvent → NetworkAddress
  | .post e => e.machine
  | .test a _ _ => a

namespace NetworkTest

/-- The receiving side of a machine that only the main thread reads from. -/
abbrev Receiver := PostInput Unit

/-- How often `Receive` was called on the box. -/
def asked (i : Receiver) (box : MailBoxAddress) : Nat :=
  (i.returned box).length + if (i.pc ()).box = some box then 1 else 0

/-- The main thread is in the code of no other box than the one it reads. -/
def Elsewhere (i : Receiver) : Prop :=
  ∀ box, (i.pc ()).box ≠ some box →
    (i.boxes box).pc (some ()) = .idle ∧ (i.boxes box).listEmpty.AtRest (some ())

/-- What a step inside the post office keeps of the main thread's calls. -/
structure Inside (i i' : Receiver) : Prop where
  asked : ∀ box, asked i' box = asked i box
  elsewhere : Elsewhere i → Elsewhere i'
  idle : i.pc () = .idle → i'.pc () = .idle

variable {i i' : Receiver}

theorem Inside.refl (i : Receiver) : Inside i i :=
  ⟨fun _ => rfl, id, id⟩

/-- A step of the worker on one box, or of the interrupt. -/
theorem Inside.worker (pc : i'.pc = i.pc) (returned : i'.returned = i.returned)
    (boxes : ∀ box, (i'.boxes box).pc (some ()) = (i.boxes box).pc (some ()) ∧
      ((i'.boxes box).listEmpty.AtRest (some ()) ↔ (i.boxes box).listEmpty.AtRest (some ()))) :
    Inside i i' := by
  constructor
  · intro box
    unfold NetworkTest.asked
    rw [pc, returned]
  · intro elsewhere box other
    rw [pc] at other
    obtain ⟨idle, rest⟩ := elsewhere box other
    exact ⟨(boxes box).1.trans idle, (boxes box).2.mpr rest⟩
  · rw [pc]
    exact id

/-- The worker changes one box. -/
theorem Inside.setBox {box : MailBoxAddress} {messages : SynchState (Option Unit) Letter}
    (others : SynchState.SameFor none (i.boxes box) messages) (pc : i'.pc = i.pc)
    (returned : i'.returned = i.returned)
    (boxes : i'.boxes = Function.update i.boxes box messages) : Inside i i' := by
  apply Inside.worker pc returned
  intro b
  rw [boxes]
  by_cases hb : b = box
  · subst hb
    rw [Function.update_self]
    exact others (some ()) (by simp)
  · rw [Function.update_of_ne hb]
    exact ⟨rfl, .rfl⟩

theorem workerStep_inside {nBoxes : Int} (h : i.workerStep nBoxes = some (.ok i')) :
    Inside i i' := by
  unfold PostInput.workerStep at h
  split at h
  next =>
    obtain ⟨sem, _, h⟩ := Option.map_eq_some_iff.mp h
    cases h
    exact .worker rfl rfl (fun _ => ⟨rfl, .rfl⟩)
  next =>
    cases h
    exact .worker rfl rfl (fun _ => ⟨rfl, .rfl⟩)
  next pktHdr worker =>
    simp only at h
    split at h
    next =>
      obtain ⟨messages, step, h⟩ := Option.map_eq_some_iff.mp h
      cases h
      exact .setBox (SynchState.append_enters step).others rfl rfl rfl
    next => cases h
  next box worker =>
    split at h
    next =>
      cases h
      exact .worker rfl rfl (fun _ => ⟨rfl, .rfl⟩)
    next =>
      obtain ⟨messages, step, h⟩ := Option.map_eq_some_iff.mp h
      cases h
      exact .setBox (SynchState.step_progress step).2 rfl rfl rfl

theorem handedOver_box {before after : SynchState (Option Unit) Letter} {box : MailBoxAddress}
    {pc : ReceivePc} (at_box : pc.box = some box) :
    (PostInput.handedOver before after () box pc).box = some box := by
  unfold PostInput.handedOver
  split
  next => rfl
  next => exact at_box

theorem getStep_inside {box : MailBoxAddress} (at_box : (i.pc ()).box = some box)
    (h : i.getStep () box = some (.ok i')) : Inside i i' := by
  obtain ⟨messages, step, h⟩ := Option.map_eq_some_iff.mp h
  cases h
  have same : ((i.got () box messages).pc ()).box = some box := by
    simp only [PostInput.got, Function.update_self]
    exact handedOver_box at_box
  constructor
  · intro b
    unfold NetworkTest.asked
    rw [same, at_box]
    rfl
  · intro elsewhere b other
    rw [same] at other
    have hb : b ≠ box := by
      rintro rfl
      exact other rfl
    have before := elsewhere b (by rwa [at_box])
    simpa only [PostInput.got, PostInput.setBox, Function.update_of_ne hb] using before
  · intro idle
    rw [idle] at at_box
    cases at_box

theorem receiveStep_inside (h : i.receiveStep () = some (.ok i')) : Inside i i' := by
  unfold PostInput.receiveStep at h
  split at h
  next => cases h
  next box pc => exact getStep_inside (by simp [pc, ReceivePc.box]) h
  next box position letter pc =>
    split at h
    next rest =>
      split at h
      next =>
        cases h
        constructor
        · intro b
          unfold NetworkTest.asked PostInput.returns
          by_cases hb : b = box
          · subst hb
            simp [pc, ReceivePc.box]
          · simp [pc, ReceivePc.box, hb, Ne.symm hb]
        · intro elsewhere b _
          by_cases hb : b = box
          · subst hb
            exact rest
          · apply elsewhere b
            simpa [pc, ReceivePc.box] using Ne.symm hb
        · intro idle
          cases idle.symm.trans pc
      next => cases h
    next => exact getStep_inside (by simp [pc, ReceivePc.box]) h

/-- A call of `Receive`. -/
theorem receive_asked {nBoxes : Int} {box : MailBoxAddress} (idle : i.pc () = .idle)
    (elsewhere : Elsewhere i) (h : i.receive nBoxes () box = some (.ok i')) :
    (∀ b, asked i' b = asked i b + if b = box then 1 else 0) ∧ Elsewhere i' := by
  unfold PostInput.receive at h
  split at h
  next =>
    obtain ⟨messages, _, h⟩ := Option.map_eq_some_iff.mp h
    cases h
    constructor
    · intro b
      by_cases hb : b = box
      · subst hb
        simp [NetworkTest.asked, PostInput.setBox, idle, ReceivePc.box]
      · simp [NetworkTest.asked, PostInput.setBox, idle, ReceivePc.box, hb, Ne.symm hb]
    · intro b other
      have hb : b ≠ box := by
        rintro rfl
        simp [ReceivePc.box] at other
      have before := elsewhere b (by simp [idle, ReceivePc.box])
      simpa only [PostInput.setBox, Function.update_of_ne hb] using before
  next => cases h

/-- How often the test has called `Receive` on the box. -/
def Pc.asks (box : MailBoxAddress) : Pc → Nat
  | start | sending => 0
  | receiving | acknowledging _ => if box = 0 then 1 else 0
  | awaiting _ | done _ _ => if box = 0 ∨ box = 1 then 1 else 0

/-- The test is in a call of `Receive`. -/
def Pc.Reads : Pc → Prop
  | receiving | awaiting _ => True
  | start | sending | acknowledging _ | done _ _ => False

/-- The calls of `Receive` of each main thread. -/
structure Reading (s : NetworkTest) : Prop where
  elsewhere : ∀ a, Elsewhere (s.post a).input
  asked : ∀ a box, asked (s.post a).input box = (s.pc a).asks box
  idle : ∀ a, ¬ (s.pc a).Reads → (s.post a).input.pc () = .idle

variable {drops : NetworkAddress → Nat → Bool} {s s' : NetworkTest}

/-- A step of the receiving side of `b`, seen from `a`. -/
theorem inputStep_inside {post : PostSystem kernelBoxes Unit} {b : NetworkAddress}
    {result : Option (Except RequestFault Receiver)}
    (inside : ∀ i, result = some (.ok i) → Inside (s.post b).input i)
    (h : s.post.inputStep b result = some (.ok post)) (a : NetworkAddress) :
    Inside (s.post a).input (post a).input := by
  obtain ⟨i, eq, rfl⟩ := PostSystem.inputStep_ok h
  by_cases ha : a = b
  · subst ha
    simpa [PostSystem.setInput] using inside i eq
  · simp only [PostSystem.setInput, Function.update_of_ne ha]
    exact .refl _

theorem outputStep_inside {post : PostSystem kernelBoxes Unit} {b : NetworkAddress}
    {e : DriverEvent Unit (SendRequest kernelBoxes)}
    (h : s.post.outputStep drops b e = some (.ok post)) (a : NetworkAddress) :
    (post a).input = (s.post a).input := by
  obtain ⟨outcome, _, h⟩ := Option.map_eq_some_iff.mp h
  cases outcome with
  | error fault => cases h
  | ok out =>
    cases h
    exact PostSystem.setOutput_input

theorem poll_inside {hostName : NetworkAddress} {socket : NetworkAddress → List Buf}
    {sender : Option NetworkAddress} (h : i.poll hostName socket sender = some (.ok i')) :
    Inside i i' := by
  unfold PostInput.poll at h
  split at h
  next =>
    cases h
    exact .refl _
  next =>
    split at h
    next =>
      cases h
      exact .refl _
    next =>
      split at h
      next => cases h
      next =>
        simp only at h
        split at h
        next =>
          cases h
          exact .worker rfl rfl (fun _ => ⟨rfl, .rfl⟩)
        next => cases h

theorem post_inside {e : PostEvent Unit} {post : PostSystem kernelBoxes Unit}
    (inside : e.calls = false)
    (h : (postMachine kernelBoxes Unit drops).next e s.post = some post) (a : NetworkAddress) :
    Inside (s.post a).input (post a).input := by
  have step := Exec.bind_toOption_eq_some.mp h
  cases e with
  | send => cases inside
  | receive => cases inside
  | sendStep b t =>
    rw [outputStep_inside step a]
    exact .refl _
  | sendInterrupt b serial =>
    rw [outputStep_inside step a]
    exact .refl _
  | poll b sender => exact inputStep_inside (fun i => poll_inside) step a
  | worker b => exact inputStep_inside (fun i => workerStep_inside) step a
  | receiveStep b t => exact inputStep_inside (fun i => receiveStep_inside) step a

theorem Reading.inside (h : s.Reading) {post : PostSystem kernelBoxes Unit}
    (inside : ∀ a, Inside (s.post a).input (post a).input) :
    Reading { s with post } := by
  constructor
  · intro a
    exact (inside a).elsewhere (h.elsewhere a)
  · intro a box
    exact ((inside a).asked box).trans (h.asked a box)
  · intro a quiet
    exact (inside a).idle (h.idle a quiet)

/-- The test went on on `a`, where the receiving side is now as its new place says. -/
theorem Reading.moved (h : s.Reading) {a : NetworkAddress} {pc : Pc}
    (pcs : s'.pc = Function.update s.pc a pc)
    (others : ∀ b, b ≠ a → (s'.post b).input = (s.post b).input)
    (elsewhere : Elsewhere (s'.post a).input)
    (asked : ∀ box, NetworkTest.asked (s'.post a).input box = pc.asks box)
    (idle : ¬ pc.Reads → (s'.post a).input.pc () = .idle) : s'.Reading := by
  constructor
  · intro b
    by_cases hb : b = a
    · subst hb
      exact elsewhere
    · rw [others b hb]
      exact h.elsewhere b
  · intro b box
    rw [pcs]
    by_cases hb : b = a
    · subst hb
      rw [Function.update_self]
      exact asked box
    · rw [Function.update_of_ne hb, others b hb]
      exact h.asked b box
  · intro b
    rw [pcs]
    by_cases hb : b = a
    · subst hb
      rw [Function.update_self]
      exact idle
    · rw [Function.update_of_ne hb, others b hb]
      exact h.idle b

theorem Reading.send (h : s.Reading) {a : NetworkAddress} {m : Outgoing} {heap wireHeap : Buf}
    {pc : Pc} (asks : ∀ box, pc.asks box = (s.pc a).asks box)
    (sent : s.send drops a m heap wireHeap pc = some (.ok s')) : s'.Reading := by
  obtain ⟨post, step, rfl⟩ := call_eq_ok.mp sent
  have step := Exec.bind_toOption_eq_some.mp step
  simp only [PostSystem.step] at step
  split at step
  next idle =>
    split at step
    next =>
      split at step
      next =>
        have same := outputStep_inside step
        apply h.moved rfl
        · intro b _
          exact same b
        · rw [same a]
          exact h.elsewhere a
        · intro box
          rw [same a, asks]
          exact h.asked a box
        · intro _
          rw [same a]
          exact idle
      next => cases step
    next => cases step
  next => cases step

theorem Reading.receive (h : s.Reading) {a : NetworkAddress} {box : MailBoxAddress} {pc : Pc}
    (asks : ∀ b, pc.asks b = (s.pc a).asks b + if b = box then 1 else 0)
    (called : s.receive drops a box pc = some (.ok s')) (reads : pc.Reads) : s'.Reading := by
  obtain ⟨post, step, rfl⟩ := call_eq_ok.mp called
  have step := Exec.bind_toOption_eq_some.mp step
  simp only [PostSystem.step] at step
  split at step
  next _ _ _ idle =>
    obtain ⟨i, received, rfl⟩ := PostSystem.inputStep_ok step
    obtain ⟨counts, elsewhere⟩ := receive_asked idle (h.elsewhere a) received
    apply h.moved rfl
    · intro b other
      simp only [PostSystem.setInput, Function.update_of_ne other]
    · simpa [PostSystem.setInput] using elsewhere
    · intro b
      simp only [PostSystem.setInput, Function.update_self]
      rw [counts, asks, h.asked]
    · intro other
      exact absurd reads other
  next => cases step

theorem Reading.test (h : s.Reading) {a : NetworkAddress} {heap wireHeap : Buf}
    (step : s.testStep drops a heap wireHeap = some (.ok s')) : s'.Reading := by
  unfold testStep at step
  split at step
  next at_a =>
    obtain ⟨-, step⟩ := Option.ite_none_right_eq_some.mp step
    exact h.send (by simp [at_a, Pc.asks]) step
  next at_a =>
    obtain ⟨-, step⟩ := Option.ite_none_right_eq_some.mp step
    exact h.receive (by simp [at_a, Pc.asks]) step trivial
  next at_a =>
    obtain ⟨first, -, step⟩ := Option.bind_eq_some_iff.mp step
    exact h.send (by simp [at_a, Pc.asks]) step
  next first at_a =>
    obtain ⟨-, step⟩ := Option.ite_none_right_eq_some.mp step
    refine h.receive ?_ step trivial
    intro b
    rw [at_a]
    change (if b = 0 ∨ b = 1 then 1 else 0) = (if b = 0 then 1 else 0) + if b = 1 then 1 else 0
    by_cases zero : b = 0
    · subst zero
      decide
    · simp only [zero, false_or, if_false, zero_add]
  next first at_a =>
    obtain ⟨second, got, step⟩ := Option.map_eq_some_iff.mp step
    cases step
    apply h.moved rfl
    · intro b _
      rfl
    · exact h.elsewhere a
    · intro box
      rw [h.asked, at_a]
      rfl
    · intro _
      exact (Option.ite_none_right_eq_some.mp got).1
  next => cases step

theorem Reading.of_reachable (h : (networkTestMachine drops).Reachable s) : s.Reading := by
  induction h with
  | @init s h =>
    obtain ⟨posts, start⟩ := h
    constructor
    · intro a box _
      obtain ⟨inbox, buffer, ha⟩ := posts a
      rw [ha]
      exact ⟨rfl, rfl, rfl⟩
    · intro a box
      obtain ⟨inbox, buffer, ha⟩ := posts a
      rw [start a, ha]
      rfl
    · intro a _
      obtain ⟨inbox, buffer, ha⟩ := posts a
      rw [ha]
      rfl
  | @step s s' e _ _ happens reading =>
    cases e with
    | post e =>
      obtain ⟨inside, post, made, rfl⟩ := next_post_eq_some.mp happens
      exact reading.inside (post_inside inside made)
    | test a heap wireHeap => exact reading.test (next_test_eq_some.mp happens)

/-- Anything but a poll that finds nothing, or the worker going to sleep for lack of a packet. -/
def Useful (s : NetworkTest) : NetworkTestEvent → Prop
  | .post (.poll b sender) => (s.post b).input.inDevice = [] ∧ sender ≠ none
  | .post (.worker b) => (s.post b).input.worker ≠ .waiting ∨ (s.post b).input.inDevice ≠ []
  | .post (.send ..) | .post (.sendStep ..) | .post (.sendInterrupt ..) | .post (.receive ..)
  | .post (.receiveStep ..) | .test .. => True

/-- Nothing on the machine can go on. -/
def Stuck (drops : NetworkAddress → Nat → Bool) (s : NetworkTest) (b : NetworkAddress) : Prop :=
  ∀ e s', e.machine = b → s.Useful e → s.next drops e ≠ some s'

section Stuck

variable {b : NetworkAddress}

/-- A step inside the post office that can be taken. -/
theorem Stuck.post (h : s.Stuck drops b) (e : PostEvent Unit) (post : PostSystem kernelBoxes Unit)
    (here : e.machine = b) (useful : s.Useful (.post e)) (inside : e.calls = false)
    (step : PostSystem.step drops e s.post = some (.ok post)) : False := by
  refine h (.post e) { s with post } here useful (next_post_eq_some.mpr ⟨inside, post, ?_, rfl⟩)
  exact Exec.bind_toOption_eq_some.mpr step

theorem Stuck.output (h : s.Stuck drops b)
    (reached : (postMachine kernelBoxes Unit drops).Reachable s.post) :
    (s.post b).output.pc () = .idle := by
  have inv := PostInvariant.of_reachable reached
  have driver : (sendMachine kernelBoxes Unit (drops b) b).Reachable (s.post b).output :=
    (postOutput kernelBoxes Unit drops b).reachable reached
  apply Driver.stuck_idle driver
  · intro t request pc
    have own := inv.named b t request pc
    rw [← own]
    exact NetworkOutput.send_ne_none
  · intro t d' step
    apply h.post (.sendStep b t) (s.post.setOutput b d') rfl trivial rfl
    simp only [PostSystem.step, PostSystem.outputStep, step]
    rfl
  · by_contra pending
    obtain ⟨serial, rest, pending⟩ := List.exists_cons_of_ne_nil pending
    apply h.post (.sendInterrupt b serial) (s.post.setOutput b
      { (s.post b).output with exchange := (s.post b).output.exchange.interrupted serial })
      rfl trivial rfl
    simp only [PostSystem.step, PostSystem.outputStep, Driver.step, Exchange.interrupt, pending,
      List.mem_cons_self, if_true]
    rfl

/-- Nobody takes a step in the code of a mailbox. -/
theorem Stuck.main (h : s.Stuck drops b) (elsewhere : Elsewhere (s.post b).input)
    (box : MailBoxAddress) :
    SynchState.next (.step (some ())) ((s.post b).input.boxes box) = none := by
  by_contra step
  obtain ⟨messages, step⟩ := Option.ne_none_iff_exists'.mp step
  have got : (s.post b).input.getStep () box =
      some (.ok ((s.post b).input.got () box messages)) := by
    simp only [PostInput.getStep, step]
    rfl
  have here : ((s.post b).input.pc ()).box = some box := by
    by_contra other
    obtain ⟨idle, rest⟩ := elsewhere box other
    simp [SynchState.next, rest, SynchState.body, idle] at step
  have active : ¬ (((s.post b).input.boxes box).pc (some ()) = .idle ∧
      ((s.post b).input.boxes box).listEmpty.AtRest (some ())) := by
    rintro ⟨idle, rest⟩
    simp [SynchState.next, rest, SynchState.body, idle] at step
  have receives : (s.post b).input.receiveStep () =
      some (.ok ((s.post b).input.got () box messages)) := by
    rcases ReceivePc.box_eq_some here with pc | ⟨position, letter, pc⟩
    · simp only [PostInput.receiveStep, pc, got]
    · simp only [PostInput.receiveStep, pc, if_neg active, got]
  apply h.post (.receiveStep b ())
    (s.post.setInput b ((s.post b).input.got () box messages)) rfl trivial rfl
  simp only [PostSystem.step, PostSystem.inputStep, receives]
  rfl

theorem Stuck.worker (h : s.Stuck drops b)
    (reached : (postMachine kernelBoxes Unit drops).Reachable s.post) (box : MailBoxAddress) :
    SynchState.next (.step none) ((s.post b).input.boxes box) = none := by
  have delivery := (PostInvariant.of_reachable reached).delivery b
  by_contra step
  obtain ⟨messages, step⟩ := Option.ne_none_iff_exists'.mp step
  have active : ¬ (((s.post b).input.boxes box).pc none = .idle ∧
      ((s.post b).input.boxes box).listEmpty.AtRest none) := by
    rintro ⟨idle, rest⟩
    simp [SynchState.next, rest, SynchState.body, idle] at step
  have putting : (s.post b).input.worker = .putting box := by
    by_contra other
    exact active (delivery.resting box other)
  apply h.post (.worker b) (s.post.setInput b ((s.post b).input.setBox box messages))
    rfl (.inl (by simp [putting])) rfl
  simp only [PostSystem.step, PostSystem.inputStep, PostInput.workerStep, putting, if_neg active,
    step]
  rfl

/-- Whoever is in the code of a mailbox waits there for a message, and there is none. -/
theorem Stuck.asleep (h : s.Stuck drops b) (elsewhere : Elsewhere (s.post b).input)
    (reached : (postMachine kernelBoxes Unit drops).Reachable s.post) {box : MailBoxAddress}
    {u : Option Unit} (busy : ((s.post b).input.boxes box).Busy u) :
    ((s.post b).input.boxes box).list = [] ∧
      ((s.post b).input.boxes box).pc u = .removeTest := by
  have inv := PostInvariant.of_reachable reached
  have boxed := (postBox kernelBoxes Unit drops b box).reachable reached
  have order : ((s.post b).input.boxes box).appended = _ ++ _ :=
    (SynchInvariant.of_reachable boxed).order
  have fresh : ∀ t letter, ((s.post b).input.boxes box).pc t = .appendPut letter →
      letter ∉ ((s.post b).input.boxes box).list := by
    intro t letter pc listed
    cases t with
    | none =>
      apply (inv.delivery b).unlisted pc
      rw [order]
      exact List.mem_append_right _ listed
    | some t =>
      have removes := (inv.receiving b).receivers box t
      rw [pc] at removes
      cases removes
  have stuck : ∀ t, SynchState.next (.step t) ((s.post b).input.boxes box) = none := by
    intro t
    cases t with
    | none => exact h.worker reached box
    | some t => exact h.main elsewhere box
  exact ⟨SynchState.stuck_empty boxed fresh stuck busy,
    (SynchState.stuck_asleep boxed fresh stuck busy).1⟩

theorem Stuck.outside (h : s.Stuck drops b) (elsewhere : Elsewhere (s.post b).input)
    (reached : (postMachine kernelBoxes Unit drops).Reachable s.post) (box : MailBoxAddress) :
    (s.post b).input.worker ≠ .putting box := by
  have delivery := (PostInvariant.of_reachable reached).delivery b
  intro putting
  by_cases rest : ((s.post b).input.boxes box).pc none = .idle ∧
      ((s.post b).input.boxes box).listEmpty.AtRest none
  · apply h.post (.worker b)
      (s.post.setInput b { (s.post b).input with worker := .waiting })
      rfl (.inl (by simp [putting])) rfl
    simp only [PostSystem.step, PostSystem.inputStep, PostInput.workerStep, putting, if_pos rest]
    rfl
  · have busy : ((s.post b).input.boxes box).Busy none := by
      unfold SynchState.Busy
      by_contra quiet
      push Not at quiet
      exact rest quiet
    have appends := delivery.worker box
    rw [(h.asleep elsewhere reached busy).2] at appends
    cases appends

/-- Nothing is between the device and the boxes. -/
theorem Stuck.transit (h : s.Stuck drops b) (elsewhere : Elsewhere (s.post b).input)
    (reached : (postMachine kernelBoxes Unit drops).Reachable s.post) :
    (s.post b).input.inTransit = [] := by
  by_contra transit
  obtain ⟨i, step, -⟩ := PostSystem.worker_moves reached transit (h.outside elsewhere reached)
  apply h.post (.worker b) (s.post.setInput b i) rfl ?_ rfl
  · simp only [PostSystem.step, PostSystem.inputStep, step]
    rfl
  · change _ ∨ _
    by_contra idle
    push Not at idle
    exact transit (by simp [PostInput.inTransit, PostInput.withWorker, idle.1, idle.2])

/-- Nothing is in the socket. -/
theorem Stuck.socket (h : s.Stuck drops b) (elsewhere : Elsewhere (s.post b).input)
    (reached : (postMachine kernelBoxes Unit drops).Reachable s.post) (a : NetworkAddress) :
    s.post.socket a b = [] := by
  have transit := h.transit elsewhere reached
  have device : (s.post b).input.inDevice = [] := (List.append_eq_nil_iff.mp transit).2
  have length : (s.post b).input.inHdr.length.toNat = 0 := by
    by_contra full
    simp [PostInput.inDevice, full] at device
  by_contra waiting
  obtain ⟨wire, rest, front⟩ := List.exists_cons_of_ne_nil waiting
  have polled : ∃ i, (s.post b).input.poll b (fun a => s.post.socket a b) (some a) =
      some (.ok i) := by
    cases outcome : (s.post b).input.poll b (fun a => s.post.socket a b) (some a) with
    | none =>
      simp only [PostInput.poll, length, not_true, if_false, ne_eq, front] at outcome
      split at outcome
      · cases outcome
      · cases outcome
    | some outcome' =>
      cases outcome' with
      | ok i => exact ⟨i, rfl⟩
      | error fault => exact absurd outcome (PostSystem.poll_ne_error reached)
  obtain ⟨i, polled⟩ := polled
  apply h.post (.poll b (some a)) (s.post.setInput b i) rfl ⟨device, by simp⟩ rfl
  simp only [PostSystem.step, PostSystem.inputStep, polled]
  rfl

/-- Everything that was put on the network for the machine has been put in a box. -/
theorem Stuck.delivered (h : s.Stuck drops b) (elsewhere : Elsewhere (s.post b).input)
    (reached : (postMachine kernelBoxes Unit drops).Reachable s.post) {a : NetworkAddress}
    {r : SendRequest kernelBoxes} (sent : r ∈ s.post.network a b) :
    r.mail ∈ ((s.post b).input.boxes r.mailHdr.to_).appended.map Letter.mail := by
  have inv := PostInvariant.of_reachable reached
  have driver := (DriverInvariant.of_reachable
    ((postOutput kernelBoxes Unit drops a).reachable reached)).1
  obtain ⟨wires, -⟩ := NetworkOutput.performs_wires driver.performs
  have lengths : ((s.post a).output.device.wires.filter (·.1 = b)).length =
      (s.post.network a b).length := by
    have output : (s.post a).output.device.wires = ((s.post a).output.calls.filter (·.reply)).map
        (fun c => (c.request.to_, c.request.wire)) := wires
    unfold PostSystem.network
    rw [output, List.filter_map, List.filter_filter, List.length_map, List.length_map]
    simp
  have taken : (s.post.network a b).length ≤ (s.post b).input.taken a := by
    have empty := h.socket elsewhere reached a
    unfold PostSystem.socket at empty
    rw [← lengths]
    exact List.drop_eq_nil_iff.mp (List.map_eq_nil_iff.mp empty)
  have order := (inv.order a b).2
  rw [List.take_of_length_le taken] at order
  have read : r.mail ∈ (s.post b).input.read := by
    have member : r.mail ∈ (s.post.network a b).map SendRequest.mail := List.mem_map_of_mem sent
    rw [← order] at member
    exact List.mem_of_mem_filter member
  have boxed : r.mail ∈ (s.post b).input.read.filter (·.mailHdr.to_ = r.mailHdr.to_) :=
    List.mem_filter.mpr ⟨read, by simp [SendRequest.mail, Mail.new]⟩
  rw [(inv.delivery b).delivered, h.transit elsewhere reached, List.filter_nil,
    List.append_nil] at boxed
  exact boxed

/-- A call of `Send` can be made. -/
theorem send_enabled {a : NetworkAddress} {m : Outgoing} (heap wireHeap : Buf) (pc : Pc)
    (reached : (postMachine kernelBoxes Unit drops).Reachable s.post)
    (output : (s.post a).output.pc () = .idle) (input : (s.post a).input.pc () = .idle)
    (accepted : m.Accepted) :
    ∃ s', s.send drops a m heap wireHeap pc = some (.ok s') := by
  obtain ⟨fits, addressed⟩ := accepted
  have driver : (sendMachine kernelBoxes Unit (drops a) a).Reachable (s.post a).output :=
    (postOutput kernelBoxes Unit drops a).reachable reached
  have reachedLock : (lockMachine Unit).Reachable (s.post a).output.lock :=
    (driverLock (NetworkOutput.send (drops a) a) false ⟨0, []⟩).reachable driver
  have place := (DriverInvariant.of_reachable driver).1.place ()
  rw [output] at place
  obtain ⟨lock, acquired⟩ := LockState.acquire_enabled reachedLock place.1
  have called : ∀ r, (s.post a).output.step (NetworkOutput.send (drops a) a) false (.call () r) =
      some (.ok ((s.post a).output.locked () (.acquiring r) lock)) := by
    intro r
    simp only [Driver.step, output, Driver.callLock, acquired]
    rfl
  have step : (postMachine kernelBoxes Unit drops).next
      (.send a () m.to_ m.mailHdr (fun i => m.data.getD i 0) heap wireHeap) s.post =
      some (s.post.setOutput a ((s.post a).output.locked () (.acquiring
        ⟨m.to_, a, m.mailHdr, fun i => m.data.getD i 0, heap, wireHeap, fits, addressed.1,
          addressed.2⟩) lock)) := by
    simp only [postMachine, PostSystem.step, if_pos input, dif_pos (And.intro fits addressed.1),
      dif_pos addressed.2, PostSystem.outputStep, called]
    rfl
  exact ⟨⟨_, Function.update s.pc a pc⟩, call_eq_ok.mpr ⟨_, step, rfl⟩⟩

/-- A call of `Receive` can be made. -/
theorem receive_enabled {a : NetworkAddress} {box : MailBoxAddress} (pc : Pc)
    (reached : (postMachine kernelBoxes Unit drops).Reachable s.post)
    (elsewhere : Elsewhere (s.post a).input)
    (output : (s.post a).output.pc () = .idle) (input : (s.post a).input.pc () = .idle)
    (valid : 0 ≤ box.toInt ∧ box.toInt < 10) :
    ∃ s', s.receive drops a box pc = some (.ok s') := by
  have boxed := (postBox kernelBoxes Unit drops a box).reachable reached
  have reachedLock : (lockMachine (Option Unit)).Reachable
      ((s.post a).input.boxes box).listEmpty.lock :=
    (condLock _).reachable ((synchCond _ _).reachable boxed)
  obtain ⟨idle, rest⟩ := elsewhere box (by simp [input, ReceivePc.box])
  obtain ⟨lock, acquired⟩ := LockState.acquire_enabled reachedLock rest.2
  obtain ⟨messages, called⟩ : ∃ messages,
      SynchState.next (.removeFront (some ())) ((s.post a).input.boxes box) = some messages := by
    simp [SynchState.next, idle, rest, SynchState.callCond, CondState.next, CondState.lockStep,
      acquired]
  have received : ∃ i, (s.post a).input.receive (kernelBoxes a) () box = some (.ok i) := by
    have valid : 0 ≤ box.toInt ∧ box.toInt < kernelBoxes a := valid
    simp [PostInput.receive, valid, called]
  obtain ⟨i, received⟩ := received
  have step : (postMachine kernelBoxes Unit drops).next (.receive a () box) s.post =
      some (s.post.setInput a i) := by
    simp only [postMachine, PostSystem.step, output, input, PostSystem.inputStep, received]
    rfl
  exact ⟨⟨_, Function.update s.pc a pc⟩, call_eq_ok.mpr ⟨_, step, rfl⟩⟩

/-- Whoever waits for the first message of a box that nothing was taken from: nothing is in it. -/
theorem Stuck.emptied (h : s.Stuck drops b) (elsewhere : Elsewhere (s.post b).input)
    (reached : (postMachine kernelBoxes Unit drops).Reachable s.post) {box : MailBoxAddress}
    (here : ((s.post b).input.pc ()).box = some box)
    (fresh : (s.post b).input.returned box = []) :
    ((s.post b).input.boxes box).appended = [] := by
  have receiving := (PostInvariant.of_reachable reached).receiving b
  have boxed := (postBox kernelBoxes Unit drops b box).reachable reached
  have order : ((s.post b).input.boxes box).appended =
      ((s.post b).input.boxes box).removed ++ ((s.post b).input.boxes box).list :=
    (SynchInvariant.of_reachable boxed).order
  have place := receiving.place ()
  rcases ReceivePc.box_eq_some here with pc | ⟨position, letter, pc⟩
  · rw [pc] at place
    have busy : ((s.post b).input.boxes box).Busy (some ()) := by
      left
      rcases place with waits | takes
      · simp [waits]
      · simp [takes]
    have empty := (h.asleep elsewhere reached busy).1
    have covered := (receiving.accounted box).covered
    have removed : ((s.post b).input.boxes box).removed = [] := by
      by_contra some
      rcases covered 0 (List.length_pos_of_ne_nil some) with given | ⟨t, letter, held⟩
      · rw [fresh] at given
        cases given
      · unfold PostInput.held at held
        rw [pc] at held
        cases held
    rw [order, removed, empty]
    rfl
  · rw [pc] at place
    by_cases rest : ((s.post b).input.boxes box).pc (some ()) = .idle ∧
        ((s.post b).input.boxes box).listEmpty.AtRest (some ())
    · cases outcome : (s.post b).input.receiveStep () with
      | none =>
        simp only [PostInput.receiveStep, pc, if_pos rest] at outcome
        split at outcome
        · cases outcome
        · cases outcome
      | some outcome' =>
        cases outcome' with
        | error fault => exact absurd outcome (PostSystem.receiveStep_ne_error reached)
        | ok i =>
          refine (h.post (.receiveStep b ()) (s.post.setInput b i) rfl trivial
            rfl ?_).elim
          simp only [PostSystem.step, PostSystem.inputStep, outcome]
          rfl
    · have busy : ((s.post b).input.boxes box).Busy (some ()) := by
        unfold SynchState.Busy
        by_contra quiet
        push Not at quiet
        exact rest quiet
      have waits := (h.asleep elsewhere reached busy).2
      rcases place with releases | idle
      · cases releases.symm.trans waits
      · cases idle.symm.trans waits

/-- What a machine has sent is on the network, when nothing is dropped. -/
theorem network_outgoing {a : NetworkAddress} {m : Mail} (correct : s.Correct)
    (reached : (postMachine kernelBoxes Unit fun _ _ => false).Reachable s.post)
    (output : (s.post a).output.pc () = .idle) (sent : m ∈ (s.pc a).outgoing a) :
    ∃ r ∈ s.post.network a m.pktHdr.to_, r.mail = m := by
  have driver := (DriverInvariant.of_reachable
    ((postOutput kernelBoxes Unit (fun _ _ => false) a).reachable reached)).1
  rw [← correct.outgoing a] at sent
  simp only [NetworkTest.outgoing, output, List.append_nil] at sent
  obtain ⟨c, called, rfl⟩ := List.mem_map.mp sent
  obtain ⟨k, at_k⟩ := List.mem_iff_getElem?.mp called
  obtain ⟨before, after, -, performed⟩ := driver.performs.get at_k
  have kept : c.reply = true := by
    obtain ⟨-, performed⟩ := Option.ite_none_right_eq_some.mp performed
    exact (congrArg Prod.fst (Option.some.inj performed)).symm
  refine ⟨c.request, List.mem_map_of_mem (List.mem_filter.mpr ⟨called, ?_⟩), rfl⟩
  simp [kept, SendRequest.mail, SendRequest.pktHdr, Mail.new]

/-- Everything that the test may have to wait for on a machine has been sent to it. -/
def Provided (s : NetworkTest) (a : NetworkAddress) : Prop :=
  ∀ box, (s.pc a).asks box ≠ 0 →
    ∃ m ∈ (s.pc (farHost a)).outgoing (farHost a), m.pktHdr.to_ = a ∧ m.mailHdr.to_ = box

theorem Pc.asks_le (pc : Pc) (box : MailBoxAddress) : pc.asks box ≤ 1 := by
  cases pc with
  | start | sending => exact Nat.zero_le 1
  | receiving | acknowledging | awaiting | done =>
    simp only [Pc.asks]
    split
    · exact Nat.le_refl 1
    · exact Nat.zero_le 1

/-- A machine that cannot go on has received all that was sent to it. -/
theorem Stuck.returned {a : NetworkAddress} (h : s.Stuck (fun _ _ => false) a)
    (correct : s.Correct) (reading : s.Reading)
    (reached : (postMachine kernelBoxes Unit fun _ _ => false).Reachable s.post)
    (output : (s.post (farHost a)).output.pc () = .idle) (provided : s.Provided a) :
    (s.post a).input.pc () = .idle ∧
      ∀ box, (s.pc a).asks box ≠ 0 → (s.post a).input.returned box ≠ [] := by
  have elsewhere := reading.elsewhere a
  have counts : ∀ box, ((s.post a).input.returned box).length +
      (if ((s.post a).input.pc ()).box = some box then 1 else 0) = (s.pc a).asks box :=
    reading.asked a
  -- A call that has not returned is the first one on its box, and its message is there.
  have outside : ∀ box, ((s.post a).input.pc ()).box ≠ some box := by
    intro box here
    have count := counts box
    rw [if_pos here] at count
    have once := (s.pc a).asks_le box
    have fresh : (s.post a).input.returned box = [] := List.length_eq_zero_iff.mp (by omega)
    obtain ⟨m, sent, to_, mailbox⟩ := provided box (by omega)
    obtain ⟨r, network, rfl⟩ := network_outgoing correct reached output sent
    rw [to_] at network
    have boxed := h.delivered elsewhere reached network
    have same : r.mailHdr.to_ = box := mailbox
    rw [same, h.emptied elsewhere reached here fresh] at boxed
    cases boxed
  constructor
  · cases pc : (s.post a).input.pc () with
    | idle => rfl
    | getting box => exact absurd (by rw [pc]; rfl) (outside box)
    | holding box position letter => exact absurd (by rw [pc]; rfl) (outside box)
  · intro box asks none
    have count := counts box
    rw [if_neg (outside box), none] at count
    exact asks count.symm

/-- The test itself cannot go on. -/
theorem Stuck.test {a : NetworkAddress} (h : s.Stuck drops a) (heap wireHeap : Buf) :
    s.testStep drops a heap wireHeap ≠ some (.ok s') := by
  intro step
  exact h (.test a heap wireHeap) s' rfl trivial (next_test_eq_some.mpr step)

/-- A machine that cannot go on has made its calls of `Send`, and waits or is done. -/
theorem Stuck.reads {a : NetworkAddress} (h : s.Stuck drops a) (correct : s.Correct)
    (reading : s.Reading)
    (reached : (postMachine kernelBoxes Unit drops).Reachable s.post)
    (machine : a = 0 ∨ a = 1) :
    s.pc a = .receiving ∨ (∃ first, s.pc a = .awaiting first) ∨
      ∃ first second, s.pc a = .done first second := by
  have output := h.output reached
  have quiet := reading.idle a
  have elsewhere := reading.elsewhere a
  have stopped : ∀ s', s.testStep drops a (fun _ => 0) (fun _ => 0) ≠ some (.ok s') :=
    fun s' => h.test _ _
  unfold testStep at stopped
  cases at_a : s.pc a with
  | start =>
    have accepted := correct.accepted reached (a := a) (by unfold nextSend; rw [at_a])
    obtain ⟨s', enabled⟩ := send_enabled (fun _ => 0) (fun _ => 0) .sending
      reached output (quiet (by simp [at_a, Pc.Reads])) accepted
    simp only [at_a, if_pos machine] at stopped
    exact absurd enabled (stopped s')
  | sending =>
    obtain ⟨s', enabled⟩ := receive_enabled .receiving reached elsewhere output
      (quiet (by simp [at_a, Pc.Reads])) (show 0 ≤ (0 : MailBoxAddress).toInt ∧ _ by decide)
    simp only [at_a, sent, output, if_true] at stopped
    exact absurd enabled (stopped s')
  | receiving => exact .inl rfl
  | acknowledging first =>
    obtain ⟨s', enabled⟩ := receive_enabled (.awaiting first) reached elsewhere
      output (quiet (by simp [at_a, Pc.Reads])) (show 0 ≤ (1 : MailBoxAddress).toInt ∧ _ by decide)
    simp only [at_a, sent, output, if_true] at stopped
    exact absurd enabled (stopped s')
  | awaiting first => exact .inr (.inl ⟨first, rfl⟩)
  | done first second => exact .inr (.inr ⟨first, second, rfl⟩)

theorem received_ne_none {a : NetworkAddress} {box : MailBoxAddress}
    (input : (s.post a).input.pc () = .idle) (returned : (s.post a).input.returned box ≠ []) :
    ∃ m, s.received a box = some m := by
  refine ⟨(((s.post a).input.returned box).getLast returned).2.mail, ?_⟩
  simp only [received, input, if_true, List.getLast?_eq_getLast_of_ne_nil returned]
  rfl

/-- A machine that cannot go on is not in the first `Receive`. -/
theorem Stuck.not_receiving {a : NetworkAddress} (h : s.Stuck (fun _ _ => false) a)
    (correct : s.Correct) (reading : s.Reading)
    (reached : (postMachine kernelBoxes Unit fun _ _ => false).Reachable s.post)
    (output : (s.post (farHost a)).output.pc () = .idle) (machine : a = 0 ∨ a = 1)
    (sent : hello (farHost a) ∈ (s.pc (farHost a)).outgoing (farHost a)) : s.pc a ≠ .receiving := by
  intro at_a
  have provided : s.Provided a := by
    intro box asks
    refine ⟨hello (farHost a), sent, farHost_farHost machine, ?_⟩
    by_contra other
    rw [at_a] at asks
    exact asks (if_neg fun same => other same.symm)
  obtain ⟨input, returned⟩ := h.returned correct reading reached output provided
  obtain ⟨m, got⟩ := received_ne_none input (returned 0 (by simp [at_a, Pc.asks]))
  have accepted := correct.accepted reached (a := a) (by unfold nextSend; rw [at_a, got]; rfl)
  obtain ⟨s', enabled⟩ := send_enabled (fun _ => 0) (fun _ => 0)
    (.acknowledging m) reached (h.output reached) input accepted
  have sends : s.testStep (fun _ _ => false) a (fun _ => 0) (fun _ => 0) = some (.ok s') := by
    simp only [testStep, at_a, got, Option.bind_some, enabled]
  exact h.test _ _ sends

/-- Nor in the second. -/
theorem Stuck.not_awaiting {a : NetworkAddress} (h : s.Stuck (fun _ _ => false) a)
    (correct : s.Correct) (reading : s.Reading)
    (reached : (postMachine kernelBoxes Unit fun _ _ => false).Reachable s.post)
    (output : (s.post (farHost a)).output.pc () = .idle) (machine : a = 0 ∨ a = 1)
    (sent : hello (farHost a) ∈ (s.pc (farHost a)).outgoing (farHost a) ∧
      answer (farHost a) ∈ (s.pc (farHost a)).outgoing (farHost a)) (first : Mail) :
    s.pc a ≠ .awaiting first := by
  intro at_a
  have provided : s.Provided a := by
    intro box asks
    by_cases zero : box = 0
    · exact ⟨hello (farHost a), sent.1, farHost_farHost machine, zero.symm⟩
    · refine ⟨answer (farHost a), sent.2, farHost_farHost machine, ?_⟩
      by_contra other
      rw [at_a] at asks
      apply asks
      apply if_neg
      intro same
      rcases same with same | same
      · exact zero same
      · exact other same.symm
  obtain ⟨input, returned⟩ := h.returned correct reading reached output provided
  obtain ⟨m, got⟩ := received_ne_none input (returned 1 (by simp [at_a, Pc.asks]))
  have prints : s.testStep (fun _ _ => false) a (fun _ => 0) (fun _ => 0) =
      some (.ok { s with pc := Function.update s.pc a (.done first m) }) := by
    simp only [testStep, at_a, got, Option.map_some]
  exact h.test _ _ prints

end Stuck

/-- When neither machine can go on, both are done. -/
theorem stuck_done (reached : (networkTestMachine fun _ _ => false).Reachable s)
    (stuck : ∀ b, b = 0 ∨ b = 1 → s.Stuck (fun _ _ => false) b) {a : NetworkAddress}
    (machine : a = 0 ∨ a = 1) : ∃ first second, s.pc a = .done first second := by
  have correct := Correct.of_reachable reached
  have reading := Reading.of_reachable reached
  have posts := (postPart fun _ _ => false).reachable reached
  have far : ∀ {b}, b = 0 ∨ b = 1 → farHost b = 0 ∨ farHost b = 1 := by
    intro b machine
    rcases machine with rfl | rfl
    · exact .inr rfl
    · exact .inl rfl
  -- Both are past the first `Send`, so neither is in the first `Receive`.
  have first : ∀ b, b = 0 ∨ b = 1 → s.pc b ≠ .receiving := by
    intro b machine
    have other := stuck _ (far machine)
    refine (stuck b machine).not_receiving correct reading posts (other.output posts) machine ?_
    rcases other.reads correct reading posts (far machine) with pc | ⟨first, pc⟩ | ⟨_, _, pc⟩
    · simp [pc, Pc.outgoing]
    · simp [pc, Pc.outgoing]
    · simp [pc, Pc.outgoing]
  have other := stuck _ (far machine)
  have heard := correct.heard (farHost a)
  have second : ∀ first, s.pc a ≠ .awaiting first := by
    refine (stuck a machine).not_awaiting correct reading posts (other.output posts) machine ?_
    rcases other.reads correct reading posts (far machine) with pc | ⟨m, pc⟩ | ⟨m, _, pc⟩
    · exact absurd pc (first _ (far machine))
    · rw [pc] at heard
      cases heard
      simp [pc, Pc.outgoing, answer]
    · rw [pc] at heard
      cases heard.1
      simp [pc, Pc.outgoing, answer]
  rcases (stuck a machine).reads correct reading posts machine with pc | ⟨m, pc⟩ | done
  · exact absurd pc (first a machine)
  · exact absurd pc (second m)
  · exact done

end NetworkTest

/-- When no packet is lost, the test goes on until both machines are done. -/
theorem network_test_completes (s : NetworkTest)
    (reached : (networkTestMachine fun _ _ => false).Reachable s)
    (unfinished : ∃ a, (a = 0 ∨ a = 1) ∧ ∀ first second, s.pc a ≠ .done first second) :
    ∃ e s', (e.machine = 0 ∨ e.machine = 1) ∧ s.Useful e ∧
      (networkTestMachine fun _ _ => false).next e s = some s' := by
  obtain ⟨a, machine, unfinished⟩ := unfinished
  by_contra stopped
  have stuck : ∀ b, b = 0 ∨ b = 1 → s.Stuck (fun _ _ => false) b := by
    intro b machine e s' here useful step
    exact stopped ⟨e, s', by rw [here]; exact machine, useful, step⟩
  obtain ⟨first, second, done⟩ := NetworkTest.stuck_done reached stuck machine
  exact unfinished first second done

/-- Machine 0 sleeps, and machine 1 has not begun. -/
theorem network_test_completes_asleep :
    ∃ s, (networkTestMachine fun _ _ => false).run (testSend 0 0 ++ (testReceive 0).take 6)
        testStart = some s ∧ (s.post 0).input.receiveStep () = none ∧ s.pc 1 = .start ∧
      ∃ e s', (e.machine = 0 ∨ e.machine = 1) ∧ s.Useful e ∧
        (networkTestMachine fun _ _ => false).next e s = some s' := by
  have replay : ((networkTestMachine fun _ _ => false).run
      (testSend 0 0 ++ (testReceive 0).take 6) testStart).map
        (fun s => (((s.post 0).input.receiveStep ()).isNone, s.pc 1)) =
      some (true, .start) := by
    decide +kernel
  obtain ⟨s, hs, view⟩ := Option.map_eq_some_iff.mp replay
  obtain ⟨asleep, start⟩ := Prod.mk.inj view
  have reached : (networkTestMachine fun _ _ => false).Reachable testStart :=
    .init ⟨fun _ => ⟨_, _, rfl⟩, fun _ => rfl⟩
  refine ⟨s, hs, Option.isNone_iff_eq_none.mp asleep, start,
    network_test_completes s (reached.run _ hs) ⟨1, .inr rfl, ?_⟩⟩
  intro first second done
  cases start.symm.trans done

end NachOS.Network
