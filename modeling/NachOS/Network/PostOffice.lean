import Mathlib.Data.Fintype.Option
import NachOS.Network.Delivery

/-!
# What the post office delivers

The two halves of the way of a message are put together with the sending side:
what a machine read from another one is the beginning of what that one put on the
network for it, in sending order.
-/
namespace NachOS.Network
open NachOS.Lib NachOS.Threads

variable {numBoxes : NetworkAddress → Int} {Thread : Type} [DecidableEq Thread]

omit [DecidableEq Thread] in
/-- The packets on the network are those of the calls that did not drop theirs. -/
theorem NetworkOutput.performs_wires {drops : Nat → Bool} {hostName : NetworkAddress}
    {calls : List (Call Thread (SendRequest numBoxes) Bool)} {device : Outlet}
    (h : Performs (NetworkOutput.send drops hostName) ⟨0, []⟩ calls device) :
    device.wires = (calls.filter (·.reply)).map (fun c => (c.request.to_, c.request.wire)) ∧
    ∀ c ∈ calls, c.request.hostName = hostName := by
  induction h with
  | nil => simp
  | @snoc calls device device' call before performed ih =>
    obtain ⟨valid, performed⟩ := Option.ite_none_right_eq_some.mp performed
    refine ⟨?_, ?_⟩
    · rw [List.filter_append, List.map_append, ← ih.1]
      split at performed
      · obtain ⟨reply, rfl⟩ := Prod.mk.inj (Option.some.inj performed)
        simp [← reply]
      · obtain ⟨reply, rfl⟩ := Prod.mk.inj (Option.some.inj performed)
        simp [← reply, SendRequest.pktHdr]
    · intro c hc
      rcases List.mem_append.mp hc with hc | hc
      · exact ih.2 c hc
      · rw [List.mem_singleton.mp hc]
        exact valid.2.2

/-- The assertions of `NetworkOutput::Send` hold of what `PostOfficeOutput::Send` passes. -/
theorem NetworkOutput.send_ne_none {drops : Nat → Bool} {r : SendRequest numBoxes} {d : Outlet} :
    NetworkOutput.send drops r.hostName r d ≠ none := by
  have length := r.pktHdr_length
  have fits := r.fits
  have valid : 0 < r.pktHdr.length.toNat ∧ r.pktHdr.length.toNat ≤ MaxPacketSize ∧
      r.pktHdr.from_ = r.hostName := by
    refine ⟨?_, ?_, rfl⟩ <;> rw [length] <;>
      simp only [MaxMailSize, MaxPacketSize, MaxWireSize, HeaderSize] at * <;> omega
  unfold NetworkOutput.send
  rw [if_pos valid]
  split <;> simp

namespace PostSystem

/-- The requests of `a` that were put on the network for `b`, in sending order. -/
def network (s : PostSystem numBoxes Thread) (a b : NetworkAddress) : List (SendRequest numBoxes) :=
  ((s a).output.calls.filter fun c => c.request.to_ = b ∧ c.reply).map Call.request

/-- The messages that `a` sent to a box of `b`, dropped or not, in sending order. -/
def sent (s : PostSystem numBoxes Thread) (a b : NetworkAddress) (box : MailBoxAddress) :
    List Mail :=
  ((s a).output.calls.filter fun c => c.request.to_ = b ∧ c.request.mailHdr.to_ = box).map
    fun c => c.request.mail

variable {drops : NetworkAddress → Nat → Bool} {s s' : PostSystem numBoxes Thread}

omit [DecidableEq Thread] in
/-- The box's part of what is on the network is part of what was sent to it. -/
theorem network_sent {a b : NetworkAddress} {box : MailBoxAddress} :
    (((s.network a b).map SendRequest.mail).filter (·.mailHdr.to_ = box)).Sublist
      (s.sent a b box) := by
  unfold network sent
  rw [List.map_map, List.filter_map, List.filter_filter]
  refine (List.monotone_filter_right _ fun c hc => ?_).map _
  simp only [Function.comp_apply, Bool.and_eq_true, decide_eq_true_eq] at hc ⊢
  exact ⟨hc.2.1, hc.1⟩

variable [Fintype Thread]

/-- The front packet of a socket is the next of the sender's requests. -/
theorem socket_front (h : (postMachine numBoxes Thread drops).Reachable s) {a b : NetworkAddress}
    {wire : Buf} {rest : List Buf} (front : s.socket a b = wire :: rest) :
    ∃ r, (s.network a b)[(s b).input.taken a]? = some r ∧ r.to_ = b ∧ r.hostName = a ∧
      wire = r.wire := by
  have driver := (DriverInvariant.of_reachable ((postOutput numBoxes Thread drops a).reachable h)).1
  obtain ⟨wires, named⟩ := NetworkOutput.performs_wires driver.performs
  have waiting : s.socket a b =
      ((s.network a b).drop ((s b).input.taken a)).map SendRequest.wire := by
    have output : (s a).output.device.wires = ((s a).output.calls.filter (·.reply)).map
        (fun c => (c.request.to_, c.request.wire)) := wires
    unfold PostSystem.socket network
    rw [output, List.filter_map, List.filter_filter, ← List.map_drop, List.map_map, ← List.map_drop,
      List.map_map]
    simp [Function.comp_def]
  obtain ⟨r, rest', after, rfl, _⟩ := List.map_eq_cons_iff.mp (waiting.symm.trans front)
  have at_front : (s.network a b)[(s b).input.taken a]? = some r := by
    rw [← List.head?_drop, after]
    rfl
  obtain ⟨c, hc, rfl⟩ := List.mem_map.mp (List.mem_of_getElem? at_front)
  obtain ⟨member, kept⟩ := List.mem_filter.mp hc
  simp only [Bool.decide_and, Bool.and_eq_true, decide_eq_true_eq] at kept
  exact ⟨c.request, at_front, kept.1, named c member, rfl⟩

end PostSystem

/-- The invariant of all machines together. -/
structure PostInvariant (s : PostSystem numBoxes Thread) : Prop where
  delivery : ∀ b, DeliveryInvariant numBoxes b (s b).input
  receiving : ∀ b, ReceivingInvariant (s b).input
  named : ∀ a t r, (s a).output.pc t = .acquiring r → r.hostName = a
  order : ∀ a b, (s b).input.taken a ≤ (s.network a b).length ∧
    (s b).input.read.filter (·.pktHdr.from_ = a) =
      ((s.network a b).take ((s b).input.taken a)).map SendRequest.mail

namespace PostInvariant

variable {drops : NetworkAddress → Nat → Bool} {s s' : PostSystem numBoxes Thread}

omit [DecidableEq Thread] in
theorem initial (h : ∀ a, ∃ inbox buffer, s a = ⟨.initial ⟨0, []⟩, .initial inbox buffer⟩) :
    PostInvariant s := by
  exact {
    delivery := by
      intro b
      obtain ⟨inbox, buffer, hb⟩ := h b
      rw [hb]
      exact .initial inbox buffer
    receiving := by
      intro b
      obtain ⟨inbox, buffer, hb⟩ := h b
      rw [hb]
      exact .initial inbox buffer
    named := by
      intro a t r pc
      obtain ⟨inbox, buffer, ha⟩ := h a
      simp [ha, Driver.initial] at pc
    order := by
      intro a b
      obtain ⟨inbox, buffer, hb⟩ := h b
      simp [hb, PostInput.initial] }

/-- A step of the sending side of `a`: more may be on the network. -/
theorem output (inv : PostInvariant s) {a : NetworkAddress}
    {e : DriverEvent Thread (SendRequest numBoxes)}
    {out : Driver Thread (SendRequest numBoxes) Bool Outlet}
    (own : ∀ t r, e = .call t r → r.hostName = a)
    (step : (s a).output.step (NetworkOutput.send (drops a) a) false e = some (.ok out)) :
    PostInvariant (s.setOutput a out) := by
  have grows : ∀ a' b, s.network a' b <+: (s.setOutput a out).network a' b := by
    intro a' b
    by_cases ha : a' = a
    · subst ha
      unfold PostSystem.network PostSystem.setOutput
      rw [Function.update_self]
      exact (((Driver.step_effect step).calls).filter _).map _
    · unfold PostSystem.network PostSystem.setOutput
      rw [Function.update_of_ne ha]
  exact {
    delivery := by
      intro b
      rw [PostSystem.setOutput_input]
      exact inv.delivery b
    receiving := by
      intro b
      rw [PostSystem.setOutput_input]
      exact inv.receiving b
    named := by
      intro a' t r pc
      by_cases ha : a' = a
      · subst ha
        simp only [PostSystem.setOutput, Function.update_self] at pc
        rcases Driver.step_acquiring step pc with before | called
        · exact inv.named a' t r before
        · exact own t r called
      · simp only [PostSystem.setOutput, Function.update_of_ne ha] at pc
        exact inv.named a' t r pc
    order := by
      intro a' b
      obtain ⟨taken, read⟩ := inv.order a' b
      obtain ⟨more, grown⟩ := grows a' b
      rw [PostSystem.setOutput_input, ← grown, List.take_append_of_le_length taken]
      exact ⟨taken.trans (by simp), read⟩ }

omit [DecidableEq Thread] in
/-- The receiving side of `b` changes. -/
theorem setInput (inv : PostInvariant s) {b : NetworkAddress} {i : PostInput Thread}
    (delivery : DeliveryInvariant numBoxes b i) (receiving : ReceivingInvariant i)
    (order : ∀ a, i.taken a ≤ (s.network a b).length ∧ i.read.filter (·.pktHdr.from_ = a) =
      ((s.network a b).take (i.taken a)).map SendRequest.mail) :
    PostInvariant (s.setInput b i) := by
  have here : (s.setInput b i b).input = i := by simp [PostSystem.setInput]
  have elsewhere : ∀ b', b' ≠ b → (s.setInput b i b').input = (s b').input :=
    fun b' hb => by simp [PostSystem.setInput, Function.update_of_ne hb]
  have network : ∀ a b', (s.setInput b i).network a b' = s.network a b' :=
    fun a b' => by simp [PostSystem.network]
  exact {
    delivery := by
      intro b'
      by_cases hb : b' = b
      · rw [hb, here]
        exact delivery
      · rw [elsewhere b' hb]
        exact inv.delivery b'
    receiving := by
      intro b'
      by_cases hb : b' = b
      · rw [hb, here]
        exact receiving
      · rw [elsewhere b' hb]
        exact inv.receiving b'
    named := by
      intro a t r pc
      rw [PostSystem.setInput_output] at pc
      exact inv.named a t r pc
    order := by
      intro a b'
      rw [network]
      by_cases hb : b' = b
      · rw [hb, here]
        exact order a
      · rw [elsewhere b' hb]
        exact inv.order a b' }

/-- A step of the worker or of a receiver on `b`. -/
theorem input (inv : PostInvariant s) {b : NetworkAddress} {i : PostInput Thread}
    (effect : (s b).input.Effect i) : PostInvariant (s.setInput b i) := by
  refine inv.setInput ((inv.delivery b).next (inv.receiving b).receivers effect)
    ((inv.receiving b).next (inv.delivery b).worker effect) fun a => ?_
  have order := inv.order a b
  cases effect with
  | pass | sleep | fetch | post | put | done | call | get | returns => exact order

omit [DecidableEq Thread] in
/-- A packet from `a` is read on `b`. -/
theorem arrive (inv : PostInvariant s) {a b : NetworkAddress} {r : SendRequest numBoxes}
    (empty : (s b).input.inHdr.length.toNat = 0)
    (next : (s.network a b)[(s b).input.taken a]? = some r) (mine : r.to_ = b)
    (sender : r.hostName = a) : PostInvariant (s.setInput b ((s b).input.arrived a r.wire)) := by
  refine inv.setInput ((inv.delivery b).arrived empty a r mine)
    ((inv.receiving b).congr rfl rfl fun _ => ⟨fun _ => rfl, rfl⟩) fun a' => ?_
  obtain ⟨taken, read⟩ := inv.order a' b
  have header : r.mail.pktHdr.from_ = a := sender
  by_cases ha : a' = a
  · subst ha
    simp only [PostInput.arrived, Function.update_self, List.filter_append, r.ofWire_wire]
    refine ⟨(List.getElem?_eq_some_iff.mp next).1, ?_⟩
    rw [List.take_add_one, next, List.map_append, read]
    simp [header]
  · simp only [PostInput.arrived, Function.update_of_ne ha, List.filter_append, r.ofWire_wire]
    refine ⟨taken, ?_⟩
    rw [read]
    simp [header, Ne.symm ha]

theorem of_reachable [Fintype Thread] (h : (postMachine numBoxes Thread drops).Reachable s) :
    PostInvariant s := by
  induction h with
  | init h => exact .initial h
  | step before _ h inv =>
    cases PostSystem.next_effect h with
    | output a e out own step => exact inv.output own step
    | quiet => exact inv
    | arrive a b wire rest empty front =>
      obtain ⟨r, next, mine, sender, rfl⟩ := PostSystem.socket_front before front
      exact inv.arrive empty next mine sender
    | input b i effect => exact inv.input effect

omit [DecidableEq Thread] in
/-- Whatever was put in a box came from its sender in sending order. -/
theorem appended_sublist (inv : PostInvariant s) (a b : NetworkAddress) (box : MailBoxAddress) :
    ((((s b).input.boxes box).appended.map Letter.mail).filter (·.pktHdr.from_ = a)).Sublist
      (s.sent a b box) := by
  have boxed : ((s b).input.boxes box).appended.map Letter.mail <+:
      (s b).input.read.filter (·.mailHdr.to_ = box) := by
    rw [(inv.delivery b).delivered]
    exact List.prefix_append _ _
  have reordered : ((s b).input.read.filter (·.mailHdr.to_ = box)).filter (·.pktHdr.from_ = a) =
      (((s.network a b).take ((s b).input.taken a)).map SendRequest.mail).filter
        (·.mailHdr.to_ = box) := by
    rw [List.filter_comm, (inv.order a b).2]
  refine (boxed.filter _).sublist.trans ?_
  rw [reordered]
  exact (((List.take_sublist _ _).map _).filter _).trans PostSystem.network_sent

end PostInvariant

/-- The arguments that the assertions of `Send` and of `Receive` stop. -/
def PostEvent.Refused (numBoxes : NetworkAddress → Int) : PostEvent Thread → Prop
  | .send _ _ _ mailHdr _ _ _ => ¬ (mailHdr.length.toNat ≤ MaxMailSize ∧ 0 ≤ mailHdr.to_.toInt)
  | .receive b _ box => ¬ (0 ≤ box.toInt ∧ box.toInt < numBoxes b)
  | .sendStep .. | .sendInterrupt .. | .poll .. | .worker .. | .receiveStep .. => False

namespace PostSystem

variable [Fintype Thread] {drops : NetworkAddress → Nat → Bool} {s : PostSystem numBoxes Thread}

omit [DecidableEq Thread] [Fintype Thread] in
theorem inputStep_error {b : NetworkAddress} {fault : RequestFault}
    {result : Option (Except RequestFault (PostInput Thread))}
    (h : s.inputStep b result = some (.error fault)) : result = some (.error fault) := by
  obtain ⟨outcome, rfl, h⟩ := Option.map_eq_some_iff.mp h
  cases outcome with
  | error fault => cases h; rfl
  | ok i => cases h

theorem outputStep_ne_error (h : (postMachine numBoxes Thread drops).Reachable s)
    {a : NetworkAddress} {e : DriverEvent Thread (SendRequest numBoxes)} {fault : RequestFault} :
    s.outputStep drops a e ≠ some (.error fault) := by
  intro failed
  obtain ⟨driver, lock⟩ :=
    DriverInvariant.of_reachable ((postOutput numBoxes Thread drops a).reachable h)
  obtain ⟨outcome, step, failed⟩ := Option.map_eq_some_iff.mp failed
  cases outcome with
  | ok out => cases failed
  | error fault =>
    obtain ⟨_, t, r, pc, unperformed⟩ := driver.step_error lock step
    have named : r.hostName = a := (PostInvariant.of_reachable h).named a t r pc
    rw [← named] at unperformed
    exact NetworkOutput.send_ne_none unperformed

theorem poll_ne_error (h : (postMachine numBoxes Thread drops).Reachable s) {b : NetworkAddress}
    {sender : Option NetworkAddress} {fault : RequestFault} :
    (s b).input.poll b (fun a => s.socket a b) sender ≠ some (.error fault) := by
  intro failed
  unfold PostInput.poll at failed
  split at failed
  · cases failed
  · split at failed
    · cases failed
    next a =>
      split at failed
      · cases failed
      next wire rest front =>
        obtain ⟨r, _, mine, _, rfl⟩ := socket_front h front
        have header : Header.load r.wire = r.pktHdr := load_join
        have length := r.pktHdr_length
        have fits := r.fits
        have accepted : r.pktHdr.to_ = b ∧ r.pktHdr.length.toNat ≤ MaxPacketSize := by
          refine ⟨mine, ?_⟩
          simp only [MaxMailSize, MaxPacketSize, MaxWireSize, HeaderSize] at *
          omega
        simp only [header] at failed
        rw [if_pos accepted] at failed
        cases failed

omit [Fintype Thread] in
theorem workerStep_ne_error (inv : PostInvariant s) {b : NetworkAddress} {fault : RequestFault} :
    (s b).input.workerStep (numBoxes b) ≠ some (.error fault) := by
  intro failed
  unfold PostInput.workerStep at failed
  split at failed
  · obtain ⟨_, _, failed⟩ := Option.map_eq_some_iff.mp failed
    cases failed
  · cases failed
  next pktHdr worker =>
    simp only at failed
    rw [if_pos ((inv.delivery b).delivering worker)] at failed
    obtain ⟨_, _, failed⟩ := Option.map_eq_some_iff.mp failed
    cases failed
  · split at failed
    · cases failed
    · obtain ⟨_, _, failed⟩ := Option.map_eq_some_iff.mp failed
      cases failed

theorem receiveStep_ne_error (h : (postMachine numBoxes Thread drops).Reachable s)
    {b : NetworkAddress} {t : Thread} {fault : RequestFault} :
    (s b).input.receiveStep t ≠ some (.error fault) := by
  have inv := PostInvariant.of_reachable h
  intro failed
  unfold PostInput.receiveStep at failed
  split at failed
  · cases failed
  · obtain ⟨_, _, failed⟩ := Option.map_eq_some_iff.mp failed
    cases failed
  next box position letter pc =>
    split at failed
    · have order : ((s b).input.boxes box).appended = _ ++ _ := (SynchInvariant.of_reachable
        ((postBox numBoxes Thread drops b box).reachable h)).order
      have taken : ((s b).input.boxes box).removed[position]? = some letter :=
        (((inv.receiving b).accounted box).holds t position letter
          (by simp [PostInput.held, pc])).1
      have boxed : letter ∈ ((s b).input.boxes box).appended := by
        rw [order]
        exact List.mem_append_left _ (List.mem_of_getElem? taken)
      rw [if_pos ((inv.delivery b).fits boxed)] at failed
      cases failed
    · obtain ⟨_, _, failed⟩ := Option.map_eq_some_iff.mp failed
      cases failed

/-- The only assertions that can fail are those on the arguments of `Send` and `Receive`. -/
theorem step_error (h : (postMachine numBoxes Thread drops).Reachable s) {e : PostEvent Thread}
    {fault : RequestFault} (failed : step drops e s = some (.error fault)) :
    e.Refused numBoxes := by
  cases e with
  | send a t to_ mailHdr data heap wireHeap =>
    simp only [step] at failed
    split at failed
    · split at failed
      · split at failed
        · exact absurd failed (outputStep_ne_error h)
        · cases failed
      next invalid => exact invalid
    · cases failed
  | sendStep a t => exact outputStep_ne_error h failed
  | sendInterrupt a serial => exact outputStep_ne_error h failed
  | poll b sender => exact poll_ne_error h (inputStep_error failed)
  | worker b => exact workerStep_ne_error (.of_reachable h) (inputStep_error failed)
  | receive b t box =>
    simp only [step] at failed
    split at failed
    · have failed := inputStep_error failed
      unfold PostInput.receive at failed
      split at failed
      · obtain ⟨_, _, failed⟩ := Option.map_eq_some_iff.mp failed
        cases failed
      next invalid => exact invalid
    · cases failed
  | receiveStep b t => exact receiveStep_ne_error h (inputStep_error failed)

/-- `messageAvailable` counts no more than the one packet in the device's buffer. -/
theorem available_sem (h : (postMachine numBoxes Thread drops).Reachable s) (b : NetworkAddress) :
    SemInvariant 0 (s b).input.messageAvailable := by
  refine .of_reachable le_rfl (by decide)
    ((postAvailable numBoxes Thread drops b).reachableUnder ?_ h)
  intro s reached
  have unit := ((PostInvariant.of_reachable reached).delivery b).unit
  unfold OneUnit at unit
  exact SemEvent.fits_of_lt (s := (s b).input.messageAvailable) (by omega)

/-- With a packet in the device's buffer the postal worker is not asleep. -/
theorem worker_awake (h : (postMachine numBoxes Thread drops).Reachable s) {b : NetworkAddress}
    (worker : (s b).input.worker = .waiting) (full : (s b).input.inDevice ≠ []) :
    ∃ i, (s b).input.workerStep (numBoxes b) = some (.ok i) ∧ i.worker = .receiving := by
  have delivery := (PostInvariant.of_reachable h).delivery b
  have value : (s b).input.messageAvailable.sem.value = 1 := by
    rcases delivery.unit with ⟨empty, _⟩ | ⟨_, ⟨one, _⟩ | ⟨_, _, receiving, _⟩⟩
    · simp [PostInput.inDevice, empty] at full
    · exact one
    · simp [worker] at receiving
  have sem := available_sem h b
  have awake : (s b).input.messageAvailable.phase () ≠ .queued := by
    intro queued
    have unslept := sem.no_lost_wakeup (List.ne_nil_of_mem ((sem.queued_iff ()).mpr queued))
    have none : (s b).input.messageAvailable.wokenCount = 0 := by
      simp [SemState.wokenCount, count, queued]
    rw [value, none] at unslept
    exact absurd unslept (by decide)
  have pass := SemState.pass_available awake (by rw [value]; decide)
  refine ⟨(s b).input.waited ((s b).input.messageAvailable.consumed ()), ?_, ?_⟩
  · simp only [PostInput.workerStep, worker, pass, Option.map_some]
  · simp [PostInput.waited, SemState.consumed]

/-- A message on its way does not wait for anything but the lock of its box. -/
theorem worker_moves (h : (postMachine numBoxes Thread drops).Reachable s) {b : NetworkAddress}
    (transit : (s b).input.inTransit ≠ []) (outside : ∀ box, (s b).input.worker ≠ .putting box) :
    ∃ i, (s b).input.workerStep (numBoxes b) = some (.ok i) ∧ i.worker ≠ (s b).input.worker := by
  have delivery := (PostInvariant.of_reachable h).delivery b
  cases worker : (s b).input.worker with
  | waiting =>
    have full : (s b).input.inDevice ≠ [] := by
      simpa [PostInput.inTransit, PostInput.withWorker, worker] using transit
    obtain ⟨i, step, receiving⟩ := worker_awake h worker full
    exact ⟨i, step, by simp [receiving]⟩
  | receiving =>
    refine ⟨(s b).input.fetched, ?_, ?_⟩
    · simp [PostInput.workerStep, worker]
    · simp [PostInput.fetched]
  | delivering pktHdr =>
    obtain ⟨idle, rest⟩ := delivery.resting (Header.load (s b).input.buffer).to_ (outside _)
    obtain ⟨messages, step⟩ := SynchInvariant.append_called
      ((postBox numBoxes Thread drops b _).reachable h) idle rest ((s b).input.newLetter pktHdr)
    refine ⟨(s b).input.posted (Header.load (s b).input.buffer).to_ messages, ?_, ?_⟩
    · simp only [PostInput.workerStep, worker]
      rw [if_pos (delivery.delivering worker)]
      exact Option.map_eq_some_iff.mpr ⟨messages, step, rfl⟩
    · simp [PostInput.posted]
  | putting box => exact absurd worker (outside box)

end PostSystem

/-- Every interleaving of senders, interrupts, postal workers and receivers on all
machines, whatever is dropped. What was taken from a box is, for each sending
machine, a subsequence of what that machine sent to the box, in sending order and
unchanged; of what was taken, each message was returned by one call of `Receive` or
is in the hands of one. A machine has read the first messages that another one put
on the network for it; each is in the box it is addressed to, in the order of
reading, or among the at most two still on their way, and none is on its way once
the worker waits and the buffer is empty. The worker goes on with a message on its
way until it is in `Append` on the box, and the assertion there holds; no other
assertion fails than those on the arguments of `Send` and `Receive`. -/
theorem post_safe [Fintype Thread] (drops : NetworkAddress → Nat → Bool)
    (s : PostSystem numBoxes Thread) (h : (postMachine numBoxes Thread drops).Reachable s) :
    (∀ a b box, ((((s b).input.boxes box).removed.map Letter.mail).filter
      (·.pktHdr.from_ = a)).Sublist (s.sent a b box)) ∧
    (∀ b box, Accounted ((s b).input.boxes box).removed ((s b).input.held box)
      ((s b).input.returned box)) ∧
    (∀ a b, (s b).input.read.filter (·.pktHdr.from_ = a) =
      ((s.network a b).take ((s b).input.taken a)).map SendRequest.mail) ∧
    (∀ b box, (s b).input.read.filter (·.mailHdr.to_ = box) =
      ((s b).input.boxes box).appended.map Letter.mail ++
        (s b).input.inTransit.filter (·.mailHdr.to_ = box)) ∧
    (∀ b, (s b).input.inTransit.length ≤ 2 ∧
      ((s b).input.worker = .waiting → (s b).input.inDevice = [] → (s b).input.inTransit = [])) ∧
    (∀ b, (s b).input.inTransit ≠ [] → (∀ box, (s b).input.worker ≠ .putting box) →
      ∃ i, (s b).input.workerStep (numBoxes b) = some (.ok i) ∧ i.worker ≠ (s b).input.worker) ∧
    (∀ b box letter, ((s b).input.boxes box).pc none = .appendPut letter →
      letter ∉ ((s b).input.boxes box).list) ∧
    (∀ e fault, PostSystem.step drops e s = some (.error fault) → e.Refused numBoxes) := by
  have inv := PostInvariant.of_reachable h
  have order : ∀ b box, ((s b).input.boxes box).appended = _ ++ _ := fun b box =>
    (SynchInvariant.of_reachable ((postBox numBoxes Thread drops b box).reachable h)).order
  refine ⟨fun a b box => ?_, fun b => (inv.receiving b).accounted, fun a b => (inv.order a b).2,
    fun b => (inv.delivery b).delivered,
    fun b => ⟨DeliveryInvariant.inTransit_length _, fun worker device => ?_⟩,
    fun b => PostSystem.worker_moves h, fun b box letter pc listed => ?_,
    fun e fault => PostSystem.step_error h⟩
  · refine List.Sublist.trans ?_ (inv.appended_sublist a b box)
    rw [order b box]
    exact ((List.sublist_append_left _ _).map _).filter _
  · simp [PostInput.inTransit, PostInput.withWorker, worker, device]
  · refine (inv.delivery b).unlisted pc ?_
    rw [order b box]
    exact List.mem_append_right _ listed

/-- Thread `t` of machine 5 sends two bytes to box 3 of machine 7. -/
def sendRun {Thread : Type} (t : Thread) (first : Byte) (serial : Nat) : List (PostEvent Thread) :=
  [.send 5 t 7 ⟨3, 1, 2⟩ (fun i => if i = 0 then first else 105) (fun _ => 0) (fun _ => 0),
    .sendStep 5 t, .sendStep 5 t, .sendStep 5 t, .sendInterrupt 5 serial, .sendStep 5 t,
    .sendStep 5 t, .sendStep 5 t, .sendStep 5 t]

/-- Two messages are sent, of which the first is dropped; the second is read, put in
its box and received by thread `u` of machine 7. -/
def postRun {Thread : Type} (t u : Thread) : List (PostEvent Thread) :=
  sendRun t 72 0 ++ sendRun t 104 1 ++ [.worker 7, .poll 7 (some 5)] ++
    List.replicate 9 (.worker 7) ++ [.receive 7 u 3] ++ List.replicate 6 (.receiveStep 7 u)

def postStart : PostSystem (fun _ => 4) (Fin 2) := fun _ =>
  ⟨.initial ⟨0, []⟩, .initial (fun _ => 0) (fun _ => 0)⟩

/-- In the run above the caller gets the second message. -/
theorem post_safe_second_message :
    ∃ s, (postMachine (fun _ => 4) (Fin 2) (fun _ n => n == 0)).run (postRun 0 1) postStart =
        some s ∧
      ((s 7).input.returned 3).map (fun x => (x.1, x.2.mail.data)) = [(0, [104, 105])] ∧
      (s 5).output.calls.length = 2 ∧
      ((((s 7).input.boxes 3).removed.map Letter.mail).filter (·.pktHdr.from_ = 5)).Sublist
        (s.sent 5 7 3) ∧
      (s 7).input.inTransit = [] := by
  have replay : ((postMachine (fun _ => 4) (Fin 2) (fun _ n => n == 0)).run (postRun 0 1)
      postStart).map (fun s => (((s 7).input.returned 3).map (fun x => (x.1, x.2.mail.data)),
        (s 5).output.calls.length, (s 7).input.worker, (s 7).input.inDevice)) =
      some ([(0, [104, 105])], 2, .waiting, []) := by decide +kernel
  obtain ⟨s, hs, view⟩ := Option.map_eq_some_iff.mp replay
  simp only [Prod.mk.injEq] at view
  obtain ⟨returned, calls, worker, device⟩ := view
  have start : (postMachine (fun _ => 4) (Fin 2) (fun _ n => n == 0)).Reachable postStart :=
    .init fun _ => ⟨_, _, rfl⟩
  have safe := post_safe _ s (start.run (postRun 0 1) hs)
  exact ⟨s, hs, returned, calls, safe.1 5 7 3, (safe.2.2.2.2.1 7).2 worker device⟩

end NachOS.Network
