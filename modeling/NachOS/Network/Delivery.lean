import NachOS.Network.Post

/-!
# The way of a message

A message is in the socket of its receiver, in the device's buffer, in the hands
of the postal worker, on the list of its box, in the hands of a receiver, or
returned. Each of the two invariants below follows it over one half of that way on
one machine: from the socket to the list of its box, and from there to the caller
of `Receive`.
-/
namespace NachOS.Network
open NachOS.Lib NachOS.Threads

variable {numBoxes : NetworkAddress → Int}

section Machine

variable {Thread : Type} [DecidableEq Thread]

namespace PostInput

/-- The mail in the device's buffer. -/
def inDevice (i : PostInput Thread) : List Mail :=
  if i.inHdr.length.toNat = 0 then [] else [.ofBuffer i.inHdr i.inbox]

/-- The mail in the hands of the postal worker, until it is on the list of its box. -/
def withWorker (i : PostInput Thread) : List Mail :=
  match i.worker with
  | .waiting | .receiving => []
  | .delivering pktHdr => [.ofBuffer pktHdr i.buffer]
  | .putting box => ((i.boxes box).pc none).pending.toList.map Letter.mail

/-- The mail that was read and is in no box yet, oldest first. -/
def inTransit (i : PostInput Thread) : List Mail := i.withWorker ++ i.inDevice

omit [DecidableEq Thread] in
/-- What a step on one box keeps there is the same in every box. -/
theorem update_boxes_congr {i : PostInput Thread} {box : MailBoxAddress}
    {messages : SynchState (Option Thread) Letter} {β : Type}
    (part : SynchState (Option Thread) Letter → β) (same : part messages = part (i.boxes box))
    (box' : MailBoxAddress) :
    part (Function.update i.boxes box messages box') = part (i.boxes box') := by
  by_cases hb : box' = box
  · subst hb
    rw [Function.update_self, same]
  · rw [Function.update_of_ne hb]

omit [DecidableEq Thread] in
/-- What a step of a receiver on one box leaves to the worker. -/
theorem workerSame {i : PostInput Thread} {box : MailBoxAddress} {t : Thread}
    {messages : SynchState (Option Thread) Letter}
    (others : SynchState.SameFor (some t) (i.boxes box) messages)
    (appended : messages.appended = (i.boxes box).appended) (box' : MailBoxAddress) :
    (Function.update i.boxes box messages box').pc none = (i.boxes box').pc none ∧
    ((Function.update i.boxes box messages box').listEmpty.AtRest none ↔
      (i.boxes box').listEmpty.AtRest none) ∧
    (Function.update i.boxes box messages box').appended = (i.boxes box').appended := by
  obtain ⟨pc, rest⟩ := others none (by simp)
  refine ⟨update_boxes_congr (·.pc none) pc box', ?_,
    update_boxes_congr SynchState.appended appended box'⟩
  exact iff_of_eq (update_boxes_congr (·.listEmpty.AtRest none) (propext rest) box')

omit [DecidableEq Thread] in
/-- What a step of the worker on one box leaves to the receivers. -/
theorem receiversSame {i : PostInput Thread} {box : MailBoxAddress}
    {messages : SynchState (Option Thread) Letter}
    (others : SynchState.SameFor none (i.boxes box) messages)
    (removed : messages.removed = (i.boxes box).removed) (box' : MailBoxAddress) :
    (∀ t, (Function.update i.boxes box messages box').pc (some t) = (i.boxes box').pc (some t)) ∧
    (Function.update i.boxes box messages box').removed = (i.boxes box').removed := by
  refine ⟨fun t => ?_, update_boxes_congr SynchState.removed removed box'⟩
  exact update_boxes_congr (·.pc (some t)) (others (some t) (by simp)).1 box'

/-- The letter of a box that `t` has taken off the list and not returned. -/
def held (i : PostInput Thread) (box : MailBoxAddress) (t : Thread) : Option (Nat × Letter) :=
  match i.pc t with
  | .holding box' position letter => if box' = box then some (position, letter) else none
  | .idle | .getting _ => none

end PostInput

variable (numBoxes) in
/-- The way of a message on machine `b` from the socket to a box. -/
structure DeliveryInvariant (b : NetworkAddress) (i : PostInput Thread) : Prop where
  /-- The device's buffer and the unit of `messageAvailable` go together. -/
  unit : (i.inHdr.length.toNat = 0 ∧ i.messageAvailable.sem.value = 0 ∧ i.worker ≠ .receiving) ∨
    (i.inHdr.length.toNat ≠ 0 ∧
      OneUnit i.messageAvailable.sem.value fun _ : Unit => i.worker = .receiving)
  worker : ∀ box, ((i.boxes box).pc none).appends = true
  resting : ∀ box, i.worker ≠ .putting box →
    (i.boxes box).pc none = .idle ∧ (i.boxes box).listEmpty.AtRest none
  origin : ∀ m ∈ i.read, ∃ r : SendRequest numBoxes, r.to_ = b ∧ m = r.mail
  delivered : ∀ box, i.read.filter (·.mailHdr.to_ = box) =
    (i.boxes box).appended.map Letter.mail ++ i.inTransit.filter (·.mailHdr.to_ = box)
  fresh : ∀ box, ∀ l ∈ (i.boxes box).appended, l.address < i.letters
  unposted : ∀ box l, i.worker = .putting box → ((i.boxes box).pc none).pending = some l →
    l.mail.mailHdr.to_ = box ∧ l.address < i.letters ∧
    ∀ l' ∈ (i.boxes box).appended, l'.address ≠ l.address

/-- What a place in `Receive` says about the thread's places in the code of the lists. -/
def ReceivePc.At (list : MailBoxAddress → SynchPc Letter) : ReceivePc → Prop
  | idle => True
  | getting box => list box = .removeTest ∨ list box = .removeTake
  | holding box _ letter => list box = .removeRelease letter ∨ list box = .idle

/-- The way of a message from a box to the caller of `Receive`. -/
structure ReceivingInvariant (i : PostInput Thread) : Prop where
  receivers : ∀ box t, ((i.boxes box).pc (some t)).removes = true
  place : ∀ t, (i.pc t).At fun box => (i.boxes box).pc (some t)
  accounted : ∀ box, Accounted (i.boxes box).removed (i.held box) (i.returned box)

namespace DeliveryInvariant

variable {b : NetworkAddress} {i i' : PostInput Thread}

omit [DecidableEq Thread] in
theorem initial (inbox buffer : Buf) :
    DeliveryInvariant numBoxes b (.initial inbox buffer : PostInput Thread) where
  unit := .inl ⟨rfl, rfl, by simp [PostInput.initial]⟩
  worker := fun _ => rfl
  resting := fun _ _ => ⟨rfl, rfl, rfl⟩
  origin := by simp [PostInput.initial]
  delivered := fun _ => rfl
  fresh := by simp [PostInput.initial, SynchState.initial]
  unposted := by simp [PostInput.initial]

omit [DecidableEq Thread] in
theorem read_of_inTransit (h : DeliveryInvariant numBoxes b i) {m : Mail} (hm : m ∈ i.inTransit) :
    m ∈ i.read := by
  have member : m ∈ i.read.filter (·.mailHdr.to_ = m.mailHdr.to_) := by
    rw [h.delivered, List.mem_append]
    exact .inr (List.mem_filter.mpr ⟨hm, by simp⟩)
  exact List.mem_of_mem_filter member

omit [DecidableEq Thread] in
/-- What a receiver does leaves the way to the boxes alone. -/
theorem congr (h : DeliveryInvariant numBoxes b i)
    {boxes : MailBoxAddress → SynchState (Option Thread) Letter} {pc : Thread → ReceivePc}
    {returned : MailBoxAddress → List (Nat × Letter)}
    (same : ∀ box, (boxes box).pc none = (i.boxes box).pc none ∧
      ((boxes box).listEmpty.AtRest none ↔ (i.boxes box).listEmpty.AtRest none) ∧
      (boxes box).appended = (i.boxes box).appended) :
    DeliveryInvariant numBoxes b { i with boxes, pc, returned } := by
  have transit : ({ i with boxes, pc, returned } : PostInput Thread).inTransit = i.inTransit := by
    unfold PostInput.inTransit PostInput.withWorker
    cases i.worker with
    | putting box =>
      simp only [(same box).1]
      rfl
    | waiting | receiving | delivering => rfl
  exact {
    unit := h.unit
    worker := by
      intro box
      rw [(same box).1]
      exact h.worker box
    resting := by
      intro box
      simp only [(same box).1, (same box).2.1]
      exact h.resting box
    origin := h.origin
    delivered := by
      intro box
      rw [transit, (same box).2.2]
      exact h.delivered box
    fresh := by
      intro box
      rw [(same box).2.2]
      exact h.fresh box
    unposted := by
      intro box l
      simp only [(same box).1, (same box).2.2]
      exact h.unposted box l }

omit [DecidableEq Thread] in
/-- A packet comes from the socket into the empty buffer. -/
theorem arrived (h : DeliveryInvariant numBoxes b i) (empty : i.inHdr.length.toNat = 0)
    (a : NetworkAddress) (r : SendRequest numBoxes) (mine : r.to_ = b) :
    DeliveryInvariant numBoxes b (i.arrived a r.wire) := by
  have header : Header.load r.wire = r.pktHdr := load_join
  have length : r.pktHdr.length.toNat ≠ 0 := by
    rw [r.pktHdr_length]
    unfold HeaderSize
    omega
  have mail : Mail.ofBuffer r.pktHdr (blit i.inbox 0 (payload r.wire) r.pktHdr.length.toNat) =
      Mail.ofWire r.wire := by
    have inner : Header.load (payload r.wire) = r.mailHdr := by
      have := congrArg Mail.mailHdr r.ofWire_wire
      exact this
    rw [Mail.ofWire, header]
    refine (Mail.ofBuffer_congr fun j hj => ?_).symm
    rw [inner, ← r.pktHdr_length] at hj
    rw [blit_inside (Nat.zero_le _) (by omega), Nat.sub_zero]
  have transit : (i.arrived a r.wire).inTransit = i.inTransit ++ [Mail.ofWire r.wire] := by
    have before : i.inDevice = [] := by simp [PostInput.inDevice, empty]
    have after : (i.arrived a r.wire).inDevice = [Mail.ofWire r.wire] := by
      simp [PostInput.inDevice, PostInput.arrived, header, length, mail]
    unfold PostInput.inTransit
    rw [before, after, List.append_nil]
    rfl
  exact {
    unit := by
      refine .inr ⟨?_, ?_⟩
      · simpa [PostInput.arrived, header] using length
      · rcases h.unit with ⟨_, value, idle⟩ | ⟨full, _⟩
        · simp only [PostInput.arrived, SemState.signal_value]
          exact .signalled value fun _ => idle
        · exact absurd empty full
    worker := h.worker
    resting := h.resting
    origin := by
      intro m hm
      rcases List.mem_append.mp hm with hm | hm
      · exact h.origin m hm
      · exact ⟨r, mine, (List.mem_singleton.mp hm).trans r.ofWire_wire⟩
    delivered := by
      intro box
      rw [transit, List.filter_append, ← List.append_assoc]
      simp only [PostInput.arrived, List.filter_append]
      rw [h.delivered box]
    fresh := h.fresh
    unposted := h.unposted }

omit [DecidableEq Thread] in
/-- The worker takes the packet out of the device's buffer. -/
theorem fetched (h : DeliveryInvariant numBoxes b i) (worker : i.worker = .receiving) :
    DeliveryInvariant numBoxes b i.fetched := by
  have full : i.inHdr.length.toNat ≠ 0 ∧ i.messageAvailable.sem.value = 0 := by
    rcases h.unit with ⟨_, _, idle⟩ | ⟨full, unit⟩
    · exact absurd worker idle
    · exact ⟨full, unit.value_eq_zero (t := ()) worker⟩
  have before : i.inTransit = [Mail.ofBuffer i.inHdr i.inbox] := by
    simp [PostInput.inTransit, PostInput.withWorker, PostInput.inDevice, worker, full.1]
  have member : Mail.ofBuffer i.inHdr i.inbox ∈ i.inTransit := by
    rw [before]
    exact List.mem_singleton_self _
  obtain ⟨r, _, mail⟩ := h.origin _ (h.read_of_inTransit member)
  have outer : i.inHdr = r.pktHdr := congrArg Mail.pktHdr mail
  have inner : Header.load i.inbox = r.mailHdr := congrArg Mail.mailHdr mail
  have copied : Mail.ofBuffer i.inHdr i.inbox =
      Mail.ofBuffer i.inHdr (blit i.buffer 0 i.inbox i.inHdr.length.toNat) := by
    refine Mail.ofBuffer_congr fun j hj => ?_
    rw [inner, ← r.pktHdr_length, ← outer] at hj
    rw [blit_inside (Nat.zero_le _) (by omega), Nat.sub_zero]
  have after : i.fetched.inTransit = i.inTransit := by
    rw [before, copied]
    simp [PostInput.inTransit, PostInput.withWorker, PostInput.inDevice, PostInput.fetched, full.1]
  exact {
    unit := .inl ⟨rfl, full.2, by simp [PostInput.fetched]⟩
    worker := h.worker
    resting := by
      intro box _
      exact h.resting box (by simp [worker])
    origin := h.origin
    delivered := by
      intro box
      rw [after]
      exact h.delivered box
    fresh := h.fresh
    unposted := by
      intro box l hw
      simp [PostInput.fetched] at hw }

/-- The worker calls `Append` on the box the mail is addressed to. -/
theorem posted (h : DeliveryInvariant numBoxes b i) {pktHdr : PacketHeader}
    {messages : SynchState (Option Thread) Letter} (worker : i.worker = .delivering pktHdr)
    (enters : SynchState.Enters (i.boxes (Header.load i.buffer).to_) none
      (.appendPut (i.newLetter pktHdr)) messages) :
    DeliveryInvariant numBoxes b (i.posted (Header.load i.buffer).to_ messages) := by
  generalize hbox : (Header.load i.buffer).to_ = box at enters
  have address : (i.newLetter pktHdr).mail.mailHdr.to_ = box := hbox
  have pc : messages.pc none = .appendPut (i.newLetter pktHdr) := by
    rw [enters.after, Function.update_self]
  have appended : ∀ box', ((i.posted box messages).boxes box').appended =
      (i.boxes box').appended :=
    PostInput.update_boxes_congr SynchState.appended enters.appended
  have transit : (i.posted box messages).inTransit = i.inTransit := by
    simp [PostInput.inTransit, PostInput.withWorker, PostInput.inDevice, PostInput.posted,
      PostInput.setBox, worker, pc, SynchPc.pending, PostInput.newLetter]
  exact {
    unit := by
      rcases h.unit with ⟨empty, value, _⟩ | ⟨full, unit⟩
      · exact .inl ⟨empty, value, by simp [PostInput.posted]⟩
      · exact .inr ⟨full, unit.congr fun _ => by simp [PostInput.posted, worker]⟩
    worker := by
      intro box'
      by_cases hb : box' = box
      · subst hb
        simp [PostInput.posted, PostInput.setBox, pc, SynchPc.appends]
      · simpa [PostInput.posted, PostInput.setBox, Function.update_of_ne hb] using h.worker box'
    resting := by
      intro box' hw
      have hb : box' ≠ box := by
        rintro rfl
        exact hw rfl
      simp only [PostInput.posted, PostInput.setBox, Function.update_of_ne hb]
      exact h.resting box' (by simp [worker])
    origin := h.origin
    delivered := by
      intro box'
      rw [appended, transit]
      exact h.delivered box'
    fresh := by
      intro box' l hl
      rw [appended] at hl
      exact Nat.lt_succ_of_lt (h.fresh box' l hl)
    unposted := by
      intro box' l hw hl
      have hb : box = box' := by simpa [PostInput.posted] using hw
      subst hb
      have hl : i.newLetter pktHdr = l := by
        simpa [PostInput.posted, PostInput.setBox, pc, SynchPc.pending] using hl
      subst hl
      refine ⟨address, Nat.lt_succ_self _, fun l' hl' => ?_⟩
      rw [appended] at hl'
      exact Nat.ne_of_lt (h.fresh box l' hl') }

section Putting

variable {box : MailBoxAddress} {messages : SynchState (Option Thread) Letter}

omit [DecidableEq Thread] in
/-- The worker does nothing but append, in the box of its call and in the others. -/
theorem put_appends (h : DeliveryInvariant numBoxes b i)
    (progress : SynchState.Progress (i.boxes box) none messages) (box' : MailBoxAddress) :
    (((i.setBox box messages).boxes box').pc none).appends = true := by
  unfold PostInput.setBox
  by_cases hb : box' = box
  · subst hb
    simp only [Function.update_self]
    exact progress.appends (h.worker box')
  · simp only [Function.update_of_ne hb]
    exact h.worker box'

omit [DecidableEq Thread] in
theorem put_resting (h : DeliveryInvariant numBoxes b i) (worker : i.worker = .putting box)
    {box' : MailBoxAddress} (other : (i.setBox box messages).worker ≠ .putting box') :
    ((i.setBox box messages).boxes box').pc none = .idle ∧
      ((i.setBox box messages).boxes box').listEmpty.AtRest none := by
  have hb : box' ≠ box := by
    rintro rfl
    exact other worker
  unfold PostInput.setBox
  simp only [Function.update_of_ne hb]
  exact h.resting box' other

omit [DecidableEq Thread] in
/-- A step that leaves the list alone, before the letter is on it or after. -/
theorem putMove (h : DeliveryInvariant numBoxes b i) (worker : i.worker = .putting box)
    (progress : SynchState.Progress (i.boxes box) none messages)
    (pc : SynchState.Move ((i.boxes box).pc none) (messages.pc none))
    (appended : messages.appended = (i.boxes box).appended) :
    DeliveryInvariant numBoxes b (i.setBox box messages) := by
  have same : ∀ box', ((i.setBox box messages).boxes box').appended =
      (i.boxes box').appended :=
    PostInput.update_boxes_congr SynchState.appended appended
  have transit : (i.setBox box messages).inTransit = i.inTransit := by
    simp [PostInput.inTransit, PostInput.withWorker, PostInput.inDevice, PostInput.setBox,
      worker, pc.pending]
  exact {
    unit := h.unit
    worker := h.put_appends progress
    resting := fun box' other => h.put_resting worker other
    origin := h.origin
    delivered := by
      intro box'
      rw [same, transit]
      exact h.delivered box'
    fresh := by
      intro box'
      rw [same]
      exact h.fresh box'
    unposted := by
      intro box' l hw hl
      have hb : box = box' := WorkerPc.putting.inj (worker.symm.trans hw)
      subst hb
      have here : (i.setBox box messages).boxes box = messages := Function.update_self ..
      rw [here, pc.pending] at hl
      rw [same]
      exact h.unposted box l worker hl }

omit [DecidableEq Thread] in
/-- The step that puts the letter on the list. -/
theorem putItem (h : DeliveryInvariant numBoxes b i) (worker : i.worker = .putting box)
    (progress : SynchState.Progress (i.boxes box) none messages) {item : Letter}
    (before : (i.boxes box).pc none = .appendPut item)
    (after : messages.pc none = .appendSignal)
    (appended : messages.appended = (i.boxes box).appended ++ [item]) :
    DeliveryInvariant numBoxes b (i.setBox box messages) := by
  have elsewhere : ∀ box', box' ≠ box → (i.setBox box messages).boxes box' = i.boxes box' :=
    fun box' hb => Function.update_of_ne hb _ _
  have here : (i.setBox box messages).boxes box = messages := Function.update_self ..
  obtain ⟨addressed, old, _⟩ := h.unposted box item worker (by rw [before]; rfl)
  have was : i.withWorker = [item.mail] := by
    simp [PostInput.withWorker, worker, before, SynchPc.pending]
  have done : (i.setBox box messages).withWorker = [] := by
    simp [PostInput.withWorker, PostInput.setBox, worker, after, SynchPc.pending]
  have transit : i.inTransit = item.mail :: (i.setBox box messages).inTransit := by
    unfold PostInput.inTransit
    rw [was, done]
    rfl
  exact {
    unit := h.unit
    worker := h.put_appends progress
    resting := fun box' other => h.put_resting worker other
    origin := h.origin
    delivered := by
      intro box'
      have delivered : (i.setBox box messages).read.filter (·.mailHdr.to_ = box') =
          (i.boxes box').appended.map Letter.mail ++ i.inTransit.filter (·.mailHdr.to_ = box') :=
        h.delivered box'
      rw [transit] at delivered
      by_cases hb : box' = box
      · subst hb
        rw [here, appended]
        simpa [addressed] using delivered
      · rw [elsewhere box' hb]
        simpa [addressed, Ne.symm hb] using delivered
    fresh := by
      intro box' l hl
      by_cases hb : box' = box
      · subst hb
        rw [here, appended] at hl
        rcases List.mem_append.mp hl with hl | hl
        · exact h.fresh box' l hl
        · exact List.mem_singleton.mp hl ▸ old
      · rw [elsewhere box' hb] at hl
        exact h.fresh box' l hl
    unposted := by
      intro box' l hw hl
      have hb : box = box' := WorkerPc.putting.inj (worker.symm.trans hw)
      subst hb
      rw [here, after] at hl
      cases hl }

omit [DecidableEq Thread] in
/-- A step of the worker inside `Append`. -/
theorem put (h : DeliveryInvariant numBoxes b i) (worker : i.worker = .putting box)
    (progress : SynchState.Progress (i.boxes box) none messages) :
    DeliveryInvariant numBoxes b (i.setBox box messages) := by
  have inCall := progress
  cases progress with
  | move pc appended _ => exact h.putMove worker inCall pc appended
  | put item before after appended _ => exact h.putItem worker inCall before after appended
  | take item before _ _ _ =>
    have := h.worker box
    rw [before] at this
    cases this

end Putting

theorem next (h : DeliveryInvariant numBoxes b i)
    (receivers : ∀ box t, ((i.boxes box).pc (some t)).removes = true) (effect : i.Effect i') :
    DeliveryInvariant numBoxes b i' := by
  cases effect with
  | pass worker available _ =>
    refine ⟨.inr ?_, h.worker, fun box _ => h.resting box (by simp [worker]), h.origin,
      fun box => ?_, h.fresh, fun box l hw => ?_⟩
    · rcases h.unit with ⟨_, value, _⟩ | ⟨full, unit⟩
      · exact absurd value available
      · exact ⟨full, unit.taken available (t := ()) fun _ => by simp⟩
    · have transit : i.inTransit = ({ i with
          messageAvailable := i.messageAvailable.consumed ()
          worker := .receiving } : PostInput Thread).inTransit := by
        simp [PostInput.inTransit, PostInput.withWorker, PostInput.inDevice, worker]
      rw [← transit]
      exact h.delivered box
    · simp at hw
  | sleep => exact ⟨h.unit, h.worker, h.resting, h.origin, h.delivered, h.fresh, h.unposted⟩
  | fetch worker => exact h.fetched worker
  | post pktHdr messages worker step => exact h.posted worker (SynchState.append_enters step)
  | put box messages worker step => exact h.put worker (SynchState.step_progress step).1
  | done box worker idle rest =>
    have transit : ({ i with worker := .waiting } : PostInput Thread).inTransit = i.inTransit := by
      simp [PostInput.inTransit, PostInput.withWorker, PostInput.inDevice, worker, idle,
        SynchPc.pending]
    exact {
      unit := by
        rcases h.unit with ⟨empty, value, _⟩ | ⟨full, unit⟩
        · exact .inl ⟨empty, value, by simp⟩
        · exact .inr ⟨full, unit.congr fun _ => by simp [worker]⟩
      worker := h.worker
      resting := by
        intro box' _
        by_cases hb : box' = box
        · exact hb ▸ ⟨idle, rest⟩
        · exact h.resting box' (by simpa [worker] using Ne.symm hb)
      origin := h.origin
      delivered := by
        intro box
        rw [transit]
        exact h.delivered box
      fresh := h.fresh
      unposted := by
        intro box l hw
        simp at hw }
  | call t box messages pc step =>
    have enters := SynchState.removeFront_enters step
    exact h.congr (PostInput.workerSame enters.others enters.appended)
  | get t box messages pc step =>
    obtain ⟨progress, others⟩ := SynchState.step_progress step
    exact h.congr (PostInput.workerSame others (progress.appended_eq (receivers box t)))
  | returns t box position letter pc => exact h.congr fun _ => ⟨rfl, .rfl, rfl⟩

omit [DecidableEq Thread] in
/-- The assertions of `PostalDelivery` hold of what the worker took. -/
theorem delivering (h : DeliveryInvariant numBoxes b i) {pktHdr : PacketHeader}
    (worker : i.worker = .delivering pktHdr) :
    0 ≤ (Header.load i.buffer).to_.toInt ∧ (Header.load i.buffer).to_.toInt < numBoxes b ∧
    (Header.load i.buffer).length.toNat ≤ MaxMailSize := by
  have member : Mail.ofBuffer pktHdr i.buffer ∈ i.inTransit := by
    simp [PostInput.inTransit, PostInput.withWorker, worker]
  obtain ⟨r, rfl, mail⟩ := h.origin _ (h.read_of_inTransit member)
  have inner : Header.load i.buffer = r.mailHdr := congrArg Mail.mailHdr mail
  rw [inner]
  exact ⟨r.addressed.1, r.addressed.2, r.fits⟩

omit [DecidableEq Thread] in
/-- The assertion of `Receive` holds of every letter that was ever in a box. -/
theorem fits (h : DeliveryInvariant numBoxes b i) {box : MailBoxAddress} {l : Letter}
    (hl : l ∈ (i.boxes box).appended) : l.mail.mailHdr.length.toNat ≤ MaxMailSize := by
  have member : l.mail ∈ i.read.filter (·.mailHdr.to_ = box) := by
    rw [h.delivered, List.mem_append]
    exact .inl (List.mem_map_of_mem hl)
  obtain ⟨r, _, mail⟩ := h.origin _ (List.mem_of_mem_filter member)
  rw [mail]
  exact r.fits

omit [DecidableEq Thread] in
/-- The letter that the worker appends is not on the list yet. -/
theorem unlisted (h : DeliveryInvariant numBoxes b i) {box : MailBoxAddress} {l : Letter}
    (pc : (i.boxes box).pc none = .appendPut l) : l ∉ (i.boxes box).appended := by
  have worker : i.worker = .putting box := by
    by_contra other
    have := (h.resting box other).1
    rw [pc] at this
    cases this
  obtain ⟨_, _, new⟩ := h.unposted box l worker (by rw [pc]; rfl)
  exact fun hl => new l hl rfl

omit [DecidableEq Thread] in
/-- At most two messages are between the socket and the boxes. -/
theorem inTransit_length (i : PostInput Thread) : i.inTransit.length ≤ 2 := by
  have device : i.inDevice.length ≤ 1 := by
    unfold PostInput.inDevice
    split <;> simp
  have worker : i.withWorker.length ≤ 1 := by
    unfold PostInput.withWorker
    split
    · simp
    · simp
    · simp
    next box _ =>
      rw [List.length_map]
      cases ((i.boxes box).pc none).pending <;> simp
  unfold PostInput.inTransit
  rw [List.length_append]
  omega

end DeliveryInvariant

namespace PostInput

variable {i i' : PostInput Thread} {before after : SynchState (Option Thread) Letter} {t : Thread}
  {box : MailBoxAddress} {pc : ReceivePc}

omit [DecidableEq Thread] in
theorem handedOver_move
    (move : SynchState.Move (before.pc (some t)) (after.pc (some t))) :
    handedOver before after t box pc = pc := by
  unfold handedOver
  generalize before.pc (some t) = b at move
  generalize after.pc (some t) = a at move
  cases move with
  | stay => cases b <;> rfl
  | signal | appended | test | removed => rfl

omit [DecidableEq Thread] in
theorem held_congr (same : i'.pc t = i.pc t) : i'.held box t = i.held box t := by
  unfold held
  rw [same]

end PostInput

namespace ReceivingInvariant

variable {i i' : PostInput Thread} {t : Thread}

omit [DecidableEq Thread] in
theorem initial (inbox buffer : Buf) :
    ReceivingInvariant (.initial inbox buffer : PostInput Thread) where
  receivers := fun _ _ => rfl
  place := fun _ => trivial
  accounted := fun _ => .initial fun _ => rfl

omit [DecidableEq Thread] in
/-- What the device and the worker do leaves the receivers alone. -/
theorem congr (h : ReceivingInvariant i) (pc : i'.pc = i.pc) (returned : i'.returned = i.returned)
    (same : ∀ box, (∀ t, (i'.boxes box).pc (some t) = (i.boxes box).pc (some t)) ∧
      (i'.boxes box).removed = (i.boxes box).removed) : ReceivingInvariant i' := by
  refine ⟨fun box t => ?_, fun t => ?_, fun box => ?_⟩
  · rw [(same box).1]
    exact h.receivers box t
  · simp only [pc, (same _).1]
    exact h.place t
  · rw [returned, (same box).2]
    exact (h.accounted box).congr fun t => PostInput.held_congr (congrFun pc t)

/-- A step of the receiver `t` on `box`. -/
theorem acts (h : ReceivingInvariant i) {box : MailBoxAddress}
    {messages : SynchState (Option Thread) Letter}
    (boxes : i'.boxes = Function.update i.boxes box messages)
    (others : ∀ u, u ≠ t → i'.pc u = i.pc u)
    (elsewhere : SynchState.SameFor (some t) (i.boxes box) messages)
    (receiver : (messages.pc (some t)).removes = true)
    (place : (i'.pc t).At fun box => (i'.boxes box).pc (some t))
    (accounted : ∀ box, Accounted (i'.boxes box).removed (i'.held box) (i'.returned box)) :
    ReceivingInvariant i' := by
  have same : ∀ box' u, u ≠ t → (i'.boxes box').pc (some u) = (i.boxes box').pc (some u) := by
    intro box' u hu
    rw [boxes]
    by_cases hb : box' = box
    · subst hb
      rw [Function.update_self, (elsewhere (some u) fun same => hu (Option.some.inj same)).1]
    · rw [Function.update_of_ne hb]
  refine ⟨fun box' u => ?_, fun u => ?_, accounted⟩
  · by_cases hu : u = t
    · subst hu
      rw [boxes]
      by_cases hb : box' = box
      · subst hb
        rw [Function.update_self]
        exact receiver
      · rw [Function.update_of_ne hb]
        exact h.receivers box' u
    · rw [same box' u hu]
      exact h.receivers box' u
  · by_cases hu : u = t
    · exact hu ▸ place
    · simp only [others u hu, same _ u hu]
      exact h.place u

omit [DecidableEq Thread] in
/-- The records of the boxes when `t` neither takes a letter nor returns one. -/
theorem accounted_congr (h : ReceivingInvariant i) {box : MailBoxAddress}
    {messages : SynchState (Option Thread) Letter}
    (removed : messages.removed = (i.boxes box).removed)
    (held : ∀ box u, i'.held box u = i.held box u) (box' : MailBoxAddress) :
    Accounted (Function.update i.boxes box messages box').removed (i'.held box')
      (i.returned box') := by
  rw [PostInput.update_boxes_congr SynchState.removed removed]
  exact (h.accounted box').congr (held box')

theorem call (h : ReceivingInvariant i) {box : MailBoxAddress}
    {messages : SynchState (Option Thread) Letter} (pc : i.pc t = .idle)
    (enters : SynchState.Enters (i.boxes box) (some t) .removeTest messages) :
    ReceivingInvariant
      { i.setBox box messages with pc := Function.update i.pc t (.getting box) } := by
  have here : messages.pc (some t) = .removeTest := by rw [enters.after, Function.update_self]
  refine h.acts (t := t) rfl (fun u hu => Function.update_of_ne hu _ _) enters.others ?_ ?_
    (h.accounted_congr enters.removed fun box' u => ?_)
  · simp [here, SynchPc.removes]
  · simp [ReceivePc.At, PostInput.setBox, here]
  · by_cases hu : u = t
    · simp [PostInput.held, hu, pc]
    · exact PostInput.held_congr (Function.update_of_ne hu _ _)

omit [DecidableEq Thread] in
/-- A thread in `Receive` that stays where it is while `RemoveFront` moves on. -/
theorem place_move (h : ReceivingInvariant i) {box : MailBoxAddress} {list : SynchPc Letter}
    {lists : MailBoxAddress → SynchPc Letter} (inside : (i.pc t).box = some box)
    (here : lists box = list) (move : SynchState.Move ((i.boxes box).pc (some t)) list) :
    (i.pc t).At lists := by
  have place := h.place t
  rcases ReceivePc.box_eq_some inside with pc | ⟨position, letter, pc⟩
  · rw [pc] at place ⊢
    simp only [ReceivePc.At, here] at place ⊢
    exact move.beforeTake place
  · rw [pc] at place ⊢
    simp only [ReceivePc.At, here] at place ⊢
    exact move.afterTake place

/-- `RemoveFront` takes a letter. -/
theorem takes (h : ReceivingInvariant i) {box : MailBoxAddress} {letter : Letter}
    {messages : SynchState (Option Thread) Letter} (inside : (i.pc t).box = some box)
    (others : SynchState.SameFor (some t) (i.boxes box) messages)
    (before : (i.boxes box).pc (some t) = .removeTake)
    (after : messages.pc (some t) = .removeRelease letter)
    (removed : messages.removed = (i.boxes box).removed ++ [letter]) :
    ReceivingInvariant (i.got t box messages) := by
  have getting : i.pc t = .getting box := by
    rcases ReceivePc.box_eq_some inside with pc | ⟨position, letter, pc⟩
    · exact pc
    · have place := h.place t
      simp [pc, ReceivePc.At, before] at place
  have pc : (i.got t box messages).pc =
      Function.update i.pc t (.holding box (i.boxes box).removed.length letter) := by
    simp [PostInput.got, PostInput.handedOver, before, after]
  have free : ∀ box', i.held box' t = none := fun _ => by simp [PostInput.held, getting]
  have kept : ∀ box' u, u ≠ t → (i.got t box messages).held box' u = i.held box' u :=
    fun _ u hu => PostInput.held_congr (by rw [pc, Function.update_of_ne hu])
  refine h.acts (t := t) rfl (fun u hu => ?_) others (by simp [after, SynchPc.removes]) ?_
    (fun box' => ?_)
  · rw [pc, Function.update_of_ne hu]
  · rw [pc, Function.update_self]
    simp [ReceivePc.At, PostInput.got, PostInput.setBox, after]
  · by_cases hb : box' = box
    · subst hb
      simp only [PostInput.got, PostInput.setBox, Function.update_self, removed]
      exact (h.accounted box').take (free box')
        (by simp [PostInput.held, PostInput.handedOver, before, after]) (kept box')
    · simp only [PostInput.got, PostInput.setBox, Function.update_of_ne hb]
      refine (h.accounted box').congr fun u => ?_
      by_cases hu : u = t
      · subst hu
        rw [free]
        simp [PostInput.held, PostInput.handedOver, before, after, Ne.symm hb]
      · exact kept box' u hu

theorem returns (h : ReceivingInvariant i) {box : MailBoxAddress} {position : Nat} {letter : Letter}
    (pc : i.pc t = .holding box position letter) :
    ReceivingInvariant (i.returns t box position letter) := by
  have kept : ∀ box' u, u ≠ t → (i.returns t box position letter).held box' u = i.held box' u :=
    fun _ u hu => PostInput.held_congr (Function.update_of_ne hu _ _)
  have free : ∀ box', (i.returns t box position letter).held box' t = none :=
    fun _ => by simp [PostInput.held, PostInput.returns]
  have boxes : (i.returns t box position letter).boxes =
      Function.update i.boxes box (i.boxes box) := (Function.update_eq_self box i.boxes).symm
  refine h.acts (t := t) boxes (fun u hu => Function.update_of_ne hu _ _)
    (fun _ _ => ⟨rfl, .rfl⟩) (h.receivers box t) ?_ (fun box' => ?_)
  · simp [PostInput.returns, ReceivePc.At]
  · by_cases hb : box' = box
    · subst hb
      simp only [PostInput.returns, Function.update_self]
      exact (h.accounted box').give (by simp [PostInput.held, pc]) (free box') (kept box')
    · simp only [PostInput.returns, Function.update_of_ne hb]
      refine (h.accounted box').congr fun u => ?_
      by_cases hu : u = t
      · subst hu
        simp [PostInput.held, pc, Ne.symm hb]
      · exact kept box' u hu

theorem next (h : ReceivingInvariant i) (worker : ∀ box, ((i.boxes box).pc none).appends = true)
    (effect : i.Effect i') : ReceivingInvariant i' := by
  cases effect with
  | pass | sleep | fetch | done => exact h.congr rfl rfl fun _ => ⟨fun _ => rfl, rfl⟩
  | post pktHdr messages _ step =>
    have enters := SynchState.append_enters step
    exact h.congr rfl rfl (PostInput.receiversSame enters.others enters.removed)
  | put box messages _ step =>
    obtain ⟨progress, others⟩ := SynchState.step_progress step
    exact h.congr rfl rfl (PostInput.receiversSame others (progress.removed_eq (worker box)))
  | call t box messages pc step => exact h.call pc (SynchState.removeFront_enters step)
  | get t box messages inside step =>
    obtain ⟨progress, others⟩ := SynchState.step_progress step
    have receiver := progress.removes (h.receivers box t)
    cases progress with
    | move move _ removed =>
      have pc : (i.got t box messages).pc = i.pc := by
        simp [PostInput.got, PostInput.handedOver_move move]
      refine h.acts (t := t) rfl (fun u _ => congrFun pc u) others receiver ?_
        (h.accounted_congr removed fun _ u => PostInput.held_congr (congrFun pc u))
      rw [pc]
      exact h.place_move inside (by simp [PostInput.got, PostInput.setBox]) move
    | put item before _ _ _ =>
      have := h.receivers box t
      rw [before] at this
      cases this
    | take letter before after _ removed => exact h.takes inside others before after removed
  | returns t box position letter pc => exact h.returns pc

end ReceivingInvariant

end Machine

end NachOS.Network
