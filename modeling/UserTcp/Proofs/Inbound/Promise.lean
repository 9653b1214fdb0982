import UserTcp.Proofs.Inbound.Ends
import Mathlib.Data.Bool.Basic

namespace UserTcp

theorem Reassembly.Intact.holds_mono_insert {reassembly : Reassembly} {history : List UInt8}
    (hintact : reassembly.Intact history) (piece : Run) (last : Bool) {index : Nat}
    (hholds : reassembly.Holds index) : (reassembly.insert piece last).Holds index := by
  cases hadmits : reassembly.admits piece with
  | false =>
      rw [insert_of_not_admits reassembly piece last hadmits]
      exact hholds
  | true => exact (holds_insert hintact piece last hadmits index).mpr (.inl hholds)

-- An open output takes all of a piece that lies before the first index without room.
theorem Reassembly.Intact.holds_insert_of_open {reassembly : Reassembly} {history : List UInt8}
    (hintact : reassembly.Intact history) (piece : Run) (last : Bool)
    (hopen : reassembly.output.closed = false) {index : Nat} (hstart : piece.start ≤ index)
    (hstop : index < piece.stop) (hroom : index < reassembly.limit) :
    (reassembly.insert piece last).Holds index := by
  by_cases hout : index < reassembly.expected
  · exact hintact.holds_mono_insert piece last (.inl hout)
  · have hfree : 0 < reassembly.output.free := by
      unfold limit at hroom
      omega
    have hadmits := (reassembly.admits_iff piece).mpr ⟨hopen, hfree, by omega⟩
    exact (holds_insert hintact piece last hadmits index).mpr (.inr ⟨hstart, hstop, hroom⟩)

namespace Inbound

-- What happens to a receiver: chunks come in, whatever they say, and readers work at the
-- other end of its stream.
inductive Event where
  | receive (chunk : Chunk)
  | reader (op : Pipe.Op) (hop : op.feeds = false)

def after (inbound : Inbound) : Event → Inbound
  | .receive chunk => inbound.receive chunk
  | .reader op _ => inbound.mapStream fun pipe => (pipe.apply op).2

def afterAll (inbound : Inbound) (events : List Event) : Inbound :=
  events.foldl after inbound

def Tidy (inbound : Inbound) : Prop :=
  ∃ history, inbound.reassembly.Intact history

theorem tidy_ofCapacity (capacity : Nat) : (ofCapacity capacity).Tidy :=
  ⟨[], Reassembly.intact_ofOutput capacity⟩

-- The first sequence number that there is no room for.
def edge (inbound : Inbound) : Nat :=
  inbound.received + inbound.stream.free

-- What a receiver never takes back: where the stream starts, what it has acknowledged, the
-- room that it has offered behind that, and what is in.
structure Stands (before later : Inbound) : Prop where
  initial : ∀ known, before.initial = some known → later.initial = some known
  received_le : before.received ≤ later.received
  edge_le : before.edge ≤ later.edge
  holds : ∀ index, before.reassembly.Holds index → later.reassembly.Holds index

namespace Stands

variable {first second third : Inbound}

theorem refl (inbound : Inbound) : Stands inbound inbound where
  initial := fun _ hknown => hknown
  received_le := Nat.le_refl _
  edge_le := Nat.le_refl _
  holds := fun _ hholds => hholds

theorem trans (hfirst : Stands first second) (hsecond : Stands second third) :
    Stands first third where
  initial := fun known hknown => hsecond.initial known (hfirst.initial known hknown)
  received_le := Nat.le_trans hfirst.received_le hsecond.received_le
  edge_le := Nat.le_trans hfirst.edge_le hsecond.edge_le
  holds := fun index hholds => hsecond.holds index (hfirst.holds index hholds)

end Stands

theorem toNat_window (inbound : Inbound) :
    inbound.feedback.window.toNat = min inbound.stream.free 65535 :=
  UInt16.toNat_ofNat_of_lt' (by simp only [UInt16.size]; omega)

-- The window on the wire stops at its largest value, but it stops there on both sides.
theorem Stands.window_edge_le {before later : Inbound} (hstands : Stands before later) :
    before.received + before.feedback.window.toNat ≤
      later.received + later.feedback.window.toNat := by
  have hreceived := hstands.received_le
  have hedge := hstands.edge_le
  rw [toNat_window, toNat_window]
  unfold edge at hedge
  omega

namespace Tidy

variable {inbound : Inbound}

theorem learn (htidy : inbound.Tidy) (initial : SeqNo) :
    { inbound with initial := some initial }.Tidy :=
  htidy

protected theorem place (htidy : inbound.Tidy) (chunk : Chunk) (initial : SeqNo) :
    (inbound.place chunk initial).Tidy := by
  obtain ⟨history, hintact⟩ := htidy
  unfold Inbound.place
  split
  · exact ⟨history, hintact⟩
  · rename_i index _
    cases hadmits : inbound.reassembly.admits ⟨index, chunk.payload⟩ with
    | false =>
        rw [Reassembly.insert_of_not_admits _ _ _ hadmits]
        exact ⟨history, hintact⟩
    | true =>
        obtain ⟨longer, hlonger, -⟩ := hintact.insert _ chunk.fin hadmits
        exact ⟨longer, hlonger⟩

protected theorem receive (htidy : inbound.Tidy) (chunk : Chunk) :
    (inbound.receive chunk).Tidy := by
  unfold Inbound.receive
  split
  · exact htidy.imp fun _ hintact => hintact.apply .fail rfl
  · split
    · exact htidy.place chunk _
    · split
      · exact (htidy.learn chunk.seqno).place chunk _
      · exact htidy

-- Whatever room there is beyond what was taken, it ends a capacity after what was read.
theorem limit_eq (htidy : inbound.Tidy) :
    inbound.stream.pushed + inbound.stream.free =
      inbound.stream.popped + inbound.stream.capacity := by
  obtain ⟨history, hintact⟩ := htidy
  exact hintact.limit_eq

theorem holds_place (htidy : inbound.Tidy) (chunk : Chunk) (initial : SeqNo) (index : Nat)
    (hholds : inbound.reassembly.Holds index) :
    (inbound.place chunk initial).reassembly.Holds index := by
  obtain ⟨history, hintact⟩ := htidy
  unfold Inbound.place
  split
  · exact hholds
  · exact hintact.holds_mono_insert _ _ hholds

-- A chunk moves the end of what was received and leaves the end of the room where it was.
theorem stands_place (htidy : inbound.Tidy) (chunk : Chunk) (initial : SeqNo) :
    Stands inbound (inbound.place chunk initial) where
  initial := fun known hknown => (initial_place inbound chunk initial).trans hknown
  received_le := by
    obtain ⟨history, hintact⟩ := htidy
    exact inbound.received_le_place chunk initial hintact
  edge_le := by
    have hbefore := htidy.limit_eq
    have hafter := (htidy.place chunk initial).limit_eq
    have hgains := inbound.gains_place chunk initial
    rw [hgains.popped_eq, hgains.capacity_eq] at hafter
    have hclosed : inbound.stream.closed.toNat ≤
        (inbound.place chunk initial).stream.closed.toNat := by
      refine Bool.toNat_le_toNat (Bool.le_iff_imp.mpr fun hclosed => ?_)
      rw [inbound.place_of_closed chunk initial hclosed, hclosed]
    simp only [edge, received]
    omega
  holds := htidy.holds_place chunk initial

theorem stands_receive (htidy : inbound.Tidy) (chunk : Chunk) :
    Stands inbound (inbound.receive chunk) := by
  unfold Inbound.receive
  split
  · exact ⟨fun _ hknown => hknown, Nat.le_refl _, Nat.le_refl _, fun _ hholds => hholds⟩
  · split
    · exact htidy.stands_place chunk _
    · rename_i hnone
      split
      · have hlearned : Stands inbound { inbound with initial := some chunk.seqno } := by
          refine ⟨fun known hknown => ?_, Nat.le_refl _, Nat.le_refl _, fun _ hholds => hholds⟩
          rw [hnone] at hknown
          cases hknown
        exact hlearned.trans ((htidy.learn chunk.seqno).stands_place chunk chunk.seqno)
      · exact .refl inbound

-- A reader makes room and leaves everything else as it was.
theorem stands_reader (inbound : Inbound) (op : Pipe.Op) (hop : op.feeds = false) :
    Stands inbound (inbound.mapStream fun pipe => (pipe.apply op).2) where
  initial := fun _ hknown => hknown
  received_le := by
    simp only [received, stream_mapStream, Pipe.pushed_apply _ op hop,
      Pipe.closed_apply_of_not_feeds _ op hop, Nat.le_refl]
  edge_le := by
    simp only [edge, received, stream_mapStream, Pipe.pushed_apply _ op hop,
      Pipe.closed_apply_of_not_feeds _ op hop]
    refine Nat.add_le_add_left ?_ _
    rcases inbound.stream.apply_of_not_feeds op hop with ⟨count, happly, -⟩ | ⟨happly, -⟩
    · rw [happly]
      simp only [Pipe.free, Pipe.buffered, Pipe.pop, List.length_drop]
      omega
    · rw [happly]
      exact Nat.le_refl _
  holds := by
    intro index hholds
    simp only [Reassembly.Holds, Reassembly.expected, mapStream,
      Pipe.pushed_apply _ op hop] at hholds ⊢
    exact hholds

theorem after (htidy : inbound.Tidy) (event : Event) : (inbound.after event).Tidy := by
  cases event with
  | receive chunk => exact htidy.receive chunk
  | reader op hop => exact htidy.imp fun _ hintact => hintact.apply op hop

theorem stands_after (htidy : inbound.Tidy) (event : Event) :
    Stands inbound (inbound.after event) := by
  cases event with
  | receive chunk => exact htidy.stands_receive chunk
  | reader op hop => exact stands_reader inbound op hop

theorem afterAll (htidy : inbound.Tidy) (events : List Event) : (inbound.afterAll events).Tidy := by
  induction events generalizing inbound with
  | nil => exact htidy
  | cons event rest ih => exact ih (htidy.after event)

theorem stands_afterAll (htidy : inbound.Tidy) (events : List Event) :
    Stands inbound (inbound.afterAll events) := by
  induction events generalizing inbound with
  | nil => exact .refl inbound
  | cons event rest ih => exact (htidy.stands_after event).trans (ih (htidy.after event))

-- An open receiver that knows the start of the stream takes all that lies in its window.
theorem holds_receive (htidy : inbound.Tidy) (chunk : Chunk) {initial : SeqNo}
    (hrst : chunk.rst = false) (hknown : inbound.initial = some initial)
    (hopen : inbound.stream.closed = false) {start index : Nat}
    (hplace : streamIndex? chunk initial inbound.stream.pushed = some start)
    (hstart : start ≤ index) (hstop : index < start + chunk.payload.length)
    (hwindow : index < inbound.stream.pushed + inbound.feedback.window.toNat) :
    (inbound.receive chunk).reassembly.Holds index := by
  obtain ⟨history, hintact⟩ := htidy
  have hroom : index < inbound.reassembly.limit := by
    rw [toNat_window] at hwindow
    change index < inbound.stream.pushed + inbound.stream.free
    omega
  rw [Inbound.receive, if_neg (by rw [hrst]; exact Bool.false_ne_true), hknown]
  simp only [Inbound.place, hplace]
  exact hintact.holds_insert_of_open _ _ hopen hstart hstop hroom

end Tidy

-- A window is a promise. Whatever comes in and whatever is read, a receiver does not forget
-- where the stream starts, takes back no acknowledgment and no room that it has offered, and
-- keeps each byte in the window that a chunk brings while the stream is open.
theorem keeps_promise (capacity : Nat) (events more : List Event) :
    let inbound := (ofCapacity capacity).afterAll events
    let later := inbound.afterAll more
    (∀ initial, inbound.initial = some initial → later.initial = some initial) ∧
      inbound.received ≤ later.received ∧
      inbound.received + inbound.feedback.window.toNat ≤
        later.received + later.feedback.window.toNat ∧
      ∀ chunk initial start index, chunk.rst = false → inbound.initial = some initial →
        inbound.stream.closed = false →
        streamIndex? chunk initial inbound.stream.pushed = some start →
        start ≤ index → index < start + chunk.payload.length → inbound.stream.pushed ≤ index →
        index < inbound.stream.pushed + inbound.feedback.window.toNat →
        ((inbound.receive chunk).afterAll more).reassembly.Holds index := by
  intro inbound later
  have htidy : inbound.Tidy := (tidy_ofCapacity capacity).afterAll events
  have hstands : Stands inbound later := htidy.stands_afterAll more
  refine ⟨hstands.initial, hstands.received_le, hstands.window_edge_le, ?_⟩
  intro chunk initial start index hrst hknown hopen hplace hstart hstop _ hwindow
  have hheld := htidy.holds_receive chunk hrst hknown hopen hplace hstart hstop hwindow
  exact ((htidy.receive chunk).stands_afterAll more).holds index hheld

-- Out of order: the byte at index 2 comes before those at 0 and 1, fits the window of 3,
-- and is kept while a reader looks for something to read.
theorem keeps_promise_ahead :
    let inbound := (ofCapacity 3).afterAll [.receive ⟨⟨7⟩, true, [], false, false⟩]
    ((inbound.receive ⟨⟨10⟩, false, [5], false, false⟩).afterAll
      [.reader (.read 2) rfl]).reassembly.Holds 2 :=
  (keeps_promise 3 [.receive ⟨⟨7⟩, true, [], false, false⟩] [.reader (.read 2) rfl]).2.2.2
    ⟨⟨10⟩, false, [5], false, false⟩ ⟨7⟩ 2 2 rfl (by decide) (by decide) (by decide) (by decide)
    (by decide) (by decide) (by decide)

end Inbound

end UserTcp
