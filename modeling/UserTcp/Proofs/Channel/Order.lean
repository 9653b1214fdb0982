import UserTcp.Proofs.Channel.Steps
import UserTcp.Proofs.Channel.Delivery
import UserTcp.Proofs.Inbound.Has
import UserTcp.Proofs.Outbound.Progress

namespace UserTcp

-- Flights as they went out one after another: from `start` to `stop` each begins where the
-- one before it ends. Empty ones stand between the others.
def Follows (initial : SeqNo) : Nat → List Flight → Nat → Prop
  | start, [], stop => start = stop
  | start, flight :: rest, stop =>
      flight.start = start ∧ flight.chunk.seqno = SeqNo.ofIndex start initial ∧
        Follows initial flight.stop rest stop

theorem Flight.stop_eq (flight : Flight) : flight.stop = flight.start + flight.chunk.span := rfl

theorem follows_append {initial : SeqNo} (first second : List Flight) {start middle stop : Nat}
    (hfirst : Follows initial start first middle) (hsecond : Follows initial middle second stop) :
    Follows initial start (first ++ second) stop := by
  induction first generalizing start with
  | nil =>
      obtain rfl : start = middle := hfirst
      exact hsecond
  | cons flight rest ih =>
      obtain ⟨hstart, hseqno, hrest⟩ := hfirst
      exact ⟨hstart, hseqno, ih hrest⟩

theorem follows_locate {initial : SeqNo} (start : Nat) (chunks : List Chunk)
    (hseqno : ∀ flight ∈ Outbound.locate start chunks,
      flight.chunk.seqno = SeqNo.ofIndex flight.start initial) :
    Follows initial start (Outbound.locate start chunks) (start + Outbound.spans chunks) := by
  induction chunks generalizing start with
  | nil => rfl
  | cons chunk rest ih =>
      obtain ⟨hfirst, hrest⟩ := List.forall_mem_cons.mp hseqno
      refine ⟨rfl, hfirst, ?_⟩
      rw [Outbound.spans_cons, ← Nat.add_assoc]
      exact ih _ hrest

theorem Follows.le {initial : SeqNo} {flights : List Flight} {start stop : Nat}
    (hfollows : Follows initial start flights stop) : start ≤ stop := by
  induction flights generalizing start with
  | nil => exact Nat.le_of_eq hfollows
  | cons flight rest ih =>
      obtain ⟨hstart, -, hrest⟩ := hfollows
      have hle := ih hrest
      rw [flight.stop_eq] at hle
      omega

theorem Follows.mem {initial : SeqNo} {flights : List Flight} {start stop : Nat}
    (hfollows : Follows initial start flights stop) (flight : Flight) (hmem : flight ∈ flights) :
    start ≤ flight.start ∧ flight.stop ≤ stop := by
  induction flights generalizing start with
  | nil => exact absurd hmem List.not_mem_nil
  | cons first rest ih =>
      obtain ⟨hstart, -, hrest⟩ := hfollows
      rcases List.mem_cons.mp hmem with rfl | hmem
      · exact ⟨Nat.le_of_eq hstart.symm, hrest.le⟩
      · obtain ⟨hlower, hupper⟩ := ih hrest hmem
        rw [first.stop_eq] at hlower
        exact ⟨by omega, hupper⟩

namespace Channel

-- The receiver has nothing that was not sent.
theorem Sound.has_lt_next {channel : Channel} (hsound : channel.Sound)
    (horderly : channel.inbound.Orderly) {index : Nat} (hhas : channel.inbound.Has index) :
    index < channel.outbound.next := by
  have hnext := hsound.sends.next_eq
  have hlength := hsound.length_sent
  -- nothing is in before the SYN, which must have been sent
  have hbegun : 0 < index → channel.outbound.synSent = true := by
    intro hpos
    by_contra hunsent
    obtain ⟨hpopped, hfin⟩ := hsound.sends.unsent (eq_false_of_ne_true hunsent)
    obtain ⟨place, rfl⟩ := Nat.exists_eq_succ_of_ne_zero (Nat.ne_of_gt hpos)
    rcases hhas with hholds | hfinal
    · have hlt := hsound.takes.lt_length_of_holds hholds
      omega
    · have hknown := horderly.begun (by rw [hfinal]; exact Option.some_ne_none place)
      exact hunsent (hsound.learned hknown)
  cases index with
  | zero =>
      rw [hsound.learned hhas, Bool.toNat_true] at hnext
      omega
  | succ index =>
      rw [hbegun (Nat.succ_pos index), Bool.toNat_true] at hnext
      rcases hhas with hholds | hfinal
      · have hlt := hsound.takes.lt_length_of_holds hholds
        omega
      · rcases hsound.takes.final index hfinal with hlt | ⟨hended, hlen⟩
        · have hpushed := hsound.takes.pushed_le
          omega
        · rw [hended, Bool.toNat_true] at hnext
          omega

-- A channel that keeps the order: what is on the way is first what the network has left
-- behind from before `reach`, then what was sent from there on. The receiver has nothing
-- from behind `reach`.
structure Flows (channel : Channel) (stale fresh : List Flight) (reach : Nat) : Prop where
  flights_eq : channel.flights = stale ++ fresh
  follows : Follows channel.outbound.initial reach fresh channel.outbound.next
  stale_le : ∀ flight ∈ stale, 0 < flight.chunk.span → flight.stop ≤ reach
  has_lt : ∀ index, channel.inbound.Has index → index < reach

namespace Flows

variable {channel : Channel} {stale fresh : List Flight} {reach : Nat}

-- At any time all that is on the way can count as left behind.
theorem ofSound (hsound : channel.Sound) (horderly : channel.inbound.Orderly) :
    channel.Flows channel.flights [] channel.outbound.next where
  flights_eq := (List.append_nil _).symm
  follows := rfl
  stale_le := fun flight hmem hspan => (hsound.carried flight hmem hspan).1
  has_lt := fun _ hhas => hsound.has_lt_next horderly hhas

theorem confirmed_le (hflows : channel.Flows stale fresh reach)
    (horderly : channel.inbound.Orderly) : channel.inbound.confirmed ≤ reach := by
  by_contra hlt
  have hhas := horderly.has_of_lt_confirmed (Nat.lt_of_not_ge hlt)
  exact absurd (hflows.has_lt _ hhas) (Nat.lt_irrefl _)

theorem append (hflows : channel.Flows stale fresh reach) {after : Outbound}
    {flights : List Flight} (hinitial : after.initial = channel.outbound.initial)
    (hfollows : Follows channel.outbound.initial channel.outbound.next flights after.next) :
    { channel with outbound := after, flights := channel.flights ++ flights }.Flows stale
      (fresh ++ flights) reach where
  flights_eq := by rw [hflows.flights_eq, List.append_assoc]
  follows := by
    rw [hinitial]
    exact follows_append fresh flights hflows.follows hfollows
  stale_le := hflows.stale_le
  has_lt := hflows.has_lt

-- A receiver that gets a flight has the numbers of that flight and no others besides those
-- that it had.
theorem has_receive_cases (hsound : channel.Sound) {flight : Flight}
    (hmem : flight ∈ channel.flights)
    (hbehind : channel.inbound.stream.pushed + 1 < flight.start + SeqNo.lap / 2) {after : Inbound}
    (hafter : after = channel.inbound ∨ after = channel.inbound.receive flight.chunk) {index : Nat}
    (hhas : after.Has index) :
    channel.inbound.Has index ∨
      0 < flight.chunk.span ∧ flight.start ≤ index ∧ index < flight.stop := by
  rcases hafter with rfl | rfl
  · exact .inl hhas
  · exact hsound.takes.has_receive_cases flight.chunk flight.start
      (fun hspan => (hsound.carried flight hmem hspan).2) hsound.length_sent_lt hbehind hhas

-- The front of the wire comes to the receiver, which may look at it or not.
theorem take_stale {flight : Flight} (hflows : channel.Flows (flight :: stale) fresh reach)
    (hsound : channel.Sound)
    (hbehind : channel.inbound.stream.pushed + 1 < flight.start + SeqNo.lap / 2) {after : Inbound}
    (hafter : after = channel.inbound ∨ after = channel.inbound.receive flight.chunk) :
    { channel with inbound := after, flights := stale ++ fresh }.Flows stale fresh reach where
  flights_eq := rfl
  follows := hflows.follows
  stale_le := fun other hother => hflows.stale_le other (List.mem_cons_of_mem _ hother)
  has_lt := by
    intro index hhas
    have hmem : flight ∈ channel.flights := hflows.flights_eq ▸ List.mem_cons_self
    rcases has_receive_cases hsound hmem hbehind hafter hhas with hold | ⟨hspan, -, hlt⟩
    · exact hflows.has_lt index hold
    · exact Nat.lt_of_lt_of_le hlt (hflows.stale_le flight List.mem_cons_self hspan)

theorem take_fresh {flight : Flight} (hflows : channel.Flows [] (flight :: fresh) reach)
    (hsound : channel.Sound)
    (hbehind : channel.inbound.stream.pushed + 1 < flight.start + SeqNo.lap / 2) {after : Inbound}
    (hafter : after = channel.inbound ∨ after = channel.inbound.receive flight.chunk) :
    { channel with inbound := after, flights := fresh }.Flows [] fresh flight.stop where
  flights_eq := rfl
  follows := hflows.follows.2.2
  stale_le := fun _ hother => absurd hother List.not_mem_nil
  has_lt := by
    intro index hhas
    have hmem : flight ∈ channel.flights := hflows.flights_eq ▸ List.mem_cons_self
    rcases has_receive_cases hsound hmem hbehind hafter hhas with hold | ⟨-, -, hlt⟩
    · have hreach := hflows.has_lt index hold
      have hstart := hflows.follows.1
      rw [flight.stop_eq]
      omega
    · exact hlt

end Flows

end Channel

end UserTcp
