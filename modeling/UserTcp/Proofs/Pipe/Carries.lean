import UserTcp.Pipe.Lemmas

namespace UserTcp.Pipe

namespace Op

-- The bytes that an operation brings into a pipe.
def added (pipe : Pipe) : Op → List UInt8
  | .push bytes => pipe.accepted bytes
  | _ => []

-- The bytes that an operation takes out of a pipe.
def removed (pipe : Pipe) : Op → List UInt8
  | .pop count => pipe.buffer.take count
  | .read count => (pipe.read count).1
  | _ => []

-- The operations of the end where bytes go in.
def feeds : Op → Bool
  | .push _ => true
  | .close => true
  | _ => false

-- The operations of the end where bytes come out.
def takes : Op → Bool
  | .pop _ => true
  | .read _ => true
  | _ => false

def breaks : Op → Bool
  | .fail => true
  | _ => false

theorem takes_push (bytes : List UInt8) : (push bytes).takes = false := rfl

theorem takes_close : close.takes = false := rfl

end Op

-- The pipe has accepted the bytes of `stream` and no others. What has come out of it is
-- the front of the stream, and the buffer is the rest.
structure Carries (pipe : Pipe) (stream : List UInt8) : Prop where
  buffer_eq : pipe.buffer = stream.drop pipe.popped
  pushed_eq : pipe.pushed = stream.length
  popped_le : pipe.popped ≤ stream.length
  buffered_le : pipe.buffer.length ≤ pipe.capacity

theorem carries_empty (capacity : Nat) : (empty capacity).Carries [] where
  buffer_eq := rfl
  pushed_eq := rfl
  popped_le := Nat.le_refl 0
  buffered_le := Nat.zero_le capacity

@[simp] theorem popped_push (pipe : Pipe) (bytes : List UInt8) :
    (pipe.push bytes).popped = pipe.popped := rfl

@[simp] theorem pushed_pop (pipe : Pipe) (count : Nat) : (pipe.pop count).pushed = pipe.pushed := rfl

@[simp] theorem closed_pop (pipe : Pipe) (count : Nat) : (pipe.pop count).closed = pipe.closed := rfl

theorem accepted_of_fits (pipe : Pipe) (bytes : List UInt8) (hopen : pipe.closed = false)
    (hfits : bytes.length ≤ pipe.free) : pipe.accepted bytes = bytes := by
  simp only [accepted, hopen, Bool.false_eq_true, ↓reduceIte]
  exact List.take_of_length_le hfits

theorem length_accepted_le (pipe : Pipe) (bytes : List UInt8) :
    (pipe.accepted bytes).length ≤ pipe.free := by
  unfold accepted
  split
  · exact Nat.zero_le _
  · exact List.length_take_le pipe.free bytes

-- What goes into a pipe takes nothing out of it, and leaves it as large and as whole as it was.
structure Gains (before after : Pipe) : Prop where
  capacity_eq : after.capacity = before.capacity
  popped_eq : after.popped = before.popped
  failed_eq : after.failed = before.failed

namespace Gains

variable {first second third : Pipe}

theorem refl (pipe : Pipe) : Gains pipe pipe := ⟨rfl, rfl, rfl⟩

theorem trans (hfirst : Gains first second) (hsecond : Gains second third) :
    Gains first third where
  capacity_eq := hsecond.capacity_eq.trans hfirst.capacity_eq
  popped_eq := hsecond.popped_eq.trans hfirst.popped_eq
  failed_eq := hsecond.failed_eq.trans hfirst.failed_eq

theorem symm (hgains : Gains first second) : Gains second first where
  capacity_eq := hgains.capacity_eq.symm
  popped_eq := hgains.popped_eq.symm
  failed_eq := hgains.failed_eq.symm

theorem eq_of_buffer (hgains : Gains first second) (hbuffer : first.buffer = second.buffer)
    (hpushed : first.pushed = second.pushed) (hclosed : first.closed = second.closed) :
    first = second := by
  obtain ⟨hcapacity, hpopped, hfailed⟩ := hgains
  cases first
  cases second
  simp only [Pipe.mk.injEq]
  exact ⟨hcapacity.symm, hbuffer, hpushed, hpopped.symm, hclosed, hfailed.symm⟩

end Gains

theorem gains_push (pipe : Pipe) (bytes : List UInt8) : Gains pipe (pipe.push bytes) :=
  ⟨rfl, rfl, rfl⟩

theorem gains_close (pipe : Pipe) : Gains pipe pipe.close := ⟨rfl, rfl, rfl⟩

namespace Carries

variable {pipe : Pipe} {stream : List UInt8}

theorem buffered_eq (hcarries : pipe.Carries stream) :
    pipe.buffered = pipe.pushed - pipe.popped := by
  rw [buffered, hcarries.buffer_eq, hcarries.pushed_eq, List.length_drop]

theorem take_append_buffer (hcarries : pipe.Carries stream) :
    stream.take pipe.popped ++ pipe.buffer = stream := by
  rw [hcarries.buffer_eq, List.take_append_drop]

protected theorem push (hcarries : pipe.Carries stream) (bytes : List UInt8) :
    (pipe.push bytes).Carries (stream ++ pipe.accepted bytes) where
  buffer_eq := by
    simp only [Pipe.push, hcarries.buffer_eq]
    exact (List.drop_append_of_le_length hcarries.popped_le).symm
  pushed_eq := by simp only [Pipe.push, hcarries.pushed_eq, List.length_append]
  popped_le := by
    have hle := hcarries.popped_le
    simp only [popped_push, List.length_append]
    omega
  buffered_le := by
    have haccepted := length_accepted_le pipe bytes
    have hbuffered := hcarries.buffered_le
    simp only [Pipe.push, free, buffered, List.length_append] at *
    omega

protected theorem close (hcarries : pipe.Carries stream) : pipe.close.Carries stream :=
  ⟨hcarries.buffer_eq, hcarries.pushed_eq, hcarries.popped_le, hcarries.buffered_le⟩

protected theorem fail (hcarries : pipe.Carries stream) : pipe.fail.Carries stream :=
  ⟨hcarries.buffer_eq, hcarries.pushed_eq, hcarries.popped_le, hcarries.buffered_le⟩

protected theorem pop (hcarries : pipe.Carries stream) (count : Nat) :
    (pipe.pop count).Carries stream where
  buffer_eq := by
    simp only [Pipe.pop, hcarries.buffer_eq, buffered, List.drop_drop, List.length_drop]
    -- more than everything and everything leave the same nothing
    cases Nat.le_total count (stream.length - pipe.popped) with
    | inl hle => rw [Nat.min_eq_left hle]
    | inr hge =>
        rw [Nat.min_eq_right hge, List.drop_of_length_le (by omega),
          List.drop_of_length_le (by omega)]
  pushed_eq := hcarries.pushed_eq
  popped_le := by
    have hle := hcarries.popped_le
    simp only [Pipe.pop, hcarries.buffer_eq, buffered, List.length_drop]
    omega
  buffered_le := by
    have hle := hcarries.buffered_le
    simp only [Pipe.pop, List.length_drop]
    omega

protected theorem read (hcarries : pipe.Carries stream) (count : Nat) :
    (pipe.read count).2.Carries stream := by
  rw [read_eq]
  exact hcarries.pop count

protected theorem apply (hcarries : pipe.Carries stream) (op : Op) :
    (pipe.apply op).2.Carries (stream ++ op.added pipe) := by
  cases op with
  | push bytes => exact hcarries.push bytes
  | close => simpa only [Pipe.apply, Op.added, List.append_nil] using hcarries.close
  | fail => simpa only [Pipe.apply, Op.added, List.append_nil] using hcarries.fail
  | pop count => simpa only [Pipe.apply, Op.added, List.append_nil] using hcarries.pop count
  | read count => simpa only [Pipe.apply, Op.added, List.append_nil] using hcarries.read count
  | peek => simpa only [Pipe.apply, Op.added, List.append_nil] using hcarries

theorem take_popped_pop (hcarries : pipe.Carries stream) (count : Nat) :
    stream.take (pipe.pop count).popped = stream.take pipe.popped ++ pipe.buffer.take count := by
  simp only [Pipe.pop, List.take_add, hcarries.buffer_eq, buffered]
  congr 1
  exact List.take_eq_take_min.symm

end Carries

theorem popped_apply (pipe : Pipe) (op : Op) (hop : op.takes = false) :
    (pipe.apply op).2.popped = pipe.popped := by
  cases op with
  | push bytes => rfl
  | close => rfl
  | fail => rfl
  | pop count => cases hop
  | read count => cases hop
  | peek => rfl

theorem closed_apply (pipe : Pipe) (op : Op) (hclosed : pipe.closed = true) :
    (pipe.apply op).2.closed = true := by
  cases op with
  | push bytes => exact hclosed
  | close => rfl
  | fail => exact hclosed
  | pop count => exact hclosed
  | read count => rw [apply, read_eq]; exact hclosed
  | peek => exact hclosed

theorem capacity_apply (pipe : Pipe) (op : Op) : (pipe.apply op).2.capacity = pipe.capacity := by
  cases op with
  | push bytes => rfl
  | close => rfl
  | fail => rfl
  | pop count => rfl
  | read count => rw [apply, read_eq]; rfl
  | peek => rfl

theorem failed_of_failed_apply (pipe : Pipe) (op : Op)
    (hwhole : (pipe.apply op).2.failed = false) : pipe.failed = false := by
  cases op with
  | push bytes => exact hwhole
  | close => exact hwhole
  | fail => cases hwhole
  | pop count => exact hwhole
  | read count =>
      rw [apply, read_eq] at hwhole
      exact hwhole
  | peek => exact hwhole

theorem failed_apply (pipe : Pipe) (op : Op) (hop : op.breaks = false) :
    (pipe.apply op).2.failed = pipe.failed := by
  cases op with
  | push bytes => rfl
  | close => rfl
  | fail => cases hop
  | pop count => rfl
  | read count => rw [apply, read_eq]; rfl
  | peek => rfl

theorem added_of_closed (pipe : Pipe) (op : Op) (hclosed : pipe.closed = true) :
    op.added pipe = [] := by
  cases op with
  | push bytes => simp only [Op.added, accepted, hclosed, ↓reduceIte]
  | close => rfl
  | fail => rfl
  | pop count => rfl
  | read count => rfl
  | peek => rfl

-- All that the other end can do is to discard bytes and to mark the stream as broken.
theorem apply_of_not_feeds (pipe : Pipe) (op : Op) (hop : op.feeds = false) :
    (∃ count, (pipe.apply op).2 = pipe.pop count ∧ op.removed pipe = pipe.buffer.take count) ∨
      (pipe.apply op).2 = pipe.fail ∧ op.removed pipe = [] := by
  cases op with
  | push bytes => cases hop
  | close => cases hop
  | fail => exact .inr ⟨rfl, rfl⟩
  | pop count => exact .inl ⟨count, rfl, rfl⟩
  | read count => exact .inl ⟨count, by rw [apply, read_eq], by rw [Op.removed, read_eq]⟩
  | peek => exact .inl ⟨0, (pop_zero pipe).symm, (List.take_zero).symm⟩

theorem pushed_apply (pipe : Pipe) (op : Op) (hop : op.feeds = false) :
    (pipe.apply op).2.pushed = pipe.pushed := by
  rcases pipe.apply_of_not_feeds op hop with ⟨count, happly, -⟩ | ⟨happly, -⟩
  · rw [happly, pushed_pop]
  · rw [happly]
    rfl

theorem closed_apply_of_not_feeds (pipe : Pipe) (op : Op) (hop : op.feeds = false) :
    (pipe.apply op).2.closed = pipe.closed := by
  rcases pipe.apply_of_not_feeds op hop with ⟨count, happly, -⟩ | ⟨happly, -⟩
  · rw [happly, closed_pop]
  · rw [happly]
    rfl

theorem take_popped_apply {pipe : Pipe} {stream : List UInt8} (hcarries : pipe.Carries stream)
    (op : Op) (hop : op.feeds = false) :
    stream.take (pipe.apply op).2.popped = stream.take pipe.popped ++ op.removed pipe := by
  rcases pipe.apply_of_not_feeds op hop with ⟨count, happly, hremoved⟩ | ⟨happly, hremoved⟩
  · rw [happly, hremoved, hcarries.take_popped_pop]
  · rw [happly, hremoved, List.append_nil]
    rfl

end UserTcp.Pipe
