import UserTcp.Outbound.Lemmas
import Mathlib.Data.List.Basic

namespace UserTcp.Outbound

-- Chunks that take up the sequence numbers one after another from an index on.
def locate : Nat → List Chunk → List Flight
  | _, [] => []
  | start, chunk :: rest => ⟨start, chunk⟩ :: locate (start + chunk.span) rest

def spans : List Chunk → Nat
  | [] => 0
  | chunk :: rest => chunk.span + spans rest

-- The flights take up all sequence numbers between two indices, each number once, in order.
def Tiles : Nat → List Flight → Nat → Prop
  | start, [], stop => start = stop
  | start, flight :: rest, stop =>
      flight.start = start ∧ 0 < flight.chunk.span ∧ Tiles flight.stop rest stop

@[simp] theorem spans_nil : spans [] = 0 := rfl

@[simp] theorem spans_cons (chunk : Chunk) (rest : List Chunk) :
    spans (chunk :: rest) = chunk.span + spans rest := rfl

theorem spans_append (first second : List Chunk) :
    spans (first ++ second) = spans first + spans second := by
  induction first with
  | nil => exact (Nat.zero_add _).symm
  | cons chunk rest ih => rw [List.cons_append, spans_cons, spans_cons, ih, Nat.add_assoc]

theorem locate_append (start : Nat) (first second : List Chunk) :
    locate start (first ++ second) =
      locate start first ++ locate (start + spans first) second := by
  induction first generalizing start with
  | nil => rfl
  | cons chunk rest ih => simp only [List.cons_append, locate, ih, spans_cons, Nat.add_assoc]

theorem map_chunk_locate (start : Nat) (chunks : List Chunk) :
    (locate start chunks).map Flight.chunk = chunks := by
  induction chunks generalizing start with
  | nil => rfl
  | cons chunk rest ih => simp only [locate, List.map_cons, ih]

theorem tiles_append (first second : List Flight) (start stop : Nat) :
    Tiles start (first ++ second) stop ↔
      ∃ middle, Tiles start first middle ∧ Tiles middle second stop := by
  induction first generalizing start with
  | nil => simp [Tiles]
  | cons flight rest ih =>
      simp only [List.cons_append, Tiles, ih]
      constructor
      · rintro ⟨hstart, hspan, middle, hfirst, hsecond⟩
        exact ⟨middle, ⟨hstart, hspan, hfirst⟩, hsecond⟩
      · rintro ⟨middle, ⟨hstart, hspan, hfirst⟩, hsecond⟩
        exact ⟨hstart, hspan, middle, hfirst, hsecond⟩

theorem tiles_singleton (start : Nat) (chunk : Chunk) (hspan : 0 < chunk.span) :
    Tiles start [⟨start, chunk⟩] (start + chunk.span) :=
  ⟨rfl, hspan, rfl⟩

theorem tiles_locate (start : Nat) (chunks : List Chunk)
    (hspan : ∀ chunk ∈ chunks, 0 < chunk.span) :
    Tiles start (locate start chunks) (start + spans chunks) := by
  induction chunks generalizing start with
  | nil => rfl
  | cons chunk rest ih =>
      obtain ⟨hchunk, hrest⟩ := List.forall_mem_cons.mp hspan
      refine ⟨rfl, hchunk, ?_⟩
      rw [spans_cons, ← Nat.add_assoc]
      exact ih _ hrest

namespace Tiles

variable {flights : List Flight} {start stop : Nat}

theorem le (htiles : Tiles start flights stop) : start ≤ stop := by
  induction flights generalizing start with
  | nil => exact Nat.le_of_eq htiles
  | cons flight rest ih =>
      obtain ⟨hstart, -, hrest⟩ := htiles
      have hle := ih hrest
      simp only [Flight.stop] at hle
      omega

theorem mem (htiles : Tiles start flights stop) (flight : Flight) (hmem : flight ∈ flights) :
    start ≤ flight.start ∧ 0 < flight.chunk.span ∧ flight.stop ≤ stop := by
  induction flights generalizing start with
  | nil => exact absurd hmem List.not_mem_nil
  | cons first rest ih =>
      obtain ⟨hstart, hspan, hrest⟩ := htiles
      rcases List.mem_cons.mp hmem with rfl | hmem
      · exact ⟨Nat.le_of_eq hstart.symm, hspan, hrest.le⟩
      · obtain ⟨hlower, hpos, hupper⟩ := ih hrest hmem
        simp only [Flight.stop] at hlower
        exact ⟨by omega, hpos, hupper⟩

end Tiles

theorem initial_fill (outbound : Outbound) (window : Nat) :
    (outbound.fill window).1.initial = outbound.initial :=
  fill_keeps (fun after => after.initial = outbound.initial) window
    (fun _ hbefore _ _ _ => hbefore) outbound rfl

theorem flights_fill (outbound : Outbound) (window : Nat) :
    (outbound.fill window).1.flights =
      outbound.flights ++ locate outbound.next (outbound.fill window).2 := by
  fun_induction Outbound.fill outbound window with
  | case1 outbound hroom fresh hspan rest ih =>
      have hrest : rest.1.flights = _ := ih
      simp only [hrest, launch, locate, List.append_assoc, List.singleton_append]
      rfl
  | case2 => exact (List.append_nil _).symm
  | case3 => exact (List.append_nil _).symm

-- What is forgotten are flights from the front, as far as the acknowledgment covers them.
-- The others begin where the last of those ends.
theorem tiles_forget (ack : Nat) (flights : List Flight) (inFlight start stop : Nat)
    (htiles : Tiles start flights stop) (hcount : start + inFlight = stop) :
    ∃ gone base, flights = gone ++ (forget ack flights inFlight).1 ∧
      Tiles base (forget ack flights inFlight).1 stop ∧
      base + (forget ack flights inFlight).2 = stop ∧ start ≤ base ∧
      (gone = [] ∧ base = start ∨ base ≤ ack) := by
  fun_induction forget ack flights inFlight generalizing start with
  | case1 inFlight => exact ⟨[], start, rfl, htiles, hcount, Nat.le_refl start, .inl ⟨rfl, rfl⟩⟩
  | case2 flight rest inFlight hcovered ih =>
      obtain ⟨hstart, hspan, hrest⟩ := htiles
      have hle := hrest.le
      have hstop : flight.stop = start + flight.chunk.span := congrArg (· + _) hstart
      obtain ⟨gone, base, hgone, hleft, hbase, hlower, hcases⟩ :=
        ih flight.stop hrest (by omega)
      refine ⟨flight :: gone, base, congrArg (flight :: ·) hgone, hleft, hbase, by omega, .inr ?_⟩
      rcases hcases with ⟨-, rfl⟩ | hack
      · exact hcovered
      · exact hack
  | case3 flight rest inFlight hcovered =>
      exact ⟨[], start, rfl, htiles, hcount, Nat.le_refl start, .inl ⟨rfl, rfl⟩⟩

end UserTcp.Outbound
