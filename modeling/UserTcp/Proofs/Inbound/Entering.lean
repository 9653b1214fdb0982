import UserTcp.Inbound
import UserTcp.Proofs.Pipe.Passes
import UserTcp.Proofs.Reassembly.Insert

namespace UserTcp

namespace Reassembly

-- The bytes of the runs that are released: each run that continues the output goes into it, as far
-- as the output accepts it.
def releasing : List Run → Pipe → List UInt8
  | [], _ => []
  | run :: rest, output =>
      if run.start = output.pushed then
        output.accepted run.bytes ++ releasing rest (output.push run.bytes)
      else []

theorem passes_releaseRuns (runs : List Run) (count : Nat) (output : Pipe) :
    output.Passes (releaseRuns runs count output).2 (releasing runs output) [] := by
  fun_induction releaseRuns runs count output with
  | case1 count output => exact .refl output
  | case2 run rest count output hstart ih =>
      rw [releasing, if_pos hstart]
      exact (output.passes_push run.bytes).trans ih
  | case3 run rest count output hgap =>
      rw [releasing, if_neg hgap]
      exact .refl output

-- The bytes that go into the output once a piece is stored. It may fill a gap in front of others.
def accepting (reassembly : Reassembly) (piece : Run) : List UInt8 :=
  let clipped := reassembly.clip piece
  if clipped.bytes = [] then []
  else releasing (reassembly.held.store clipped).runs reassembly.output

theorem passes_accept (reassembly : Reassembly) (piece : Run) :
    reassembly.output.Passes (reassembly.accept piece).output (reassembly.accepting piece) [] := by
  simp only [accept, accepting]
  split
  · exact .refl reassembly.output
  · exact passes_releaseRuns _ _ _

@[simp] theorem accepting_noteFinal (reassembly : Reassembly) (piece other : Run) (last : Bool) :
    (reassembly.noteFinal piece last).accepting other = reassembly.accepting other := by
  unfold noteFinal
  split <;> rfl

theorem passes_closeAtFinal (reassembly : Reassembly) :
    reassembly.output.Passes reassembly.closeAtFinal.output [] [] := by
  unfold closeAtFinal
  split
  · exact reassembly.output.passes_close
  · exact .refl reassembly.output

-- The bytes that a piece brings into the output.
def entering (reassembly : Reassembly) (piece : Run) : List UInt8 :=
  if reassembly.admits piece then reassembly.accepting piece else []

theorem passes_insert (reassembly : Reassembly) (piece : Run) (last : Bool) :
    reassembly.output.Passes (reassembly.insert piece last).output
      (reassembly.entering piece) [] := by
  cases hadmits : reassembly.admits piece with
  | false =>
      rw [insert_of_not_admits reassembly piece last hadmits, entering, hadmits]
      exact .refl reassembly.output
  | true =>
      have haccept := (reassembly.noteFinal piece last).passes_accept piece
      rw [output_noteFinal, accepting_noteFinal] at haccept
      have hboth := haccept.trans (passes_closeAtFinal _)
      rw [List.append_nil] at hboth
      rw [insert_of_admits reassembly piece last hadmits, entering, if_pos hadmits]
      exact hboth

end Reassembly

namespace Inbound

-- The bytes that a chunk brings into the stream once its place in it is known.
def placing (inbound : Inbound) (chunk : Chunk) (initial : SeqNo) : List UInt8 :=
  match streamIndex? chunk initial inbound.stream.pushed with
  | none => []
  | some index => inbound.reassembly.entering ⟨index, chunk.payload⟩

theorem passes_place (inbound : Inbound) (chunk : Chunk) (initial : SeqNo) :
    inbound.stream.Passes (inbound.place chunk initial).stream
      (inbound.placing chunk initial) [] := by
  simp only [place, placing]
  cases streamIndex? chunk initial inbound.stream.pushed with
  | none => exact .refl inbound.stream
  | some index => exact inbound.reassembly.passes_insert ⟨index, chunk.payload⟩ chunk.fin

def entering (inbound : Inbound) (chunk : Chunk) : List UInt8 :=
  if chunk.rst then []
  else
    match inbound.initial with
    | some initial => inbound.placing chunk initial
    | none => if chunk.syn then inbound.placing chunk chunk.seqno else []

theorem passes_receive (inbound : Inbound) (chunk : Chunk) :
    inbound.stream.Passes (inbound.receive chunk).stream (inbound.entering chunk) [] := by
  rw [receive, entering]
  split
  · exact inbound.stream.passes_fail
  · cases inbound.initial with
    | some initial => exact inbound.passes_place chunk initial
    | none =>
        simp only
        split
        · exact { inbound with initial := some chunk.seqno }.passes_place chunk chunk.seqno
        · exact .refl inbound.stream

end Inbound

end UserTcp
